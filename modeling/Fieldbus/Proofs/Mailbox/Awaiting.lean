import Fieldbus.Proofs.Mailbox.Conservation
import Fieldbus.Proofs.Mailbox.Counters
import Fieldbus.Proofs.Mailbox.Inbox
import Fieldbus.Proofs.Mailbox.Outcomes
import Fieldbus.Proofs.Mailbox.SingleFlight
import Fieldbus.Proofs.Mailbox.Tracking

/-!
# The awaited reply

While a request awaits its reply every turn looks at the read slot. Whatever else is read, whatever
fails and whatever callers submit or read meanwhile, the request stays in flight. The first reply
that is read completes it and frees the channel.
-/

namespace Fieldbus

/-- The message that the slave gave, if it has this counter and a protocol that the slave
announced. -/
def Call.replyTo? (counter : UInt8) (c : Call) : Option Message :=
  c.gave?.filter fun message => message.header.counter = counter ∧
    c.mailbox.slave.supported.supports message.header.protocol = true

/-- The message that was read completes the request, and the buffer that it was read into is
back. -/
structure Call.Completes (read : Call) (message : Message) (flight : InFlight) (m : Mailbox) :
    Prop where
  back : ∃ (pool : Pool) (b c : Buffer), pool.take? = .ok (b, read.mailbox.receivePool) ∧
    c.index = b.index ∧ m.receivePool.idle = read.mailbox.receivePool.idle ++ [c.retire]
  outcome : m.outcome? flight.request.ticket = some (.ok (.response flight.workCounter message))
  free : m.inFlight = none

theorem Call.replyTo?_of_none {c : Call} {counter : UInt8} (idle : c.gave? = none) :
    c.replyTo? counter = none := by
  rw [Call.replyTo?, idle]
  rfl

namespace Mailbox

/-- The reply to the request in flight is awaited, and no message with its counter was accepted
since that was stamped. -/
structure AwaitsReply (m : Mailbox) (flight : InFlight) (counter : UInt8) : Prop where
  handshake : m.handshake = .awaitResponse
  flying : m.inFlight = some flight
  counter : m.counter.last = counter
  fresh : m.consumed = false
  undecided : m.outcome? flight.request.ticket = none

variable {m m' : Mailbox} {held : List Buffer} {flight : InFlight} {counter : UInt8} {now n : Nat}
  {calls : List Call} {took : Bool} {c : Buffer} {call : Call} {message : Message}

theorem Sound.awaitsReply (sound : m.Sound held) (flying : m.inFlight = some flight)
    (last : m.counter.last = counter) : m.AwaitsReply flight counter where
  handshake := sound.rest.awaiting.mpr (by rw [flying]; rfl)
  flying := flying
  counter := last
  fresh := (sound.rest.flight flight flying).2.2.2
  undecided := (sound.accounts.carried _ _ (.inr ⟨flight, flying, rfl, rfl⟩)).2.1

theorem AwaitsReply.fate_iff (awaits : m.AwaitsReply flight counter)
    (sequenced : counter ≠ SequenceCounter.unsequenced) :
    m.fate message = .answered flight.request.ticket ↔ message.header.counter = counter ∧
      m.slave.supported.supports message.header.protocol = true := by
  constructor
  · intro answered
    obtain ⟨-, -, -, -, wanted, -⟩ := fate_answered answered
    exact ⟨(last_of_wanted wanted).trans awaits.counter,
      supported_of_fate (by rw [answered]; simp)⟩
  · rintro ⟨bears, supported⟩
    have wanted : m.Wanted message := by
      refine ⟨awaits.fresh, ?_⟩
      simp [SequenceCounter.matchesLast, awaits.counter, bears, sequenced]
    rw [fate, if_pos supported, if_neg (bears ▸ sequenced), if_pos wanted, awaited,
      if_pos awaits.handshake, awaits.flying]

/-! ## What is read -/

theorem route_awaits (stocked : m.Stocked (c :: held)) (known : m.Undecided)
    (awaits : m.AwaitsReply flight counter) (sequenced : counter ≠ SequenceCounter.unsequenced)
    (gave : call.gave? = (Message.decode? c.contents).toOption)
    (same : call.mailbox.slave = m.slave) :
    (call.replyTo? counter = none → (m.route c).inFlight = some flight) ∧
      ∀ message, call.replyTo? counter = some message → m.Answers c message flight (m.route c) := by
  rcases decoded : Message.decode? c.contents with cause | message
  · rw [decoded] at gave
    obtain ⟨statistics, eq⟩ := (route_discards stocked decoded).rest
    refine ⟨fun _ => ?_, fun message reply => ?_⟩
    · rw [eq]
      exact awaits.flying
    · rw [Call.replyTo?_of_none gave] at reply
      cases reply
  · rw [decoded] at gave
    have treats := route_treats stocked known decoded
    have reply : call.replyTo? counter =
        if m.fate message = .answered flight.request.ticket then some message else none := by
      rw [Call.replyTo?, gave, same]
      simp [Except.toOption, Option.filter, awaits.fate_iff sequenced]
    -- Of all that can become of a message only an answer ends the wait.
    rw [reply]
    generalize m.fate message = fate at treats
    cases treats with
    | dropped fate refused discards =>
        have other : fate ≠ .answered flight.request.ticket := by
          rintro rfl
          cases refused
        obtain ⟨statistics, eq⟩ := discards.rest
        rw [if_neg other, eq]
        exact ⟨fun _ => awaits.flying, nofun⟩
    | queued wanted queues =>
        obtain ⟨receiveQueues, statistics, eq⟩ := queues.rest
        rw [eq]
        exact ⟨fun _ => awaits.flying, nofun⟩
    | answered other sequenced wanted answers =>
        have this : other = flight := Option.some.inj (answers.flying.symm.trans awaits.flying)
        subst this
        rw [if_pos rfl]
        refine ⟨nofun, fun got eq => ?_⟩
        cases eq
        exact answers

theorem route_calm (calm : m.inFlight = none) (c : Buffer) : (m.route c).inFlight = none := by
  rcases decoded : Message.decode? c.contents with cause | message
  · rw [route_garbled decoded]
    exact calm
  · cases fate : m.fate message with
    | unsupported =>
        rw [route_unsupported decoded fate]
        exact calm
    | stale =>
        rw [route_stale decoded fate]
        exact calm
    | queued =>
        rw [route_queued decoded fate, pushReceived]
        split <;> exact calm
    | answered ticket =>
        obtain ⟨flight, -, flying, -⟩ := fate_answered fate
        rw [calm] at flying
        cases flying

theorem Glance.calm (glance : Glance m calls took m') (calm : m.inFlight = none) :
    m'.inFlight = none := by
  cases glance with
  | failed => exact calm
  | empty => exact calm
  | exhausted => exact calm
  | spared => exact calm
  | taken => exact route_calm (m := { m with receivePool := _, slotState := .empty }) calm _

theorem Glances.calm (glances : Glances n m calls m') (calm : m.inFlight = none) :
    m'.inFlight = none := by
  induction glances with
  | stop => exact calm
  | last glance => exact glance.calm calm
  | more glance _ ih => exact ih (glance.calm calm)

section Look

variable (sound : m.Sound held) (orderly : Orderly ⟨m, []⟩) (awaits : m.AwaitsReply flight counter)
  (sequenced : counter ≠ SequenceCounter.unsequenced)

include sound orderly awaits sequenced

theorem Glance.finds (glance : Glance m calls took m') :
    (calls.findSome? (Call.replyTo? counter) = none ∧ m'.AwaitsReply flight counter) ∨
      took = true ∧ ∃ look read message, calls = [look, read] ∧ look.replyTo? counter = none ∧
        read.replyTo? counter = some message ∧ read.Completes message flight m' := by
  have waits (flying : m'.inFlight = some flight) : m'.AwaitsReply flight counter := by
    refine ((glance.deeds 0).moves.sound sound).awaitsReply flying ?_
    rw [(glance.deeds 0).unstamped glance.reads]
    exact awaits.counter
  have looked (result : Except Error SlotState) :
      (⟨m, .look m.slave.readSlot result⟩ : Call).replyTo? counter = none :=
    Call.replyTo?_of_none rfl
  cases glance with
  | failed cause => exact .inl ⟨by simp [looked], waits awaits.flying⟩
  | empty => exact .inl ⟨by simp [looked], waits awaits.flying⟩
  | exhausted => exact .inl ⟨by simp [looked], waits awaits.flying⟩
  | @spared b receivePool result after take idle =>
      have none : (m.readCall receivePool b result after).replyTo? counter = none :=
        Call.replyTo?_of_none (by rw [Call.gave?, idle])
      exact .inl ⟨by simp [looked, none], waits awaits.flying⟩
  | @taken b receivePool workCounter after take counted =>
      let c := (b.holding (after.take m.slave.readSlot.length.toNat)).withLength
        m.slave.readSlot.length.toNat
      let m₀ : Mailbox := { m with receivePool, slotState := .empty }
      have stocked : m₀.Stocked [c] := (orderly.stocked.take take).fill rfl rfl
      have known : m₀.Undecided := orderly.undecided.congr rfl (fun _ => rfl) rfl
      have first : m₀.AwaitsReply flight counter :=
        ⟨awaits.handshake, awaits.flying, awaits.counter, awaits.fresh, awaits.undecided⟩
      obtain ⟨other, answers⟩ :=
        route_awaits stocked known first sequenced (readCall_gave after counted) rfl
      cases reply : (m.readCall receivePool b (.ok workCounter) after).replyTo? counter with
      | none => exact .inl ⟨by simp [looked, reply], waits (other reply)⟩
      | some message =>
          have answered := answers message reply
          obtain ⟨statistics, eq⟩ := answered.rest
          have opened : receivePool.closed = false := (Stock.take sound.shelved take).opened
          refine .inr ⟨rfl, _, _, message, rfl, looked _, reply,
            ⟨m.receivePool, b, c, take, rfl, ?_⟩, answered.decided, ?_⟩
          · rw [eq]
            exact stocked.back opened
          · rw [eq]

theorem Glances.finds (glances : Glances n m calls m') :
    (calls.findSome? (Call.replyTo? counter) = none ∧ m'.AwaitsReply flight counter) ∨
      ∃ seen read message later n' m₁, calls = (seen ++ [read]) ++ later ∧
        seen.findSome? (Call.replyTo? counter) = none ∧ read.replyTo? counter = some message ∧
        (seen ++ [read]).any Call.failed = false ∧ read.Completes message flight m₁ ∧
        Glances n' m₁ later m' := by
  induction glances with
  | stop => exact .inl ⟨rfl, awaits⟩
  | last glance =>
      rcases glance.finds sound orderly awaits sequenced with waits | ⟨took, -⟩
      · exact .inl waits
      · cases took
  | @more m m₁ m' n calls later glance glances ih =>
      have reached := glance.reached
      rcases glance.finds sound orderly awaits sequenced with
        ⟨none, awaits'⟩ | ⟨-, look, read, message, rfl, none, reply, completes⟩
      · have moves := (glance.deeds 0).moves
        rcases ih (moves.sound sound) (Beats.orderly orderly (moves.beats [])) awaits' with
          ⟨none', waits⟩ | ⟨seen, read, message, rest, n', m₂, rfl, none', reply, reached', found⟩
        · exact .inl ⟨by rw [List.findSome?_append, none, none']; rfl, waits⟩
        · refine .inr ⟨calls ++ seen, read, message, rest, n', m₂, ?_, ?_, reply, ?_, found⟩
          · simp only [List.append_assoc]
          · rw [List.findSome?_append, none, none']
            rfl
          · rw [List.append_assoc, List.any_append, reached, reached']
            rfl
      · exact .inr ⟨[look], read, message, later, n, m₁, rfl, by simp [none], reply, reached,
          completes, glances⟩

end Look

/-! ## Turns -/

variable {σ : Type} {d : SlotDevice σ}

theorem Sending.waits (busy : m.handshake.isReady ≠ true) (sending : m.Sending d now calls m') :
    calls = [] ∧ m' = m := by
  have none : m.takeNext now = (none, m) := if_neg busy
  cases sending with
  | failed => exact ⟨rfl, rfl⟩
  | @next log calls s logged =>
      rw [sendNext, none] at logged
      refine ⟨(List.self_eq_append_right.mp logged), ?_⟩
      rw [sendNext, none]

theorem AwaitsReply.outset (awaits : m.AwaitsReply flight counter)
    (early : now < flight.request.deadline) :
    (m.expire now).readIsDue now = true ∧ (m.outset now).AwaitsReply flight counter ∧
      (m.outset now).slave = m.slave := by
  have waits : m.expire now = m := by
    rcases m.expire_cases now with eq | ⟨other, flying, -, late, -⟩
    · exact eq
    · have same : other = flight := Option.some.inj (flying.symm.trans awaits.flying)
      subst same
      omega
  have due : m.readIsDue now = true := by simp [readIsDue, awaits.handshake]
  rw [Mailbox.outset, waits, if_pos due]
  exact ⟨due, ⟨awaits.handshake, awaits.flying, awaits.counter, awaits.fresh, awaits.undecided⟩,
    rfl⟩

/-- With these calls the mailbox read no reply, wrote nothing and still awaits it, or the first
reply that it read is the outcome of the request. -/
inductive Waited (m : Mailbox) (flight : InFlight) (counter : UInt8) (calls : List Call) : Prop
  | still : calls.findSome? (Call.replyTo? counter) = none →
      (∀ call ∈ calls, call.isWrite = false) → m.AwaitsReply flight counter →
      Waited m flight counter calls
  | replied {message : Message} : calls.findSome? (Call.replyTo? counter) = some message →
      m.outcome? flight.request.ticket = some (.ok (.response flight.workCounter message)) →
      Waited m flight counter calls

theorem Waited.trans {more : List Call} (waited : m.Waited flight counter calls)
    (grown : ∃ events, m'.journal = m.journal ++ events)
    (next : m.AwaitsReply flight counter → m'.Waited flight counter more) :
    m'.Waited flight counter (calls ++ more) := by
  cases waited with
  | still unread reads awaits =>
      have found : (calls ++ more).findSome? (Call.replyTo? counter) =
          more.findSome? (Call.replyTo? counter) := by
        rw [List.findSome?_append, unread, Option.none_or]
      cases next awaits with
      | still unread' reads' awaits' =>
          exact .still (found.trans unread')
            (fun call mem => (List.mem_append.mp mem).elim (reads call) (reads' call)) awaits'
      | replied reply outcome => exact .replied (found.trans reply) outcome
  | replied reply outcome =>
      obtain ⟨events, journal⟩ := grown
      exact .replied (by rw [List.findSome?_append, reply, Option.some_or])
        (outcome?_kept journal outcome)

/-- The calls of a turn while the reply is awaited. None reads the reply and the request stays in
flight, or one reads it and completes the request. What is read after that leaves the channel free,
and unless it fails the turn takes up the next request. -/
inductive Hears (d : SlotDevice σ) (now : Nat) (flight : InFlight) (counter : UInt8) :
    List Call → Mailbox → Prop
  | nothing {calls : List Call} {m' : Mailbox} :
      calls.findSome? (Call.replyTo? counter) = none →
      (∀ call ∈ calls, call.isWrite = false) → m'.AwaitsReply flight counter →
      Hears d now flight counter calls m'
  | reply {seen later sent : List Call} {read : Call} {message : Message} {n : Nat}
      {m₁ m₂ m' : Mailbox} :
      seen.findSome? (Call.replyTo? counter) = none → read.replyTo? counter = some message →
      (∀ call ∈ seen, call.isWrite = false) → read.Completes message flight m₁ →
      Glances n m₁ later m₂ → m₂.handshake.isReady = true →
      (later.any Call.failed = false → m₂.Sends d now sent m') →
      m'.outcome? flight.request.ticket = some (.ok (.response flight.workCounter message)) →
      Hears d now flight counter (seen ++ read :: (later ++ sent)) m'

theorem Hears.waited {calls : List Call} (hears : Hears d now flight counter calls m') :
    m'.Waited flight counter calls := by
  cases hears with
  | nothing unread reads awaits => exact .still unread reads awaits
  | reply unread reply reads completes rest ready sending outcome =>
      refine .replied ?_ outcome
      rw [List.findSome?_append, unread, Option.none_or, List.findSome?_cons, reply]

theorem AwaitsReply.turn (awaits : m.AwaitsReply flight counter) (sound : m.Sound held)
    (orderly : Orderly ⟨m, []⟩) (opened : m.closed = false)
    (sequenced : counter ≠ SequenceCounter.unsequenced) (furnished : 0 < m.receivePool.capacity)
    (early : now < flight.request.deadline) (d : SlotDevice σ) (device : σ) :
    (∃ result, (m.calls d now device).head?.map Call.access =
        some (.look m.slave.readSlot result)) ∧
      Hears d now flight counter (m.calls d now device) (m.turn d.transport now device).2.1 := by
  obtain ⟨n, m₁, polled, sent, split, -, looked, glances, sending, sends⟩ :=
    turn_looks opened d now device
  obtain ⟨due, awaits', slave⟩ := awaits.outset early
  obtain ⟨result, others, first⟩ := glances.head (looked due furnished)
  have begun := (m.outset_deeds now).moves
  have before := begun.sound sound
  rw [split]
  refine ⟨⟨result, by rw [first, slave]; rfl⟩, ?_⟩
  rcases glances.finds before (Beats.orderly orderly (begun.beats [])) awaits' sequenced with
    ⟨unread, waits⟩ |
    ⟨seen, read, message, later, k, m₂, rfl, unread, reply, reached, completes, rest⟩
  · have after := (glances.deeds now).moves.sound before
    obtain ⟨rfl, same⟩ := sending.waits (after.rest.not_ready waits.flying)
    rw [List.append_nil, same]
    exact .nothing unread glances.reads waits
  · have after := (glances.deeds now).moves.sound before
    have ready := after.rest.ready_iff.mpr (rest.calm completes.free)
    have reads (call : Call) (mem : call ∈ seen) : call.isWrite = false :=
      glances.reads call (by simp [mem])
    obtain ⟨events, journal, -⟩ := ((rest.deeds now).trans sending.deeds).tells
    have row : seen ++ [read] ++ later ++ sent = seen ++ read :: (later ++ sent) := by simp
    rw [row]
    refine .reply unread reply reads completes rest ready (fun unfailed => sends ?_)
      (outcome?_kept journal completes.outcome)
    rw [List.any_append, reached, unfailed]
    rfl

end Mailbox

/-! ## Runs -/

/-- No turn at the deadline or later, and nobody closes the mailbox. -/
def Occurrence.Early (deadline : Nat) : Occurrence → Prop
  | .turn now _ => now < deadline
  | .close => False
  | _ => True

namespace Session

variable {s s' : Session} {trace : List Sight} {history : List Occurrence}
  {occurrence : Occurrence} {flight : InFlight} {counter : UInt8}

theorem Step.run (step : Step s s') :
    Holding.Run ⟨s.mailbox, s.held⟩ ⟨s'.mailbox, s'.held⟩ := by
  cases step with
  | take take => exact .act (.take take)
  | change left index owner => exact .act (.change left index owner)
  | giveBack left => exact .act (.giveBack left)
  | enqueue left front expectsResponse deadline =>
      exact .act (.enqueue left front expectsResponse deadline)
  | enqueueForeign front expectsResponse deadline foreign =>
      exact .act (.enqueueForeign front expectsResponse deadline foreign)
  | @turn m held pending σ d device now =>
      exact .turn (t := d.transport) (fun _ => held) now m device (fun _ _ _ => .refl _)
        (fun _ _ _ => .refl _) fun _ _ _ => .refl _
  | wait left => exact .act (.wait _)
  | tryRead p => exact .act (.tryRead p)
  | requestRead p => exact .act (.requestRead p)
  | read p => exact .act (.read p)
  | scheduleRead => exact .act .scheduleRead
  | close => exact .act .close

theorem Traced.furnished (traced : Traced trace s) : ∃ size,
    s.mailbox.Balances size s.held [] ∧ (queuedIn trace ≠ [] → 0 < size) := by
  induction traced with
  | start slave config sendId receiveId =>
      exact ⟨config.mailboxPoolSize, Holding.balances_create slave config sendId receiveId,
        fun queued => absurd rfl queued⟩
  | @step trace s s' sight traced shown ih =>
      obtain ⟨size, balances, furnished⟩ := ih
      have kept := (shown.step.run.keeps : Holding.Keeps size _ _) [] []
      simp only [List.append_nil] at kept
      refine ⟨size, kept balances, fun queued => ?_⟩
      by_cases earlier : queuedIn trace = []
      · rw [queuedIn_append, earlier] at queued
        cases shown with
        | @queue m left right pending b h front expectsResponse deadline accepted =>
            have opened : m.closed = false := by
              by_contra closed
              obtain ⟨⟨cause, refused⟩, -⟩ := Mailbox.enqueue_shut (by simpa using closed) front b
                expectsResponse deadline
              rw [refused] at accepted
              cases accepted
            have sent := (balances opened).1.perm List.perm_middle.symm
            exact Nat.zero_lt_of_lt (sent.size ▸ sent.stock.bound)
        | turn => exact absurd rfl queued
        | close => exact absurd rfl queued
        | aside => exact absurd rfl queued
      · exact furnished earlier

theorem Traced.stamped (traced : Traced trace s) (flying : s.mailbox.inFlight = some flight) :
    .took flight.request.ticket s.mailbox.counter.last flight.workCounter ∈ s.mailbox.exchanges ∧
      s.mailbox.counter.last ≠ SequenceCounter.unsequenced := by
  have took := traced.ledger.flying flight flying
  refine ⟨took, fun unsequenced => ?_⟩
  rw [traced.told] at took
  obtain ⟨call, mem, exchanged⟩ := List.mem_filterMap.mp took
  obtain ⟨⟨data, access⟩, counted, -, last⟩ := Call.eq_of_took exchanged
  have acknowledged : call.acknowledged = true := by
    rw [Call.acknowledged, access]
    exact bne_iff_ne.mpr counted
  have bound := (traced.carries mem acknowledged).2.1
  rw [last, unsequenced] at bound
  exact absurd bound (by decide)

end Session

namespace Mailbox

variable {m m' : Mailbox} {flight : InFlight}

theorem Idles.flying (idles : m.Idles m') (flying : m.inFlight = some flight)
    (kept : ∀ waiter, (flight.request.ticket, waiter) ∉ m'.withdrawals) :
    m'.inFlight = some flight := by
  rcases idles with untouched | ⟨g, r, withdraws⟩
  · exact untouched.inFlight.trans flying
  · refine (withdraws.drops.inFlight flight).mpr ⟨flying, fun same => kept g.ticket ?_⟩
    rw [withdraws.withdrawals, same]
    exact List.mem_append_right _ (List.mem_singleton_self _)

theorem Undergoes.flying {sight : Sight} (undergoes : m.Undergoes sight m')
    (flying : m.inFlight = some flight)
    (kept : ∀ waiter, (flight.request.ticket, waiter) ∉ m'.withdrawals) (apart : sight ≠ .close)
    (turnless : ∀ now calls, sight ≠ .turn now calls) :
    m'.closed = m.closed ∧ m'.inFlight = some flight ∧ m'.counter = m.counter := by
  cases undergoes with
  | turn d device now => exact absurd rfl (turnless now _)
  | queue => exact ⟨rfl, flying, rfl⟩
  | close => exact absurd rfl apart
  | aside idles => exact ⟨idles.closed, idles.flying flying kept, idles.counter⟩

end Mailbox

namespace Session

variable {s s' : Session} {history : List Occurrence} {occurrence : Occurrence} {flight : InFlight}
  {counter : UInt8}

theorem Reachable.sound_of_flying (reached : s.Reachable)
    (flying : s.mailbox.inFlight = some flight) : s.mailbox.closed = false ∧ s.Sound := by
  refine reached.sound_or_shut.resolve_right fun shut => ?_
  rw [shut.calm] at flying
  cases flying

theorem Reachable.hears (reached : s.Reachable) (awaits : s.mailbox.AwaitsReply flight counter)
    (sequenced : counter ≠ SequenceCounter.unsequenced) {now : Nat}
    (early : now < flight.request.deadline) {σ : Type} (d : SlotDevice σ) (device : σ) :
    (∃ result, (s.mailbox.calls d now device).head?.map Call.access =
        some (.look s.mailbox.slave.readSlot result)) ∧
      Mailbox.Hears d now flight counter (s.mailbox.calls d now device)
        (s.mailbox.turn d.transport now device).2.1 := by
  have flying := awaits.flying
  obtain ⟨opened, sound⟩ := reached.sound_of_flying flying
  obtain ⟨trace, traced⟩ := reached.traced
  obtain ⟨size, balances, furnished⟩ := traced.furnished
  obtain ⟨⟨bytes, queued⟩, -⟩ := traced.carried (.inr ⟨flight, flying, rfl, rfl⟩)
  have capacity : s.mailbox.receivePool.capacity = size := (balances opened).2.size
  have buffers : 0 < s.mailbox.receivePool.capacity :=
    capacity ▸ furnished (List.ne_nil_of_mem queued)
  exact awaits.turn sound.mailbox reached.orderly opened sequenced buffers early d device

/-- While the reply is awaited no step but a turn that reads it ends the wait. -/
theorem Occurs.waited (reached : s.Reachable) (occurs : Occurs s occurrence s')
    (awaits : s.mailbox.AwaitsReply flight counter)
    (sequenced : counter ≠ SequenceCounter.unsequenced)
    (early : occurrence.Early flight.request.deadline)
    (kept : ∀ waiter, (flight.request.ticket, waiter) ∉ s'.mailbox.withdrawals) :
    s'.mailbox.Waited flight counter occurrence.calls := by
  have flying := awaits.flying
  have opened := (reached.sound_of_flying flying).1
  have undergoes := occurs.shows.undergoes reached
  -- What callers do makes no calls.
  have aside (silent : occurrence.calls = []) (apart : occurrence.sight ≠ .close)
      (turnless : ∀ now calls, occurrence.sight ≠ .turn now calls) :
      s'.mailbox.Waited flight counter occurrence.calls := by
    obtain ⟨closed, flying', same⟩ := undergoes.flying flying kept apart turnless
    have sound := (reached.run (.single occurs.shows.step)).sound (closed.trans opened)
    rw [silent]
    exact .still rfl (List.forall_mem_nil _)
      (sound.mailbox.awaitsReply flying' (same ▸ awaits.counter))
  cases occurs with
  | turn d device now => exact (reached.hears awaits sequenced early d device).2.waited
  | queue => exact aside rfl nofun nofun
  | tryRead => exact aside rfl nofun nofun
  | requestRead => exact aside rfl nofun nofun
  | read => exact aside rfl nofun nofun
  | close => exact early.elim
  | aside => exact aside rfl nofun nofun

theorem Course.waited (reached : s.Reachable) (course : Course s history s')
    (awaits : s.mailbox.AwaitsReply flight counter)
    (sequenced : counter ≠ SequenceCounter.unsequenced)
    (early : ∀ occurrence ∈ history, occurrence.Early flight.request.deadline)
    (kept : ∀ waiter, (flight.request.ticket, waiter) ∉ s'.mailbox.withdrawals) :
    s'.mailbox.Waited flight counter (callsIn history) := by
  obtain ⟨before, recorded⟩ := reached.recorded
  induction course with
  | refl => exact .still rfl (List.forall_mem_nil _) awaits
  | @step history s₁ s₂ occurrence course occurs ih =>
      simp only [List.forall_mem_append, List.forall_mem_singleton] at early
      have led := (recorded.trans course).reachable
      have grown := (occurs.shows.undergoes led).grown
      -- Who was withdrawn stays withdrawn, so nobody withdrew the request on the way.
      have earlier (waiter : Nat) :
          (flight.request.ticket, waiter) ∉ s₁.mailbox.withdrawals := by
        obtain ⟨events, journal⟩ := grown
        intro mem
        refine kept waiter ?_
        rw [Mailbox.withdrawals_append journal]
        exact List.mem_append_left _ mem
      rw [callsIn_append, callsIn, callsIn, List.flatMap_singleton]
      exact (ih early.1 earlier).trans grown fun awaits =>
        occurs.waited led awaits sequenced early.2 kept

/-- The reply that is awaited gets through, whatever else happens before the deadline, unless
somebody closes the mailbox or gives up the request. Until it is read the request is in flight, and
every turn looks at the read slot. The first reply that is read is the outcome of the request by the
end of that turn, the buffer that it was read into is back, and unless a later look fails the turn
goes on with the next request. -/
theorem reply_gets_through (reached : s.Reachable) (flying : s.mailbox.inFlight = some flight)
    (course : Course s history s')
    (early : ∀ occurrence ∈ history, occurrence.Early flight.request.deadline)
    (kept : ∀ waiter, (flight.request.ticket, waiter) ∉ s'.mailbox.withdrawals) :
    .took flight.request.ticket s.mailbox.counter.last flight.workCounter ∈ s.mailbox.exchanges ∧
      s'.mailbox.Waited flight s.mailbox.counter.last (callsIn history) ∧
      (s'.mailbox.AwaitsReply flight s.mailbox.counter.last →
        ∀ {σ : Type} (d : SlotDevice σ) (device : σ), ∀ now < flight.request.deadline,
          (∃ result, (s'.mailbox.calls d now device).head?.map Call.access =
            some (.look s'.mailbox.slave.readSlot result)) ∧
          Mailbox.Hears d now flight s.mailbox.counter.last (s'.mailbox.calls d now device)
            (s'.mailbox.turn d.transport now device).2.1) := by
  obtain ⟨trace, traced⟩ := reached.traced
  obtain ⟨took, sequenced⟩ := traced.stamped flying
  have awaits := (reached.sound_of_flying flying).2.mailbox.awaitsReply flying rfl
  obtain ⟨before, recorded⟩ := reached.recorded
  have led := (recorded.trans course).reachable
  exact ⟨took, course.waited reached awaits sequenced early kept,
    fun awaits' _ d device now early' => led.hears awaits' sequenced early' d device⟩

def chatting : SlotDevice (List Message) where
  slotState slave slot messages :=
    (.ok (if slot = slave.readSlot ∧ messages ≠ [] then .full else .empty), messages)
  write _ _ messages := (.ok 1, messages)
  read _ _ messages := ((.ok 1, messages.head?.elim [] Message.encode), messages.tail)

def otherReply : Message := { lateReply with header := { lateReply.header with counter := 3 } }

/-- A request waits, and the reply to the one before it is still to be read. -/
def disturbed : Session :=
  ⟨(reused.mailbox.turn chatting.transport 10 [otherReply]).2.1, reused.held, reused.pending⟩

/-- The first turn reads the other message. The second reads the reply and writes the request that
waits. -/
theorem reply_gets_through_disturbed :
    disturbed.mailbox.AwaitsReply ⟨0, ⟨0, true, 1000000⟩, false, 1⟩ 1 ∧
      Mailbox.Hears chatting 20 ⟨0, ⟨0, true, 1000000⟩, false, 1⟩ 1
        (disturbed.mailbox.calls chatting 20 [lateReply])
        (disturbed.mailbox.turn chatting.transport 20 [lateReply]).2.1 ∧
      (disturbed.mailbox.turn chatting.transport 20 [lateReply]).2.1.outcome? 0 =
        some (.ok (.response 1 lateReply)) ∧
      (disturbed.mailbox.calls chatting 20 [lateReply]).any Call.isWrite = true := by
  have flying : reused.mailbox.inFlight = some ⟨0, ⟨0, true, 1000000⟩, false, 1⟩ := by rfl
  have last : reused.mailbox.counter.last = 1 := by rfl
  have course : Course reused ([] ++ [.turn 10 (reused.mailbox.calls chatting 10 [otherReply])])
      disturbed := .step .refl (.turn chatting [otherReply] 10)
  have kept : disturbed.mailbox.withdrawals = [] := by rfl
  obtain ⟨-, waited, hears⟩ := reply_gets_through reachable_reused flying course
    (by simp [Occurrence.Early]) (by simp [kept])
  rw [last] at waited hears
  have unread : ((callsIn [.turn 10 (reused.mailbox.calls chatting 10 [otherReply])]).findSome?
      (Call.replyTo? 1)).isSome = false := by decide +kernel
  have outcome : (disturbed.mailbox.turn chatting.transport 20 [lateReply]).2.1.outcome? 0 =
      some (.ok (.response 1 lateReply)) := by rfl
  cases waited with
  | still _ _ awaits =>
      exact ⟨awaits, (hears awaits chatting [lateReply] 20 (by decide)).2, outcome,
        by decide +kernel⟩
  | replied reply =>
      rw [List.nil_append] at reply
      rw [reply] at unread
      cases unread

end Session

end Fieldbus
