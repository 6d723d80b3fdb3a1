import Fieldbus.Proofs.Mailbox.Balance
import Fieldbus.Proofs.Mailbox.Owed
import Fieldbus.Proofs.Mailbox.Reading

/-!
# What is received

A message that is taken out of the read slot answers a request, is kept for callers or is dropped,
and is counted. The messages of a protocol that were kept are those that callers got, followed by
those that wait, and nothing is lost between the two.
-/

namespace Fieldbus

namespace Call

def gave? (c : Call) : Option Message :=
  match c.exchange? with
  | some (.gave message) => some message
  | _ => none

def fate? (c : Call) : Option Fate := c.gave?.map c.mailbox.fate

/-- The message, if it is one of `p` that is kept for callers. -/
def kept? (p : Protocol) (c : Call) : Option Message :=
  c.gave?.filter fun message => c.mailbox.fate message = .queued ∧ message.header.protocol = p

/-- The message with the request that it answers. -/
def replied? (c : Call) : Option (Nat × Message) :=
  c.gave?.bind fun message =>
    match c.mailbox.fate message with
    | .answered ticket => some (ticket, message)
    | _ => none

def isRead (c : Call) : Bool :=
  match c.access with
  | .read .. => true
  | _ => false

def takes (c : Call) : Bool := !c.isWrite && c.exchange?.isSome

/-- What the slave gives is read into a buffer that was just taken out of the receive pool. All
others of that pool are idle or queued. -/
structure Supplied (c : Call) : Prop where
  taken : ∃ (pool : Pool) (b : Buffer) (result : Except Error UInt16) (after : Bytes),
    pool.take? = .ok (b, c.mailbox.receivePool) ∧
      c.access = .read (b.bytes.take c.mailbox.slave.readSlot.length.toNat) result after
  others : c.mailbox.receivePool.available + c.mailbox.receiveQueues.totalLength + 1 =
    c.mailbox.receivePool.capacity

def Idle (c : Call) : Prop :=
  ∀ message, c.gave? = some message → c.mailbox.fate message = .unsupported

variable {c : Call} {message : Message}

theorem Idle.of_none (none : c.gave? = none) : c.Idle := by
  intro message gave
  rw [none] at gave
  cases gave

theorem Idle.kept? (idle : c.Idle) (p : Protocol) : c.kept? p = none := by
  rw [Call.kept?, Option.filter_eq_none_iff]
  intro message gave
  simp [idle message gave]

theorem Idle.replied? (idle : c.Idle) : c.replied? = none := by
  rw [Call.replied?, Option.bind_eq_none_iff]
  intro message gave
  rw [idle message gave]

theorem Idle.fate? (idle : c.Idle) {fate : Fate} (counted : fate ≠ .unsupported) :
    (c.fate? == some fate) = false := by
  rw [beq_eq_false_iff_ne]
  intro met
  obtain ⟨message, gave, rfl⟩ := Option.map_eq_some_iff.mp met
  exact counted (idle message gave)

theorem isRead_of_gave (gave : c.gave? = some message) : c.isRead = true := by
  obtain ⟨mailbox, access⟩ := c
  cases access with
  | look => cases gave
  | write data result =>
      unfold gave? exchange? at gave
      rcases result with cause | workCounter
      · cases gave
      · dsimp only at gave
        split at gave
        case h_1 took =>
          split at took <;> cases took
        · cases gave
  | read => rfl

end Call

namespace Mailbox

open Call (kept? replied?)

/-- What the calls took out of the read slot came in, and callers got `returned`. -/
structure Receives (m : Mailbox) (calls : List Call) (returned : Protocol → List Message)
    (m' : Mailbox) : Prop where
  grown : ∃ events, m'.journal = m.journal ++ events
  capacity : m'.receivePool.capacity = m.receivePool.capacity
  waiting : ∀ p, (returned p).map .ok ++ m'.waiting p =
    m.waiting p ++ (calls.filterMap (kept? p)).map .ok
  received : m'.statistics.messagesReceived = m.statistics.messagesReceived +
    calls.countP (fun c => c.fate? == some .queued) + (calls.filterMap replied?).length +
    calls.countP fun c => c.fate? == some .stale
  stale : m'.statistics.staleDropped = m.statistics.staleDropped +
    calls.countP fun c => c.fate? == some .stale
  answers : ∀ entry ∈ calls.filterMap replied?, m.outcome? entry.1 = none ∧
    ∃ workCounter, m'.outcome? entry.1 = some (.ok (.response workCounter entry.2))
  once : ((calls.filterMap replied?).map Prod.fst).Nodup

variable {m m₁ m' : Mailbox} {held : List Buffer} {c : Buffer} {call : Call} {message : Message}
  {calls more : List Call} {returned later : Protocol → List Message} {now n : Nat} {took : Bool}
  {p : Protocol}

theorem Receives.trans (h : m.Receives calls returned m₁) (h' : m₁.Receives more later m') :
    m.Receives (calls ++ more) (fun p => returned p ++ later p) m' := by
  obtain ⟨events, first⟩ := h.grown
  obtain ⟨events', second⟩ := h'.grown
  constructor
  case grown => exact ⟨events ++ events', by rw [second, first, List.append_assoc]⟩
  case capacity => exact h'.capacity.trans h.capacity
  case waiting =>
    intro p
    rw [List.map_append, List.append_assoc, h'.waiting p, ← List.append_assoc, h.waiting p,
      List.filterMap_append, List.map_append, List.append_assoc]
  case received =>
    rw [h'.received, h.received, List.countP_append, List.countP_append, List.filterMap_append,
      List.length_append]
    omega
  case stale => rw [h'.stale, h.stale, List.countP_append, Nat.add_assoc]
  case answers =>
    intro entry mem
    rw [List.filterMap_append, List.mem_append] at mem
    rcases mem with old | new
    · obtain ⟨undecided, workCounter, decided⟩ := h.answers entry old
      exact ⟨undecided, workCounter, outcome?_kept second decided⟩
    · obtain ⟨undecided, decided⟩ := h'.answers entry new
      refine ⟨?_, decided⟩
      cases before : m.outcome? entry.1 with
      | none => rfl
      | some outcome =>
          rw [outcome?_kept first before] at undecided
          cases undecided
  case once =>
    rw [List.filterMap_append, List.map_append]
    -- Who was answered earlier has its outcome, and only who has none can be answered.
    refine h.once.append h'.once fun ticket old new => ?_
    obtain ⟨entry, answered, rfl⟩ := List.mem_map.mp old
    obtain ⟨other, again, same⟩ := List.mem_map.mp new
    obtain ⟨-, workCounter, decided⟩ := h.answers entry answered
    have undecided := (h'.answers other again).1
    rw [same, decided] at undecided
    cases undecided

theorem Receives.idle (grown : ∃ events, m'.journal = m.journal ++ events)
    (capacity : m'.receivePool.capacity = m.receivePool.capacity)
    (waiting : ∀ p, (returned p).map .ok ++ m'.waiting p = m.waiting p)
    (received : m'.statistics.messagesReceived = m.statistics.messagesReceived)
    (stale : m'.statistics.staleDropped = m.statistics.staleDropped)
    (silent : ∀ call ∈ calls, call.Idle) : m.Receives calls returned m' := by
  have unanswered : calls.filterMap replied? = [] :=
    List.filterMap_eq_nil_iff.mpr fun call mem => (silent call mem).replied?
  have unkept (p : Protocol) : calls.filterMap (kept? p) = [] :=
    List.filterMap_eq_nil_iff.mpr fun call mem => (silent call mem).kept? p
  have uncounted {fate : Fate} (counted : fate ≠ .unsupported) :
      (calls.countP fun c => c.fate? == some fate) = 0 :=
    List.countP_eq_zero.mpr fun call mem => by simp [(silent call mem).fate? counted]
  constructor
  case grown => exact grown
  case capacity => exact capacity
  case waiting =>
    intro p
    rw [unkept, List.map_nil, List.append_nil, waiting]
  case received =>
    rw [uncounted (by simp), uncounted (by simp), unanswered, received]
    rfl
  case stale => rw [uncounted (by simp), stale]; rfl
  case answers =>
    rw [unanswered]
    exact List.forall_mem_nil _
  case once =>
    rw [unanswered]
    exact List.nodup_nil

theorem waiting_congr (queues : m'.receiveQueues = m.receiveQueues) (p : Protocol) :
    m'.waiting p = m.waiting p := by
  rw [waiting, queues, waiting]

theorem Unread.receives (unread : m.Unread m') (grown : ∃ events, m'.journal = m.journal ++ events)
    (silent : ∀ call ∈ calls, call.Idle) : m.Receives calls (fun _ => []) m' :=
  .idle grown (by rw [unread.pool]) (waiting_congr unread.queues) unread.received unread.stale
    silent

/-! ## Looks -/

/-- The message meets its fate, which is noted, and but for that only the receive buffers, the
counts and what the message answers can change. -/
theorem Receives.single {fate : Fate} (gave : call.gave? = some message)
    (met : call.mailbox.fate message = fate)
    (grown : ∃ events, m'.journal = m.journal ++ events)
    (capacity : m'.receivePool.capacity = m.receivePool.capacity)
    (waiting : ∀ p, m'.waiting p = m.waiting p ++
      if fate = .queued ∧ message.header.protocol = p then [.ok message] else [])
    (received : m'.statistics.messagesReceived = m.statistics.messagesReceived +
      if fate = .unsupported then 0 else 1)
    (stale : m'.statistics.staleDropped = m.statistics.staleDropped +
      if fate = .stale then 1 else 0)
    (answers : ∀ ticket, fate = .answered ticket → m.outcome? ticket = none ∧
      ∃ workCounter, m'.outcome? ticket = some (.ok (.response workCounter message))) :
    m.Receives [call] (fun _ => []) m' := by
  have meets (other : Fate) : call.fate? = some other ↔ fate = other := by
    rw [Call.fate?, gave, Option.map_some, met, Option.some_inj]
  have unkept (p : Protocol) : [call].filterMap (kept? p) =
      if fate = .queued ∧ message.header.protocol = p then [message] else [] := by
    by_cases kept : fate = .queued ∧ message.header.protocol = p
    · simp [kept?, gave, Option.filter, met, kept]
    · simp [kept?, gave, Option.filter, met, kept]
  have answered : [call].filterMap replied? =
      match fate with
      | .answered ticket => [(ticket, message)]
      | _ => [] := by
    cases fate <;> simp [replied?, gave, met]
  constructor
  case grown => exact grown
  case capacity => exact capacity
  case waiting =>
    intro p
    rw [unkept, waiting]
    split <;> rfl
  case received =>
    rw [received, answered, List.countP_singleton, List.countP_singleton]
    cases fate <;> simp [meets]
  case stale =>
    rw [stale, List.countP_singleton]
    simp [meets]
  case answers =>
    rw [answered]
    cases fate <;> simp [answers]
  case once =>
    rw [answered]
    cases fate <;> simp

theorem route_receives (stocked : m.Stocked (c :: held)) (known : m.Undecided)
    (gave : call.gave? = (Message.decode? c.contents).toOption)
    (same : ∀ message, call.mailbox.fate message = m.fate message) :
    m.Receives [call] (fun _ => []) (m.route c) := by
  rcases decoded : Message.decode? c.contents with cause | message
  · rw [decoded] at gave
    rw [route_garbled decoded]
    refine .idle ⟨_, rfl⟩ (Pool.capacity_put ..) (fun _ => rfl) rfl rfl fun other mem => ?_
    rw [List.mem_singleton.mp mem]
    exact .of_none gave
  · rw [decoded] at gave
    have treats := route_treats stocked known decoded
    have met := same message
    cases fate : m.fate message with
    | unsupported =>
        rw [fate] at met
        rw [route_unsupported decoded fate]
        exact .single gave met ⟨_, rfl⟩ (Pool.capacity_put ..) (fun _ => (List.append_nil _).symm)
          rfl rfl (by simp)
    | stale =>
        rw [fate] at met
        rw [route_stale decoded fate]
        exact .single gave met ⟨_, rfl⟩ (Pool.capacity_put ..) (fun _ => (List.append_nil _).symm)
          rfl rfl (by simp)
    | queued =>
        rw [fate] at met
        rw [route_queued decoded fate]
        obtain ⟨queues, eq, entries, -⟩ := Stocked.push (m := { m with
          consumed := m.consumed || (message.header.counter != SequenceCounter.unsequenced)
          journal := m.journal ++ [MailboxEvent.routed message .queued]
          statistics := { m.statistics with
            messagesReceived := m.statistics.messagesReceived + 1 } }) stocked
          message.header.protocol
        rw [eq]
        refine .single gave met ⟨_, rfl⟩ rfl (fun p => ?_) rfl rfl (by simp)
        change (queues.entries p).map _ = _
        rw [entries, Function.update_apply]
        split
        case isTrue here => simp [here, waiting, decoded]
        case isFalse other => simp [waiting, Ne.symm other]
    | answered ticket =>
        rw [fate] at met treats
        cases treats with
        | dropped _ refused => cases refused
        | answered flight sequenced wanted answers =>
            have grown : ∃ events, (m.route c).journal = m.journal ++ events := by
              obtain ⟨statistics, rest⟩ := answers.rest
              exact ⟨_, by rw [rest]⟩
            obtain ⟨m₀, -, eq, -⟩ := route_answered decoded answers.awaiting answers.flying fate
            refine .single gave met grown ?_ (fun p => ?_) ?_ ?_ fun ticket same => ?_
            · rw [eq]
              exact Pool.capacity_put ..
            · rw [eq]
              exact (List.append_nil _).symm
            · rw [eq]
              rfl
            · rw [eq]
              rfl
            · cases same
              exact ⟨answers.undecided, _, answers.decided⟩

theorem readCall_gave {receivePool : Pool} {b : Buffer} {counter : UInt16} (after : Bytes)
    (counted : counter ≠ 0) : (m.readCall receivePool b (.ok counter) after).gave? =
      (Message.decode? ((b.holding (after.take m.slave.readSlot.length.toNat)).withLength
        m.slave.readSlot.length.toNat).contents).toOption := by
  have exchanged : (m.readCall receivePool b (.ok counter) after).exchange? =
      some (.ofRead (Bytes.overwrite (b.bytes.take m.slave.readSlot.length.toNat) 0
        (after.take m.slave.readSlot.length.toNat))) := if_neg counted
  rw [contents_holding, Call.gave?, exchanged, Exchange.ofRead]
  cases Message.decode? (Bytes.overwrite (b.bytes.take m.slave.readSlot.length.toNat) 0
    (after.take m.slave.readSlot.length.toNat)) <;> rfl

theorem Glance.receives (orderly : Orderly ⟨m, []⟩) (glance : Glance m calls took m') :
    m.Receives calls (fun _ => []) m' := by
  have same : ∃ events, m.journal = m.journal ++ events := ⟨[], (List.append_nil _).symm⟩
  have looked (result : Except Error SlotState) :
      ∀ call ∈ [(⟨m, .look m.slave.readSlot result⟩ : Call)], call.Idle := by
    intro call mem
    rw [List.mem_singleton.mp mem]
    exact .of_none rfl
  cases glance with
  | failed cause => exact Unread.receives (.refl m) same (looked _)
  | empty => exact Unread.receives ⟨rfl, rfl, rfl, rfl⟩ same (looked _)
  | exhausted => exact Unread.receives ⟨rfl, rfl, rfl, rfl⟩ same (looked _)
  | @spared b receivePool result after take idle =>
      refine .idle same ?_ (fun _ => rfl) rfl rfl fun call mem => ?_
      · exact (Pool.capacity_put ..).trans (Pool.capacity_take take)
      · rcases List.mem_cons.mp mem with rfl | mem
        · exact looked _ _ (List.mem_singleton_self _)
        · rw [List.mem_singleton.mp mem]
          exact .of_none (by rw [Call.gave?, idle])
  | @taken b receivePool counter after take counted =>
      let c := (b.holding (after.take m.slave.readSlot.length.toNat)).withLength
        m.slave.readSlot.length.toNat
      let m₀ : Mailbox := { m with receivePool, slotState := .empty }
      have first : m.Receives _ (fun _ => []) m₀ :=
        .idle same (Pool.capacity_take take) (fun _ => rfl) rfl rfl (looked (.ok .full))
      have stocked : m₀.Stocked [c] := (orderly.stocked.take take).fill rfl rfl
      have known : m₀.Undecided := orderly.undecided.congr rfl (fun _ => rfl) rfl
      exact first.trans (route_receives stocked known (readCall_gave after counted) fun _ => rfl)

theorem Glances.receives (orderly : Orderly ⟨m, []⟩) (glances : Glances n m calls m') :
    m.Receives calls (fun _ => []) m' := by
  induction glances with
  | stop m =>
      exact Unread.receives (.refl m) ⟨[], (List.append_nil _).symm⟩ (List.forall_mem_nil _)
  | last glance => exact glance.receives orderly
  | more glance _ ih =>
      have later := Beats.orderly orderly ((glance.deeds 0).moves.beats [])
      exact (glance.receives orderly).trans (ih later)

theorem Glance.countP_takes (glance : Glance m calls took m') :
    calls.countP Call.takes = if took then 1 else 0 := by
  have looked (result : Except Error SlotState) (later : List Call) :
      (⟨m, .look m.slave.readSlot result⟩ :: later : List Call).countP Call.takes =
        later.countP Call.takes :=
    List.countP_cons_of_neg Bool.false_ne_true
  cases glance with
  | failed => rfl
  | empty => rfl
  | exhausted => rfl
  | spared result after take idle =>
      rw [looked, List.countP_singleton, Call.takes, idle]
      simp
  | @taken b receivePool counter after take counted =>
      have reads : (m.readCall receivePool b (.ok counter) after).takes = true := by
        simp [Call.takes, Call.isWrite, Call.exchange?, readCall, counted]
      rw [looked, List.countP_singleton, if_pos reads, if_pos rfl]

theorem Glances.countP_takes (glances : Glances n m calls m') : calls.countP Call.takes = n := by
  induction glances with
  | stop => rfl
  | last glance => exact glance.countP_takes
  | more glance _ ih => rw [List.countP_append, glance.countP_takes, ih, if_pos rfl, Nat.add_comm]

def Fetches (m : Mailbox) (call : Call) : Prop :=
  ∃ b receivePool result after, m.receivePool.take? = .ok (b, receivePool) ∧
    call = m.readCall receivePool b result after

theorem Glance.fetches (glance : Glance m calls took m') (mem : call ∈ calls)
    (reads : call.isRead = true) : m.Fetches call := by
  have looked {result : Except Error SlotState}
      (mem : call = ⟨m, .look m.slave.readSlot result⟩) : False := by
    rw [mem] at reads
    cases reads
  cases glance with
  | failed => exact (looked (List.mem_singleton.mp mem)).elim
  | empty => exact (looked (List.mem_singleton.mp mem)).elim
  | exhausted => exact (looked (List.mem_singleton.mp mem)).elim
  | spared result after take =>
      exact ⟨_, _, _, _, take, (List.mem_pair.mp mem).resolve_left looked⟩
  | taken after take =>
      exact ⟨_, _, _, _, take, (List.mem_pair.mp mem).resolve_left looked⟩

theorem Glances.fetches (glances : Glances n m calls m') (mem : call ∈ calls)
    (reads : call.isRead = true) (now : Nat) : ∃ m₁, Moves now m m₁ ∧ m₁.Fetches call := by
  induction glances with
  | stop => cases mem
  | last glance => exact ⟨_, .refl, glance.fetches mem reads⟩
  | more glance _ ih =>
      rcases List.mem_append.mp mem with mem | mem
      · exact ⟨_, .refl, glance.fetches mem reads⟩
      · obtain ⟨m₁, moves, fetches⟩ := ih mem
        exact ⟨m₁, (glance.deeds now).moves.trans moves, fetches⟩

theorem Fetches.supplied (sound : m.Sound held) (fetches : m.Fetches call) : call.Supplied := by
  obtain ⟨b, receivePool, result, after, take, rfl⟩ := fetches
  refine ⟨⟨_, b, result, after, take, rfl⟩, ?_⟩
  have stock := Stock.take sound.shelved take
  have counted := stock.lends.available
  rw [List.length_append, List.length_singleton, ← stock.queued.totalLength] at counted
  change receivePool.available + m.receiveQueues.totalLength + 1 = receivePool.capacity
  omega

theorem Serves.idle {b : Buffer} (serves : m.Serves b call) : call.Idle := by
  rcases serves with ⟨result, rfl⟩ | ⟨cause | workCounter, rfl⟩
  · exact .of_none rfl
  · exact .of_none rfl
  · refine .of_none ?_
    unfold Call.gave? Call.exchange?
    dsimp only
    split <;> rename_i took
    · split at took <;> cases took
    · rfl

theorem turn_receives (orderly : Orderly ⟨m, []⟩) (opened : m.closed = false) {σ : Type}
    (d : SlotDevice σ) (device : σ) (now : Nat) :
    m.Receives (m.calls d now device) (fun _ => []) (m.turn d.transport now device).2.1 := by
  obtain ⟨n, m₀, m₁, polled, sent, calls, begun, unread, -, glances, sending⟩ :=
    turn_parts opened d now device
  have grown {m m' : Mailbox} {calls : List Call} (deeds : Deeds now m calls m') :
      ∃ events, m'.journal = m.journal ++ events := by
    obtain ⟨events, journal, -⟩ := deeds.tells
    exact ⟨events, journal⟩
  have before : m.Receives [] (fun _ => []) m₀ :=
    unread.receives (grown begun) (List.forall_mem_nil _)
  have read := glances.receives (Beats.orderly orderly (begun.moves.beats []))
  have after : m₁.Receives sent (fun _ => []) (m.turn d.transport now device).2.1 := by
    refine sending.unread.receives (grown sending.deeds) fun call mem => ?_
    obtain ⟨m₂, b, serves⟩ := sending.serving mem
    exact serves.idle
  rw [calls]
  exact (before.trans read).trans after

section Turn

variable (opened : m.closed = false) {σ : Type} (d : SlotDevice σ) (device : σ) (now : Nat)

include opened

theorem turn_fetches (mem : call ∈ m.calls d now device) (reads : call.isRead = true) :
    ∃ m₁, Moves now m m₁ ∧ m₁.Fetches call := by
  obtain ⟨n, m₀, m₁, polled, sent, calls, begun, -, -, glances, sending⟩ :=
    turn_parts opened d now device
  rw [calls] at mem
  rcases List.mem_append.mp mem with mem | mem
  · obtain ⟨m₂, moves, fetches⟩ := glances.fetches mem reads now
    exact ⟨m₂, begun.moves.trans moves, fetches⟩
  · obtain ⟨m₂, b, ⟨result, rfl⟩ | ⟨result, rfl⟩⟩ := sending.serving mem <;> cases reads

theorem turn_takes : (m.calls d now device).countP Call.takes ≤ m.receivePool.capacity := by
  obtain ⟨n, m₀, m₁, polled, sent, calls, -, unread, bounded, glances, sending⟩ :=
    turn_parts opened d now device
  have none : sent.countP Call.takes = 0 := by
    refine List.countP_eq_zero.mpr fun call mem => ?_
    obtain ⟨m₂, b, ⟨result, rfl⟩ | ⟨result, rfl⟩⟩ := sending.serving mem <;>
      simp [Call.takes, Call.isWrite, Call.exchange?]
  rw [calls, List.countP_append, none, glances.countP_takes]
  rw [unread.pool] at bounded
  exact bounded

end Turn

theorem takeReceived_receives (stocked : m.Stocked held)
    (taken : m.takeReceived? p = some (.ok message, m')) :
    m.Receives [] (fun q => returnedFrom q [.read p message]) m' := by
  have waits := stocked.takeReceived taken
  obtain ⟨⟨b, receiveQueues⟩, -, eq⟩ := Option.map_eq_some_iff.mp taken
  simp only [Prod.mk.injEq] at eq
  obtain ⟨-, rfl⟩ := eq
  refine .idle ⟨[], (List.append_nil _).symm⟩ (Pool.capacity_put ..) (fun q => ?_) rfl rfl
    (List.forall_mem_nil _)
  rw [waits]
  by_cases same : p = q
  · subst same
    simp [returnedFrom, Occurrence.returned?]
  · simp [returnedFrom, Occurrence.returned?, same, Function.update_of_ne (Ne.symm same)]

theorem Reads.receives {got : Option (Except Error Message)} (stocked : m.Stocked held)
    (reads : m.Reads p got m') (taken : got = some (.ok message)) :
    m.Receives [] (fun q => returnedFrom q [.read p message]) m' := by
  rw [taken] at reads
  exact takeReceived_receives stocked reads.taken

end Mailbox

namespace Session

variable {s s' : Session} {occurrence : Occurrence} {history : List Occurrence}

theorem Occurs.receives (reached : s.Reachable) (occurs : Occurs s occurrence s')
    (opened : s'.mailbox.closed = false) :
    s.mailbox.Receives (callsIn [occurrence]) (fun p => returnedFrom p [occurrence])
      s'.mailbox := by
  have grown := (occurs.shows.undergoes reached).grown
  have before := occurs.shows.step.opened opened
  cases occurs with
  | @turn m held pending σ d device now =>
      rw [callsIn, List.flatMap_singleton]
      exact Mailbox.turn_receives reached.orderly before d device now
  | queue left front expectsResponse deadline =>
      exact Mailbox.Unread.receives (Mailbox.enqueue_unread ..) grown (List.forall_mem_nil _)
  | tryRead p got =>
      obtain ⟨_, reads, answers⟩ := Mailbox.tryRead_reads _ p
      exact reads.receives reached.stocked ((answers _).mp got)
  | requestRead p got =>
      obtain ⟨_, reads, answers⟩ := Mailbox.requestRead_reads _ p
      exact reads.receives reached.stocked ((answers _).mp got)
  | read p got =>
      obtain ⟨_, reads, answers⟩ := Mailbox.read_reads _ p
      exact reads.receives reached.stocked ((answers _).mp got)
  | close =>
      dsimp only at opened
      rw [close_closed] at opened
      cases opened
  | aside step idles unread =>
      exact unread.receives grown (List.forall_mem_nil _)

theorem Recorded.receives (recorded : Recorded history s) (opened : s.mailbox.closed = false) :
    ∃ slave config sendId receiveId, (Mailbox.create slave config sendId receiveId).Receives
      (callsIn history) (fun p => returnedFrom p history) s.mailbox := by
  induction recorded with
  | start slave config sendId receiveId =>
      exact ⟨slave, config, sendId, receiveId,
        Mailbox.Unread.receives (.refl _) ⟨[], rfl⟩ (List.forall_mem_nil _)⟩
  | step recorded occurs ih =>
      obtain ⟨slave, config, sendId, receiveId, earlier⟩ := ih (occurs.shows.step.opened opened)
      have later := earlier.trans (occurs.receives recorded.reachable opened)
      simp only [← returnedFrom_append, ← callsIn_append] at later
      exact ⟨slave, config, sendId, receiveId, later⟩

theorem Recorded.turn_of_call (recorded : Recorded history s) {call : Call}
    (mem : call ∈ callsIn history) : ∃ (s₀ : Session) (σ : Type) (d : SlotDevice σ) (device : σ)
      (now : Nat), s₀.Reachable ∧ s₀.mailbox.closed = false ∧
        call ∈ s₀.mailbox.calls d now device := by
  induction recorded with
  | start => cases mem
  | @step history s s' occurrence recorded occurs ih =>
      rw [callsIn_append, List.mem_append] at mem
      rcases mem with old | new
      · exact ih old
      · rw [callsIn, List.flatMap_singleton] at new
        cases occurs with
        | @turn m held pending σ d device now =>
            refine ⟨_, σ, d, device, now, recorded.reachable, ?_, new⟩
            by_contra closed
            have none : m.calls d now device = [] := Mailbox.calls_closed (by simpa using closed)
            have made : call ∈ m.calls d now device := new
            rw [none] at made
            cases made
        | _ => cases new

/-- The messages of a protocol that callers got, followed by those that wait, are those that were
kept, in the order in which they were read. A message is kept if it has no counter or is the reply
to a request that was only written. Every message is read into a free buffer, a turn reads no more
of them than there are buffers, and those that are counted were kept, answered a request, which has
no other reply, or were stale. -/
theorem inbox_in_order (recorded : Recorded history s) (opened : s.mailbox.closed = false) :
    (∀ p, (returnedFrom p history).map .ok ++ s.mailbox.waiting p =
      ((callsIn history).filterMap (Call.kept? p)).map .ok) ∧
    (∀ call ∈ callsIn history, call.isRead = true → call.Supplied) ∧
    (∀ call ∈ callsIn history, ∀ message, call.gave? = some message →
      call.mailbox.slave.supported.supports message.header.protocol = true →
        (call.mailbox.fate message = .queued ↔
          message.header.counter = SequenceCounter.unsequenced ∨
            call.mailbox.Owes message.header.counter)) ∧
    s.mailbox.statistics.messagesReceived =
      (callsIn history).countP (fun c => c.fate? == some .queued) +
        ((callsIn history).filterMap Call.replied?).length + s.mailbox.statistics.staleDropped ∧
    s.mailbox.statistics.staleDropped =
      (callsIn history).countP (fun c => c.fate? == some .stale) ∧
    (((callsIn history).filterMap Call.replied?).map Prod.fst).Nodup ∧
    (∀ entry ∈ (callsIn history).filterMap Call.replied?, ∃ workCounter,
      s.mailbox.outcome? entry.1 = some (.ok (.response workCounter entry.2))) ∧
    ∀ {σ : Type} (d : SlotDevice σ) (device : σ) (now : Nat),
      (s.mailbox.calls d now device).countP Call.takes ≤ s.mailbox.receivePool.capacity := by
  obtain ⟨slave, config, sendId, receiveId, receives⟩ := recorded.receives opened
  have stale : s.mailbox.statistics.staleDropped = _ := receives.stale.trans (Nat.zero_add _)
  refine ⟨fun p => ?_, fun call mem reads => ?_, fun call mem message gave supported => ?_, ?_,
    stale, receives.once, fun entry mem => (receives.answers entry mem).2,
    fun d device now => Mailbox.turn_takes opened d device now⟩
  · have empty : (Mailbox.create slave config sendId receiveId).waiting p = [] := by
      rw [Mailbox.waiting, Mailbox.create, ProtocolQueues.entries_empty]
      rfl
    rw [receives.waiting p, empty, List.nil_append]
  · obtain ⟨s₀, σ, d, device, now, reached, before, mem⟩ := recorded.turn_of_call mem
    obtain ⟨m, moves, fetches⟩ := Mailbox.turn_fetches before d device now mem reads
    exact fetches.supplied (moves.sound (reached.sound before).mailbox)
  · obtain ⟨s₀, σ, d, device, now, reached, before, mem⟩ := recorded.turn_of_call mem
    obtain ⟨m, moves, fetches⟩ :=
      Mailbox.turn_fetches before d device now mem (Call.isRead_of_gave gave)
    obtain ⟨b, receivePool, result, after, take, rfl⟩ := fetches
    change m.fate message = .queued ↔ _ ∨ m.Owes message.header.counter
    exact moves.queued_iff reached before supported
  · rw [receives.received, stale]
    simp [Mailbox.create]

/-- The reply to a request that was only written was read, and waits. -/
def delivered : Mailbox := (written.mailbox.turn answering.transport 10000 ()).2.1

theorem inbox_in_order_delivered : ∃ history s, Recorded history s ∧
    s.mailbox = (delivered.tryRead .coe).2 ∧ s.mailbox.closed = false ∧
    returnedFrom .coe history = [lateReply] ∧
    (callsIn history).filterMap (Call.kept? .coe) = [lateReply] ∧
    (callsIn history).countP (fun c => c.fate? == some .queued) +
      ((callsIn history).filterMap Call.replied?).length = 1 := by
  have start : Recorded [] ⟨cramped, [], []⟩ := .start _ _ _ _
  obtain ⟨b, lodged⟩ := submit_recorded start (by rfl :
    (cramped.submit .coe 0x1001 [1] false 1000000).1 = .ok ⟨0, 0, 1000000⟩)
  have turned := (lodged.step (.turn mute () 0)).step (.turn answering () 10000)
  have got : (delivered.tryRead .coe).1.toOption = some lateReply := by decide +kernel
  have recorded := turned.step (.tryRead .coe (Mailbox.message_of_toOption got))
  have opened : (delivered.tryRead .coe).2.closed = false := by decide +kernel
  have empty : (delivered.tryRead .coe).2.receiveQueues.entries .coe = [] := by decide +kernel
  have counts : (delivered.tryRead .coe).2.statistics.messagesReceived = 1 ∧
      (delivered.tryRead .coe).2.statistics.staleDropped = 0 := by decide +kernel
  obtain ⟨order, -, -, received, -⟩ := inbox_in_order recorded opened
  refine ⟨_, _, recorded, rfl, opened, rfl, ?_, ?_⟩
  · have kept := order .coe
    have none : (delivered.tryRead .coe).2.waiting .coe = [] := by rw [Mailbox.waiting, empty]; rfl
    exact (List.map_injective_iff.mpr (fun _ _ => Except.ok.inj)
      (kept.symm.trans (congrArg (_ ++ ·) none))).trans rfl
  · exact (congrArg (_ + ·) counts.2).symm.trans (received.symm.trans counts.1)

end Session

end Fieldbus
