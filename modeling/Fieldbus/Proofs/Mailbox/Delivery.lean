import Fieldbus.Proofs.Mailbox.Session

/-!
# Replies that nobody waits for

The reply to a request that was only written is kept for callers to read, once. What decides is the
flag `Mailbox.consumed`, which stamping clears and an accepted reply sets. A request that goes back
to its queue sets it too, even where nothing was stamped, and then the reply is dropped.
-/

namespace Fieldbus

def Fate.accepted : Fate → Bool
  | .queued | .answered _ => true
  | .stale | .unsupported => false

namespace Mailbox

/-- Since `events` began, nothing was stamped and no message with this counter was accepted. -/
def Outstanding (counter : UInt8) (events : List MailboxEvent) : Prop :=
  (∀ ticket other, .stamped ticket other ∉ events) ∧
    ∀ message fate, .routed message fate ∈ events → message.header.counter = counter →
      fate.accepted = false

def Requeues (events : List MailboxEvent) : Prop := ∃ ticket, .requeued ticket ∈ events

/-- The reply with this counter is outstanding, and is dropped only if a request went back. -/
structure Expects (m : Mailbox) (counter : UInt8) (events : List MailboxEvent) : Prop where
  last : m.counter.last = counter
  sequenced : counter ≠ SequenceCounter.unsequenced
  calm : m.inFlight = none
  consumed : m.consumed = true ↔ Requeues events

/-- The journal ends with the acknowledged write of a request that wanted no reply, and `after`. -/
def WroteOnly (m : Mailbox) (counter : UInt8) (after : List MailboxEvent) : Prop :=
  ∃ before ticket workCounter, m.journal =
      before ++ .acknowledged (some ticket) counter workCounter :: after ∧
    ∃ index deadline, .enqueued index ⟨ticket, false, deadline⟩ ∈ before

/-- Every reply to a request that was only written is expected for as long as it is outstanding. -/
def LateReplies (m : Mailbox) : Prop :=
  ∀ counter after, m.WroteOnly counter after → Outstanding counter after →
    m.Expects counter after

theorem Outstanding.left {counter : UInt8} {events more : List MailboxEvent}
    (h : Outstanding counter (events ++ more)) : Outstanding counter events :=
  ⟨fun ticket other mem => h.1 ticket other (List.mem_append_left _ mem),
    fun message fate mem => h.2 message fate (List.mem_append_left _ mem)⟩

variable {m m' : Mailbox} {counter : UInt8} {events after : List MailboxEvent} {now : Nat}
  {held : List Buffer}

theorem WroteOnly.split (journal : m'.journal = m.journal ++ events)
    (wrote : m'.WroteOnly counter after) :
    (∃ between, after = between ++ events ∧ m.WroteOnly counter between) ∨
      ∃ before ticket workCounter,
        events = before ++ .acknowledged (some ticket) counter workCounter :: after ∧
        ∃ index deadline, .enqueued index ⟨ticket, false, deadline⟩ ∈ m.journal ++ before := by
  obtain ⟨before, ticket, workCounter, eq, writeOnly⟩ := wrote
  rw [journal] at eq
  rcases List.append_eq_append_iff.mp eq with ⟨new, rfl, split⟩ | ⟨old, split, rest⟩
  · exact .inr ⟨new, ticket, workCounter, split, writeOnly⟩
  · cases old with
    | nil =>
        rw [List.append_nil] at split
        subst split
        exact .inr ⟨[], ticket, workCounter, rest.symm, by simpa using writeOnly⟩
    | cons event between =>
        obtain ⟨rfl, rfl⟩ := List.cons_eq_cons.mp rest
        exact .inl ⟨between, rfl, before, ticket, workCounter, split, writeOnly⟩

theorem LateReplies.extend (h : m.LateReplies) (journal : m'.journal = m.journal ++ events)
    (others : ∀ ticket counter workCounter, .acknowledged ticket counter workCounter ∉ events)
    (keeps : ∀ counter after, Outstanding counter (after ++ events) → m.Expects counter after →
      m'.Expects counter (after ++ events)) : m'.LateReplies := by
  intro counter after wrote outstanding
  rcases wrote.split journal with ⟨between, rfl, old⟩ | ⟨before, ticket, workCounter, rfl, -⟩
  · exact keeps counter between outstanding (h counter between old outstanding.left)
  · exact absurd (by simp) (others (some ticket) counter workCounter)

theorem Expects.same (h : m.Expects counter after) (last : m'.counter = m.counter)
    (calm : m'.inFlight = m.inFlight) (consumed : m'.consumed = m.consumed)
    (none : ∀ ticket, .requeued ticket ∉ events) : m'.Expects counter (after ++ events) where
  last := last ▸ h.last
  sequenced := h.sequenced
  calm := calm.trans h.calm
  consumed := by
    rw [consumed, h.consumed, Requeues, Requeues]
    simp [none]

theorem LateReplies.same (h : m.LateReplies) (untouched : m.Untouched m') : m'.LateReplies := by
  have extended : m'.journal = m.journal ++ [] := by rw [untouched.journal, List.append_nil]
  refine h.extend extended (by simp) fun counter after _ expects => ?_
  exact expects.same untouched.counter untouched.inFlight untouched.consumed (by simp)

theorem Expects.fate_queued {message : Message} (expects : m.Expects counter after)
    (supported : m.slave.supported.supports message.header.protocol = true)
    (answers : message.header.counter = counter) (untouched : ¬Requeues after) :
    m.fate message = .queued := by
  have sequenced : message.header.counter ≠ SequenceCounter.unsequenced :=
    answers ▸ expects.sequenced
  have fresh : m.consumed = false := by
    rw [← Bool.not_eq_true, expects.consumed]
    exact untouched
  have last : m.counter.matchesLast message.header.counter = true := by
    simp [SequenceCounter.matchesLast, answers, expects.last, expects.sequenced]
  rw [fate, if_pos supported, if_neg sequenced, if_pos ⟨fresh, last⟩, awaited, expects.calm]
  simp

theorem Expects.route {c : Buffer} {message : Message} (expects : m.Expects counter after)
    (stock : Stock m.receivePool m.receiveQueues [c])
    (decoded : Message.decode? c.contents = .ok message)
    (supported : m.slave.supported.supports message.header.protocol = true)
    (answers : message.header.counter = counter) :
    (¬Requeues after → (m.route c).receiveQueues.entries =
        Function.update m.receiveQueues.entries message.header.protocol
          (m.receiveQueues.entries message.header.protocol ++ [c]) ∧
        (m.route c).statistics.staleDropped = m.statistics.staleDropped) ∧
      (Requeues after → (m.route c).receiveQueues = m.receiveQueues ∧
        (m.route c).statistics.staleDropped = m.statistics.staleDropped + 1) := by
  have sequenced : message.header.counter ≠ SequenceCounter.unsequenced :=
    answers ▸ expects.sequenced
  refine ⟨fun untouched => ?_, fun requeues => ?_⟩
  · rw [route_queued decoded (expects.fate_queued supported answers untouched)]
    obtain ⟨queues, eq, becomes, -⟩ := pushReceived_eq (m := { m with
      consumed := m.consumed || (message.header.counter != SequenceCounter.unsequenced)
      journal := m.journal ++ [MailboxEvent.routed message .queued]
      statistics := { m.statistics with
        messagesReceived := m.statistics.messagesReceived + 1 } }) stock message.header.protocol
    rw [eq]
    exact ⟨becomes.entries, rfl⟩
  · have dropped : m.fate message = .stale := by
      refine (fate_stale_iff supported sequenced).mpr fun wanted => ?_
      have fresh := wanted.1
      rw [expects.consumed.mpr requeues] at fresh
      cases fresh
    rw [route_stale decoded dropped]
    exact ⟨rfl, rfl⟩

theorem next_sequenced (c : SequenceCounter) : c.next.last ≠ SequenceCounter.unsequenced := by
  unfold SequenceCounter.next SequenceCounter.maximum SequenceCounter.unsequenced
  dsimp only
  split
  · decide
  case isFalse below =>
    intro zero
    have wrapped := congrArg UInt8.toNat zero
    rw [UInt8.toNat_add] at wrapped
    have small : c.last.toNat < 7 := by
      simpa [UInt8.not_le, UInt8.lt_iff_toNat_lt] using below
    simp at wrapped
    omega

theorem Acknowledges.split {ticket : Nat} {workCounter : UInt16} {before after : List MailboxEvent}
    {firings : List Firing} {more : List MailboxEvent} {other : Nat} {otherCounter : UInt16}
    (split : MailboxEvent.stamped (some ticket) m.counter.next.last ::
        MailboxEvent.acknowledged (some ticket) m.counter.next.last workCounter ::
        (firings.map MailboxEvent.fired ++ more) =
      before ++ .acknowledged (some other) counter otherCounter :: after)
    (others : ∀ ticket counter workCounter, .acknowledged ticket counter workCounter ∉ more) :
    other = ticket ∧ counter = m.counter.next.last ∧
      before = [.stamped (some ticket) m.counter.next.last] ∧
      after = firings.map MailboxEvent.fired ++ more := by
  cases before with
  | nil => cases split
  | cons first before =>
      obtain ⟨rfl, rest⟩ := List.cons_eq_cons.mp split
      cases before with
      | nil =>
          obtain ⟨same, rfl⟩ := List.cons_eq_cons.mp rest
          cases same
          exact ⟨rfl, rfl, rfl, rfl⟩
      | cons second before =>
          obtain ⟨rfl, tail⟩ := List.cons_eq_cons.mp rest
          have mem : MailboxEvent.acknowledged (some other) counter otherCounter ∈
              firings.map MailboxEvent.fired ++ more := by
            rw [tail]
            exact List.mem_append_right _ (List.mem_cons_self ..)
          rcases List.mem_append.mp mem with mem | mem
          · obtain ⟨firing, -, eq⟩ := List.mem_map.mp mem
            cases eq
          · exact absurd mem (others _ _ _)

theorem Accounts.writeOnly (h : m.Accounts) {index : Nat} {request : PendingRequest}
    {i deadline : Nat} {before : List MailboxEvent} (found : m.request? index = some request)
    (stamped : ∀ i r, MailboxEvent.enqueued i r ∉ before)
    (mem : MailboxEvent.enqueued i ⟨request.ticket, false, deadline⟩ ∈ m.journal ++ before) :
    request.expectsResponse = false := by
  have old : MailboxEvent.enqueued i ⟨request.ticket, false, deadline⟩ ∈ m.journal := by
    rcases List.mem_append.mp mem with mem | mem
    · exact mem
    · exact absurd mem (stamped _ _)
  have admitted : (i, ⟨request.ticket, false, deadline⟩) ∈ m.admissions :=
    List.mem_filterMap.mpr ⟨_, old, rfl⟩
  have same := h.unique (h.carried index request (.inl found)).1 admitted rfl
  rw [same.2]

theorem Effect.lateReplies (h : m.LateReplies) (accounts : m.Accounts)
    (effect : Effect now m m') : m'.LateReplies := by
  cases effect with
  | idle events undisturbed consumed journal unanswering =>
      refine h.extend journal (fun ticket counter workCounter mem => ?_)
        fun counter after _ expects =>
          expects.same undisturbed.counter undisturbed.inFlight consumed fun ticket mem => ?_
      · cases unanswering _ mem
      · cases unanswering _ mem
  | kept message undisturbed wanted sequenced calm consumed journal =>
      refine h.extend journal (by simp) fun counter after outstanding expects => ?_
      have refused := outstanding.2 message .queued (by simp)
        ((last_of_wanted wanted).trans expects.last)
      cases refused
  | ended flight outcome told awaiting flying cause same calm ready consumed counter journal =>
      refine h.extend (journal.trans (List.append_assoc ..))
        (fun ticket counter workCounter mem => by cases cause.ending _ mem)
        fun counter after _ expects => ?_
      have calm := expects.calm
      rw [flying] at calm
      cases calm
  | overdue index request ready found late removes inFlight handshake consumed counter journal =>
      refine h.extend journal (fun ticket counter workCounter mem => ?_)
        fun c after _ expects => expects.same counter inFlight consumed fun ticket mem => ?_
      · cases verdict_ending _ _ _ _ mem
      · cases verdict_ending _ _ _ _ mem
  | returned index request stamps ready found early same calm idle consumed journal stamping =>
      refine h.extend (journal.trans (List.append_assoc ..))
        (fun ticket counter workCounter mem => ?_) fun counter after outstanding expects => ?_
      · rcases stamping with ⟨rfl, -⟩ | ⟨rfl, -⟩ <;> simp at mem
      · rcases stamping with ⟨rfl, unstamped⟩ | ⟨rfl, -⟩
        · refine ⟨unstamped ▸ expects.last, expects.sequenced, calm, iff_of_true consumed ?_⟩
          exact ⟨request.ticket, by simp⟩
        · exact absurd (by simp) (outstanding.1 (some request.ticket) m.counter.next.last)
  | sent index request workCounter ready found early removes acknowledges counter fresh expects
      counted flying awaiting =>
      obtain ⟨firings, journal⟩ := acknowledges
      intro c after wrote outstanding
      rcases wrote.split journal with ⟨between, rfl, -⟩ |
        ⟨before, ticket, otherCounter, split, i, deadline, mem⟩
      · exact absurd (by simp) (outstanding.1 (some request.ticket) m.counter.next.last)
      · rw [← List.append_nil (firings.map MailboxEvent.fired)] at split
        obtain ⟨rfl, rfl, rfl, -⟩ := Acknowledges.split split (by simp)
        have writing := accounts.writeOnly found (by simp) mem
        rw [expects] at writing
        cases writing
  | written index request workCounter m₀ ready found early removes acknowledges counter fresh
      writing counted calm complete journal =>
      obtain ⟨firings, acknowledged⟩ := acknowledges
      rw [acknowledged, List.append_assoc] at journal
      intro c after wrote outstanding
      rcases wrote.split journal with ⟨between, rfl, -⟩ |
        ⟨before, ticket, otherCounter, split, i, deadline, mem⟩
      · exact absurd (by simp) (outstanding.1 (some request.ticket) m.counter.next.last)
      · obtain ⟨rfl, rfl, rfl, rfl⟩ := Acknowledges.split split
          fun t c w mem => by cases verdict_ending _ _ _ _ mem
        refine ⟨by rw [counter], next_sequenced _, calm, ?_⟩
        rw [fresh]
        refine iff_of_false (by simp) ?_
        rintro ⟨ticket, mem⟩
        rcases List.mem_append.mp mem with mem | mem
        · obtain ⟨firing, -, eq⟩ := List.mem_map.mp mem
          cases eq
        · cases verdict_ending _ _ _ _ mem

theorem Moves.lateReplies (h : m.LateReplies) (sound : m.Sound held) (moves : Moves now m m') :
    m'.LateReplies := by
  induction moves with
  | refl => exact h
  | tail moves move ih =>
      have between := Moves.sound sound moves
      exact (move.effect between.custody).2.1.lateReplies ih between.accounts

theorem Withdraws.lateReplies {g : Handle} {r : PendingRequest} (h : m.LateReplies)
    (withdraws : m.Withdraws g r m') : m'.LateReplies := by
  refine h.extend withdraws.journal (by simp) fun counter after _ expects => ?_
  have calm : m'.inFlight = m.inFlight := by
    rw [expects.calm]
    cases flying : m'.inFlight with
    | none => rfl
    | some flight =>
        have old := ((withdraws.drops.inFlight flight).mp flying).1
        rw [expects.calm] at old
        cases old
  exact expects.same withdraws.counter calm (withdraws.consumed expects.calm) (by simp)

end Mailbox

namespace Session

variable {s s' : Session}

theorem Step.lateReplies (h : s.mailbox.LateReplies) (sound : s.Sound) (step : Step s s')
    (opened : s'.mailbox.closed = false) : s'.mailbox.LateReplies := by
  cases step with
  | take take => exact h.same (Mailbox.takeSendBuffer_untouched take)
  | change left => exact h
  | giveBack left => exact h.same (Mailbox.putSend_untouched _ _)
  | @enqueue m left right pending b front expectsResponse deadline =>
      have mailbox : m.Sound (b :: (left ++ right)) := sound.mailbox.perm List.perm_middle.symm
      rcases Mailbox.enqueue_cases mailbox.custody front expectsResponse deadline with
        ⟨cause, eq⟩ | ⟨p, bs, sendQueues, perm, becomes, eq⟩
      · rw [eq]
        exact h.same (m.putSend_untouched b)
      · rw [eq]
        refine h.extend rfl (by simp) fun counter after _ expects => ?_
        exact expects.same rfl rfl rfl (by simp)
  | enqueueForeign front expectsResponse deadline foreign =>
      rw [Mailbox.enqueue_foreign foreign]
      exact h
  | @turn m held pending σ d device now =>
      exact (Mailbox.turn_moves d now m device).lateReplies h sound.mailbox
  | @wait m held left right g =>
      rcases Mailbox.settle_cases sound.mailbox g with eq | ⟨r, -, -, withdraws, -⟩
      · rw [eq]
        exact h
      · exact withdraws.lateReplies h
  | tryRead p => exact h.same (Mailbox.tryRead_untouched _ p)
  | requestRead p => exact h.same (Mailbox.requestRead_untouched _ p)
  | read p => exact h.same (Mailbox.read_untouched _ p)
  | scheduleRead => exact h.same (Mailbox.scheduleRead_untouched _)
  | close =>
      dsimp only at opened
      rw [close_closed] at opened
      cases opened

theorem Reachable.lateReplies (reached : s.Reachable) (opened : s.mailbox.closed = false) :
    s.mailbox.LateReplies := by
  obtain ⟨slave, config, sendId, receiveId, run⟩ := reached
  induction run with
  | refl =>
      rintro counter after ⟨before, ticket, workCounter, journal, -⟩
      exact absurd journal.symm (by simp [start, Mailbox.create])
  | tail run step ih =>
      have before := step.opened opened
      have sound : Session.Sound _ := Reachable.sound ⟨slave, config, sendId, receiveId, run⟩ before
      exact step.lateReplies (ih before) sound opened

end Session

/-! ## Reading a late reply -/

variable {σ : Type}

/-- The message that the next look at the read slot takes out of it. -/
def SlotDevice.received? (d : SlotDevice σ) (m : Mailbox) (device : σ) : Option Message :=
  match d.slotState m.slave m.slave.readSlot device with
  | (.ok .full, device) =>
      match m.receivePool.take? with
      | .error _ => none
      | .ok (b, _) =>
          let length := m.slave.readSlot.length.toNat
          match d.read m.slave (b.bytes.take length) device with
          | ((.error _, _), _) => none
          | ((.ok counter, bytes), _) =>
              if counter = 0 then none
              else (Message.decode?
                ((b.holding (bytes.take length)).withLength length).contents).toOption
  | _ => none

namespace Mailbox

/-- The turn at `now` looks at the read slot when the mailbox is `m` and the slave is `device`. -/
inductive Reading (d : SlotDevice σ) (now : Nat) (m₀ : Mailbox) : Mailbox → σ → Prop
  | first (device : σ) : m₀.closed = false → (m₀.expire now).readIsDue now = true →
      Reading d now m₀ { m₀.expire now with
        readScheduled := false
        nextPoll := some (now + (m₀.expire now).config.pollInterval) } device
  | next {m m' : Mailbox} {device device' : σ} : Reading d now m₀ m device →
      readOne d.transport m device = (.ok true, m', device') → Reading d now m₀ m' device'

theorem Reading.moves {d : SlotDevice σ} {m₀ m : Mailbox} {device : σ} {now : Nat}
    (reading : m₀.Reading d now m device) : Moves now m₀ m := by
  induction reading with
  | first device opened due => exact .tail (.single (.expire m₀)) (.schedule _ _)
  | next _ read ih => exact ih.trans (readOne_moves d now read)

theorem message_of_toOption {result : Except Error Message} {message : Message}
    (h : result.toOption = some message) : result = .ok message := by
  cases result with
  | error cause => cases h
  | ok other => rw [Option.some.inj h]

theorem readOne_received {d : SlotDevice σ} {m : Mailbox} {device : σ} {message : Message}
    (received : d.received? m device = some message) :
    ∃ b c receivePool, m.receivePool.take? = .ok (b, receivePool) ∧ c.index = b.index ∧
      c.pool = b.pool ∧ Message.decode? c.contents = .ok message ∧
      (readOne d.transport m device).2.1 =
        { m with receivePool, slotState := .empty }.route c := by
  unfold SlotDevice.received? at received
  unfold readOne SlotDevice.transport
  rcases hstate : d.slotState m.slave m.slave.readSlot device with ⟨cause | state, device₁⟩
  · simp [hstate] at received
  · cases state with
    | empty => simp [hstate] at received
    | full =>
        simp only [hstate] at received ⊢
        rcases htake : m.receivePool.take? with cause | ⟨b, receivePool⟩
        · simp [htake] at received
        · simp only [htake] at received ⊢
          rcases hread : d.read m.slave (b.bytes.take m.slave.readSlot.length.toNat) device₁ with
            ⟨⟨cause | counter, bytes⟩, device₂⟩
          · simp [hread] at received
          · simp only [hread] at received ⊢
            split at received
            · cases received
            case isFalse counted =>
              rw [if_neg counted]
              refine ⟨b, _, receivePool, rfl, ?_, ?_, message_of_toOption received, rfl⟩ <;> rfl

end Mailbox

namespace Session

open Mailbox (Reading WroteOnly Outstanding Requeues)

/-- The first reply to a request that was only written goes to the queue of its protocol if no
request went back to its queue since, and is dropped as stale otherwise. -/
theorem late_reply_kept_iff {s : Session} (reached : s.Reachable)
    (opened : s.mailbox.closed = false) {d : SlotDevice σ} {now : Nat} {m : Mailbox} {device : σ}
    (reading : s.mailbox.Reading d now m device) {counter : UInt8} {after : List MailboxEvent}
    (wrote : m.WroteOnly counter after) (outstanding : Outstanding counter after)
    {message : Message} (received : d.received? m device = some message)
    (supported : m.slave.supported.supports message.header.protocol = true)
    (answers : message.header.counter = counter) :
    let m' := (Mailbox.readOne d.transport m device).2.1
    (¬Requeues after → ∃ b, Message.decode? b.contents = .ok message ∧
        m'.receiveQueues.entries = Function.update m.receiveQueues.entries message.header.protocol
          (m.receiveQueues.entries message.header.protocol ++ [b]) ∧
        m'.statistics.staleDropped = m.statistics.staleDropped) ∧
      (Requeues after → m'.receiveQueues = m.receiveQueues ∧
        m'.statistics.staleDropped = m.statistics.staleDropped + 1) := by
  intro m'
  have sound := (reached.sound opened).mailbox
  have expects := (reading.moves.lateReplies (reached.lateReplies opened) sound) counter after wrote
    outstanding
  have shelved := (reading.moves.sound sound).shelved
  obtain ⟨b, c, receivePool, take, index, owner, decoded, eq⟩ := Mailbox.readOne_received received
  have stock := (Stock.take shelved take).change index owner
  have there : ({ m with receivePool, slotState := .empty } : Mailbox).Expects counter after :=
    ⟨expects.last, expects.sequenced, expects.calm, expects.consumed⟩
  have routed := there.route stock decoded supported answers
  rw [← eq] at routed
  exact ⟨fun untouched => ⟨c, decoded, routed.1 untouched⟩, routed.2⟩

/-! ## A reply to the first message -/

def lateReply : Message := ⟨⟨2, 0x1001, 0, 0, .coe, 1⟩, [0xAA, 0xBB]⟩

/-- A slave with a reply to the first message in its read slot, and with its write slot full. -/
def answering : SlotDevice Unit where
  slotState _ _ device := (.ok .full, device)
  write _ _ device := (.ok 0, device)
  read _ _ device := ((.ok 1, lateReply.encode), device)

def written : Session :=
  ⟨((cramped.submit .coe 0x1001 [1] false 1000000).2.turn mute.transport 0 ()).2.1, [],
    [⟨0, 0, 1000000⟩]⟩

theorem reachable_written : written.Reachable := by
  have start : Reachable ⟨cramped, [], []⟩ := reachable_start _ _ _ _
  have first := submit_reachable start (by decide +kernel :
    (cramped.submit .coe 0x1001 [1] false 1000000).1.toOption = some ⟨0, 0, 1000000⟩)
  exact first.run (.single (.turn mute () 0))

def polled (s : Session) (now : Nat) : Mailbox :=
  { s.mailbox.expire now with
    readScheduled := false
    nextPoll := some (now + (s.mailbox.expire now).config.pollInterval) }

theorem late_reply_kept_written : ∃ b, Message.decode? b.contents = .ok lateReply ∧
    (Mailbox.readOne answering.transport (polled written 10000) ()).2.1.receiveQueues.entries
      .coe = [b] := by
  have reading : written.mailbox.Reading answering 10000 (polled written 10000) () :=
    .first () (by decide +kernel) (by decide +kernel)
  have wrote : (polled written 10000).WroteOnly 1 [.resolved 0 (.ok (.written 1))] :=
    ⟨[.enqueued 0 ⟨0, false, 1000000⟩, .stamped (some 0) 1], 0, 1, by rfl, 0, 1000000, by simp⟩
  have received : answering.received? (polled written 10000) () = some lateReply := by
    decide +kernel
  have empty : (polled written 10000).receiveQueues.entries .coe = [] := by decide +kernel
  have protocol : lateReply.header.protocol = .coe := rfl
  obtain ⟨b, decoded, entries, -⟩ := (late_reply_kept_iff reachable_written (by decide +kernel)
    reading wrote ⟨by simp, by simp⟩ received (by decide +kernel) rfl).1 (by simp [Requeues])
  refine ⟨b, decoded, ?_⟩
  rw [entries, protocol, Function.update_self, empty, List.nil_append]

def refused : Session :=
  let queued := (written.mailbox.submit .coe 0x1001 [2] false 1000000).2
  ⟨(queued.turn answering.transport 0 ()).2.1, [], [⟨0, 1, 1000000⟩, ⟨0, 0, 1000000⟩]⟩

theorem reachable_refused : refused.Reachable := by
  have second := submit_reachable reachable_written (by decide +kernel :
    (written.mailbox.submit .coe 0x1001 [2] false 1000000).1.toOption = some ⟨0, 1, 1000000⟩)
  exact second.run (.single (.turn answering () 0))

/-- The reply to a request that was only written can be dropped as stale. -/
theorem exists_late_reply_dropped : ∃ (s : Session) (m : Mailbox) (after : List MailboxEvent),
    s.Reachable ∧ s.mailbox.closed = false ∧ s.mailbox.Reading answering 10000 m () ∧
      m.WroteOnly 1 after ∧ Outstanding 1 after ∧
      answering.received? m () = some lateReply ∧
      m.slave.supported.supports lateReply.header.protocol = true ∧
      lateReply.header.counter = 1 ∧
      (Mailbox.readOne answering.transport m ()).2.1.receiveQueues.entries .coe = [] ∧
      (Mailbox.readOne answering.transport m ()).2.1.statistics.staleDropped = 1 := by
  refine ⟨refused, polled refused 10000,
    [.resolved 0 (.ok (.written 1)), .enqueued 0 ⟨1, false, 1000000⟩, .requeued 1],
    reachable_refused, by decide +kernel, .first () (by decide +kernel) (by decide +kernel),
    ⟨[.enqueued 0 ⟨0, false, 1000000⟩, .stamped (some 0) 1], 0, 1, by rfl, 0, 1000000, by simp⟩,
    ⟨by simp, by simp⟩, by decide +kernel, by decide +kernel, rfl, by decide +kernel,
    by decide +kernel⟩

end Session

end Fieldbus
