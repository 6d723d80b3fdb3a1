import Fieldbus.Proofs.Mailbox.Histories

/-!
# Looks at the read slot

A turn that looks at the read slot looks again for as long as it takes messages out of it. A look
takes one message at most, and for that it has taken a buffer out of the receive pool. What a turn
does afterwards concerns only what it sends. `Glance` and `Sending` are what the deeds of a turn do
in these two parts: they also tell which call reads a message, and into which buffer.
-/

namespace Fieldbus

def Call.failed (c : Call) : Bool :=
  match c.access with
  | .look _ (.error _) | .write _ (.error _) | .read _ (.error _) _ => true
  | _ => false

namespace Mailbox

/-- One look at the read slot, and whether it takes a message. -/
inductive Glance (m : Mailbox) : List Call → Bool → Mailbox → Prop
  | failed (cause : Error) : Glance m [⟨m, .look m.slave.readSlot (.error cause)⟩] false m
  | empty : Glance m [⟨m, .look m.slave.readSlot (.ok .empty)⟩] false
      { m with slotState := .empty }
  | exhausted {cause : Error} : m.receivePool.take? = .error cause →
      Glance m [⟨m, .look m.slave.readSlot (.ok .full)⟩] false { m with slotState := .full }
  | spared {b : Buffer} {receivePool : Pool} (result : Except Error UInt16) (after : Bytes) :
      m.receivePool.take? = .ok (b, receivePool) →
      (m.readCall receivePool b result after).exchange? = none →
      Glance m [⟨m, .look m.slave.readSlot (.ok .full)⟩, m.readCall receivePool b result after]
        false ({ m with slotState := .full, receivePool }.putReceive
          (b.holding (after.take m.slave.readSlot.length.toNat)))
  | taken {b : Buffer} {receivePool : Pool} {counter : UInt16} (after : Bytes) :
      m.receivePool.take? = .ok (b, receivePool) → counter ≠ 0 →
      Glance m [⟨m, .look m.slave.readSlot (.ok .full)⟩,
        m.readCall receivePool b (.ok counter) after] true
        ({ m with receivePool, slotState := .empty }.route
          ((b.holding (after.take m.slave.readSlot.length.toNat)).withLength
            m.slave.readSlot.length.toNat))

inductive Glances : Nat → Mailbox → List Call → Mailbox → Prop
  | stop (m : Mailbox) : Glances 0 m [] m
  | last {m m' : Mailbox} {calls : List Call} : Glance m calls false m' → Glances 0 m calls m'
  | more {m m₁ m' : Mailbox} {n : Nat} {calls later : List Call} :
      Glance m calls true m₁ → Glances n m₁ later m' → Glances (n + 1) m (calls ++ later) m'

variable {m m' : Mailbox} {held : List Buffer} {now n : Nat} {calls : List Call} {took : Bool}

theorem Glance.deeds (now : Nat) (glance : Glance m calls took m') : Deeds now m calls m' := by
  cases glance with
  | failed => exact (deed_look now m m.slotState _ _).deeds
  | empty => exact (deed_look now m .empty _ _).deeds
  | exhausted => exact (deed_look now m .full _ _).deeds
  | spared result after take idle =>
      exact .tail (deed_look now m .full _ _).deeds (deed_spare take after now idle)
  | taken after take counted => exact (deed_receive take after now counted).deeds

theorem Glance.reads (glance : Glance m calls took m') : ∀ call ∈ calls, call.isWrite = false := by
  cases glance <;> simp [Call.isWrite, readCall]

theorem Glance.head (glance : Glance m calls took m') :
    ∃ result later, calls = ⟨m, .look m.slave.readSlot result⟩ :: later := by
  cases glance <;> exact ⟨_, _, rfl⟩

theorem Glances.head (glances : Glances n m calls m') (looked : calls ≠ []) :
    ∃ result later, calls = ⟨m, .look m.slave.readSlot result⟩ :: later := by
  cases glances with
  | stop => exact absurd rfl looked
  | last glance => exact glance.head
  | more glance _ =>
      obtain ⟨result, later, rfl⟩ := glance.head
      exact ⟨result, _, rfl⟩

theorem Glances.deeds (now : Nat) (glances : Glances n m calls m') : Deeds now m calls m' := by
  induction glances with
  | stop m => exact .refl m
  | last glance => exact glance.deeds now
  | more glance _ ih => exact (glance.deeds now).trans ih

theorem Glance.reached (glance : Glance m calls true m') : calls.any Call.failed = false := by
  cases glance with
  | taken => rfl

theorem Glances.reads (glances : Glances n m calls m') :
    ∀ call ∈ calls, call.isWrite = false := by
  induction glances with
  | stop => exact List.forall_mem_nil _
  | last glance => exact glance.reads
  | more glance _ ih =>
      intro call mem
      exact (List.mem_append.mp mem).elim (glance.reads call) (ih call)

theorem Glance.handshake (glance : Glance m calls took m') :
    ∀ call ∈ calls, call.mailbox.handshake = m.handshake := by
  cases glance <;> simp [readCall]

theorem Glances.settled (sound : m.Sound held) (glances : Glances n m calls m') :
    ∀ call ∈ calls, call.mailbox.handshake ≠ .sendPending ∧
      call.mailbox.handshake ≠ .awaitEcho := by
  induction glances with
  | stop => exact List.forall_mem_nil _
  | last glance =>
      intro call mem
      rw [glance.handshake call mem]
      exact sound.rest.settled
  | more glance _ ih =>
      intro call mem
      rcases List.mem_append.mp mem with mem | mem
      · rw [glance.handshake call mem]
        exact sound.rest.settled
      · exact ih ((glance.deeds 0).moves.sound sound) call mem

/-! ## Polls -/

variable {σ : Type}

theorem readOne_glance (d : SlotDevice σ) (m : Mailbox) (log : List Call) (s : σ) :
    ∃ calls took, (readOne d.transport.noting m (log, s)).2.2.1 = log ++ calls ∧
      Glance m calls took (readOne d.transport.noting m (log, s)).2.1 ∧
      ((readOne d.transport.noting m (log, s)).1 = .ok true ↔ took = true) ∧
      (calls.any Call.failed = false →
        ∃ answer, (readOne d.transport.noting m (log, s)).1 = .ok answer) := by
  unfold readOne
  rcases hstate : d.slotState m.slave m.slave.readSlot s with ⟨cause | state, s₁⟩
  · rw [noting_slotState (transport_slotState hstate)]
    exact ⟨_, false, rfl, .failed cause, by simp, by simp [Call.failed]⟩
  · rw [noting_slotState (transport_slotState hstate)]
    cases state with
    | empty => exact ⟨_, false, rfl, .empty, by simp, by simp⟩
    | full =>
        rcases take : m.receivePool.take? with cause | ⟨b, receivePool⟩
        · simp only [take]
          exact ⟨_, false, rfl, .exhausted take, by simp, by simp⟩
        · rcases hread : d.read m.slave (b.bytes.take m.slave.readSlot.length.toNat) s₁ with
            ⟨⟨result, after⟩, s₂⟩
          have read := noting_read
            (transport_read (m := { m with slotState := .full, receivePool }) hread)
            (log ++ [⟨m, .look m.slave.readSlot (.ok .full)⟩])
          simp only [take, read]
          rcases result with cause | counter
          · exact ⟨_, false, List.append_assoc .., .spared (.error cause) after take rfl, by simp,
              by simp [Call.failed]⟩
          · by_cases none : counter = 0
            · simp only [if_pos none]
              have idle : (m.readCall receivePool b (.ok counter) after).exchange? = .none := by
                simp [Call.exchange?, readCall, none]
              exact ⟨_, false, List.append_assoc .., .spared (.ok counter) after take idle, by simp,
                by simp⟩
            · simp only [if_neg none]
              exact ⟨_, true, List.append_assoc .., .taken after take none, by simp, by simp⟩

theorem readMany_glances (d : SlotDevice σ) (fuel : Nat) (m : Mailbox) (log : List Call) (s : σ) :
    ∃ n calls, n ≤ fuel ∧ (0 < fuel → calls ≠ []) ∧
      (readMany d.transport.noting fuel m (log, s)).2.2.1 = log ++ calls ∧
      Glances n m calls (readMany d.transport.noting fuel m (log, s)).2.1 ∧
      (calls.any Call.failed = false →
        (readMany d.transport.noting fuel m (log, s)).1 = .ok ()) := by
  induction fuel generalizing m log s with
  | zero =>
      exact ⟨0, [], Nat.le_refl 0, fun none => absurd none (Nat.lt_irrefl 0),
        (List.append_nil log).symm, .stop m, fun _ => rfl⟩
  | succ fuel ih =>
      obtain ⟨calls, took, logged, glance, answer, reached⟩ := readOne_glance d m log s
      have looked : calls ≠ [] := by
        obtain ⟨result, later, rfl⟩ := glance.head
        exact List.cons_ne_nil _ _
      rw [readMany]
      rcases hread : readOne d.transport.noting m (log, s) with ⟨cause | taken, m₁, log₁, s₁⟩ <;>
        rw [hread] at logged glance answer reached
      · have none : took = false := by simpa using answer
        subst none
        exact ⟨0, calls, Nat.zero_le _, fun _ => looked, logged, .last glance,
          fun unfailed => by simpa using reached unfailed⟩
      · cases taken with
        | false =>
            have none : took = false := by simpa using answer
            subst none
            exact ⟨0, calls, Nat.zero_le _, fun _ => looked, logged, .last glance, fun _ => rfl⟩
        | true =>
            have one : took = true := answer.mp rfl
            subst one
            obtain ⟨n, later, fewer, -, logged', glances, reached'⟩ := ih m₁ log₁ s₁
            refine ⟨n + 1, calls ++ later, Nat.succ_le_succ fewer, fun _ => by simp [looked],
              logged'.trans ?_, .more glance glances, fun unfailed => reached' ?_⟩
            · rw [show log₁ = log ++ calls from logged, List.append_assoc]
            · rw [List.any_append, Bool.or_eq_false_iff] at unfailed
              exact unfailed.2

/-! ## What is sent after reading -/

theorem Unread.trans {m'' : Mailbox} (h : m.Unread m') (h' : m'.Unread m'') : m.Unread m'' where
  queues := h'.queues.trans h.queues
  pool := h'.pool.trans h.pool
  received := h'.received.trans h.received
  stale := h'.stale.trans h.stale

theorem expire_unread (m : Mailbox) (now : Nat) : m.Unread (m.expire now) := by
  rcases m.expire_cases now with eq | ⟨flight, -, -, -, eq⟩ <;> rw [eq] <;>
    exact ⟨rfl, rfl, rfl, rfl⟩

theorem requeue_unread (m : Mailbox) (p : Protocol) (b : Buffer) : m.Unread (m.requeue p b) := by
  rcases m.requeue_cases p b with eq | ⟨flight, -, eq⟩ | ⟨flight, sendQueues, -, -, eq⟩ <;>
    rw [eq] <;> exact ⟨rfl, rfl, rfl, rfl⟩

theorem acknowledge_unread (m : Mailbox) (b : Buffer) (workCounter : UInt16) :
    m.Unread (m.acknowledge b workCounter) := by
  rcases m.acknowledge_cases b workCounter with
    ⟨handshake, eq⟩ | ⟨flight, -, eq⟩ | ⟨flight, -, eq⟩ <;> rw [eq] <;>
    exact ⟨rfl, rfl, rfl, rfl⟩

theorem takeNextWithin_unread (now fuel : Nat) (m : Mailbox) :
    m.Unread (takeNextWithin now fuel m).2 := by
  induction fuel generalizing m with
  | zero => exact .refl m
  | succ fuel ih =>
      rw [takeNextWithin]
      split
      · exact .refl m
      case h_2 p b sendQueues _ =>
        dsimp only
        split
        · have first : m.Unread ({ m with sendQueues }.putSend b) := ⟨rfl, rfl, rfl, rfl⟩
          exact first.trans (ih _)
        case h_2 request _ =>
          split
          · refine Unread.trans ?_ (ih _)
            rw [resolve_eq]
            exact ⟨rfl, rfl, rfl, rfl⟩
          · exact ⟨rfl, rfl, rfl, rfl⟩

theorem sendNext_unread (d : SlotDevice σ) (now : Nat) (m : Mailbox) (s : σ) :
    m.Unread (sendNext d.transport now m s).2.1 := by
  have chosen : m.Unread (m.takeNext now).2 := by
    unfold takeNext
    split
    · exact takeNextWithin_unread ..
    · exact .refl m
  unfold sendNext
  rcases hnext : m.takeNext now with ⟨_ | ⟨p, b⟩, m₁⟩ <;> rw [hnext] at chosen
  · exact chosen
  · refine chosen.trans ?_
    dsimp only
    rcases hstate : d.slotState m₁.slave m₁.slave.writeSlot s with ⟨cause | state, s₁⟩ <;>
      rw [transport_slotState hstate]
    · exact requeue_unread m₁ p b
    · cases state with
      | full => exact requeue_unread m₁ p b
      | empty =>
          have noted := writeRepeatedly_noting d.transport ((m₁.stamp b).1.bytes.take
            (m₁.stamp b).2.slave.writeSlot.length.toNat)
            (max (m₁.stamp b).2.config.writeAttempts.toNat 1) 0 (m₁.stamp b).2 [] s₁
          obtain ⟨calls, written, s', eq, -⟩ := writeRepeatedly_attempted d
            ((m₁.stamp b).1.bytes.take (m₁.stamp b).2.slave.writeSlot.length.toNat)
            (max (m₁.stamp b).2.config.writeAttempts.toNat 1) 0 (m₁.stamp b).2 [] s₁
          rw [eq] at noted
          dsimp only [writeMessage]
          rw [← noted]
          have stamped : m₁.Unread ((m₁.stamp b).2.retried written.failures) := ⟨rfl, rfl, rfl, rfl⟩
          rcases written with ⟨failures, cause | _ | workCounter⟩
          · exact stamped.trans (requeue_unread ..)
          · exact stamped.trans (requeue_unread ..)
          · exact stamped.trans (acknowledge_unread ..)

/-- The calls after reading, and what becomes of the mailbox. -/
inductive Sending (d : SlotDevice σ) (now : Nat) (m : Mailbox) : List Call → Mailbox → Prop
  | failed : Sending d now m [] m
  | next {log sent : List Call} (s : σ) :
      (sendNext d.transport.noting now m (log, s)).2.2.1 = log ++ sent →
      Sending d now m sent (sendNext d.transport now m s).2.1

theorem sendNext_mailbox (d : SlotDevice σ) (now : Nat) (m : Mailbox) (log : List Call) (s : σ) :
    (sendNext d.transport.noting now m (log, s)).2.1 = (sendNext d.transport now m s).2.1 := by
  rw [← sendNext_noting d.transport now m log s]
  rfl

theorem Sending.deeds {d : SlotDevice σ} (sending : m.Sending d now calls m') :
    Deeds now m calls m' := by
  cases sending with
  | failed => exact .refl m
  | @next log _ s logged =>
      obtain ⟨m₀, sent, path, again, final⟩ := sendNext_deeds d now m log s
      rw [sendNext_mailbox] at final
      rw [List.append_cancel_left (logged.symm.trans again)]
      rcases final with ⟨rfl, eq⟩ | deed
      · rwa [eq]
      · exact .tail path deed

theorem Sending.unread {d : SlotDevice σ} (sending : m.Sending d now calls m') : m.Unread m' := by
  cases sending with
  | failed => exact .refl m
  | next s => exact sendNext_unread d now m s

def Sends (d : SlotDevice σ) (now : Nat) (m : Mailbox) (sent : List Call) (m' : Mailbox) : Prop :=
  ∃ log s, (sendNext d.transport.noting now m (log, s)).2.2.1 = log ++ sent ∧
    m' = (sendNext d.transport now m s).2.1

/-- The call looks at the write slot for the request that was chosen, or writes its message. -/
def Serves (m : Mailbox) (b : Buffer) (call : Call) : Prop :=
  (∃ result, call = ⟨m, .look m.slave.writeSlot result⟩) ∨
    ∃ result, call = ⟨(m.stamp b).2,
      .write ((m.stamp b).1.bytes.take m.slave.writeSlot.length.toNat) result⟩

theorem sendNext_serves (d : SlotDevice σ) (now : Nat) (m : Mailbox) (log : List Call) (s : σ) :
    ∃ sent, (sendNext d.transport.noting now m (log, s)).2.2.1 = log ++ sent ∧
      (sent = [] ∨ ∃ m₀ p b m₁, Deeds now m [] m₀ ∧ m₀.Picks now p b m₁ ∧
        ∀ call ∈ sent, m₁.Serves b call) := by
  have chosen := takeNext_chosen now m
  unfold sendNext
  rcases hnext : m.takeNext now with ⟨_ | ⟨p, b⟩, m₁⟩ <;> rw [hnext] at chosen
  · exact ⟨[], (List.append_nil log).symm, .inl rfl⟩
  · obtain ⟨m₀, path, picks⟩ := chosen
    dsimp only
    have looked (result : Except Error SlotState) :
        ∀ call ∈ [(⟨m₁, .look m₁.slave.writeSlot result⟩ : Call)], m₁.Serves b call := by
      simp [Serves]
    rcases hstate : d.slotState m₁.slave m₁.slave.writeSlot s with ⟨cause | state, s₁⟩ <;>
      rw [noting_slotState (transport_slotState hstate)]
    · exact ⟨_, rfl, .inr ⟨m₀, p, b, m₁, path, picks, looked _⟩⟩
    · cases state with
      | full => exact ⟨_, rfl, .inr ⟨m₀, p, b, m₁, path, picks, looked _⟩⟩
      | empty =>
          obtain ⟨calls, written, s', eq, attempted, -⟩ := writeRepeatedly_attempted d
            ((m₁.stamp b).1.bytes.take (m₁.stamp b).2.slave.writeSlot.length.toNat)
            (max (m₁.stamp b).2.config.writeAttempts.toNat 1) 0 (m₁.stamp b).2
            (log ++ [⟨m₁, .look m₁.slave.writeSlot (.ok .empty)⟩]) s₁
          refine ⟨⟨m₁, .look m₁.slave.writeSlot (.ok .empty)⟩ :: calls, ?_,
            .inr ⟨m₀, p, b, m₁, path, picks, fun call mem => ?_⟩⟩
          · dsimp only [writeMessage]
            rw [eq]
            rcases written with ⟨failures, cause | _ | workCounter⟩ <;>
              exact List.append_assoc ..
          · rcases List.mem_cons.mp mem with rfl | mem
            · exact looked _ _ (List.mem_singleton_self _)
            · exact .inr (attempted.writes call mem)

theorem Sending.serves {d : SlotDevice σ} (sending : m.Sending d now calls m') :
    calls = [] ∨ ∃ m₀ p b m₁, Deeds now m [] m₀ ∧ m₀.Picks now p b m₁ ∧
      ∀ call ∈ calls, m₁.Serves b call := by
  cases sending with
  | failed => exact .inl rfl
  | @next log _ s logged =>
      obtain ⟨sent, again, serves⟩ := sendNext_serves d now m log s
      rw [List.append_cancel_left (logged.symm.trans again)]
      exact serves

theorem Sending.serving {d : SlotDevice σ} {call : Call} (sending : m.Sending d now calls m')
    (mem : call ∈ calls) : ∃ (m₁ : Mailbox) (b : Buffer), m₁.Serves b call := by
  rcases sending.serves with none | ⟨-, -, b, m₁, -, -, serves⟩
  · rw [none] at mem
    cases mem
  · exact ⟨m₁, b, serves call mem⟩

/-! ## A turn and its parts -/

def outset (m : Mailbox) (now : Nat) : Mailbox :=
  let m := m.expire now
  if m.readIsDue now then
    { m with readScheduled := false, nextPoll := some (now + m.config.pollInterval) }
  else m

theorem outset_deeds (m : Mailbox) (now : Nat) : Deeds now m [] (m.outset now) := by
  have expired : Deed now m [] (m.expire now) :=
    .mute (.expire m) (mute_expire m now) (List.forall_mem_nil _)
  unfold outset
  dsimp only
  split
  · have scheduled : Deed now (m.expire now) [] { m.expire now with
        readScheduled := false, nextPoll := some (now + (m.expire now).config.pollInterval) } :=
      .mute (.schedule ..) (.of_journal rfl rfl) (List.forall_mem_nil _)
    exact expired.deeds.trans scheduled.deeds
  · exact expired.deeds

theorem outset_unread (m : Mailbox) (now : Nat) : m.Unread (m.outset now) := by
  unfold outset
  dsimp only
  split
  · exact (expire_unread m now).trans ⟨rfl, rfl, rfl, rfl⟩
  · exact expire_unread m now

theorem poll_glances (d : SlotDevice σ) (now : Nat) (m : Mailbox) (s : σ) :
    ∃ n calls, n ≤ m.receivePool.capacity ∧
      ((m.expire now).readIsDue now = true → 0 < m.receivePool.capacity → calls ≠ []) ∧
      (poll d.transport.noting now (m.expire now) ([], s)).2.2.1 = calls ∧
      Glances n (m.outset now) calls (poll d.transport.noting now (m.expire now) ([], s)).2.1 ∧
      (calls.any Call.failed = false →
        (poll d.transport.noting now (m.expire now) ([], s)).1 = .ok ()) := by
  unfold poll outset
  dsimp only
  split
  case isTrue due =>
    obtain ⟨n, calls, bounded, looked, logged, glances, reached⟩ := readMany_glances d
      (m.expire now).receivePool.capacity { m.expire now with
        readScheduled := false, nextPoll := some (now + (m.expire now).config.pollInterval) } [] s
    rw [(expire_unread m now).pool] at bounded looked
    exact ⟨n, calls, bounded, fun _ => looked, logged, glances, reached⟩
  case isFalse idle =>
    exact ⟨0, [], Nat.zero_le _, fun due => absurd due idle, rfl, .stop _, fun _ => rfl⟩

/-- A turn reads first, and then it sends unless it failed to read. -/
theorem turn_looks (opened : m.closed = false) (d : SlotDevice σ) (now : Nat) (s : σ) :
    ∃ n m₁ polled sent, m.calls d now s = polled ++ sent ∧ n ≤ m.receivePool.capacity ∧
      ((m.expire now).readIsDue now = true → 0 < m.receivePool.capacity → polled ≠ []) ∧
      Glances n (m.outset now) polled m₁ ∧
      m₁.Sending d now sent (m.turn d.transport now s).2.1 ∧
      (polled.any Call.failed = false → m₁.Sends d now sent (m.turn d.transport now s).2.1) := by
  have noted := turn_noting d.transport now m [] s
  have mailbox : (m.turn d.transport now s).2.1 = (m.turn d.transport.noting now ([], s)).2.1 := by
    rw [← noted]
    rfl
  obtain ⟨n, calls, bounded, looked, logged, glances, reached⟩ := poll_glances d now m s
  rw [mailbox]
  unfold Mailbox.calls turn
  rw [if_neg (by simp [opened])]
  rcases hpoll : poll d.transport.noting now (m.expire now) ([], s) with
    ⟨cause | _, m₁, log, s₁⟩ <;> rw [hpoll] at logged glances reached <;>
    dsimp only at logged glances
  · exact ⟨n, m₁, calls, [], logged.trans (List.append_nil _).symm, bounded, looked, glances,
      .failed, fun unfailed => by simpa using reached unfailed⟩
  · obtain ⟨sent, sending, -⟩ := sendNext_serves d now m₁ log s₁
    refine ⟨n, m₁, calls, sent, sending.trans (logged ▸ rfl), bounded, looked, glances, ?_,
      fun _ => ⟨log, s₁, sending, sendNext_mailbox d now m₁ log s₁⟩⟩
    dsimp only
    rw [sendNext_mailbox]
    exact .next s₁ sending

theorem turn_parts (opened : m.closed = false) (d : SlotDevice σ) (now : Nat) (s : σ) :
    ∃ n m₀ m₁ polled sent, m.calls d now s = polled ++ sent ∧ Deeds now m [] m₀ ∧ m.Unread m₀ ∧
      n ≤ m₀.receivePool.capacity ∧ Glances n m₀ polled m₁ ∧
      m₁.Sending d now sent (m.turn d.transport now s).2.1 := by
  obtain ⟨n, m₁, polled, sent, split, bounded, -, glances, sending, -⟩ := turn_looks opened d now s
  have unread := m.outset_unread now
  exact ⟨n, m.outset now, m₁, polled, sent, split, m.outset_deeds now, unread,
    unread.pool ▸ bounded, glances, sending⟩

end Mailbox

end Fieldbus
