import Fieldbus.Proofs.Mailbox.Journal

/-!
# What becomes of a message that was read

`Mailbox.fate` decides between keeping a message, answering with it and dropping it. Only an answer
touches the request in flight, and nothing that was read touches the requests that wait.
-/

namespace Fieldbus.Mailbox

def Wanted (m : Mailbox) (message : Message) : Prop :=
  m.consumed = false ∧ m.counter.matchesLast message.header.counter = true

instance (m : Mailbox) (message : Message) : Decidable (m.Wanted message) :=
  inferInstanceAs (Decidable (_ ∧ _))

theorem last_of_wanted {m : Mailbox} {message : Message} (wanted : m.Wanted message) :
    message.header.counter = m.counter.last :=
  beq_iff_eq.mp (Bool.and_eq_true_iff.mp wanted.2).2

def awaited (m : Mailbox) : Option InFlight :=
  if m.handshake = .awaitResponse then m.inFlight else none

def fate (m : Mailbox) (message : Message) : Fate :=
  if m.slave.supported.supports message.header.protocol then
    if message.header.counter = SequenceCounter.unsequenced then .queued
    else if m.Wanted message then
      match m.awaited with
      | some flight => .answered flight.request.ticket
      | none => .queued
    else .stale
  else .unsupported

theorem fate_unsequenced {m : Mailbox} {message : Message}
    (supported : m.slave.supported.supports message.header.protocol = true)
    (unsequenced : message.header.counter = SequenceCounter.unsequenced) :
    m.fate message = .queued := by
  rw [fate, if_pos supported, if_pos unsequenced]

theorem fate_stale_iff {m : Mailbox} {message : Message}
    (supported : m.slave.supported.supports message.header.protocol = true)
    (sequenced : message.header.counter ≠ SequenceCounter.unsequenced) :
    m.fate message = .stale ↔ ¬m.Wanted message := by
  rw [fate, if_pos supported, if_neg sequenced]
  by_cases wanted : m.Wanted message
  · rw [if_pos wanted]
    cases m.awaited <;> simp [wanted]
  · simp [wanted]

theorem wanted_of_fate {m : Mailbox} {message : Message}
    (sequenced : message.header.counter ≠ SequenceCounter.unsequenced)
    (accepted : m.fate message = .queued ∨ ∃ ticket, m.fate message = .answered ticket) :
    m.Wanted message := by
  by_contra unwanted
  rw [fate, if_neg sequenced, if_neg unwanted] at accepted
  split at accepted <;> simp at accepted

theorem fate_answered {m : Mailbox} {message : Message} {ticket : Nat}
    (h : m.fate message = .answered ticket) :
    ∃ flight, m.handshake = .awaitResponse ∧ m.inFlight = some flight ∧
      flight.request.ticket = ticket ∧ m.Wanted message ∧
      message.header.counter ≠ SequenceCounter.unsequenced := by
  rw [fate] at h
  split at h
  · split at h
    · cases h
    case isFalse sequenced =>
      split at h
      case isTrue wanted =>
        unfold awaited at h
        split at h
        case h_1 flight awaits =>
          split at awaits
          case isTrue awaiting =>
            exact ⟨flight, awaiting, awaits, Fate.answered.inj h, wanted, sequenced⟩
          · cases awaits
        · cases h
      · cases h
  · cases h

theorem awaited_of_queued {m : Mailbox} {message : Message} (h : m.fate message = .queued)
    (sequenced : message.header.counter ≠ SequenceCounter.unsequenced) : m.awaited = none := by
  rw [fate, if_neg sequenced] at h
  split at h
  · split at h
    · split at h
      · cases h
      · assumption
    · cases h
  · cases h

/-! ## Routing -/

theorem route_garbled {m : Mailbox} {b : Buffer} {cause : Error}
    (h : Message.decode? b.contents = .error cause) :
    m.route b = ({ m with
      journal := m.journal ++ [MailboxEvent.garbled b.contents]
      statistics := { m.statistics with
        invalidDropped := m.statistics.invalidDropped + 1 } }).putReceive b := by
  rw [route, h]
  rfl

theorem route_unsupported {m : Mailbox} {b : Buffer} {message : Message}
    (h : Message.decode? b.contents = .ok message) (dropped : m.fate message = .unsupported) :
    m.route b = ({ m with
      journal := m.journal ++ [MailboxEvent.routed message .unsupported]
      statistics := { m.statistics with
        invalidDropped := m.statistics.invalidDropped + 1 } }).putReceive b := by
  have unsupported : ¬m.slave.supported.supports message.header.protocol = true := by
    intro supported
    rw [fate, if_pos supported] at dropped
    split at dropped
    · cases dropped
    · split at dropped
      · split at dropped <;> cases dropped
      · cases dropped
  simp only [route, h, if_neg unsupported]
  rfl

theorem supported_of_fate {m : Mailbox} {message : Message}
    (h : m.fate message ≠ .unsupported) :
    m.slave.supported.supports message.header.protocol = true := by
  by_contra unsupported
  exact h (by rw [fate, if_neg unsupported])

theorem route_stale {m : Mailbox} {b : Buffer} {message : Message}
    (h : Message.decode? b.contents = .ok message) (dropped : m.fate message = .stale) :
    m.route b = ({ m with
      journal := m.journal ++ [MailboxEvent.routed message .stale]
      statistics := { m.statistics with
        messagesReceived := m.statistics.messagesReceived + 1
        staleDropped := m.statistics.staleDropped + 1 } }).putReceive b := by
  have supported := supported_of_fate (by rw [dropped]; simp : m.fate message ≠ .unsupported)
  have sequenced : message.header.counter ≠ SequenceCounter.unsequenced := by
    intro unsequenced
    rw [fate_unsequenced supported unsequenced] at dropped
    cases dropped
  have unwanted := (fate_stale_iff supported sequenced).mp dropped
  have stale : (m.consumed || !m.counter.matchesLast message.header.counter) = true := by
    simp only [Wanted, not_and] at unwanted
    cases hc : m.consumed <;> simp_all
  simp only [route, h, supported, if_true, deliver, tally, if_neg sequenced, stale]
  rfl

theorem route_queued {m : Mailbox} {b : Buffer} {message : Message}
    (h : Message.decode? b.contents = .ok message) (kept : m.fate message = .queued) :
    m.route b = ({ m with
      consumed := m.consumed || (message.header.counter != SequenceCounter.unsequenced)
      journal := m.journal ++ [MailboxEvent.routed message .queued]
      statistics := { m.statistics with
        messagesReceived := m.statistics.messagesReceived + 1 } }).pushReceived
          message.header.protocol b := by
  have supported := supported_of_fate (by rw [kept]; simp : m.fate message ≠ .unsupported)
  by_cases unsequenced : message.header.counter = SequenceCounter.unsequenced
  · simp only [route, h, supported, if_true, deliver, unsequenced, bne_self_eq_false,
      Bool.or_false]
    rfl
  · have wanted := wanted_of_fate unsequenced (.inl kept)
    have calm := awaited_of_queued kept unsequenced
    have fresh : (m.consumed || !m.counter.matchesLast message.header.counter) = false := by
      simp [wanted.1, wanted.2]
    have used : (m.consumed || message.header.counter != SequenceCounter.unsequenced) = true := by
      simp [unsequenced]
    rw [used]
    unfold awaited at calm
    by_cases awaiting : m.handshake = .awaitResponse
    · rw [if_pos awaiting] at calm
      simp only [route, h, supported, if_true, deliver, tally, if_neg unsequenced, fresh,
        Bool.false_eq_true, if_false, awaiting, calm]
      rfl
    · simp only [route, h, supported, if_true, deliver, tally, if_neg unsequenced, fresh,
        Bool.false_eq_true, if_false, awaiting]
      rfl

theorem route_answered {m : Mailbox} {b : Buffer} {message : Message} {flight : InFlight}
    (h : Message.decode? b.contents = .ok message)
    (awaiting : m.handshake = .awaitResponse) (flying : m.inFlight = some flight)
    (answers : m.fate message = .answered flight.request.ticket) :
    ∃ m₀, Unmoved m m₀ ∧ m.route b = ({ m with
      consumed := true
      inFlight := none
      handshake := .complete
      journal := m₀.journal ++ m₀.verdict flight.request.ticket
        (.ok (.response flight.workCounter message))
      statistics := { m.statistics with
        messagesReceived := m.statistics.messagesReceived + 1 } }).putReceive b ∧
      m₀.journal = m.journal ++ [.routed message (.answered flight.request.ticket)] := by
  have supported := supported_of_fate (by rw [answers]; simp : m.fate message ≠ .unsupported)
  obtain ⟨-, -, -, -, wanted, sequenced⟩ := fate_answered answers
  have fresh : (m.consumed || !m.counter.matchesLast message.header.counter) = false := by
    simp [wanted.1, wanted.2]
  refine ⟨{ m with
    consumed := true
    inFlight := none
    handshake := .complete
    journal := m.journal ++ [MailboxEvent.routed message (.answered flight.request.ticket)]
    statistics := { m.statistics with
      messagesReceived := m.statistics.messagesReceived + 1 } }, ?_, ?_, rfl⟩
  · exact .of_quiet rfl fun _ mem => List.mem_singleton.mp mem ▸ MailboxEvent.quiet_routed _ _
  · simp only [route, h, supported, if_true, deliver, tally, if_neg sequenced, fresh,
      Bool.false_eq_true, if_false, awaiting, flying, record, resolve_eq]

end Fieldbus.Mailbox
