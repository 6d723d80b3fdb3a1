import Fieldbus.Proofs.Mailbox.Routing

/-!
# What each operation leaves

The mailbox after an operation, for each way that the operation can take. The lemmas on what an
operation keeps or records follow from these equations and do not open it again.
-/

namespace Fieldbus.Mailbox

variable {m m' : Mailbox}

/-! ## Calls -/

theorem takeSendBuffer?_eq_ok {b : Buffer} (take : m.takeSendBuffer? = .ok (b, m')) :
    m.closed = false ∧ ∃ sendPool, m.sendPool.take? = .ok (b, sendPool) ∧
      m' = { m with sendPool } := by
  unfold takeSendBuffer? at take
  split at take
  · cases take
  case isFalse opened =>
    split at take
    · cases take
    case h_2 taken =>
      cases take
      exact ⟨by simpa using opened, _, taken, rfl⟩

theorem abandon_queued {h : Handle} {p : Protocol} {b : Buffer} {sendQueues : ProtocolQueues}
    (removed : m.sendQueues.remove? h.index = some (p, b, sendQueues)) :
    m.abandon h = { ({ m with sendQueues }).setRequest h.index none with
      journal := m.journal ++ (m.request? h.index).toList.map fun (request : PendingRequest) =>
        MailboxEvent.withdrawn request.ticket h.ticket
      statistics := { m.statistics with timeouts := m.statistics.timeouts + 1 } }.putSend b := by
  unfold abandon
  rw [removed]
  cases m.request? h.index with
  | none =>
      rw [Option.toList_none, List.map_nil, List.append_nil]
      rfl
  | some request => rfl

/-- A request that is given up is not there, waits, is being written or awaits its reply. -/
theorem abandon_cases (m : Mailbox) (h : Handle) :
    m.abandon h = m ∨
    (∃ p b sendQueues, m.sendQueues.remove? h.index = some (p, b, sendQueues) ∧
      m.abandon h = { ({ m with sendQueues }).setRequest h.index none with
        journal := m.journal ++ (m.request? h.index).toList.map fun (request : PendingRequest) =>
          MailboxEvent.withdrawn request.ticket h.ticket
        statistics := { m.statistics with
          timeouts := m.statistics.timeouts + 1 } }.putSend b) ∨
    ∃ flight, m.inFlight = some flight ∧ flight.index = h.index ∧
      ((m.handshake ≠ .awaitResponse ∧ m.abandon h = { m with
        inFlight := some { flight with abandoned := true }
        journal := m.journal ++ [MailboxEvent.withdrawn flight.request.ticket h.ticket]
        statistics := { m.statistics with timeouts := m.statistics.timeouts + 1 } }) ∨
      (m.handshake = .awaitResponse ∧ m.abandon h = { m with
        inFlight := none
        consumed := true
        handshake := .timeout
        journal := m.journal ++ [MailboxEvent.withdrawn flight.request.ticket h.ticket]
        statistics := { m.statistics with timeouts := m.statistics.timeouts + 1 } })) := by
  cases removed : m.sendQueues.remove? h.index with
  | some entry =>
      obtain ⟨p, b, sendQueues⟩ := entry
      exact .inr (.inl ⟨p, b, sendQueues, rfl, abandon_queued removed⟩)
  | none =>
      unfold abandon
      rw [removed]
      dsimp only
      split
      · exact .inl rfl
      case h_2 flight flying =>
        split
        case isTrue index =>
          refine .inr (.inr ⟨flight, flying, index, ?_⟩)
          by_cases awaiting : m.handshake = .awaitResponse
          · exact .inr ⟨awaiting, if_pos awaiting⟩
          · exact .inl ⟨awaiting, if_neg awaiting⟩
        · exact .inl rfl

theorem settle_eq (m : Mailbox) (h : Handle) :
    (m.settle h).2 = m ∨ m.outcome? h.ticket = none ∧ (m.settle h).2 = m.abandon h := by
  unfold settle
  split
  · exact .inl rfl
  case h_2 undecided => exact .inr ⟨undecided, rfl⟩

/-- Who reads takes the first message that waits, or at most asks for a look at the read slot. -/
inductive Reads (m : Mailbox) (p : Protocol) : Option (Except Error Message) → Mailbox → Prop
  | got {result : Except Error Message} {m' : Mailbox} :
      m.takeReceived? p = some (result, m') → Reads m p (some result) m'
  | missed (readScheduled : Bool) (timeouts : Nat) :
      Reads m p none { m with readScheduled, statistics := { m.statistics with timeouts } }

section Reads

variable {p : Protocol} {result : Except Error Message}

theorem Reads.taken (reads : m.Reads p (some result) m') :
    m.takeReceived? p = some (result, m') := by
  cases reads with
  | got taken => exact taken

variable (m p)

theorem tryRead_reads : ∃ got, m.Reads p got (m.tryRead p).2 ∧
    ∀ message, (m.tryRead p).1 = .ok message ↔ got = some (.ok message) := by
  unfold tryRead
  cases taken : m.takeReceived? p with
  | none => exact ⟨none, .missed m.readScheduled m.statistics.timeouts, by simp⟩
  | some read => exact ⟨some read.1, .got taken, by simp⟩

theorem requestRead_reads : ∃ got, m.Reads p got (m.requestRead p).2 ∧
    ∀ message, (m.requestRead p).1 = .ok (some message) ↔ got = some (.ok message) := by
  unfold requestRead
  split
  · exact ⟨none, .missed m.readScheduled m.statistics.timeouts, by simp⟩
  · split
    case h_1 result m' taken =>
      refine ⟨some result, .got taken, fun message => ?_⟩
      cases result <;> simp [Except.map]
    · exact ⟨none, .missed true m.statistics.timeouts, by simp⟩

theorem read_reads : ∃ got, m.Reads p got (m.read p).2 ∧
    ∀ message, (m.read p).1 = .ok message ↔ got = some (.ok message) := by
  unfold read requestRead
  by_cases closed : m.closed = true
  · rw [if_pos closed]
    exact ⟨none, .missed m.readScheduled m.statistics.timeouts, by simp⟩
  · rw [if_neg closed]
    cases taken : m.takeReceived? p with
    | none => exact ⟨none, .missed true (m.statistics.timeouts + 1), by simp⟩
    | some read =>
        obtain ⟨cause | message, m'⟩ := read
        · exact ⟨some (.error cause), .got taken, by simp [Except.map]⟩
        · exact ⟨some (.ok message), .got taken, by simp [Except.map]⟩

end Reads

/-! ## Turns -/

theorem expire_cases (m : Mailbox) (now : Nat) :
    m.expire now = m ∨
    ∃ flight, m.inFlight = some flight ∧ m.handshake = .awaitResponse ∧
      flight.request.deadline ≤ now ∧ m.expire now = { m with
        inFlight := none
        consumed := true
        handshake := .timeout
        journal := m.journal ++ m.verdict flight.request.ticket (.error .timeout)
        statistics := { m.statistics with timeouts := m.statistics.timeouts + 1 } } := by
  unfold expire
  split
  · exact .inl rfl
  case h_2 flight flying =>
    split
    case isTrue late =>
      refine .inr ⟨flight, flying, late.1, late.2, ?_⟩
      rw [resolve_eq]
      rfl
    · exact .inl rfl

theorem pushReceived_fields (m : Mailbox) (p : Protocol) (b : Buffer) :
    ∃ receivePool receiveQueues,
      m.pushReceived p b = { m with receivePool, receiveQueues } := by
  unfold pushReceived
  split
  · exact ⟨_, _, rfl⟩
  · exact ⟨_, _, rfl⟩

theorem route_fields (m : Mailbox) (b : Buffer) :
    ∃ consumed handshake inFlight journal statistics receivePool receiveQueues,
      m.route b = { m with
        consumed, handshake, inFlight, journal, statistics, receivePool, receiveQueues } := by
  rcases decoded : Message.decode? b.contents with cause | message
  · exact ⟨_, _, _, _, _, _, _, route_garbled decoded⟩
  · cases fate : m.fate message with
    | unsupported => exact ⟨_, _, _, _, _, _, _, route_unsupported decoded fate⟩
    | stale => exact ⟨_, _, _, _, _, _, _, route_stale decoded fate⟩
    | queued =>
        rw [route_queued decoded fate]
        obtain ⟨receivePool, receiveQueues, eq⟩ := pushReceived_fields { m with
          consumed := m.consumed || (message.header.counter != SequenceCounter.unsequenced)
          journal := m.journal ++ [MailboxEvent.routed message .queued]
          statistics := { m.statistics with
            messagesReceived := m.statistics.messagesReceived + 1 } } message.header.protocol b
        exact ⟨_, _, _, _, _, _, _, eq⟩
    | answered ticket =>
        obtain ⟨flight, awaiting, flying, rfl, -, -⟩ := fate_answered fate
        obtain ⟨m₀, -, answered, -⟩ := route_answered decoded awaiting flying fate
        exact ⟨_, _, _, _, _, _, _, answered⟩

theorem requeue_eq {p : Protocol} {b : Buffer} {flight : InFlight}
    {sendQueues : ProtocolQueues} (flying : m.inFlight = some flight)
    (wanted : flight.abandoned = false) (push : m.sendQueues.pushFront? p b = some sendQueues) :
    m.requeue p b = { ({ m with sendQueues }).setRequest b.index (some flight.request) with
      handshake := .idle
      consumed := true
      inFlight := none
      journal := m.journal ++ [MailboxEvent.requeued flight.request.ticket]
      statistics := { m.statistics with requeued := m.statistics.requeued + 1 } } := by
  unfold requeue
  simp only [flying, wanted, push]
  rfl

/-- A buffer goes back to its queue, or to the pool if its request ended. -/
theorem requeue_cases (m : Mailbox) (p : Protocol) (b : Buffer) :
    m.requeue p b = { m with handshake := .idle, consumed := true, inFlight := none }.putSend b ∨
    (∃ flight, m.inFlight = some flight ∧ m.requeue p b = { m with
      handshake := .idle
      consumed := true
      inFlight := none
      journal := m.journal ++ m.verdict flight.request.ticket (.error .foreign) }.putSend b) ∨
    ∃ flight sendQueues, m.inFlight = some flight ∧
      m.sendQueues.pushFront? p b = some sendQueues ∧
      m.requeue p b = { ({ m with sendQueues }).setRequest b.index (some flight.request) with
        handshake := .idle
        consumed := true
        inFlight := none
        journal := m.journal ++ [MailboxEvent.requeued flight.request.ticket]
        statistics := { m.statistics with requeued := m.statistics.requeued + 1 } } := by
  cases flying : m.inFlight with
  | none =>
      refine .inl ?_
      simp only [requeue, flying]
  | some flight =>
      cases wanted : flight.abandoned with
      | true =>
          refine .inl ?_
          simp only [requeue, flying, wanted, if_true]
      | false =>
          cases push : m.sendQueues.pushFront? p b with
          | none =>
              refine .inr (.inl ⟨flight, rfl, ?_⟩)
              simp only [requeue, flying, wanted, push, resolve_eq]
              rfl
          | some sendQueues =>
              exact .inr (.inr ⟨flight, sendQueues, rfl, rfl, requeue_eq flying wanted push⟩)

def taken (m : Mailbox) (b : Buffer) (workCounter : UInt16) : Mailbox :=
  { m with
    journal := m.journal ++
      [MailboxEvent.acknowledged m.flightTicket m.counter.last workCounter] ++
      b.fire.1.map MailboxEvent.fired
    statistics := { m.statistics with messagesSent := m.statistics.messagesSent + 1 } }

theorem acknowledge_expecting {b : Buffer} {workCounter : UInt16} (flight : InFlight)
    (flying : m.inFlight = some flight) (wanted : flight.abandoned = false)
    (expects : flight.request.expectsResponse = true) :
    m.acknowledge b workCounter = { m.taken b workCounter with
      inFlight := some { flight with workCounter }
      handshake := .awaitResponse
      readScheduled := true }.putSend b.fire.2 := by
  unfold acknowledge
  simp only [tally, record, flying, wanted, expects]
  rfl

theorem acknowledge_writing {b : Buffer} {workCounter : UInt16} (flight : InFlight)
    (flying : m.inFlight = some flight) (wanted : flight.abandoned = false)
    (writing : flight.request.expectsResponse = false) :
    m.acknowledge b workCounter = { m.taken b workCounter with
      inFlight := none
      handshake := .complete
      journal := (m.taken b workCounter).journal ++
        (m.taken b workCounter).verdict flight.request.ticket
          (.ok (.written workCounter)) }.putSend b.fire.2 := by
  unfold acknowledge
  simp only [tally, record, flying, wanted, writing, resolve_eq]
  rfl

/-- Nobody wants to know of it, the reply is outstanding, or the request has its outcome. -/
theorem acknowledge_cases (m : Mailbox) (b : Buffer) (workCounter : UInt16) :
    (∃ handshake, m.acknowledge b workCounter = { m.taken b workCounter with
      inFlight := none
      consumed := true
      handshake }.putSend b.fire.2) ∨
    (∃ flight, m.inFlight = some flight ∧
      m.acknowledge b workCounter = { m.taken b workCounter with
        inFlight := some { flight with workCounter }
        handshake := .awaitResponse
        readScheduled := true }.putSend b.fire.2) ∨
    ∃ flight, m.inFlight = some flight ∧
      m.acknowledge b workCounter = { m.taken b workCounter with
        inFlight := none
        handshake := .complete
        journal := (m.taken b workCounter).journal ++
          (m.taken b workCounter).verdict flight.request.ticket
            (.ok (.written workCounter)) }.putSend b.fire.2 := by
  cases flying : m.inFlight with
  | none =>
      refine .inl ⟨m.handshake, ?_⟩
      simp only [acknowledge, tally, record, flying]
      simp only [taken, flying]
  | some flight =>
      cases wanted : flight.abandoned with
      | true =>
          refine .inl ⟨.timeout, ?_⟩
          simp only [acknowledge, tally, record, flying, wanted, if_true]
          rfl
      | false =>
          cases expects : flight.request.expectsResponse with
          | true =>
              exact .inr (.inl ⟨flight, rfl, acknowledge_expecting flight flying wanted expects⟩)
          | false =>
              exact .inr (.inr ⟨flight, rfl, acknowledge_writing flight flying wanted expects⟩)

end Fieldbus.Mailbox
