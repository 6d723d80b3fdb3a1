import Fieldbus.Proofs.Mailbox.Custody

/-!
# What a move does to the requests

A move ends one request, sends one, gives one back to its queue or leaves all of them alone.
`Effect` says which, and what the journal and the channel to the slave look like afterwards. It is
not another kind of step: every move has an effect, and what is shown of requests is shown by the
cases of the effect.
-/

namespace Fieldbus

inductive MailboxEvent.Unanswering : MailboxEvent → Prop
  | garbled (bytes : Bytes) : Unanswering (.garbled bytes)
  | routed (message : Message) (fate : Fate) :
      (∀ ticket, fate ≠ .answered ticket) → Unanswering (.routed message fate)

theorem MailboxEvent.Unanswering.quiet {event : MailboxEvent} (h : event.Unanswering) :
    event.Quiet := by
  cases h with
  | garbled bytes => exact quiet_garbled bytes
  | routed message fate _ => exact quiet_routed message fate

inductive MailboxEvent.Ending : MailboxEvent → Prop
  | routed (message : Message) (fate : Fate) : Ending (.routed message fate)
  | resolved (ticket : Nat) (outcome : Except Error Reply) : Ending (.resolved ticket outcome)

namespace Mailbox

theorem verdict_ending (m : Mailbox) (ticket : Nat) (outcome : Except Error Reply) :
    ∀ event ∈ m.verdict ticket outcome, event.Ending := by
  unfold verdict
  split
  · simp
  · simpa using MailboxEvent.Ending.resolved ticket outcome

/-- Neither the requests that wait nor the channel to the slave changed. -/
structure Undisturbed (m m' : Mailbox) : Prop where
  request : ∀ i, m'.request? i = m.request? i
  inFlight : m'.inFlight = m.inFlight
  handshake : m'.handshake = m.handshake
  counter : m'.counter = m.counter

def Removes (m : Mailbox) (index : Nat) (m' : Mailbox) : Prop :=
  ∀ i, m'.request? i = if index = i then none else m.request? i

def Acknowledges (m : Mailbox) (ticket : Nat) (workCounter : UInt16) (m' : Mailbox) : Prop :=
  ∃ firings : List Firing, m'.journal = m.journal ++
    MailboxEvent.stamped (some ticket) m.counter.next.last ::
    MailboxEvent.acknowledged (some ticket) m.counter.next.last workCounter ::
    firings.map MailboxEvent.fired

/-- Why the wait for a reply ends, and what the journal tells of it before the outcome. -/
inductive Concludes (now : Nat) (m : Mailbox) (flight : InFlight) :
    Except Error Reply → List MailboxEvent → Prop
  | late : flight.request.deadline ≤ now → m.Concludes now flight (.error .timeout) []
  | answered (message : Message) : m.Wanted message →
      m.Concludes now flight (.ok (.response flight.workCounter message))
        [.routed message (.answered flight.request.ticket)]

inductive Effect (now : Nat) (m m' : Mailbox) : Prop
  /-- At most something was read that answers nobody. -/
  | idle (events : List MailboxEvent) :
      m.Undisturbed m' → m'.consumed = m.consumed →
      m'.journal = m.journal ++ events → (∀ event ∈ events, event.Unanswering) → Effect now m m'
  /-- A late reply was read that nobody waits for. -/
  | kept (message : Message) :
      m.Undisturbed m' → m.Wanted message →
      message.header.counter ≠ SequenceCounter.unsequenced → m.awaited = none →
      m'.consumed = true → m'.journal = m.journal ++ [.routed message .queued] → Effect now m m'
  | ended (flight : InFlight) (outcome : Except Error Reply) (told : List MailboxEvent) :
      m.handshake = .awaitResponse → m.inFlight = some flight →
      m.Concludes now flight outcome told →
      (∀ i, m'.request? i = m.request? i) → m'.inFlight = none → m'.handshake.isReady = true →
      m'.consumed = true → m'.counter = m.counter →
      m'.journal = m.journal ++ told ++ m.verdict flight.request.ticket outcome →
      Effect now m m'
  | overdue (index : Nat) (request : PendingRequest) :
      m.handshake.isReady = true → m.request? index = some request → request.deadline ≤ now →
      m.Removes index m' → m'.inFlight = m.inFlight → m'.handshake = m.handshake →
      m'.consumed = m.consumed → m'.counter = m.counter →
      m'.journal = m.journal ++ m.verdict request.ticket (.error .timeout) → Effect now m m'
  | returned (index : Nat) (request : PendingRequest) (stamps : List MailboxEvent) :
      m.handshake.isReady = true → m.request? index = some request → now < request.deadline →
      (∀ i, m'.request? i = m.request? i) → m'.inFlight = none → m'.handshake = .idle →
      m'.consumed = true → m'.journal = m.journal ++ stamps ++ [.requeued request.ticket] →
      (stamps = [] ∧ m'.counter = m.counter ∨
        stamps = [.stamped (some request.ticket) m.counter.next.last] ∧
          m'.counter = m.counter.next) →
      Effect now m m'
  | sent (index : Nat) (request : PendingRequest) (workCounter : UInt16) :
      m.handshake.isReady = true → m.request? index = some request → now < request.deadline →
      m.Removes index m' → m.Acknowledges request.ticket workCounter m' →
      m'.counter = m.counter.next → m'.consumed = false → request.expectsResponse = true →
      workCounter ≠ 0 → m'.inFlight = some ⟨index, request, false, workCounter⟩ →
      m'.handshake = .awaitResponse → Effect now m m'
  | written (index : Nat) (request : PendingRequest) (workCounter : UInt16) (m₀ : Mailbox) :
      m.handshake.isReady = true → m.request? index = some request → now < request.deadline →
      m.Removes index m' → m.Acknowledges request.ticket workCounter m₀ →
      m'.counter = m.counter.next → m'.consumed = false → request.expectsResponse = false →
      workCounter ≠ 0 → m'.inFlight = none → m'.handshake = .complete →
      m'.journal = m₀.journal ++ m₀.verdict request.ticket (.ok (.written workCounter)) →
      Effect now m m'

section Concludes

variable {m m' : Mailbox} {now : Nat} {flight : InFlight} {outcome : Except Error Reply}
  {told : List MailboxEvent}

theorem Concludes.ending (h : m.Concludes now flight outcome told) :
    ∀ event ∈ told ++ m.verdict flight.request.ticket outcome, event.Ending := by
  intro event mem
  rcases List.mem_append.mp mem with before | after
  · cases h with
    | late => cases before
    | answered message =>
        rw [List.mem_singleton.mp before]
        exact .routed message _
  · exact verdict_ending m flight.request.ticket outcome event after

theorem Concludes.quiet (h : m.Concludes now flight outcome told) :
    ∀ event ∈ told, event.Quiet := by
  intro event mem
  cases h with
  | late => cases mem
  | answered message =>
      rw [List.mem_singleton.mp mem]
      exact MailboxEvent.quiet_routed message _

theorem Concludes.resolves (h : m.Concludes now flight outcome told)
    (journal : m'.journal = m.journal ++ told ++ m.verdict flight.request.ticket outcome) :
    m.Resolves flight.request.ticket outcome m' := by
  have before : m.Unmoved { m with journal := m.journal ++ told } := .of_quiet rfl h.quiet
  refine .of_verdict before (journal.trans ?_)
  simp only [verdict, before.outcome]

end Concludes

structure Steady (m m' : Mailbox) : Prop where
  slave : m'.slave = m.slave
  config : m'.config = m.config
  nextTicket : m'.nextTicket = m.nextTicket
  closed : m'.closed = m.closed

variable {m m' : Mailbox} {now index : Nat} {held : List Buffer}

theorem Effect.request (effect : Effect now m m') {i : Nat} {r : PendingRequest}
    (found : m'.request? i = some r) : m.request? i = some r := by
  have removed {index : Nat} (removes : m.Removes index m') : m.request? i = some r := by
    rw [removes] at found
    split at found
    · cases found
    · exact found
  cases effect with
  | idle events undisturbed => rwa [undisturbed.request] at found
  | kept message undisturbed => rwa [undisturbed.request] at found
  | ended flight outcome told awaiting flying cause same => rwa [same] at found
  | overdue index request ready waits late removes => exact removed removes
  | returned index request stamps ready waits early same => rwa [same] at found
  | sent index request workCounter ready waits early removes => exact removed removes
  | written index request workCounter m₀ ready waits early removes => exact removed removes

/-! ## Reading -/

theorem expire_effect (custody : m.Custody held) (now : Nat) :
    (m.expire now).Custody held ∧ Effect now m (m.expire now) ∧ m.Steady (m.expire now) := by
  rcases m.expire_cases now with eq | ⟨flight, flying, awaiting, late, eq⟩ <;> rw [eq]
  · exact ⟨custody, .idle [] ⟨fun _ => rfl, rfl, rfl, rfl⟩ rfl (by simp) (by simp),
      rfl, rfl, rfl, rfl⟩
  · refine ⟨custody.congr rfl rfl rfl, ?_, rfl, rfl, rfl, rfl⟩
    refine .ended flight _ [] awaiting flying (.late late) (fun _ => rfl) rfl rfl rfl rfl ?_
    rw [List.append_nil]

theorem route_effect (custody : m.Custody held) (now : Nat) (receivePool : Pool)
    (slotState : SlotState) (b : Buffer) :
    let m' := { m with receivePool, slotState }.route b
    m'.Custody held ∧ Effect now m m' ∧ m.Steady m' := by
  intro m'
  have unanswering (message : Message) (fate : Fate) (h : ∀ ticket, fate ≠ .answered ticket) :
      ∀ event ∈ [MailboxEvent.routed message fate], event.Unanswering := by
    simpa using MailboxEvent.Unanswering.routed message fate h
  rcases decoded : Message.decode? b.contents with cause | message
  · have eq : m' = _ := route_garbled decoded
    rw [eq]
    refine ⟨custody.congr rfl rfl rfl, ?_, rfl, rfl, rfl, rfl⟩
    refine .idle [.garbled b.contents] ⟨fun _ => rfl, rfl, rfl, rfl⟩ rfl rfl ?_
    simpa using MailboxEvent.Unanswering.garbled b.contents
  · cases fate : { m with receivePool, slotState }.fate message with
    | unsupported =>
        have eq : m' = _ := route_unsupported decoded fate
        rw [eq]
        refine ⟨custody.congr rfl rfl rfl, ?_, rfl, rfl, rfl, rfl⟩
        exact .idle _ ⟨fun _ => rfl, rfl, rfl, rfl⟩ rfl rfl (unanswering message _ (by simp))
    | stale =>
        have eq : m' = _ := route_stale decoded fate
        rw [eq]
        refine ⟨custody.congr rfl rfl rfl, ?_, rfl, rfl, rfl, rfl⟩
        exact .idle _ ⟨fun _ => rfl, rfl, rfl, rfl⟩ rfl rfl (unanswering message _ (by simp))
    | queued =>
        have eq : m' = _ := route_queued decoded fate
        obtain ⟨pool, queues, pushed⟩ := pushReceived_fields _ message.header.protocol b
        rw [pushed] at eq
        rw [eq]
        refine ⟨custody.congr rfl rfl rfl, ?_, rfl, rfl, rfl, rfl⟩
        by_cases unsequenced : message.header.counter = SequenceCounter.unsequenced
        · exact .idle _ ⟨fun _ => rfl, rfl, rfl, rfl⟩ (by simp [unsequenced]) rfl
            (unanswering message _ (by simp))
        · exact .kept message ⟨fun _ => rfl, rfl, rfl, rfl⟩
            (wanted_of_fate unsequenced (.inl fate)) unsequenced
            (awaited_of_queued fate unsequenced) (by simp [unsequenced]) rfl
    | answered ticket =>
        obtain ⟨flight, awaiting, flying, rfl, wanted, -⟩ := fate_answered fate
        obtain ⟨m₀, unmoved, answered, routed⟩ := route_answered decoded awaiting flying fate
        have eq : m' = _ := answered
        rw [eq]
        refine ⟨custody.congr rfl rfl rfl, ?_, rfl, rfl, rfl, rfl⟩
        refine .ended flight _ _ awaiting flying (.answered message wanted) (fun _ => rfl) rfl rfl
          rfl rfl ?_
        have same : m₀.verdict flight.request.ticket
            (.ok (.response flight.workCounter message)) =
          m.verdict flight.request.ticket (.ok (.response flight.workCounter message)) := by
          simp only [verdict, unmoved.outcome]
          rfl
        exact congrArg₂ (· ++ ·) routed same

/-! ## Writing -/

theorem orphan_absurd {p : Protocol} {b : Buffer} {sendQueues : ProtocolQueues}
    (custody : m.Custody held)
    (next : m.sendQueues.next? m.config.priority = some (p, b, sendQueues))
    (none : m.request? b.index = none) : False := by
  obtain ⟨-, request, found⟩ := custody.next next
  rw [none] at found
  cases found

theorem removes_setRequest (bound : index < m.requests.size)
    (requests : m'.requests = (m.setRequest index none).requests) : m.Removes index m' := by
  intro i
  rw [← request?_setRequest bound none i, request?, request?, requests]

theorem overdue_effect {p : Protocol} {b : Buffer} {sendQueues : ProtocolQueues}
    {request : PendingRequest} (custody : m.Custody held) (ready : m.handshake.isReady = true)
    (next : m.sendQueues.next? m.config.priority = some (p, b, sendQueues))
    (found : m.request? b.index = some request) (late : request.deadline ≤ now)
    (result : m' = (((({ m with sendQueues }.setRequest b.index none).resolve request.ticket
      (.error .timeout)).countTimeout).putSend b)) :
    m'.Custody held ∧ Effect now m m' ∧ m.Steady m' := by
  obtain ⟨taken, -⟩ := custody.next next
  have bound := lt_size_of_request? found
  rw [resolve_eq] at result
  subst result
  refine ⟨?_, ?_, rfl, rfl, rfl, rfl⟩
  · exact Custody.put (taken.congr rfl rfl rfl)
  · exact .overdue b.index request ready found late (removes_setRequest bound rfl) rfl rfl rfl rfl
      rfl

theorem withhold_effect {m₁ : Mailbox} {p : Protocol} {b : Buffer} (custody : m.Custody held)
    (picks : m.Picks now p b m₁) :
    (m₁.requeue p b).Custody held ∧ Effect now m (m₁.requeue p b) ∧
      m.Steady (m₁.requeue p b) := by
  obtain ⟨request, back, found, eq, kept, same⟩ :=
    custody.requeue m₁ b picks rfl rfl rfl rfl rfl rfl
  obtain ⟨sendQueues, _, ready, -, again, early, rfl⟩ := picks
  rw [found] at again
  cases again
  refine ⟨kept, ?_, ?_⟩
  · refine .returned b.index request [] ready found early same ?_ ?_ ?_ ?_ (.inl ⟨rfl, ?_⟩) <;>
      rw [eq] <;> simp [setRequest]
  · constructor <;> rw [eq] <;> rfl

theorem refuse_effect {m₁ : Mailbox} {p : Protocol} {b : Buffer} (custody : m.Custody held)
    (picks : m.Picks now p b m₁) (failures : Nat) :
    let m' := ((m₁.stamp b).2.retried failures).requeue p (m₁.stamp b).1
    m'.Custody held ∧ Effect now m m' ∧ m.Steady m' := by
  intro m'
  obtain ⟨request, back, found, eq, kept, same⟩ :=
    custody.requeue ((m₁.stamp b).2.retried failures) (m₁.stamp b).1 picks rfl rfl rfl rfl rfl rfl
  obtain ⟨sendQueues, _, ready, -, again, early, rfl⟩ := picks
  rw [found] at again
  cases again
  refine ⟨kept, ?_, ?_⟩
  · refine .returned b.index request [.stamped (some request.ticket) m.counter.next.last] ready
      found early same ?_ ?_ ?_ ?_ (.inr ⟨rfl, ?_⟩) <;>
      simp only [m', eq] <;> simp [setRequest, stamp, retried, tally, record, flightTicket]
  · constructor <;> simp only [m', eq] <;> rfl

theorem fire_place (b : Buffer) : b.fire.2.index = b.index ∧ b.fire.2.pool = b.pool := by
  unfold Buffer.fire
  split <;> exact ⟨rfl, rfl⟩

theorem Picks.stamp {m₁ : Mailbox} {p : Protocol} {b : Buffer} (picks : m.Picks now p b m₁) :
    ∃ sendQueues request, m.handshake.isReady = true ∧ m.request? b.index = some request ∧
      now < request.deadline ∧
      (m₁.stamp b).1 = { b with bytes := MessageHeader.stamp m.counter.next.last b.bytes } ∧
      (m₁.stamp b).2 = { ({ m with sendQueues }).setRequest b.index none with
        counter := m.counter.next
        consumed := false
        handshake := .awaitEcho
        inFlight := some ⟨b.index, request, false, 0⟩
        journal := m.journal ++
          [MailboxEvent.stamped (some request.ticket) m.counter.next.last] } := by
  obtain ⟨sendQueues, request, ready, -, found, early, rfl⟩ := picks
  exact ⟨sendQueues, request, ready, found, early, rfl, rfl⟩

theorem accept_effect {m₁ : Mailbox} {p : Protocol} {b : Buffer} {workCounter : UInt16}
    (custody : m.Custody held) (picks : m.Picks now p b m₁) (failures : Nat)
    (counted : workCounter ≠ 0)
    (result : m' = ((m₁.stamp b).2.retried failures).acknowledge (m₁.stamp b).1 workCounter) :
    m'.Custody held ∧ Effect now m m' ∧ m.Steady m' := by
  have taken : (m₁.stamp b).2.Custody (b :: held) := (custody.picks picks).congr rfl rfl rfl
  obtain ⟨sendQueues, request, ready, found, early, bytes, stamped⟩ := picks.stamp
  generalize (m₁.stamp b).1 = c, (m₁.stamp b).2 = m₂ at result taken bytes stamped
  have place : c.fire.2.index = b.index ∧ c.fire.2.pool = b.pool := by
    rw [bytes]
    exact fire_place _
  have bound := lt_size_of_request? found
  subst stamped
  let m₀ : Mailbox := { m with
    journal := m.journal ++
      MailboxEvent.stamped (some request.ticket) m.counter.next.last ::
      MailboxEvent.acknowledged (some request.ticket) m.counter.next.last workCounter ::
      c.fire.1.map MailboxEvent.fired }
  have acknowledges : m.Acknowledges request.ticket workCounter m₀ := ⟨c.fire.1, rfl⟩
  let flight : InFlight := ⟨b.index, request, false, 0⟩
  cases expects : request.expectsResponse with
  | true =>
      rw [acknowledge_expecting flight rfl rfl expects] at result
      refine ⟨?_, ?_, ?_⟩
      · rw [result]
        refine Custody.put ?_
        exact (taken.change place.1 place.2).congr rfl rfl rfl
      · refine .sent b.index request workCounter ready found early
          (removes_setRequest bound ?_) ⟨c.fire.1, ?_⟩ ?_ ?_ expects counted ?_ ?_ <;>
          rw [result] <;>
          simp [setRequest, retried, tally, putSend, Mailbox.taken, flightTicket, flight]
      · constructor <;> rw [result] <;> rfl
  | false =>
      rw [acknowledge_writing flight rfl rfl expects] at result
      refine ⟨?_, ?_, ?_⟩
      · rw [result]
        refine Custody.put ?_
        exact (taken.change place.1 place.2).congr rfl rfl rfl
      · refine .written b.index request workCounter m₀ ready found early
          (removes_setRequest bound ?_) acknowledges ?_ ?_ expects counted ?_ ?_ ?_ <;>
          rw [result] <;>
          simp [setRequest, retried, tally, putSend, Mailbox.taken, flightTicket, m₀, flight,
            verdict, outcome?]
      · constructor <;> rw [result] <;> rfl

theorem Move.effect (custody : m.Custody held) (move : Move now m m') :
    m'.Custody held ∧ Effect now m m' ∧ m.Steady m' := by
  cases move with
  | expire => exact expire_effect custody now
  | schedule nextPoll =>
      exact ⟨custody.congr rfl rfl rfl,
        .idle [] ⟨fun _ => rfl, rfl, rfl, rfl⟩ rfl (by simp) (by simp), rfl, rfl, rfl, rfl⟩
  | look slotState =>
      exact ⟨custody.congr rfl rfl rfl,
        .idle [] ⟨fun _ => rfl, rfl, rfl, rfl⟩ rfl (by simp) (by simp), rfl, rfl, rfl, rfl⟩
  | spare data take short =>
      exact ⟨custody.congr rfl rfl rfl,
        .idle [] ⟨fun _ => rfl, rfl, rfl, rfl⟩ rfl (by simp [putReceive]) (by simp),
        rfl, rfl, rfl, rfl⟩
  | receive data take short => exact route_effect custody now _ _ _
  | orphan ready next none => exact (orphan_absurd custody next none).elim
  | overdue ready next found late => exact overdue_effect custody ready next found late rfl
  | withhold picks => exact withhold_effect custody picks
  | refuse failures picks => exact refuse_effect custody picks failures
  | accept failures picks counted => exact accept_effect custody picks failures counted rfl

end Mailbox

end Fieldbus
