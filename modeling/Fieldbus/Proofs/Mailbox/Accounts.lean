import Fieldbus.Proofs.Mailbox.Effects

/-!
# The books of a mailbox

Between two moves the channel to the slave is at rest, and every request that was queued is still
carried, has its outcome or was withdrawn. A request is carried under its index while it waits, and
by the message in flight once that was written.
-/

namespace Fieldbus.Mailbox

/-! ## The channel at rest -/

/-- No request is on its way to the slave, and one that was written waits for its reply. -/
structure Rest (m : Mailbox) : Prop where
  settled : m.handshake ≠ .sendPending ∧ m.handshake ≠ .awaitEcho
  awaiting : m.handshake = .awaitResponse ↔ m.inFlight.isSome
  flight : ∀ flight, m.inFlight = some flight → flight.request.expectsResponse = true ∧
    flight.abandoned = false ∧ flight.workCounter ≠ 0 ∧ m.consumed = false

variable {m m' : Mailbox} {now : Nat}

theorem Rest.ready_iff (h : m.Rest) : m.handshake.isReady = true ↔ m.inFlight = none := by
  have awaiting := h.awaiting
  have settled := h.settled
  cases hh : m.handshake <;> cases hf : m.inFlight <;>
    simp_all [Handshake.isReady, Handshake.isInFlight]

theorem Rest.awaited_eq (h : m.Rest) : m.awaited = m.inFlight := by
  unfold awaited
  split
  · rfl
  case isFalse waits =>
    rw [h.awaiting, Option.not_isSome_iff_eq_none] at waits
    exact waits.symm

theorem Rest.of_calm (ready : m.handshake.isReady = true) (calm : m.inFlight = none) : m.Rest := by
  refine ⟨⟨?_, ?_⟩, ⟨?_, ?_⟩, ?_⟩
  · intro h
    rw [h] at ready
    cases ready
  · intro h
    rw [h] at ready
    cases ready
  · intro h
    rw [h] at ready
    cases ready
  · simp [calm]
  · simp [calm]

theorem Rest.congr (h : m.Rest) (handshake : m'.handshake = m.handshake)
    (inFlight : m'.inFlight = m.inFlight) (consumed : m'.consumed = m.consumed) : m'.Rest := by
  constructor
  · rw [handshake]; exact h.settled
  · rw [handshake, inFlight]; exact h.awaiting
  · rw [inFlight, consumed]; exact h.flight

theorem Effect.rest (h : m.Rest) (effect : Effect now m m') : m'.Rest := by
  cases effect with
  | idle events undisturbed consumed =>
      exact h.congr undisturbed.handshake undisturbed.inFlight consumed
  | kept message undisturbed wanted sequenced calm =>
      rw [h.awaited_eq] at calm
      refine .of_calm ?_ (undisturbed.inFlight.trans calm)
      rw [undisturbed.handshake]
      exact h.ready_iff.mpr calm
  | ended flight outcome told awaiting flying cause request calm ready => exact .of_calm ready calm
  | overdue index request ready found late removes inFlight handshake consumed =>
      exact h.congr handshake inFlight consumed
  | returned index request stamps ready found early same calm idle =>
      exact .of_calm (by rw [idle]; rfl) calm
  | sent index request workCounter ready found early removes acknowledges counter fresh expects
      counted flying awaiting =>
      refine ⟨by simp [awaiting], by simp [awaiting, flying], ?_⟩
      intro flight same
      rw [flying] at same
      cases same
      exact ⟨expects, rfl, counted, fresh⟩
  | written index request workCounter m₀ ready found early removes acknowledges counter fresh
      writing counted calm complete =>
      exact .of_calm (by rw [complete]; rfl) calm

/-! ## What is carried -/

/-- The request waits in a queue in the buffer of this index, or was written from it. -/
def Carries (m : Mailbox) (index : Nat) (request : PendingRequest) : Prop :=
  m.request? index = some request ∨
    ∃ flight, m.inFlight = some flight ∧ flight.index = index ∧ flight.request = request

structure Accounts (m : Mailbox) : Prop where
  numbered : ∀ entry ∈ m.admissions, entry.2.ticket < m.nextTicket
  distinct : (m.admissions.map fun entry => entry.2.ticket).Nodup
  known : ∀ ticket, (m.outcome? ticket).isSome → ticket < m.nextTicket
  shared : ∀ ticket waiter, (ticket, waiter) ∈ m.withdrawals → ∃ index request other,
    (index, request) ∈ m.admissions ∧ request.ticket = ticket ∧
      (index, other) ∈ m.admissions ∧ other.ticket = waiter
  carried : ∀ index request, m.Carries index request → (index, request) ∈ m.admissions ∧
    m.outcome? request.ticket = none ∧ ∀ waiter, (request.ticket, waiter) ∉ m.withdrawals
  once : ∀ index request flight, m.request? index = some request → m.inFlight = some flight →
    request.ticket ≠ flight.request.ticket
  accounted : ∀ index request, (index, request) ∈ m.admissions → m.Carries index request ∨
    (m.outcome? request.ticket).isSome ∨ ∃ waiter, (request.ticket, waiter) ∈ m.withdrawals

theorem Accounts.unique (h : m.Accounts) {i j : Nat} {r q : PendingRequest}
    (hr : (i, r) ∈ m.admissions) (hq : (j, q) ∈ m.admissions) (same : r.ticket = q.ticket) :
    i = j ∧ r = q := by
  have eq := List.inj_on_of_nodup_map h.distinct hr hq same
  exact ⟨congrArg Prod.fst eq, congrArg Prod.snd eq⟩

theorem Accounts.carries_unique (h : m.Accounts) {i j : Nat} {r q : PendingRequest}
    (hr : m.Carries i r) (hq : m.Carries j q) (same : r.ticket = q.ticket) : i = j ∧ r = q :=
  h.unique (h.carried i r hr).1 (h.carried j q hq).1 same

theorem Accounts.stay (h : m.Accounts) (unmoved : m.Unmoved m')
    (next : m'.nextTicket = m.nextTicket)
    (carries : ∀ i r, m'.Carries i r ↔ m.Carries i r)
    (once : ∀ i r flight, m'.request? i = some r → m'.inFlight = some flight →
      r.ticket ≠ flight.request.ticket) : m'.Accounts where
  numbered := by rw [unmoved.admissions, next]; exact h.numbered
  distinct := by rw [unmoved.admissions]; exact h.distinct
  known ticket := by rw [unmoved.outcome, next]; exact h.known ticket
  shared := by rw [unmoved.withdrawals, unmoved.admissions]; exact h.shared
  carried i r := by
    rw [carries, unmoved.admissions, unmoved.outcome, unmoved.withdrawals]
    exact h.carried i r
  once := once
  accounted i r := by
    rw [carries, unmoved.admissions, unmoved.outcome, unmoved.withdrawals]
    exact h.accounted i r

/-- The request `r` that was carried at `i` is no longer in the mailbox. -/
structure Drops (m : Mailbox) (i : Nat) (r : PendingRequest) (m' : Mailbox) : Prop where
  carried : m.Carries i r
  request : ∀ j q, m'.request? j = some q ↔ m.request? j = some q ∧ q.ticket ≠ r.ticket
  inFlight : ∀ flight, m'.inFlight = some flight ↔
    m.inFlight = some flight ∧ flight.request.ticket ≠ r.ticket

theorem Drops.carries {i : Nat} {r : PendingRequest} (drops : m.Drops i r m') (j : Nat)
    (q : PendingRequest) : m'.Carries j q ↔ m.Carries j q ∧ q.ticket ≠ r.ticket := by
  unfold Carries
  rw [drops.request]
  constructor
  · rintro (waits | ⟨flight, flying, index, rfl⟩)
    · exact ⟨.inl waits.1, waits.2⟩
    · obtain ⟨flying, other⟩ := (drops.inFlight flight).mp flying
      exact ⟨.inr ⟨flight, flying, index, rfl⟩, other⟩
  · rintro ⟨waits | ⟨flight, flying, index, rfl⟩, other⟩
    · exact .inl ⟨waits, other⟩
    · exact .inr ⟨flight, (drops.inFlight flight).mpr ⟨flying, other⟩, index, rfl⟩

theorem Accounts.drop {i : Nat} {r : PendingRequest} (h : m.Accounts) (drops : m.Drops i r m')
    (admissions : m'.admissions = m.admissions) (next : m'.nextTicket = m.nextTicket)
    (outcome : ∀ ticket, ticket ≠ r.ticket → m'.outcome? ticket = m.outcome? ticket)
    (withdrawn : ∀ ticket waiter, (ticket, waiter) ∈ m'.withdrawals →
      (ticket, waiter) ∈ m.withdrawals ∨
        ticket = r.ticket ∧ ∃ other, (i, other) ∈ m.admissions ∧ other.ticket = waiter)
    (kept : ∀ entry ∈ m.withdrawals, entry ∈ m'.withdrawals)
    (gone : (m'.outcome? r.ticket).isSome ∨ ∃ waiter, (r.ticket, waiter) ∈ m'.withdrawals) :
    m'.Accounts where
  numbered := by rw [admissions, next]; exact h.numbered
  distinct := by rw [admissions]; exact h.distinct
  known ticket some := by
    rw [next]
    by_cases same : ticket = r.ticket
    · subst same
      exact h.numbered _ (h.carried i r drops.carried).1
    · rw [outcome ticket same] at some
      exact h.known ticket some
  shared ticket waiter mem := by
    rw [admissions]
    rcases withdrawn ticket waiter mem with old | ⟨rfl, other, found, rfl⟩
    · exact h.shared ticket waiter old
    · exact ⟨i, r, other, (h.carried i r drops.carried).1, rfl, found, rfl⟩
  carried j q carries := by
    obtain ⟨old, other⟩ := (drops.carries j q).mp carries
    obtain ⟨admitted, undecided, standing⟩ := h.carried j q old
    rw [admissions, outcome _ other]
    refine ⟨admitted, undecided, fun waiter mem => ?_⟩
    rcases withdrawn _ waiter mem with old | ⟨same, -⟩
    · exact standing waiter old
    · exact other same
  once j q flight waits flying :=
    h.once j q flight ((drops.request j q).mp waits).1 ((drops.inFlight flight).mp flying).1
  accounted j q mem := by
    rw [admissions] at mem
    by_cases same : q.ticket = r.ticket
    · rw [same]
      exact .inr gone
    · rw [drops.carries, outcome _ same]
      rcases h.accounted j q mem with carries | decided | ⟨waiter, withdrew⟩
      · exact .inl ⟨carries, same⟩
      · exact .inr (.inl decided)
      · exact .inr (.inr ⟨waiter, kept _ withdrew⟩)

theorem Accounts.drops_waiting {i : Nat} {r : PendingRequest} (h : m.Accounts)
    (found : m.request? i = some r) (removes : m.Removes i m') (same : m'.inFlight = m.inFlight) :
    m.Drops i r m' := by
  refine ⟨.inl found, fun j q => ?_, fun flight => ?_⟩
  · rw [removes]
    split
    case isTrue here =>
      subst here
      simp only [reduceCtorEq, false_iff, not_and, not_not]
      intro again
      rw [found] at again
      exact congrArg PendingRequest.ticket (Option.some.inj again).symm
    case isFalse elsewhere =>
      refine ⟨fun waits => ⟨waits, fun ticket => elsewhere ?_⟩, And.left⟩
      exact (h.carries_unique (.inl waits) (.inl found) ticket).1.symm
  · rw [same]
    exact ⟨fun flying => ⟨flying, (h.once i r flight found flying).symm⟩, And.left⟩

theorem Accounts.drops_flying {flight : InFlight} (h : m.Accounts)
    (flying : m.inFlight = some flight) (same : ∀ j, m'.request? j = m.request? j)
    (calm : m'.inFlight = none) : m.Drops flight.index flight.request m' := by
  refine ⟨.inr ⟨flight, flying, rfl, rfl⟩, fun j q => ?_, fun other => ?_⟩
  · rw [same]
    exact ⟨fun waits => ⟨waits, h.once j q flight waits flying⟩, And.left⟩
  · rw [calm, flying]
    simp only [reduceCtorEq, Option.some.injEq, false_iff, not_and, not_not]
    rintro rfl
    rfl

theorem Accounts.drop_resolved {i : Nat} {r : PendingRequest} {outcome : Except Error Reply}
    (h : m.Accounts) (drops : m.Drops i r m') (resolves : m.Resolves r.ticket outcome m')
    (next : m'.nextTicket = m.nextTicket) : m'.Accounts := by
  refine h.drop drops resolves.admissions next resolves.others (fun ticket waiter mem => ?_)
    (fun entry mem => resolves.withdrawals ▸ mem) (.inl ?_)
  · exact .inl (resolves.withdrawals ▸ mem)
  · rw [resolves.outcome]
    cases m.outcome? r.ticket <;> rfl

theorem Acknowledges.quiet {ticket : Nat} {workCounter : UInt16}
    (h : m.Acknowledges ticket workCounter m') :
    ∃ events, m'.journal = m.journal ++ events ∧ ∀ event ∈ events, event.Quiet := by
  obtain ⟨firings, journal⟩ := h
  refine ⟨_, journal, fun event mem => ?_⟩
  rcases List.mem_cons.mp mem with rfl | mem
  · exact MailboxEvent.quiet_stamped _ _
  · rcases List.mem_cons.mp mem with rfl | mem
    · exact MailboxEvent.quiet_acknowledged _ _ _
    · obtain ⟨firing, -, rfl⟩ := List.mem_map.mp mem
      exact MailboxEvent.quiet_fired firing

theorem Acknowledges.unmoved {ticket : Nat} {workCounter : UInt16}
    (h : m.Acknowledges ticket workCounter m') : m.Unmoved m' := by
  obtain ⟨events, journal, quiet⟩ := h.quiet
  exact .of_quiet journal quiet

/-- A request that could not be written leaves no trace in the books, whether stamped or not. -/
theorem quiet_of_returned {ticket : Nat} {stamps : List MailboxEvent} {counter : UInt8}
    (stamping : stamps = [] ∨ stamps = [.stamped (some ticket) counter]) :
    ∀ event ∈ stamps ++ [.requeued ticket], event.Quiet := by
  intro event mem
  rcases List.mem_append.mp mem with mem | mem
  · rcases stamping with rfl | rfl
    · cases mem
    · rw [List.mem_singleton.mp mem]
      exact MailboxEvent.quiet_stamped _ _
  · rw [List.mem_singleton.mp mem]
    exact MailboxEvent.quiet_requeued _

theorem unmoved_of_returned {ticket : Nat} {stamps : List MailboxEvent} {counter : UInt8}
    (journal : m'.journal = m.journal ++ stamps ++ [.requeued ticket])
    (stamping : stamps = [] ∨ stamps = [.stamped (some ticket) counter]) : m.Unmoved m' :=
  .of_quiet (journal.trans (List.append_assoc ..)) (quiet_of_returned stamping)

theorem Undisturbed.carries (h : m.Undisturbed m') (i : Nat) (r : PendingRequest) :
    m'.Carries i r ↔ m.Carries i r := by
  rw [Carries, Carries, h.request, h.inFlight]

theorem Accounts.undisturbed (h : m.Accounts) (undisturbed : m.Undisturbed m')
    (unmoved : m.Unmoved m') (next : m'.nextTicket = m.nextTicket) : m'.Accounts := by
  refine h.stay unmoved next undisturbed.carries fun i r flight => ?_
  rw [undisturbed.request, undisturbed.inFlight]
  exact h.once i r flight

theorem Effect.accounts (h : m.Accounts) (rest : m.Rest) (next : m'.nextTicket = m.nextTicket)
    (effect : Effect now m m') : m'.Accounts := by
  cases effect with
  | idle events undisturbed consumed journal unanswering =>
      exact h.undisturbed undisturbed (.of_quiet journal fun e he => (unanswering e he).quiet) next
  | kept message undisturbed wanted sequenced calm consumed journal =>
      refine h.undisturbed undisturbed (.of_quiet journal fun e he => ?_) next
      rw [List.mem_singleton.mp he]
      exact MailboxEvent.quiet_routed _ _
  | ended flight outcome told awaiting flying cause same calm ready consumed counter journal =>
      exact h.drop_resolved (h.drops_flying flying same calm) (cause.resolves journal) next
  | overdue index request ready found late removes inFlight handshake consumed counter journal =>
      exact h.drop_resolved (h.drops_waiting found removes inFlight)
        (.of_verdict (.of_journal rfl) journal) next
  | returned index request stamps ready found early same calm idle consumed journal stamping =>
      have flying := rest.ready_iff.mp ready
      exact h.stay (unmoved_of_returned journal (stamping.imp And.left And.left)) next
        (fun i r => by rw [Carries, Carries, same, calm, flying]) (by simp [calm])
  | sent index request workCounter ready found early removes acknowledges counter fresh expects
      counted flying awaiting =>
      have calm := rest.ready_iff.mp ready
      refine h.stay acknowledges.unmoved next (fun i r => ?_) fun i r flight waits flies => ?_
      · rw [Carries, Carries, removes, flying, calm]
        simp only [Option.some.injEq, exists_eq_left', reduceCtorEq, false_and, exists_false,
          or_false]
        split
        case isTrue here =>
          subst here
          simp [found]
        case isFalse elsewhere => simp [elsewhere]
      · rw [flying] at flies
        cases flies
        rw [removes] at waits
        split at waits
        · cases waits
        case isFalse elsewhere =>
          intro ticket
          exact elsewhere (h.carries_unique (.inl waits) (.inl found) ticket).1.symm
  | written index request workCounter m₀ ready found early removes acknowledges counter fresh
      writing counted calm complete journal =>
      have flying := rest.ready_iff.mp ready
      exact h.drop_resolved (h.drops_waiting found removes (calm.trans flying.symm))
        (.of_verdict acknowledges.unmoved journal) next

end Fieldbus.Mailbox
