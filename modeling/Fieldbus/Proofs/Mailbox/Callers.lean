import Fieldbus.Proofs.Mailbox.Invariant

/-!
# What callers do to a mailbox

A caller takes a send buffer, queues a request in it, waits for the outcome and reads what came. The
wait for a request names it by its index, and withdraws whichever request that index names when the
wait runs out.
-/

namespace Fieldbus.Mailbox

open BufferQueue (indices)

/-- The channel to the slave and all requests are as they were, and nothing was recorded. -/
structure Untouched (m m' : Mailbox) : Prop where
  handshake : m'.handshake = m.handshake
  inFlight : m'.inFlight = m.inFlight
  counter : m'.counter = m.counter
  consumed : m'.consumed = m.consumed
  closed : m'.closed = m.closed
  journal : m'.journal = m.journal
  requests : m'.requests = m.requests
  sendQueues : m'.sendQueues = m.sendQueues
  nextTicket : m'.nextTicket = m.nextTicket

variable {m m' : Mailbox} {held : List Buffer}

theorem Untouched.refl (m : Mailbox) : m.Untouched m :=
  ⟨rfl, rfl, rfl, rfl, rfl, rfl, rfl, rfl, rfl⟩

theorem putSend_untouched (m : Mailbox) (b : Buffer) : m.Untouched (m.putSend b) :=
  ⟨rfl, rfl, rfl, rfl, rfl, rfl, rfl, rfl, rfl⟩

theorem Sound.congr {held' : List Buffer} (h : m.Sound held) (custody : m'.Custody held')
    (shelved : m'.Shelved) (undisturbed : m.Undisturbed m') (consumed : m'.consumed = m.consumed)
    (journal : m'.journal = m.journal) (next : m'.nextTicket = m.nextTicket) : m'.Sound held' where
  custody := custody
  shelved := shelved
  rest := h.rest.congr undisturbed.handshake undisturbed.inFlight consumed
  accounts := h.accounts.undisturbed undisturbed (.of_journal journal) next

theorem Sound.put {b : Buffer} (h : m.Sound (b :: held)) : (m.putSend b).Sound held :=
  h.congr h.custody.put h.shelved ⟨fun _ => rfl, rfl, rfl, rfl⟩ rfl rfl rfl

theorem Sound.take {b : Buffer} (h : m.Sound held) (take : m.takeSendBuffer? = .ok (b, m')) :
    m'.Sound (b :: held) := by
  obtain ⟨-, sendPool, taken, rfl⟩ := takeSendBuffer?_eq_ok take
  exact h.congr (h.custody.take taken) h.shelved ⟨fun _ => rfl, rfl, rfl, rfl⟩ rfl rfl rfl

theorem takeSendBuffer_untouched {b : Buffer} (take : m.takeSendBuffer? = .ok (b, m')) :
    m.Untouched m' := by
  obtain ⟨-, sendPool, -, rfl⟩ := takeSendBuffer?_eq_ok take
  exact ⟨rfl, rfl, rfl, rfl, rfl, rfl, rfl, rfl, rfl⟩

theorem Sound.regrip {held' : List Buffer} (h : m.Sound held)
    (same : (indices held').Perm (indices held)) (owned : ∀ b ∈ held', b.pool = m.sendPool.id) :
    m.Sound held' :=
  ⟨⟨h.custody.stock.regrip same owned, h.custody.size, h.custody.recorded⟩, h.shelved, h.rest,
    h.accounts⟩

theorem Sound.perm {held' : List Buffer} (h : m.Sound held) (perm : held'.Perm held) :
    m.Sound held' :=
  h.regrip (perm.map _) fun b mem =>
    h.custody.stock.owned b (List.mem_append_left _ (perm.mem_iff.mp mem))

/-! ## Queueing -/

/-- Queues a request ahead of the others of its protocol or behind them. -/
def enqueue (m : Mailbox) (front : Bool) (b : Buffer) (expectsResponse : Bool) (deadline : Nat) :
    Except Error Handle × Mailbox :=
  if front then m.enqueueFront b expectsResponse deadline
  else m.enqueueBack b expectsResponse deadline

def lodge (m : Mailbox) (sendQueues : ProtocolQueues) (b : Buffer) (expectsResponse : Bool)
    (deadline : Nat) : Mailbox :=
  (({ m with sendQueues, nextTicket := m.nextTicket + 1 }).setRequest b.index
    (some ⟨m.nextTicket, expectsResponse, deadline⟩)).record
      (.enqueued b.index ⟨m.nextTicket, expectsResponse, deadline⟩)

theorem enqueueWith_cases (m : Mailbox)
    (push : ProtocolQueues → Protocol → Buffer → Option ProtocolQueues) {b : Buffer}
    (owned : m.sendPool.owns b = true) (expectsResponse : Bool) (deadline : Nat) :
    (∃ cause, m.enqueueWith push b expectsResponse deadline = (.error cause, m.putSend b)) ∨
      ∃ p sendQueues, push m.sendQueues p b = some sendQueues ∧
        m.enqueueWith push b expectsResponse deadline =
          (.ok ⟨b.index, m.nextTicket, deadline⟩,
            m.lodge sendQueues b expectsResponse deadline) := by
  unfold enqueueWith
  rw [if_pos owned]
  split
  · exact .inl ⟨_, rfl⟩
  case h_2 header _ =>
    split
    · exact .inl ⟨_, rfl⟩
    · split
      · exact .inl ⟨_, rfl⟩
      · split
        · exact .inl ⟨_, rfl⟩
        case h_2 sendQueues pushed =>
          exact .inr ⟨header.protocol, sendQueues, pushed, rfl⟩

theorem enqueue_foreign {b : Buffer} (foreign : m.sendPool.owns b = false) (front : Bool)
    (expectsResponse : Bool) (deadline : Nat) :
    m.enqueue front b expectsResponse deadline = (.error .foreign, m) := by
  unfold enqueue enqueueFront enqueueBack enqueueWith
  simp [foreign]

theorem enqueue_cases {b : Buffer} (custody : m.Custody (b :: held)) (front expectsResponse : Bool)
    (deadline : Nat) :
    (∃ cause, m.enqueue front b expectsResponse deadline = (.error cause, m.putSend b)) ∨
      ∃ p bs sendQueues, bs.Perm (b :: m.sendQueues.entries p) ∧
        m.sendQueues.Becomes m.sendPool.capacity p bs sendQueues ∧
        m.enqueue front b expectsResponse deadline =
          (.ok ⟨b.index, m.nextTicket, deadline⟩,
            m.lodge sendQueues b expectsResponse deadline) := by
  have owned : m.sendPool.owns b = true := by
    simpa [Pool.owns] using custody.stock.owned b (by simp)
  cases front with
  | true =>
      rcases m.enqueueWith_cases ProtocolQueues.pushFront? owned expectsResponse deadline with
        refused | ⟨p, sendQueues, pushed, eq⟩
      · exact .inl refused
      · obtain ⟨queues', again, becomes, -⟩ := custody.stock.pushFront? p
        rw [pushed] at again
        cases again
        exact .inr ⟨p, _, sendQueues, .refl _, becomes, eq⟩
  | false =>
      rcases m.enqueueWith_cases ProtocolQueues.pushBack? owned expectsResponse deadline with
        refused | ⟨p, sendQueues, pushed, eq⟩
      · exact .inl refused
      · obtain ⟨queues', again, becomes, -⟩ := custody.stock.pushBack? p
        rw [pushed] at again
        cases again
        exact .inr ⟨p, _, sendQueues, List.perm_append_singleton b _, becomes, eq⟩

theorem enqueue_closed (m : Mailbox) (front : Bool) (b : Buffer) (expectsResponse : Bool)
    (deadline : Nat) : (m.enqueue front b expectsResponse deadline).2.closed = m.closed := by
  have queueing (push : ProtocolQueues → Protocol → Buffer → Option ProtocolQueues) :
      (m.enqueueWith push b expectsResponse deadline).2.closed = m.closed := by
    by_cases owned : m.sendPool.owns b = true
    · rcases m.enqueueWith_cases push owned expectsResponse deadline with
        ⟨cause, eq⟩ | ⟨p, sendQueues, -, eq⟩ <;> rw [eq] <;> rfl
    · simp [enqueueWith, owned]
  cases front with
  | true => exact queueing _
  | false => exact queueing _

section Lodge

variable {sendQueues : ProtocolQueues} {b : Buffer} {expectsResponse : Bool} {deadline : Nat}

theorem admissions_lodge : (m.lodge sendQueues b expectsResponse deadline).admissions =
    m.admissions ++ [(b.index, ⟨m.nextTicket, expectsResponse, deadline⟩)] := by
  simp [admissions, lodge, record, setRequest, MailboxEvent.admission?]

theorem withdrawals_lodge :
    (m.lodge sendQueues b expectsResponse deadline).withdrawals = m.withdrawals := by
  simp [withdrawals, lodge, record, setRequest, MailboxEvent.withdrawal?]

theorem outcome?_lodge (ticket : Nat) :
    (m.lodge sendQueues b expectsResponse deadline).outcome? ticket = m.outcome? ticket := by
  simp [outcome?, lodge, record, setRequest, outcomeOf?]

theorem request?_lodge (bound : b.index < m.requests.size) (i : Nat) :
    (m.lodge sendQueues b expectsResponse deadline).request? i =
      if b.index = i then some ⟨m.nextTicket, expectsResponse, deadline⟩ else m.request? i :=
  request?_setRequest bound _ i

theorem carries_lodge (bound : b.index < m.requests.size) (vacant : m.request? b.index = none)
    (i : Nat) (r : PendingRequest) :
    (m.lodge sendQueues b expectsResponse deadline).Carries i r ↔
      m.Carries i r ∨ i = b.index ∧ r = ⟨m.nextTicket, expectsResponse, deadline⟩ := by
  unfold Carries
  rw [request?_lodge bound]
  split
  case isTrue here =>
    subst here
    rw [vacant, Option.some.injEq]
    simp only [lodge, record, setRequest, reduceCtorEq, false_or, true_and]
    rw [or_comm, eq_comm]
  case isFalse elsewhere =>
    simp [lodge, record, setRequest, Ne.symm elsewhere]

theorem Accounts.lodge (h : m.Accounts) (bound : b.index < m.requests.size)
    (vacant : m.request? b.index = none) :
    (m.lodge sendQueues b expectsResponse deadline).Accounts where
  numbered entry mem := by
    rw [admissions_lodge, List.mem_append, List.mem_singleton] at mem
    rcases mem with mem | rfl
    · exact Nat.lt_succ_of_lt (h.numbered entry mem)
    · exact Nat.lt_succ_self _
  distinct := by
    rw [admissions_lodge, List.map_append, List.nodup_append]
    refine ⟨h.distinct, by simp, ?_⟩
    rintro ticket old _ new rfl
    obtain ⟨entry, mem, rfl⟩ := List.mem_map.mp old
    have below := h.numbered entry mem
    simp only [List.map_cons, List.map_nil, List.mem_singleton] at new
    omega
  known ticket some := by
    rw [outcome?_lodge] at some
    exact Nat.lt_succ_of_lt (h.known ticket some)
  shared ticket waiter mem := by
    rw [withdrawals_lodge] at mem
    obtain ⟨i, r, q, hr, rfl, hq, rfl⟩ := h.shared ticket waiter mem
    rw [admissions_lodge]
    exact ⟨i, r, q, List.mem_append_left _ hr, rfl, List.mem_append_left _ hq, rfl⟩
  carried i r carries := by
    rw [carries_lodge bound vacant] at carries
    rw [admissions_lodge, outcome?_lodge, withdrawals_lodge]
    rcases carries with carries | ⟨rfl, rfl⟩
    · obtain ⟨admitted, undecided, standing⟩ := h.carried i r carries
      exact ⟨List.mem_append_left _ admitted, undecided, standing⟩
    · refine ⟨by simp, ?_, fun waiter mem => ?_⟩
      · by_contra decided
        have below := h.known _ (Option.isSome_iff_ne_none.mpr decided)
        exact Nat.lt_irrefl _ below
      · obtain ⟨i, r, -, hr, ticket, -⟩ := h.shared _ waiter mem
        have below := h.numbered _ hr
        simp only at ticket below
        omega
  once i r flight waits flying := by
    rcases (carries_lodge bound vacant i r).mp (.inl waits) with carries | ⟨rfl, rfl⟩
    · by_cases here : i = b.index
      · subst here
        have request := request?_setRequest bound
          (some ⟨m.nextTicket, expectsResponse, deadline⟩) b.index
        rw [if_pos rfl] at request
        have eq : r = ⟨m.nextTicket, expectsResponse, deadline⟩ :=
          Option.some.inj (waits.symm.trans request)
        have below := h.numbered _ (h.carried _ r carries).1
        rw [eq] at below
        exact absurd below (Nat.lt_irrefl _)
      · have request := request?_setRequest bound
          (some ⟨m.nextTicket, expectsResponse, deadline⟩) i
        rw [if_neg (Ne.symm here)] at request
        exact h.once i r flight (request.symm.trans waits) flying
    · have below := h.numbered _ (h.carried _ _ (.inr ⟨flight, flying, rfl, rfl⟩)).1
      exact (Nat.ne_of_lt below).symm
  accounted i r mem := by
    rw [carries_lodge bound vacant, outcome?_lodge, withdrawals_lodge]
    rw [admissions_lodge, List.mem_append, List.mem_singleton] at mem
    rcases mem with mem | eq
    · exact (h.accounted i r mem).imp .inl id
    · cases eq
      exact .inl (.inr ⟨rfl, rfl⟩)

end Lodge

theorem Sound.lodge {p : Protocol} {b : Buffer} {bs : List Buffer} {sendQueues : ProtocolQueues}
    (h : m.Sound (b :: held)) (perm : bs.Perm (b :: m.sendQueues.entries p))
    (becomes : m.sendQueues.Becomes m.sendPool.capacity p bs sendQueues) (expectsResponse : Bool)
    (deadline : Nat) : (m.lodge sendQueues b expectsResponse deadline).Sound held where
  custody := (h.custody.enqueue perm becomes _).congr rfl rfl rfl
  shelved := h.shelved
  rest := h.rest.congr rfl rfl rfl
  accounts := by
    refine h.accounts.lodge h.custody.index_lt ?_
    rw [← Option.not_isSome_iff_eq_none, h.custody.recorded]
    exact h.custody.stock.not_mem_everything

/-! ## Giving up -/

/-- The request that an index names: the one that waits there, else the one written from there. -/
def named? (m : Mailbox) (index : Nat) : Option PendingRequest :=
  (m.request? index).or
    ((m.inFlight.filter fun flight => flight.index = index).map InFlight.request)

theorem carries_of_named {i : Nat} {r : PendingRequest} (named : m.named? i = some r) :
    m.Carries i r := by
  unfold named? at named
  cases found : m.request? i with
  | some q =>
      rw [found, Option.some_or] at named
      exact .inl (found.trans named)
  | none =>
      rw [found, Option.none_or] at named
      obtain ⟨flight, filtered, rfl⟩ := Option.map_eq_some_iff.mp named
      obtain ⟨flying, index⟩ := Option.filter_eq_some_iff.mp filtered
      exact .inr ⟨flight, flying, by simpa using index, rfl⟩

/-- A wait for `h` runs out and withdraws `r`. -/
structure Withdraws (m : Mailbox) (h : Handle) (r : PendingRequest) (m' : Mailbox) : Prop where
  drops : m.Drops h.index r m'
  journal : m'.journal = m.journal ++ [.withdrawn r.ticket h.ticket]
  counter : m'.counter = m.counter
  consumed : m.inFlight = none → m'.consumed = m.consumed
  nextTicket : m'.nextTicket = m.nextTicket
  closed : m'.closed = m.closed
  entries : ∀ p b, b ∈ m'.sendQueues.entries p ↔
    b ∈ m.sendQueues.entries p ∧ (b.index = h.index → m.request? h.index = none)

theorem not_queued_iff (custody : m.Custody held) (i : Nat) :
    m.sendQueues.remove? i = none ↔ m.request? i = none := by
  rw [custody.stock.queued.remove?_eq_none_iff, ← custody.recorded, Option.not_isSome_iff_eq_none]

theorem abandon_unnamed (custody : m.Custody held) {h : Handle}
    (unnamed : m.named? h.index = none) : m.abandon h = m := by
  unfold named? at unnamed
  obtain ⟨waits, flies⟩ := Option.or_eq_none_iff.mp unnamed
  have missing := (not_queued_iff custody h.index).mpr waits
  unfold abandon
  rw [missing]
  cases flying : m.inFlight with
  | none => rfl
  | some flight =>
      have other : flight.index ≠ h.index := by simpa [flying] using flies
      simp only [if_neg other]

namespace Withdraws

variable {h : Handle} {r : PendingRequest}

theorem admissions (withdraws : m.Withdraws h r m') : m'.admissions = m.admissions := by
  rw [admissions_append withdraws.journal]
  exact List.append_nil _

theorem withdrawals (withdraws : m.Withdraws h r m') :
    m'.withdrawals = m.withdrawals ++ [(r.ticket, h.ticket)] := by
  rw [withdrawals_append withdraws.journal]
  rfl

theorem outcome (withdraws : m.Withdraws h r m') (ticket : Nat) :
    m'.outcome? ticket = m.outcome? ticket := by
  rw [outcome?_append withdraws.journal]
  exact Option.or_none

end Withdraws

theorem abandon_waiting (s : m.Sound held) {h : Handle} {r : PendingRequest}
    (found : m.request? h.index = some r) :
    m.Withdraws h r (m.abandon h) ∧ (m.abandon h).Custody held ∧ (m.abandon h).Shelved ∧
      (m.abandon h).Rest := by
  have queued : m.sendQueues.remove? h.index ≠ none := by
    rw [Ne, not_queued_iff s.custody, found]
    simp
  obtain ⟨⟨p, b, sendQueues⟩, remove⟩ := Option.ne_none_iff_exists'.mp queued
  obtain ⟨before, after, entries, index, becomes⟩ := s.custody.stock.queued.remove? remove
  have eq : m.abandon h = ({ ({ m with sendQueues }).setRequest h.index none with
      journal := m.journal ++ [MailboxEvent.withdrawn r.ticket h.ticket]
      statistics := { m.statistics with timeouts := m.statistics.timeouts + 1 } }).putSend b := by
    unfold abandon
    rw [remove]
    simp only [found, giveUp]
    rfl
  refine ⟨⟨?_, ?_, ?_, fun _ => ?_, ?_, ?_, fun q c => ?_⟩, ?_, ?_, ?_⟩
  · refine s.accounts.drops_waiting found (removes_setRequest (lt_size_of_request? found) ?_) ?_ <;>
      rw [eq] <;> rfl
  · rw [eq]; rfl
  · rw [eq]; rfl
  · rw [eq]; rfl
  · rw [eq]; rfl
  · rw [eq]; rfl
  · rw [eq, found]
    have mem := s.custody.stock.mem_dequeue entries becomes q c
    rw [index] at mem
    simpa [putSend, setRequest] using mem
  · rw [eq, ← index]
    exact Custody.put ((s.custody.dequeue entries becomes).congr rfl rfl rfl)
  · rw [eq]
    exact s.shelved
  · rw [eq]
    exact s.rest.congr rfl rfl rfl

theorem abandon_flying (s : m.Sound held) {h : Handle} {flight : InFlight}
    (vacant : m.request? h.index = none) (flying : m.inFlight = some flight)
    (index : flight.index = h.index) :
    m.Withdraws h flight.request (m.abandon h) ∧ (m.abandon h).Custody held ∧
      (m.abandon h).Shelved ∧ (m.abandon h).Rest := by
  have missing := (not_queued_iff s.custody h.index).mpr vacant
  have awaiting : m.handshake = .awaitResponse := s.rest.awaiting.mpr (by simp [flying])
  have eq : m.abandon h = { m with
      inFlight := none
      consumed := true
      handshake := .timeout
      journal := m.journal ++ [MailboxEvent.withdrawn flight.request.ticket h.ticket]
      statistics := { m.statistics with timeouts := m.statistics.timeouts + 1 } } := by
    unfold abandon
    rw [missing]
    simp only [flying, if_pos index, giveUp, record, countTimeout, tally, awaiting, if_true]
  refine ⟨⟨?_, ?_, ?_, fun calm => ?_, ?_, ?_, fun q c => ?_⟩, ?_, ?_, ?_⟩
  · rw [← index]
    refine s.accounts.drops_flying flying (fun j => ?_) ?_ <;> rw [eq]
    rfl
  · rw [eq]
  · rw [eq]
  · rw [flying] at calm
    cases calm
  · rw [eq]
  · rw [eq]
  · rw [eq, vacant]
    simp
  · rw [eq]
    exact s.custody.congr rfl rfl rfl
  · rw [eq]
    exact s.shelved
  · rw [eq]
    exact .of_calm rfl rfl

theorem abandon_named (s : m.Sound held) {h : Handle} {r : PendingRequest}
    (named : m.named? h.index = some r) :
    m.Withdraws h r (m.abandon h) ∧ (m.abandon h).Custody held ∧ (m.abandon h).Shelved ∧
      (m.abandon h).Rest := by
  unfold named? at named
  cases found : m.request? h.index with
  | some q =>
      rw [found, Option.some_or] at named
      exact abandon_waiting s (found.trans named)
  | none =>
      rw [found, Option.none_or] at named
      obtain ⟨flight, filtered, rfl⟩ := Option.map_eq_some_iff.mp named
      obtain ⟨flying, index⟩ := Option.filter_eq_some_iff.mp filtered
      exact abandon_flying s found flying (by simpa using index)

theorem Accounts.withdraw {h : Handle} {r other : PendingRequest} (a : m.Accounts)
    (own : (h.index, other) ∈ m.admissions) (ticket : other.ticket = h.ticket)
    (withdraws : m.Withdraws h r m') : m'.Accounts := by
  refine a.drop withdraws.drops withdraws.admissions withdraws.nextTicket
    (fun t _ => withdraws.outcome t) (fun t waiter mem => ?_) (fun entry mem => ?_) (.inr ?_)
  · rw [withdraws.withdrawals, List.mem_append, List.mem_singleton] at mem
    rcases mem with mem | eq
    · exact .inl mem
    · cases eq
      exact .inr ⟨rfl, other, own, ticket⟩
  · rw [withdraws.withdrawals]
    exact List.mem_append_left _ mem
  · exact ⟨h.ticket, by simp [withdraws.withdrawals]⟩

theorem settle_withdraws (s : m.Sound held) {h : Handle} {r : PendingRequest}
    (undecided : m.outcome? h.ticket = none) (named : m.named? h.index = some r) :
    m.Withdraws h r (m.settle h).2 := by
  rw [settle, undecided]
  exact (abandon_named s named).1

theorem settle_cases (s : m.Sound held) (h : Handle) :
    (m.settle h).2 = m ∨
      ∃ r, m.outcome? h.ticket = none ∧ m.named? h.index = some r ∧
        m.Withdraws h r (m.settle h).2 ∧ (m.settle h).2.Custody held ∧
        (m.settle h).2.Shelved ∧ (m.settle h).2.Rest := by
  unfold settle
  cases decided : m.outcome? h.ticket with
  | some outcome => exact .inl rfl
  | none =>
      cases named : m.named? h.index with
      | none => exact .inl (abandon_unnamed s.custody named)
      | some r => exact .inr ⟨r, rfl, rfl, abandon_named s named⟩

theorem Sound.settle {h : Handle} {own : PendingRequest} (s : m.Sound held)
    (admitted : (h.index, own) ∈ m.admissions) (ticket : own.ticket = h.ticket) :
    (m.settle h).2.Sound held := by
  rcases settle_cases s h with eq | ⟨r, -, -, withdraws, custody, shelved, rest⟩
  · rw [eq]
    exact s
  · exact ⟨custody, shelved, rest, s.accounts.withdraw admitted ticket withdraws⟩

theorem settle_closed (m : Mailbox) (h : Handle) : (m.settle h).2.closed = m.closed := by
  rcases m.settle_eq h with eq | ⟨-, eq⟩ <;> rw [eq]
  rcases m.abandon_cases h with
    eq | ⟨p, b, sendQueues, -, eq⟩ | ⟨flight, -, -, ⟨-, eq⟩ | ⟨-, eq⟩⟩ <;> rw [eq]
  rfl

/-! ## Reading what came -/

theorem Sound.takeReceived {p : Protocol} {result : Except Error Message} (s : m.Sound held)
    (taken : m.takeReceived? p = some (result, m')) : m'.Sound held := by
  obtain ⟨⟨b, receiveQueues⟩, pop, eq⟩ := Option.map_eq_some_iff.mp taken
  simp only [Prod.mk.injEq] at eq
  obtain ⟨-, rfl⟩ := eq
  obtain ⟨rest, entries, becomes⟩ := s.shelved.queued.pop? pop
  have entries : m.receiveQueues.entries p = [] ++ b :: rest := entries
  exact s.congr (s.custody.congr rfl rfl rfl) (Stock.dequeue s.shelved entries becomes).put
    ⟨fun _ => rfl, rfl, rfl, rfl⟩ rfl rfl rfl

theorem Sound.scheduleRead (s : m.Sound held) : m.scheduleRead.Sound held :=
  s.congr (s.custody.congr rfl rfl rfl) s.shelved ⟨fun _ => rfl, rfl, rfl, rfl⟩ rfl rfl rfl

theorem Sound.reads {p : Protocol} {got : Option (Except Error Message)} (s : m.Sound held)
    (reads : m.Reads p got m') : m'.Sound held := by
  cases reads with
  | got taken => exact s.takeReceived taken
  | missed =>
      exact s.congr (s.custody.congr rfl rfl rfl) s.shelved ⟨fun _ => rfl, rfl, rfl, rfl⟩
        rfl rfl rfl

theorem Sound.tryRead (s : m.Sound held) (p : Protocol) : (m.tryRead p).2.Sound held :=
  let ⟨_, reads, _⟩ := m.tryRead_reads p
  s.reads reads

theorem Sound.requestRead (s : m.Sound held) (p : Protocol) : (m.requestRead p).2.Sound held :=
  let ⟨_, reads, _⟩ := m.requestRead_reads p
  s.reads reads

theorem Sound.read (s : m.Sound held) (p : Protocol) : (m.read p).2.Sound held :=
  let ⟨_, reads, _⟩ := m.read_reads p
  s.reads reads

theorem takeReceived_untouched {p : Protocol} {result : Except Error Message}
    (taken : m.takeReceived? p = some (result, m')) : m.Untouched m' := by
  obtain ⟨⟨b, receiveQueues⟩, -, eq⟩ := Option.map_eq_some_iff.mp taken
  simp only [Prod.mk.injEq] at eq
  obtain ⟨-, rfl⟩ := eq
  exact ⟨rfl, rfl, rfl, rfl, rfl, rfl, rfl, rfl, rfl⟩

theorem Reads.untouched {p : Protocol} {got : Option (Except Error Message)}
    (reads : m.Reads p got m') : m.Untouched m' := by
  cases reads with
  | got taken => exact takeReceived_untouched taken
  | missed => exact ⟨rfl, rfl, rfl, rfl, rfl, rfl, rfl, rfl, rfl⟩

theorem tryRead_untouched (m : Mailbox) (p : Protocol) : m.Untouched (m.tryRead p).2 :=
  let ⟨_, reads, _⟩ := m.tryRead_reads p
  reads.untouched

theorem scheduleRead_untouched (m : Mailbox) : m.Untouched m.scheduleRead :=
  ⟨rfl, rfl, rfl, rfl, rfl, rfl, rfl, rfl, rfl⟩

theorem requestRead_untouched (m : Mailbox) (p : Protocol) : m.Untouched (m.requestRead p).2 :=
  let ⟨_, reads, _⟩ := m.requestRead_reads p
  reads.untouched

theorem read_untouched (m : Mailbox) (p : Protocol) : m.Untouched (m.read p).2 :=
  let ⟨_, reads, _⟩ := m.read_reads p
  reads.untouched

end Fieldbus.Mailbox
