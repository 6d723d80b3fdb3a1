import Fieldbus.Proofs.Mailbox.Histories

/-!
# The requests in line

The requests of a protocol stand in line, each with its buffer. A move leaves all lines as they are
or changes one at its front: the request there is overdue and ends, is stamped and stays, or is
taken by the slave and leaves. `Shift` says of a move what `Effect` leaves open, which is the order
of those who wait, and `Passage` says it of a step of a session.
-/

namespace Fieldbus

namespace Buffer

def stamped (counter : UInt8) (b : Buffer) : Buffer :=
  { b with bytes := MessageHeader.stamp counter b.bytes }

theorem stamped_stamped (c c' : UInt8) (b : Buffer) : (b.stamped c').stamped c = b.stamped c := by
  simp [stamped, MessageHeader.stamp_stamp]

end Buffer

namespace MailboxEvent

def firing? : MailboxEvent → Option Firing
  | .fired firing => some firing
  | _ => none

structure Unsent (event : MailboxEvent) : Prop where
  taker : event.taker? = none
  firing : event.firing? = none

end MailboxEvent

namespace Mailbox

open BufferQueue (indices)

theorem firings_eq (m : Mailbox) : m.firings = m.journal.filterMap MailboxEvent.firing? := rfl

def Unsent (m m' : Mailbox) : Prop :=
  ∃ events, m'.journal = m.journal ++ events ∧ ∀ event ∈ events, event.Unsent

def line (m : Mailbox) (bs : List Buffer) : List (PendingRequest × Buffer) :=
  bs.filterMap fun b => (m.request? b.index).map fun r => (r, b)

/-- The requests of a protocol that wait, the next one first. -/
def lineup (m : Mailbox) (p : Protocol) : List (PendingRequest × Buffer) :=
  m.line (m.sendQueues.entries p)

structure Front (m : Mailbox) (p : Protocol) (entry : PendingRequest × Buffer)
    (rest : List (PendingRequest × Buffer)) : Prop where
  lineup : m.lineup p = entry :: rest
  listed : p ∈ m.config.priority
  others : ∀ q ∈ m.config.priority.takeWhile (· ≠ p), m.lineup q = []

variable {m m' m'' : Mailbox} {held : List Buffer} {now : Nat} {p : Protocol} {b : Buffer}
  {r : PendingRequest}

/-! ## Lines -/

theorem line_append (m : Mailbox) (bs cs : List Buffer) :
    m.line (bs ++ cs) = m.line bs ++ m.line cs :=
  List.filterMap_append

theorem line_cons (found : m.request? b.index = some r) (bs : List Buffer) :
    m.line (b :: bs) = (r, b) :: m.line bs :=
  List.filterMap_cons_some (by rw [found]; rfl)

theorem line_congr {bs : List Buffer} (same : ∀ b ∈ bs, m'.request? b.index = m.request? b.index) :
    m'.line bs = m.line bs :=
  List.filterMap_congr fun b mem => by rw [same b mem]

theorem mem_line {bs : List Buffer} :
    (r, b) ∈ m.line bs ↔ b ∈ bs ∧ m.request? b.index = some r := by
  simp [line, List.mem_filterMap]

theorem lineup_congr (requests : m'.requests = m.requests)
    (queues : m'.sendQueues = m.sendQueues) : m'.lineup = m.lineup := by
  funext p
  rw [lineup, queues]
  exact line_congr fun b _ => by rw [request?, requests, request?]

theorem Untouched.lineup (h : m.Untouched m') : m'.lineup = m.lineup :=
  lineup_congr h.requests h.sendQueues

theorem Custody.lineup (h : m.Custody held) (p : Protocol) :
    (m.lineup p).map Prod.snd = m.sendQueues.entries p := by
  rw [Mailbox.lineup, line, List.map_filterMap]
  refine (List.filterMap_congr fun b mem => ?_).trans (List.filterMap_some)
  have queued := ProtocolQueues.mem_indices_everything.mpr ⟨p, List.mem_map_of_mem mem⟩
  obtain ⟨r, found⟩ := Option.isSome_iff_exists.mp ((h.recorded b.index).mpr queued)
  rw [found]
  rfl

theorem Shut.lineup (shut : m.Shut) (p : Protocol) : m.lineup p = [] := by
  have empty : m.sendQueues.entries p = [] :=
    List.flatMap_eq_nil_iff.mp shut.emptied p (Protocol.mem_all p)
  rw [Mailbox.lineup, empty]
  rfl

theorem Custody.lineup_dequeue {before after : List Buffer} {sendQueues : ProtocolQueues}
    (h : m.Custody held) (entries : m.sendQueues.entries p = before ++ b :: after)
    (becomes : m.sendQueues.Becomes m.sendPool.capacity p (before ++ after) sendQueues)
    (found : m.request? b.index = some r) :
    m.lineup p = m.line before ++ (r, b) :: m.line after ∧
      ({ m with sendQueues }.setRequest b.index none).lineup =
        Function.update m.lineup p (m.line before ++ m.line after) := by
  constructor
  · rw [Mailbox.lineup, entries, line_append, line_cons found]
  · funext q
    have others : ({ m with sendQueues }.setRequest b.index none).lineup q =
        m.line (sendQueues.entries q) := by
      refine line_congr fun c mem => ?_
      have absent := (h.stock.dequeue entries becomes).fresh q
      have other : c.index ≠ b.index := fun same => absent (same ▸ List.mem_map_of_mem mem)
      exact request?_setRequest_ne none other
    rw [others, becomes.entries, Function.update_apply, Function.update_apply]
    split
    · exact line_append m before after
    · rfl

theorem Custody.lineup_enqueue {sendQueues : ProtocolQueues} (h : m.Custody (b :: held))
    (before after : List Buffer) (entries : m.sendQueues.entries p = before ++ after)
    (becomes : m.sendQueues.Becomes m.sendPool.capacity p (before ++ b :: after) sendQueues)
    (request : PendingRequest) :
    ({ m with sendQueues }.setRequest b.index (some request)).lineup =
      Function.update m.lineup p (m.line before ++ (request, b) :: m.line after) := by
  have others (q : Protocol) (bs : List Buffer) (part : bs ⊆ m.sendQueues.entries q) :
      ({ m with sendQueues }.setRequest b.index (some request)).line bs = m.line bs := by
    refine line_congr fun c mem => ?_
    have absent := h.stock.fresh q
    have other : c.index ≠ b.index := fun same => absent (same ▸ List.mem_map_of_mem (part mem))
    exact request?_setRequest_ne (some request) other
  have self : ({ m with sendQueues }.setRequest b.index (some request)).request? b.index =
      some request := request?_setRequest_self (some request) h.index_lt
  funext q
  rw [Mailbox.lineup]
  change line _ (sendQueues.entries q) = _
  rw [becomes.entries, Function.update_apply, Function.update_apply]
  split
  · rw [line_append, line_cons self, others p before (by simp [entries]),
      others p after (by simp [entries])]
  · exact others q _ (List.Subset.refl _)

/-! ## The front -/

theorem ProtocolQueues.next?_first {q q' : ProtocolQueues} {order : List Protocol}
    (next : q.next? order = some (p, b, q')) :
    p ∈ order ∧ ∀ other ∈ order.takeWhile (· ≠ p), (q.queue other).isEmpty = true := by
  obtain ⟨first, peeked, taken⟩ := Option.bind_eq_some_iff.mp next
  obtain ⟨⟨c, rest⟩, -, eq⟩ := Option.map_eq_some_iff.mp taken
  simp only [Prod.mk.injEq] at eq
  obtain ⟨rfl, -, -⟩ := eq
  obtain ⟨waits, before, after, rfl, empty⟩ := List.find?_eq_some_iff_append.mp peeked
  refine ⟨by simp, fun other mem => ?_⟩
  have passed : ∀ q' ∈ before, (decide (q' ≠ first)) = true := by
    intro q' mem
    have none := empty q' mem
    refine decide_eq_true fun same => ?_
    rw [same, waits] at none
    cases none
  rw [List.takeWhile_append_of_pos passed, List.takeWhile_cons_of_neg (by simp),
    List.append_nil] at mem
  simpa using empty other mem

theorem Custody.front {sendQueues : ProtocolQueues} (h : m.Custody held)
    (next : m.sendQueues.next? m.config.priority = some (p, b, sendQueues))
    (found : m.request? b.index = some r) :
    ∃ rest, m.Front p (r, b) rest ∧
      ({ m with sendQueues }.setRequest b.index none).lineup =
        Function.update m.lineup p rest := by
  obtain ⟨rest, entries, becomes⟩ := h.stock.queued.next? next
  have first : m.sendQueues.entries p = [] ++ b :: rest := entries
  obtain ⟨lined, left⟩ := h.lineup_dequeue first becomes found
  obtain ⟨listed, empty⟩ := ProtocolQueues.next?_first next
  refine ⟨m.line rest, ⟨lined, listed, fun q mem => ?_⟩, left⟩
  have holds := h.stock.queued.holds q
  have none : m.sendQueues.entries q = [] := by
    have short : (m.sendQueues.queue q).length = 0 := by
      simpa [BufferQueue.isEmpty] using empty q mem
    rw [holds.length] at short
    exact List.length_eq_zero_iff.mp short
  rw [Mailbox.lineup, none]
  rfl

theorem Picks.front {m₁ : Mailbox} (custody : m.Custody held) (picks : m.Picks now p b m₁) :
    ∃ r rest, m.Front p (r, b) rest ∧ now < r.deadline ∧
      m₁.inFlight = some ⟨b.index, r, false, 0⟩ ∧ m₁.lineup = Function.update m.lineup p rest := by
  obtain ⟨sendQueues, r, -, next, found, early, rfl⟩ := picks
  obtain ⟨rest, front, left⟩ := custody.front next found
  exact ⟨r, rest, front, early, rfl, left⟩

theorem Front.leaves {entry : PendingRequest × Buffer} {rest : List (PendingRequest × Buffer)}
    (front : m.Front p entry rest) (left : m'.lineup = Function.update m.lineup p rest)
    (q : Protocol) : (m'.lineup q).Sublist (m.lineup q) := by
  rw [left, Function.update_apply]
  split
  case isTrue same =>
    rw [same, front.lineup]
    exact List.sublist_cons_self ..
  case isFalse => exact .refl _

/-! ## What is not sent -/

theorem Unsent.of_journal (journal : m'.journal = m.journal) : m.Unsent m' :=
  ⟨[], by rw [journal, List.append_nil], List.forall_mem_nil _⟩

theorem Unsent.trans (h : m.Unsent m') (h' : m'.Unsent m'') : m.Unsent m'' := by
  obtain ⟨events, journal, unsent⟩ := h
  obtain ⟨events', journal', unsent'⟩ := h'
  refine ⟨events ++ events', by rw [journal', journal, List.append_assoc], fun event mem => ?_⟩
  exact (List.mem_append.mp mem).elim (unsent event) (unsent' event)

theorem Unsent.takers (h : m.Unsent m') : m'.takers = m.takers := by
  obtain ⟨events, journal, unsent⟩ := h
  exact takers_of_untaken journal fun event mem => (unsent event mem).taker

theorem Unsent.firings (h : m.Unsent m') : m'.firings = m.firings := by
  obtain ⟨events, journal, unsent⟩ := h
  rw [firings_eq, journal, List.filterMap_append,
    List.filterMap_eq_nil_iff.mpr fun event mem => (unsent event mem).firing, List.append_nil,
    firings_eq]

theorem verdict_unsent (m : Mailbox) (ticket : Nat) (outcome : Except Error Reply) :
    ∀ event ∈ m.verdict ticket outcome, event.Unsent := by
  intro event mem
  refine ⟨verdict_untaken m ticket outcome event mem, ?_⟩
  cases verdict_ending m ticket outcome event mem <;> rfl

theorem Untouched.unsent (h : m.Untouched m') : m.Unsent m' := .of_journal h.journal

theorem Idles.unsent (idles : m.Idles m') : m.Unsent m' := by
  rcases idles with untouched | ⟨g, r, withdraws⟩
  · exact untouched.unsent
  · exact ⟨_, withdraws.journal, by simpa using ⟨rfl, rfl⟩⟩

theorem Dismisses.unsent (dismisses : m.Dismisses m') : m.Unsent m' := by
  obtain ⟨events, journal, dismissed⟩ := dismisses.journal
  refine ⟨events, journal, fun event mem => ?_⟩
  obtain ⟨i, r, -, rfl⟩ := dismissed event mem
  exact ⟨rfl, rfl⟩

theorem expire_unsent (m : Mailbox) (now : Nat) :
    m.Unsent (m.expire now) ∧ (m.expire now).requests = m.requests := by
  rcases m.expire_cases now with eq | ⟨flight, -, -, -, eq⟩ <;> rw [eq]
  · exact ⟨.of_journal rfl, rfl⟩
  · exact ⟨⟨_, rfl, verdict_unsent m _ _⟩, rfl⟩

theorem route_unsent (m : Mailbox) (b : Buffer) :
    m.Unsent (m.route b) ∧ (m.route b).requests = m.requests := by
  constructor
  · rcases decoded : Message.decode? b.contents with cause | message
    · rw [route_garbled decoded]
      exact ⟨_, rfl, by simpa using ⟨rfl, rfl⟩⟩
    · cases fate : m.fate message with
      | unsupported =>
          rw [route_unsupported decoded fate]
          exact ⟨_, rfl, by simpa using ⟨rfl, rfl⟩⟩
      | stale =>
          rw [route_stale decoded fate]
          exact ⟨_, rfl, by simpa using ⟨rfl, rfl⟩⟩
      | queued =>
          rw [route_queued decoded fate]
          obtain ⟨_, _, eq⟩ := pushReceived_fields _ message.header.protocol b
          rw [eq]
          exact ⟨_, rfl, by simpa using ⟨rfl, rfl⟩⟩
      | answered ticket =>
          obtain ⟨flight, awaiting, flying, rfl, -, -⟩ := fate_answered fate
          obtain ⟨m₀, -, answered, routed⟩ := route_answered decoded awaiting flying fate
          rw [answered]
          refine ⟨_, (congrArg (· ++ _) routed).trans (List.append_assoc ..), fun event mem => ?_⟩
          rcases List.mem_append.mp mem with mem | mem
          · rw [List.mem_singleton.mp mem]
            exact ⟨rfl, rfl⟩
          · exact verdict_unsent _ _ _ event mem
  · obtain ⟨_, _, _, _, _, _, _, eq⟩ := m.route_fields b
    rw [eq]

/-! ## Moves -/

/-- What a move does to the requests in line. -/
inductive Shift (now : Nat) (m m' : Mailbox) : Prop
  | still : m'.lineup = m.lineup → m.Unsent m' → Shift now m m'
  | overdue {p : Protocol} {r : PendingRequest} {b : Buffer}
      {rest : List (PendingRequest × Buffer)} :
      m.Front p (r, b) rest → r.deadline ≤ now → m'.lineup = Function.update m.lineup p rest →
      m'.outcome? r.ticket = some (.error .timeout) → m.Unsent m' → Shift now m m'
  | stamped {p : Protocol} {r : PendingRequest} {b : Buffer}
      {rest : List (PendingRequest × Buffer)} :
      m.Front p (r, b) rest → now < r.deadline →
      m'.lineup = Function.update m.lineup p ((r, b.stamped m.counter.next.last) :: rest) →
      m'.counter = m.counter.next → m.Unsent m' → Shift now m m'
  | taken {p : Protocol} {r : PendingRequest} {b : Buffer}
      {rest : List (PendingRequest × Buffer)} {events : List MailboxEvent} {workCounter : UInt16} :
      m.Front p (r, b) rest → now < r.deadline → m'.lineup = Function.update m.lineup p rest →
      m'.counter = m.counter.next → m'.journal = m.journal ++
        .stamped (some r.ticket) m.counter.next.last ::
        .acknowledged (some r.ticket) m.counter.next.last workCounter ::
        ((b.stamped m.counter.next.last).fire.1.map MailboxEvent.fired ++ events) →
      (∀ event ∈ events, event.Unsent) → Shift now m m'

theorem Picks.requeue_lineup {m₁ m₂ : Mailbox} {c : Buffer} (custody : m.Custody held)
    (picks : m.Picks now p b m₁) (unsent : m.Unsent m₂) (index : c.index = b.index)
    (owner : c.pool = b.pool) (pool : m₂.sendPool = m₁.sendPool)
    (queues : m₂.sendQueues = m₁.sendQueues) (requests : m₂.requests = m₁.requests)
    (flying : m₂.inFlight = m₁.inFlight) :
    ∃ r rest, m.Front p (r, b) rest ∧ now < r.deadline ∧
      (m₂.requeue p c).lineup = Function.update m.lineup p ((r, c) :: rest) ∧
      m.Unsent (m₂.requeue p c) := by
  have back := ((custody.picks picks).congr pool queues requests).change index owner
  obtain ⟨sendQueues, push, becomes, -⟩ := back.stock.pushFront? p
  obtain ⟨r, rest, front, early, chosen, left⟩ := picks.front custody
  have left : m₂.lineup = Function.update m.lineup p rest :=
    (lineup_congr requests queues).trans left
  have eq := requeue_eq (flying.trans chosen) rfl push
  refine ⟨r, rest, front, early, ?_, ?_⟩
  · have joined := back.lineup_enqueue [] (m₂.sendQueues.entries p) rfl becomes r
    rw [eq]
    refine joined.trans ?_
    change Function.update m₂.lineup p ((r, c) :: m₂.lineup p) = _
    rw [left]
    simp
  · rw [eq]
    exact unsent.trans ⟨_, rfl, by simpa using ⟨rfl, rfl⟩⟩

theorem acknowledge_unsent (m : Mailbox) (c : Buffer) (workCounter : UInt16) :
    (m.acknowledge c workCounter).requests = m.requests ∧ ∃ events,
      (m.acknowledge c workCounter).journal = m.journal ++
        .acknowledged m.flightTicket m.counter.last workCounter ::
        (c.fire.1.map MailboxEvent.fired ++ events) ∧ ∀ event ∈ events, event.Unsent := by
  have grown (events : List MailboxEvent) : (m.taken c workCounter).journal ++ events =
      m.journal ++ .acknowledged m.flightTicket m.counter.last workCounter ::
        (c.fire.1.map MailboxEvent.fired ++ events) := by
    simp [Mailbox.taken]
  rcases m.acknowledge_cases c workCounter with
    ⟨handshake, eq⟩ | ⟨flight, -, eq⟩ | ⟨flight, -, eq⟩ <;> rw [eq]
  · exact ⟨rfl, [], (List.append_nil _).symm.trans (grown []), List.forall_mem_nil _⟩
  · exact ⟨rfl, [], (List.append_nil _).symm.trans (grown []), List.forall_mem_nil _⟩
  · exact ⟨rfl, _, grown _, verdict_unsent _ _ _⟩

theorem Picks.stamping {m₁ : Mailbox} (picks : m.Picks now p b m₁)
    (chosen : m₁.flightTicket = some r.ticket) :
    (m₁.stamp b).1 = b.stamped m.counter.next.last ∧ (m₁.stamp b).2.counter = m.counter.next ∧
      (m₁.stamp b).2.journal = m.journal ++ [.stamped (some r.ticket) m.counter.next.last] := by
  obtain ⟨sendQueues, request, -, -, -, -, rfl⟩ := picks
  have ticket : some request.ticket = some r.ticket := chosen
  exact ⟨rfl, rfl, by rw [← ticket]; rfl⟩

theorem Move.shift (s : m.Sound held) (move : Move now m m') : Shift now m m' := by
  cases move with
  | expire =>
      obtain ⟨unsent, requests⟩ := expire_unsent m now
      exact .still (lineup_congr requests (expire_sendQueues m now)) unsent
  | schedule nextPoll => exact .still (lineup_congr rfl rfl) (.of_journal rfl)
  | look slotState => exact .still (lineup_congr rfl rfl) (.of_journal rfl)
  | spare data take short => exact .still (lineup_congr rfl rfl) (.of_journal rfl)
  | @receive b receivePool data take short =>
      obtain ⟨unsent, requests⟩ := route_unsent { m with receivePool, slotState := .empty }
        ((b.holding data).withLength m.slave.readSlot.length.toNat)
      exact .still (lineup_congr requests (route_sendQueues ..)) unsent
  | orphan ready next none => exact (orphan_absurd s.custody next none).elim
  | @overdue p b sendQueues request ready next found late =>
      obtain ⟨rest, front, left⟩ := s.custody.front next found
      have undecided := (s.accounts.carried b.index request (.inl found)).2.1
      rw [resolve_eq]
      have verdict := verdict_unsent ({ m with sendQueues }.setRequest b.index none) request.ticket
        (.error .timeout)
      refine .overdue front late ((lineup_congr rfl rfl).trans left) ?_ ⟨_, rfl, verdict⟩
      have resolves : m.Resolves request.ticket (.error .timeout) { m with
          journal := m.journal ++ m.verdict request.ticket (.error .timeout) } :=
        .of_verdict (.of_journal rfl) rfl
      exact resolves.outcome.trans (by rw [undecided]; rfl)
  | @withhold m₁ p b picks =>
      have quiet : m.Unsent m₁ := .of_journal (by obtain ⟨_, _, -, -, -, -, rfl⟩ := picks; rfl)
      obtain ⟨r, rest, front, -, back, unsent⟩ :=
        picks.requeue_lineup s.custody quiet rfl rfl rfl rfl rfl rfl
      refine .still (back.trans ?_) unsent
      rw [← front.lineup, Function.update_eq_self]
  | @refuse m₁ p b failures picks =>
      obtain ⟨r, rest, front, early, chosen, -⟩ := picks.front s.custody
      obtain ⟨bytes, counter, journal⟩ := picks.stamping (r := r) (by simp [flightTicket, chosen])
      have stamped : m.Unsent ((m₁.stamp b).2.retried failures) :=
        ⟨_, journal, by simpa using ⟨rfl, rfl⟩⟩
      obtain ⟨r', rest', front', -, back, unsent⟩ :=
        picks.requeue_lineup (c := (m₁.stamp b).1) s.custody stamped rfl rfl rfl rfl rfl rfl
      rw [bytes] at back unsent ⊢
      -- What goes back is what stood first before, and behind it stand the same requests.
      obtain ⟨same, rfl⟩ := List.cons_eq_cons.mp (front.lineup.symm.trans front'.lineup)
      cases same
      refine .stamped front early back ?_ unsent
      exact (mute_requeue ((m₁.stamp b).2.retried failures) p _).counter.trans counter
  | @accept m₁ p b failures workCounter picks counted =>
      obtain ⟨r, rest, front, early, chosen, left⟩ := picks.front s.custody
      obtain ⟨bytes, counter, journal⟩ := picks.stamping (r := r) (by simp [flightTicket, chosen])
      have ticket : ((m₁.stamp b).2.retried failures).flightTicket = some r.ticket :=
        congrArg (Option.map fun (flight : InFlight) => flight.request.ticket) chosen
      obtain ⟨requests, events, told, unsent⟩ :=
        acknowledge_unsent ((m₁.stamp b).2.retried failures) (m₁.stamp b).1 workCounter
      have before : m.journal ++ [.stamped (some r.ticket) m.counter.next.last] =
          ((m₁.stamp b).2.retried failures).journal := journal.symm
      have last : ((m₁.stamp b).2.retried failures).counter = m.counter.next := counter
      rw [bytes] at requests told ⊢
      rw [← before, last, ticket, List.append_assoc, List.singleton_append] at told
      exact .taken front early ((lineup_congr requests (acknowledge_sendQueues ..)).trans left)
        ((acknowledge_tells ..).1.trans counter) told unsent

/-! ## Callers -/

theorem enqueueWith_pushed {push : ProtocolQueues → Protocol → Buffer → Option ProtocolQueues}
    {expectsResponse : Bool} {deadline : Nat} {h : Handle} {header : MessageHeader}
    (queued : (m.enqueueWith push b expectsResponse deadline).1 = .ok h)
    (decoded : MessageHeader.decode? b.bytes = .ok header) :
    h.ticket = m.nextTicket ∧ ∃ sendQueues,
      push m.sendQueues header.protocol b = some sendQueues ∧
        (m.enqueueWith push b expectsResponse deadline).2 =
          m.lodge sendQueues b expectsResponse deadline := by
  unfold enqueueWith at queued ⊢
  rw [decoded] at queued ⊢
  split at queued
  case isTrue owned =>
    rw [if_pos owned]
    dsimp only at queued ⊢
    split at queued
    · cases queued
    · split at queued
      · cases queued
      case isFalse opened =>
        rw [if_neg opened]
        split at queued
        · cases queued
        case h_2 sendQueues pushed =>
          cases queued
          exact ⟨rfl, sendQueues, pushed, rfl⟩
  · cases queued

theorem Custody.enqueue_lineup {front expectsResponse : Bool} {deadline : Nat} {h : Handle}
    {header : MessageHeader} (custody : m.Custody (b :: held))
    (queued : (m.enqueue front b expectsResponse deadline).1 = .ok h)
    (decoded : MessageHeader.decode? b.bytes = .ok header) :
    h.ticket = m.nextTicket ∧ m.Unsent (m.enqueue front b expectsResponse deadline).2 ∧
      (m.enqueue front b expectsResponse deadline).2.nextTicket = m.nextTicket + 1 ∧
      (m.enqueue front b expectsResponse deadline).2.lineup =
        Function.update m.lineup header.protocol
          (if front then (⟨h.ticket, expectsResponse, deadline⟩, b) :: m.lineup header.protocol
            else m.lineup header.protocol ++ [(⟨h.ticket, expectsResponse, deadline⟩, b)]) := by
  have lodged (sendQueues : ProtocolQueues) :
      m.Unsent (m.lodge sendQueues b expectsResponse deadline) :=
    ⟨_, rfl, by simpa using ⟨rfl, rfl⟩⟩
  cases front with
  | true =>
      obtain ⟨ticket, sendQueues, pushed, eq⟩ := enqueueWith_pushed queued decoded
      have eq : (m.enqueue true b expectsResponse deadline).2 = _ := eq
      obtain ⟨queues', again, becomes, -⟩ := custody.stock.pushFront? header.protocol
      rw [pushed] at again
      cases again
      rw [eq, ticket]
      exact ⟨rfl, lodged sendQueues, rfl, custody.lineup_enqueue [] _ rfl becomes _⟩
  | false =>
      obtain ⟨ticket, sendQueues, pushed, eq⟩ := enqueueWith_pushed queued decoded
      have eq : (m.enqueue false b expectsResponse deadline).2 = _ := eq
      obtain ⟨queues', again, becomes, -⟩ := custody.stock.pushBack? header.protocol
      rw [pushed] at again
      cases again
      rw [eq, ticket]
      exact ⟨rfl, lodged sendQueues, rfl,
        custody.lineup_enqueue _ [] (List.append_nil _).symm becomes _⟩

theorem Custody.settle_lineup (custody : m.Custody held) (h : Handle) (p : Protocol) :
    ((m.settle h).2.lineup p).Sublist (m.lineup p) := by
  have same {m' : Mailbox} (requests : m'.requests = m.requests)
      (queues : m'.sendQueues = m.sendQueues) : (m'.lineup p).Sublist (m.lineup p) := by
    rw [lineup_congr requests queues]
  rcases m.settle_eq h with eq | ⟨-, eq⟩ <;> rw [eq]
  rcases m.abandon_cases h with
    eq | ⟨q, b, sendQueues, removed, eq⟩ | ⟨flight, -, -, ⟨-, eq⟩ | ⟨-, eq⟩⟩
  · rw [eq]
  · obtain ⟨before, after, entries, index, becomes⟩ := custody.stock.queued.remove? removed
    have queued : b.index ∈ indices m.sendQueues.everything :=
      ProtocolQueues.mem_indices_everything.mpr ⟨q, by simp [entries]⟩
    obtain ⟨r, found⟩ := Option.isSome_iff_exists.mp ((custody.recorded b.index).mpr queued)
    obtain ⟨lined, left⟩ := custody.lineup_dequeue entries becomes found
    have gone : (m.abandon h).lineup =
        Function.update m.lineup q (m.line before ++ m.line after) := by
      rw [eq, ← index]
      exact (lineup_congr rfl rfl).trans left
    rw [gone, Function.update_apply]
    split
    case isTrue here =>
      rw [here, lined]
      exact (List.Sublist.refl _).append (List.sublist_cons_self ..)
    case isFalse => exact .refl _
  · rw [eq]
    exact same rfl rfl
  · rw [eq]
    exact same rfl rfl

end Mailbox

theorem Session.Step.lineup {s s' : Session} (reached : s.Reachable) (step : Step s s')
    (idles : s.mailbox.Idles s'.mailbox) (p : Protocol) :
    (s'.mailbox.lineup p).Sublist (s.mailbox.lineup p) := by
  rcases reached.sound_or_shut with ⟨opened, sound⟩ | shut
  · rcases idles with untouched | ⟨g, r, withdraws⟩
    · rw [untouched.lineup]
    · rcases step.withdrawals sound (withdraws.closed.trans opened) with
        same | ⟨other, left, right, q, -, rfl, -⟩
      · simp [withdraws.withdrawals] at same
      · exact sound.mailbox.custody.settle_lineup other p
  · rw [(step.untouched shut).lineup]

/-! ## What happens to the lines -/

theorem mem_joined {α : Type} {a b : α} {l : List α} {front : Bool} :
    b ∈ (if front then a :: l else l ++ [a]) ↔ b = a ∨ b ∈ l := by
  cases front with
  | true => exact List.mem_cons
  | false => exact List.mem_append.trans (or_comm.trans (or_congr_left List.mem_singleton))

/-- A turn moves, a request joins a line, or requests only leave. -/
inductive Mailbox.Passage (m m' : Mailbox) : Occurrence → Prop
  | moved {held : List Buffer} {now : Nat} {calls : List Call} :
      m.Sound held → Moves now m m' → Passage m m' (.turn now calls)
  | joined {p : Protocol} {front : Bool} {r : PendingRequest} {b : Buffer} :
      r.ticket = m.nextTicket → m'.nextTicket = m.nextTicket + 1 → m.Unsent m' →
      m'.lineup = Function.update m.lineup p
        (if front then (r, b) :: m.lineup p else m.lineup p ++ [(r, b)]) →
      Passage m m' (.queue p front r b)
  | left {occurrence : Occurrence} : occurrence.lodged? = none → m'.nextTicket = m.nextTicket →
      m.Unsent m' → (∀ p, (m'.lineup p).Sublist (m.lineup p)) → Passage m m' occurrence

theorem Mailbox.Untouched.passage {m m' : Mailbox} {occurrence : Occurrence}
    (untouched : m.Untouched m') (none : occurrence.lodged? = none) :
    m.Passage m' occurrence :=
  .left none untouched.nextTicket untouched.unsent fun p => by rw [untouched.lineup]

theorem Session.Occurs.passage {s s' : Session} {occurrence : Occurrence} (reached : s.Reachable)
    (occurs : Occurs s occurrence s') : s.mailbox.Passage s'.mailbox occurrence := by
  have state := reached.sound_or_shut
  cases occurs with
  | @turn m held pending σ d device now =>
      rcases state with ⟨-, sound⟩ | shut
      · exact .moved sound.mailbox (Mailbox.turn_moves d now m device)
      · refine Mailbox.Untouched.passage ?_ rfl
        dsimp only
        rw [Mailbox.turn, if_pos shut.closed]
        exact .refl m
  | @queue m left right pending b g header front expectsResponse deadline accepted decoded =>
      rcases state with ⟨-, sound⟩ | shut
      · have mailbox : m.Sound (b :: (left ++ right)) := sound.mailbox.perm List.perm_middle.symm
        obtain ⟨own, unsent, next, lineup⟩ := mailbox.custody.enqueue_lineup accepted decoded
        exact .joined own next unsent lineup
      · obtain ⟨⟨cause, refused⟩, -⟩ :=
          Mailbox.enqueue_shut shut.closed front b expectsResponse deadline
        rw [refused] at accepted
        cases accepted
  | tryRead p => exact (Mailbox.tryRead_untouched _ p).passage rfl
  | requestRead p => exact (Mailbox.requestRead_untouched _ p).passage rfl
  | read p => exact (Mailbox.read_untouched _ p).passage rfl
  | @close m held pending =>
      rcases state with ⟨opened, sound⟩ | shut
      · obtain ⟨dismisses, shut⟩ := sound.mailbox.close opened
        refine .left rfl dismisses.nextTicket dismisses.unsent fun p => ?_
        rw [shut.lineup]
        exact List.nil_sublist _
      · refine Mailbox.Untouched.passage ?_ rfl
        dsimp only
        rw [Mailbox.close, if_pos shut.closed]
        exact .refl m
  | aside step idles =>
      refine .left rfl ?_ idles.unsent (step.lineup reached idles)
      rcases idles with untouched | ⟨g, r, withdraws⟩
      · exact untouched.nextTicket
      · exact withdraws.nextTicket

theorem Mailbox.lineup_create (slave : SlaveConfig) (config : Config) (sendId receiveId : Nat)
    (p : Protocol) : (create slave config sendId receiveId).lineup p = [] := by
  have none : (create slave config sendId receiveId).sendQueues.entries p = [] :=
    ProtocolQueues.entries_empty ..
  rw [lineup, none]
  rfl

end Fieldbus
