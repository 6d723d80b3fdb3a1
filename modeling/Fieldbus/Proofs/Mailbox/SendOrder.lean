import Fieldbus.Proofs.Mailbox.Counters
import Fieldbus.Proofs.Mailbox.Lineup
import Fieldbus.Proofs.Mailbox.Reading
import Mathlib.Data.List.TakeWhile

/-!
# The order in which requests are sent

A turn that attempts a write serves the first request in line that is not overdue, the lines taken
by priority. A request that could not be written is first in its line again, so those that join
their line behind the others leave it in the order in which they joined it.
-/

namespace Fieldbus

theorem SequenceCounter.next_ne (c : SequenceCounter) : c.next ≠ c := by
  intro same
  have last := congrArg SequenceCounter.last same
  unfold next at last
  dsimp only at last
  split at last
  case isTrue top =>
    rw [← last] at top
    exact absurd top (by decide)
  case isFalse =>
    have one : (1 : UInt8) = 0 := by
      rw [← UInt8.add_right_inj c.last, last, UInt8.add_zero]
    exact absurd one (by decide)

theorem mem_takeWhile_ne {α : Type} [DecidableEq α] {a b : α} {l : List α} (mem : a ∈ l)
    (mem' : b ∈ l) (other : b ≠ a) (later : b ∉ l.takeWhile (· ≠ a)) :
    a ∈ l.takeWhile (· ≠ b) := by
  induction l with
  | nil => cases mem
  | cons c l ih =>
      by_cases first : c = a
      · subst first
        rw [List.takeWhile_cons_of_pos (by simpa using other.symm)]
        exact List.mem_cons_self ..
      · rw [List.takeWhile_cons_of_pos (by simpa using first), List.mem_cons, not_or] at later
        have second : c ≠ b := fun same => later.1 same.symm
        rw [List.takeWhile_cons_of_pos (by simpa using second)]
        refine List.mem_cons_of_mem _ (ih ?_ ?_ later.2)
        · exact (List.mem_cons.mp mem).resolve_left fun same => first same.symm
        · exact (List.mem_cons.mp mem').resolve_left later.1

namespace Mailbox

variable {m m' m₁ : Mailbox} {held : List Buffer} {now : Nat} {calls : List Call}
  {gone : Protocol → List (PendingRequest × Buffer)}

/-! ## Overdue requests leave first -/

/-- The requests in `gone`, and no others, have left their lines. They were overdue and have their
outcome, and who stood in a line of higher priority has left as well. -/
structure Sheds (now : Nat) (m m' : Mailbox) (gone : Protocol → List (PendingRequest × Buffer)) :
    Prop where
  lineup : ∀ q, m.lineup q = gone q ++ m'.lineup q
  overdue : ∀ q, ∀ entry ∈ gone q, entry.1.deadline ≤ now ∧
    m'.outcome? entry.1.ticket = some (.error .timeout)
  ahead : ∀ q, gone q ≠ [] → q ∈ m.config.priority ∧
    ∀ other ∈ m.config.priority.takeWhile (· ≠ q), m'.lineup other = []

theorem Sheds.refl (m : Mailbox) : Sheds now m m fun _ => [] where
  lineup _ := rfl
  overdue _ := List.forall_mem_nil _
  ahead _ some := absurd rfl some

theorem Unsent.outcome? {ticket : Nat} {outcome : Except Error Reply} (h : m.Unsent m')
    (decided : m.outcome? ticket = some outcome) : m'.outcome? ticket = some outcome := by
  obtain ⟨events, journal, -⟩ := h
  exact outcome?_kept journal decided

theorem Sheds.tail (sheds : Sheds now m m₁ gone) (shift : Shift now m₁ m')
    (counter : m'.counter = m₁.counter) (config : m₁.config = m.config) :
    ∃ gone, Sheds now m m' gone := by
  cases shift with
  | still same unsent =>
      refine ⟨gone, fun q => ?_, fun q entry mem => ?_, fun q some => ?_⟩
      · rw [same]
        exact sheds.lineup q
      · exact (sheds.overdue q entry mem).imp_right unsent.outcome?
      · rw [same]
        exact sheds.ahead q some
  | @overdue p r b rest front late left ended unsent =>
      have shorter (q : Protocol) (empty : m₁.lineup q = []) : m'.lineup q = [] :=
        List.sublist_nil.mp (empty ▸ front.leaves left q)
      refine ⟨Function.update gone p (gone p ++ [(r, b)]), fun q => ?_, fun q entry mem => ?_,
        fun q some => ?_⟩
      · rw [sheds.lineup q, left]
        by_cases same : q = p
        · subst same
          simp [front.lineup]
        · rw [Function.update_of_ne same, Function.update_of_ne same]
      · by_cases same : q = p
        · subst same
          rw [Function.update_self, List.mem_append, List.mem_singleton] at mem
          rcases mem with mem | rfl
          · exact (sheds.overdue q entry mem).imp_right unsent.outcome?
          · exact ⟨late, ended⟩
        · rw [Function.update_of_ne same] at mem
          exact (sheds.overdue q entry mem).imp_right unsent.outcome?
      · by_cases same : q = p
        · subst same
          rw [← config]
          exact ⟨front.listed, fun other mem => shorter other (front.others other mem)⟩
        · rw [Function.update_of_ne same] at some
          obtain ⟨listed, empty⟩ := sheds.ahead q some
          exact ⟨listed, fun other mem => shorter other (empty other mem)⟩
  | stamped _ _ _ stamped => exact absurd (stamped.symm.trans counter) m₁.counter.next_ne
  | taken _ _ _ stamped => exact absurd (stamped.symm.trans counter) m₁.counter.next_ne

theorem Deeds.sheds (sound : m.Sound held) (path : Deeds now m calls m')
    (reads : ∀ call ∈ calls, call.isWrite = false) : ∃ gone, Sheds now m m' gone := by
  induction path with
  | refl => exact ⟨_, .refl m⟩
  | @tail m₁ m₂ calls more path deed ih =>
      obtain ⟨gone, sheds⟩ := ih fun call mem => reads call (List.mem_append_left _ mem)
      have unstamped := deed.unstamped fun call mem => reads call (List.mem_append_right _ mem)
      exact sheds.tail (deed.move.shift (path.moves.sound sound)) unstamped
        (path.moves.steady sound).config

/-! ## What a turn attends to -/

/-- The call is made for the request `r` in the buffer `b`. It is not overdue and first in line,
since all that stood before it in its line and in the lines of higher priority were overdue and
have their outcome. No other request has left its line. -/
structure Attends (now : Nat) (m : Mailbox) (p : Protocol) (r : PendingRequest) (b : Buffer)
    (gone : Protocol → List (PendingRequest × Buffer)) (call : Call) : Prop where
  flying : call.mailbox.inFlight = some ⟨b.index, r, false, 0⟩
  timely : now < r.deadline
  listed : p ∈ m.config.priority
  lineup : ∀ q, m.lineup q =
    gone q ++ if q = p then (r, b) :: call.mailbox.lineup p else call.mailbox.lineup q
  ahead : ∀ q ∈ m.config.priority.takeWhile (· ≠ p), call.mailbox.sendQueues.entries q = []
  overdue : ∀ q, ∀ entry ∈ gone q, entry.1.deadline ≤ now ∧
    call.mailbox.outcome? entry.1.ticket = some (.error .timeout)
  behind : ∀ q, q ≠ p → q ∉ m.config.priority.takeWhile (· ≠ p) → gone q = []
  written : ∀ data result, call.access = .write data result →
    data = (b.stamped call.mailbox.counter.last).bytes.take
      call.mailbox.slave.writeSlot.length.toNat

theorem Sheds.behind {p q : Protocol} {r : PendingRequest} {b : Buffer}
    {rest : List (PendingRequest × Buffer)} (sheds : Sheds now m m₁ gone)
    (front : m₁.Front p (r, b) rest) (config : m₁.config = m.config) (other : q ≠ p)
    (later : q ∉ m.config.priority.takeWhile (· ≠ p)) : gone q = [] := by
  by_contra some
  obtain ⟨listed, empty⟩ := sheds.ahead q some
  have none := empty p (mem_takeWhile_ne (config ▸ front.listed) listed other later)
  rw [front.lineup] at none
  cases none

theorem Sheds.attends {m₂ : Mailbox} {p : Protocol} {b : Buffer} {call : Call}
    (sheds : Sheds now m m₁ gone) (sound : m₁.Sound held) (config : m₁.config = m.config)
    (picks : m₁.Picks now p b m₂) (serves : m₂.Serves b call) :
    ∃ r, Attends now m p r b gone call := by
  obtain ⟨r, rest, front, timely, flying, left⟩ := picks.front sound.custody
  -- A look and a write differ in the counter and in the journal, of which only the outcomes matter.
  have same (other : Mailbox) (flies : other.inFlight = m₂.inFlight)
      (requests : other.requests = m₂.requests) (queues : other.sendQueues = m₂.sendQueues)
      (outcomes : ∀ ticket, other.outcome? ticket = m₁.outcome? ticket) (access : SlotAccess)
      (written : ∀ data result, access = .write data result →
        data = (b.stamped other.counter.last).bytes.take other.slave.writeSlot.length.toNat) :
      Attends now m p r b gone ⟨other, access⟩ := by
    have lineup : other.lineup = Function.update m₁.lineup p rest :=
      (lineup_congr requests queues).trans left
    constructor
    case flying => exact flies.trans flying
    case timely => exact timely
    case listed => exact config ▸ front.listed
    case lineup =>
      intro q
      rw [sheds.lineup q, lineup]
      split
      case isTrue same =>
        rw [same, front.lineup, Function.update_self]
      case isFalse other => rw [Function.update_of_ne other]
    case ahead =>
      intro q mem
      have before : q ≠ p := by simpa using List.mem_takeWhile_imp mem
      rw [queues, ← (sound.custody.picks picks).lineup q, left, Function.update_of_ne before,
        front.others q (config ▸ mem)]
      rfl
    case overdue =>
      intro q entry mem
      rw [outcomes]
      exact sheds.overdue q entry mem
    case behind => exact fun q => sheds.behind front config
    case written => exact written
  have kept : ∀ ticket, m₂.outcome? ticket = m₁.outcome? ticket := by
    obtain ⟨sendQueues, request, -, -, -, -, rfl⟩ := picks
    exact fun _ => rfl
  refine ⟨r, ?_⟩
  rcases serves with ⟨result, rfl⟩ | ⟨result, rfl⟩
  · exact same m₂ rfl rfl rfl kept _ fun _ _ look => by cases look
  · refine same (m₂.stamp b).2 rfl rfl rfl (fun ticket => ?_) _ fun data result write => ?_
    · rw [outcome?_append (m := m₂) rfl, kept]
      simp [outcomeOf?]
    · cases write
      rfl

theorem turn_attends {σ : Type} (sound : m.Sound held) (opened : m.closed = false)
    (d : SlotDevice σ) (device : σ) {call : Call} (mem : call ∈ m.calls d now device)
    (attempts : call.isWrite = true ∨ call.mailbox.handshake = .sendPending) :
    ∃ p r b gone, Attends now m p r b gone call := by
  obtain ⟨n, m₀, m₁, polled, sent, split, begun, -, -, glances, sending⟩ :=
    turn_parts opened d now device
  have first := begun.moves.sound sound
  rw [split] at mem
  rcases List.mem_append.mp mem with mem | mem
  · -- While the mailbox reads, it writes nothing and no request is on its way.
    rcases attempts with written | pending
    · rw [glances.reads call mem] at written
      cases written
    · exact absurd pending (glances.settled first call mem).1
  · rcases sending.serves with rfl | ⟨m₂, p, b, m₃, path, picks, serves⟩
    · cases mem
    · have whole := (begun.trans (glances.deeds now)).trans path
      have reads : ∀ call ∈ [] ++ polled ++ [], call.isWrite = false := by
        simpa using glances.reads
      obtain ⟨gone, sheds⟩ := whole.sheds sound reads
      obtain ⟨r, attends⟩ := sheds.attends (whole.moves.sound sound)
        (whole.moves.steady sound).config picks (serves call mem)
      exact ⟨p, r, b, gone, attends⟩

/-! ## Who leaves a line first -/

def tickets (m : Mailbox) (p : Protocol) : List Nat :=
  (m.lineup p).map fun entry => entry.1.ticket

theorem tickets_congr (lineup : m'.lineup = m.lineup) (p : Protocol) :
    m'.tickets p = m.tickets p := by
  rw [tickets, lineup, tickets]

theorem tickets_update {p : Protocol} {line : List (PendingRequest × Buffer)}
    (lineup : m'.lineup = Function.update m.lineup p line) (q : Protocol) :
    m'.tickets q = if q = p then line.map (fun entry => entry.1.ticket) else m.tickets q := by
  rw [tickets, lineup, Function.update_apply]
  split <;> rfl

theorem Shift.tickets (shift : Shift now m m') :
    (m'.takers = m.takers ∧ ∀ q, (m'.tickets q).Sublist (m.tickets q)) ∨
      ∃ p ticket, m'.takers = m.takers ++ [ticket] ∧ m.tickets p = ticket :: m'.tickets p ∧
        ∀ q, q ≠ p → m'.tickets q = m.tickets q := by
  cases shift with
  | still same unsent =>
      exact .inl ⟨unsent.takers, fun q => by rw [tickets_congr same]⟩
  | @overdue p r b rest front late left ended unsent =>
      exact .inl ⟨unsent.takers, fun q => (front.leaves left q).map _⟩
  | @stamped p r b rest front timely stays counter unsent =>
      refine .inl ⟨unsent.takers, fun q => ?_⟩
      rw [tickets_update stays]
      split
      case isTrue same =>
        rw [same, Mailbox.tickets, front.lineup]
        exact .refl _
      case isFalse => exact .refl _
  | @taken p r b rest events workCounter front timely left counter journal unsent =>
      refine .inr ⟨p, r.ticket, ?_, ?_, fun q other => ?_⟩
      · have silent : events.filterMap MailboxEvent.taker? = [] :=
          List.filterMap_eq_nil_iff.mpr fun event mem => (unsent event mem).taker
        have fired : (((b.stamped m.counter.next.last).fire.1.map MailboxEvent.fired).filterMap
            MailboxEvent.taker?) = [] := by
          rw [List.filterMap_map]
          exact List.filterMap_eq_nil_iff.mpr fun _ _ => rfl
        have first : (MailboxEvent.acknowledged (some r.ticket) m.counter.next.last
            workCounter).taker? = some r.ticket := rfl
        rw [takers_append journal, List.filterMap_cons_none rfl, List.filterMap_cons_some first,
          List.filterMap_append, fired, silent]
        rfl
      · rw [tickets_update left, if_pos rfl, Mailbox.tickets, front.lineup, List.map_cons]
      · rw [tickets_update left, if_neg other]

/-- The tickets that were queued for each protocol, in order. What is in line or acknowledged is
one of them, and if the protocol is `fair`, they are acknowledged in order. -/
structure Arranged (queued : Protocol → List Nat) (fair : Protocol → Prop) (m : Mailbox) :
    Prop where
  bounded : ∀ p, ∀ ticket ∈ queued p, ticket < m.nextTicket
  apart : ∀ p q ticket, ticket ∈ queued p → ticket ∈ queued q → p = q
  nodup : ∀ p, (queued p).Nodup
  lined : ∀ p, m.tickets p ⊆ queued p
  taken : ∀ ticket ∈ m.takers, ∃ p, ticket ∈ queued p
  order : ∀ p, fair p → (m.takers.filter (· ∈ queued p) ++ m.tickets p).Sublist (queued p)

variable {queued : Protocol → List Nat} {fair : Protocol → Prop}

theorem Arranged.fewer (h : m.Arranged queued fair) (next : m'.nextTicket = m.nextTicket)
    (takers : m'.takers = m.takers) (fewer : ∀ q, (m'.tickets q).Sublist (m.tickets q)) :
    m'.Arranged queued fair where
  bounded := by rw [next]; exact h.bounded
  apart := h.apart
  nodup := h.nodup
  lined p := List.Subset.trans (fewer p).subset (h.lined p)
  taken := by rw [takers]; exact h.taken
  order p even := by
    rw [takers]
    exact ((List.Sublist.refl _).append (fewer p)).trans (h.order p even)

theorem Arranged.served {p : Protocol} {ticket : Nat} (h : m.Arranged queued fair)
    (next : m'.nextTicket = m.nextTicket) (takers : m'.takers = m.takers ++ [ticket])
    (first : m.tickets p = ticket :: m'.tickets p)
    (others : ∀ q, q ≠ p → m'.tickets q = m.tickets q) : m'.Arranged queued fair := by
  have mine : ticket ∈ queued p := h.lined p (by simp [first])
  constructor
  case bounded => rw [next]; exact h.bounded
  case apart => exact h.apart
  case nodup => exact h.nodup
  case lined =>
    intro q
    by_cases same : q = p
    · rw [same]
      exact List.subset_of_cons_subset (first ▸ h.lined p)
    · rw [others q same]
      exact h.lined q
  case taken =>
    intro other mem
    rw [takers, List.mem_append, List.mem_singleton] at mem
    rcases mem with mem | rfl
    · exact h.taken other mem
    · exact ⟨p, mine⟩
  case order =>
    intro q even
    by_cases same : q = p
    · -- The ticket moves from the front of the line to the end of those acknowledged.
      subst same
      have moved := h.order q even
      rw [first] at moved
      simpa [takers, mine] using moved
    · have foreign : ticket ∉ queued q := fun mem => same (h.apart q p ticket mem mine)
      simpa [takers, foreign, others q same] using h.order q even

theorem Arranged.moves (h : m.Arranged queued fair) (sound : m.Sound held)
    (moves : Moves now m m') : m'.Arranged queued fair := by
  induction moves with
  | refl => exact h
  | tail moves move ih =>
      have between := Moves.sound sound moves
      have next := (Moves.steady between (.single move)).nextTicket
      rcases (Move.shift between move).tickets with ⟨takers, fewer⟩ | ⟨p, t, takers, first, others⟩
      · exact ih.fewer next takers fewer
      · exact ih.served next takers first others

theorem Arranged.joined {p : Protocol} {ticket : Nat} {front : Bool}
    (h : m.Arranged queued fair) (own : ticket = m.nextTicket)
    (next : m'.nextTicket = m.nextTicket + 1) (takers : m'.takers = m.takers)
    (joins : ∀ q, m'.tickets q = if q = p then
      if front then ticket :: m.tickets p else m.tickets p ++ [ticket] else m.tickets q) :
    m'.Arranged (fun q => queued q ++ if p = q then [ticket] else [])
      fun q => fair q ∧ ¬(q = p ∧ front = true) := by
  have fresh (q : Protocol) : ticket ∉ queued q := fun mem =>
    Nat.lt_irrefl _ (own ▸ h.bounded q ticket mem)
  have untaken : ticket ∉ m.takers := fun mem =>
    let ⟨q, mem⟩ := h.taken ticket mem
    fresh q mem
  have grown {q : Protocol} {other : Nat} : other ∈ queued q ++ (if p = q then [ticket] else []) ↔
      other ∈ queued q ∨ p = q ∧ other = ticket := by
    split <;> simp [*]
  constructor
  case bounded =>
    intro q other mem
    rw [next]
    rcases grown.mp mem with old | ⟨-, rfl⟩
    · exact Nat.lt_succ_of_lt (h.bounded q other old)
    · rw [own]
      exact Nat.lt_succ_self _
  case apart =>
    intro q q' other mem mem'
    rcases grown.mp mem with old | ⟨here, rfl⟩
    · rcases grown.mp mem' with old' | ⟨-, rfl⟩
      · exact h.apart q q' other old old'
      · exact absurd old (fresh q)
    · rcases grown.mp mem' with old' | ⟨here', -⟩
      · exact absurd old' (fresh q')
      · exact here.symm.trans here'
  case nodup =>
    intro q
    split
    · exact (h.nodup q).append (List.nodup_singleton _) (by simpa using fresh q)
    · rw [List.append_nil]
      exact h.nodup q
  case lined =>
    intro q other mem
    rw [joins] at mem
    refine grown.mpr ?_
    split at mem
    case isTrue same =>
      rcases mem_joined.mp mem with rfl | mem
      · exact .inr ⟨same.symm, rfl⟩
      · exact .inl (h.lined q (same ▸ mem))
    case isFalse => exact .inl (h.lined q mem)
  case taken =>
    intro other mem
    rw [takers] at mem
    obtain ⟨q, mem⟩ := h.taken other mem
    exact ⟨q, List.mem_append_left _ mem⟩
  case order =>
    intro q even
    have same : m.takers.filter (· ∈ queued q ++ if p = q then [ticket] else []) =
        m.takers.filter (· ∈ queued q) := by
      refine List.filter_congr fun other mem => ?_
      have old : other ≠ ticket := fun same => untaken (same ▸ mem)
      simp [grown, old]
    rw [takers, same, joins]
    by_cases here : q = p
    · subst here
      have behind : front = false := by simpa using even.2
      rw [if_pos rfl, if_pos rfl, behind, if_neg Bool.false_ne_true, ← List.append_assoc]
      exact (h.order q even.1).append (.refl _)
    · rw [if_neg here, if_neg (Ne.symm here), List.append_nil]
      exact h.order q even.1

theorem Arranged.mono {queued' : Protocol → List Nat} {fair' : Protocol → Prop}
    (h : m.Arranged queued fair) (same : ∀ p, queued' p = queued p)
    (fewer : ∀ p, fair' p → fair p) : m.Arranged queued' fair' := by
  obtain rfl : queued' = queued := funext same
  exact ⟨h.bounded, h.apart, h.nodup, h.lined, h.taken, fun p even => h.order p (fewer p even)⟩

theorem Passage.arranged {occurrence : Occurrence} (passage : m.Passage m' occurrence)
    (h : m.Arranged queued fair) :
    m'.Arranged (fun p => queued p ++ queuedFor p [occurrence])
      fun p => fair p ∧ occurrence.overtakes p = false := by
  have mono (alone : ∀ p, occurrence.queued? p = none) (h : m'.Arranged queued fair) :
      m'.Arranged (fun p => queued p ++ queuedFor p [occurrence])
        fun p => fair p ∧ occurrence.overtakes p = false :=
    h.mono (fun p => by simp [queuedFor, alone]) fun _ => And.left
  cases passage with
  | moved sound moves => exact mono (fun _ => rfl) (h.moves sound moves)
  | @joined p front r b own next unsent lineup =>
      have joins (q : Protocol) : m'.tickets q = if q = p then
          if front then r.ticket :: m.tickets p else m.tickets p ++ [r.ticket]
          else m.tickets q := by
        rw [tickets_update lineup]
        cases front with
        | true => rfl
        | false => simp [tickets]
      refine (h.joined own next unsent.takers joins).mono (fun q => ?_) fun q => ?_
      · by_cases same : p = q <;> simp [queuedFor, Occurrence.queued?, same]
      · refine And.imp_right fun behind => ?_
        rintro ⟨rfl, rfl⟩
        simp [Occurrence.overtakes] at behind
  | left none next unsent fewer =>
      refine mono (fun p => ?_) (h.fewer next unsent.takers fun q => (fewer q).map _)
      cases occurrence with
      | queue => cases none
      | _ => rfl

theorem arranged_create (slave : SlaveConfig) (config : Config) (sendId receiveId : Nat) :
    (create slave config sendId receiveId).Arranged (fun _ => []) fun _ => True := by
  have empty (p : Protocol) : (create slave config sendId receiveId).tickets p = [] := by
    rw [tickets, lineup_create]
    rfl
  constructor
  case bounded => exact fun _ => List.forall_mem_nil _
  case apart => exact fun _ _ _ mem => by cases mem
  case nodup => exact fun _ => List.nodup_nil
  case lined => exact fun p => by rw [empty]; exact List.nil_subset _
  case taken => exact List.forall_mem_nil _
  case order => exact fun p _ => by rw [empty]; exact .refl _

end Mailbox

namespace Session

variable {s s' : Session} {occurrence : Occurrence} {history : List Occurrence}

theorem Recorded.arranged (recorded : Recorded history s) :
    s.mailbox.Arranged (fun p => queuedFor p history)
      fun p => ∀ occurrence ∈ history, occurrence.overtakes p = false := by
  induction recorded with
  | start slave config sendId receiveId =>
      exact (Mailbox.arranged_create slave config sendId receiveId).mono (fun _ => rfl)
        fun _ _ => trivial
  | @step history s s' occurrence recorded occurs ih =>
      have arranged := (occurs.passage recorded.reachable).arranged ih
      refine arranged.mono (fun p => queuedFor_append p ..) fun p => ?_
      simp only [List.mem_append, List.mem_singleton]
      exact fun even => ⟨fun other mem => even other (.inl mem), even occurrence (.inr rfl)⟩

/-- The lines show the queues, every attempt to write attends to the first request that is not
overdue, and if no request of a protocol overtook the others, they are acknowledged in the order in
which they were queued. -/
theorem send_order (recorded : Recorded history s) :
    (∀ p, (s.mailbox.lineup p).map Prod.snd = s.mailbox.sendQueues.entries p) ∧
    (∀ {σ : Type} (d : SlotDevice σ) (device : σ) (now : Nat),
      ∀ call ∈ s.mailbox.calls d now device,
        call.isWrite = true ∨ call.mailbox.handshake = .sendPending →
          ∃ p r b gone, Mailbox.Attends now s.mailbox p r b gone call) ∧
    (∀ ticket ∈ (callsIn history).filterMap Call.taker?, ∃ p, ticket ∈ queuedFor p history) ∧
    ∀ p, (queuedFor p history).Nodup ∧
      ((∀ occurrence ∈ history, occurrence.overtakes p = false) →
        (((callsIn history).filterMap Call.taker?).filter (· ∈ queuedFor p history)).Sublist
          (queuedFor p history)) := by
  have arranged := recorded.arranged
  rw [← recorded.takers]
  refine ⟨fun p => ?_, fun d device now call mem attempts => ?_, arranged.taken,
    fun p => ⟨arranged.nodup p, fun even => ?_⟩⟩
  · rcases recorded.reachable.sound_or_shut with ⟨-, sound⟩ | shut
    · exact sound.mailbox.custody.lineup p
    · rw [shut.lineup]
      exact (List.flatMap_eq_nil_iff.mp shut.emptied p (Protocol.mem_all p)).symm
  · rcases recorded.reachable.sound_or_shut with ⟨opened, sound⟩ | shut
    · exact Mailbox.turn_attends sound.mailbox opened d device mem attempts
    · rw [Mailbox.calls_closed shut.closed] at mem
      cases mem
  · exact (List.sublist_append_left ..).trans (arranged.order p even)

def paired : Mailbox :=
  .create ⟨0, 0x1001, ⟨0, 0x1000, 16⟩, ⟨1, 0x1080, 16⟩, .all⟩ { mailboxPoolSize := 2 } 0 1

/-- Two messages are queued, and the slave takes the first when it is written again. -/
def retried : Mailbox :=
  let first := (paired.submit .coe 0x1001 [1] false 1000000).2
  let second := (first.submit .coe 0x1001 [2] false 1000000).2
  ((second.turn deaf.transport 1 ()).2.1.turn mute.transport 2 ()).2.1

/-- The first is acknowledged before the second is written, and what is written next attends to the
second. -/
theorem send_order_retried : ∃ history s, Recorded history s ∧ s.mailbox = retried ∧
    (callsIn history).filterMap Call.taker? = [0] ∧ queuedFor .coe history = [0, 1] ∧
    (((callsIn history).filterMap Call.taker?).filter (· ∈ queuedFor .coe history)).Sublist
      (queuedFor .coe history) ∧
    (retried.calls mute 3 ()).any Call.isWrite = true ∧
    ∀ call ∈ retried.calls mute 3 (), call.isWrite = true →
      ∃ p r b gone, Mailbox.Attends 3 retried p r b gone call := by
  have start : Recorded [] ⟨paired, [], []⟩ := .start _ _ _ _
  have accepted : (paired.submit .coe 0x1001 [1] false 1000000).1 = .ok ⟨0, 0, 1000000⟩ := by rfl
  have accepted' : ((paired.submit .coe 0x1001 [1] false 1000000).2.submit .coe 0x1001 [2] false
      1000000).1 = .ok ⟨1, 1, 1000000⟩ := by rfl
  obtain ⟨b, first⟩ := submit_recorded start accepted
  obtain ⟨c, second⟩ := submit_recorded first accepted'
  have recorded := (second.step (.turn deaf () 1)).step (.turn mute () 2)
  obtain ⟨-, attends, -, order⟩ := send_order recorded
  have taken : retried.takers = [0] := by decide +kernel
  refine ⟨_, _, recorded, rfl, recorded.takers.symm.trans taken, rfl, (order .coe).2 ?_,
    by decide +kernel, fun call mem written => attends mute () 3 call mem (.inl written)⟩
  simp [lodging, Occurrence.overtakes]

end Session

end Fieldbus
