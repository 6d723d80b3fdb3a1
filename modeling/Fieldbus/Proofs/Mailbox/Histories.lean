import Fieldbus.Proofs.Mailbox.Ledger
import Fieldbus.Proofs.Mailbox.Messages
import Fieldbus.Proofs.Mailbox.Staleness

/-!
# The history of a session

A history tells more of a run than a trace: of a request also its protocol, its buffer and the end
of the queue that it joined, and of a caller who read something also the message. `Session.Occurs`
has the steps of a session with what a history tells of them.
-/

namespace Fieldbus

inductive Occurrence where
  | turn (now : Nat) (calls : List Call)
  /-- A request was queued in a buffer, ahead of the others of its protocol or behind them. -/
  | queue (p : Protocol) (front : Bool) (request : PendingRequest) (b : Buffer)
  /-- A caller got the oldest message of a protocol. -/
  | read (p : Protocol) (message : Message)
  | close
  | aside

namespace Occurrence

def calls : Occurrence → List Call
  | .turn _ calls => calls
  | _ => []

def lodged? : Occurrence → Option (PendingRequest × Buffer)
  | .queue _ _ request b => some (request, b)
  | _ => none

def queued? (p : Protocol) : Occurrence → Option Nat
  | .queue q _ request _ => if q = p then some request.ticket else none
  | _ => none

def returned? (p : Protocol) : Occurrence → Option Message
  | .read q message => if q = p then some message else none
  | _ => none

def overtakes (p : Protocol) : Occurrence → Bool
  | .queue q front _ _ => q == p && front
  | _ => false

def sight : Occurrence → Sight
  | .turn now calls => .turn now calls
  | .queue _ _ request b => .queue request b.bytes
  | .read .. => .aside
  | .close => .close
  | .aside => .aside

end Occurrence

def callsIn (history : List Occurrence) : List Call := history.flatMap Occurrence.calls

def lodgedIn (history : List Occurrence) : List (PendingRequest × Buffer) :=
  history.filterMap Occurrence.lodged?

def queuedFor (p : Protocol) (history : List Occurrence) : List Nat :=
  history.filterMap (Occurrence.queued? p)

/-- The messages of a protocol that callers got, the first one first. -/
def returnedFrom (p : Protocol) (history : List Occurrence) : List Message :=
  history.filterMap (Occurrence.returned? p)

@[simp] theorem callsIn_append (history more : List Occurrence) :
    callsIn (history ++ more) = callsIn history ++ callsIn more :=
  List.flatMap_append

@[simp] theorem lodgedIn_append (history more : List Occurrence) :
    lodgedIn (history ++ more) = lodgedIn history ++ lodgedIn more :=
  List.filterMap_append

@[simp] theorem queuedFor_append (p : Protocol) (history more : List Occurrence) :
    queuedFor p (history ++ more) = queuedFor p history ++ queuedFor p more :=
  List.filterMap_append

@[simp] theorem returnedFrom_append (p : Protocol) (history more : List Occurrence) :
    returnedFrom p (history ++ more) = returnedFrom p history ++ returnedFrom p more :=
  List.filterMap_append

theorem callsOf_sights (history : List Occurrence) :
    callsOf (history.map Occurrence.sight) = callsIn history := by
  rw [callsOf, List.flatMap_map, callsIn]
  congr 1
  funext occurrence
  cases occurrence <;> rfl

theorem queuedIn_sights (history : List Occurrence) : queuedIn (history.map Occurrence.sight) =
    (lodgedIn history).map fun entry => (entry.1, entry.2.bytes) := by
  rw [queuedIn, lodgedIn, List.filterMap_map, List.map_filterMap]
  congr 1
  funext occurrence
  cases occurrence <;> rfl

namespace Mailbox

variable {m m' : Mailbox} {held : List Buffer} {p : Protocol} {result : Except Error Message}

structure Unread (m m' : Mailbox) : Prop where
  queues : m'.receiveQueues = m.receiveQueues
  pool : m'.receivePool = m.receivePool
  received : m'.statistics.messagesReceived = m.statistics.messagesReceived
  stale : m'.statistics.staleDropped = m.statistics.staleDropped

theorem Unread.refl (m : Mailbox) : m.Unread m := ⟨rfl, rfl, rfl, rfl⟩

theorem takeSendBuffer_unread {b : Buffer} (take : m.takeSendBuffer? = .ok (b, m')) :
    m.Unread m' := by
  obtain ⟨-, sendPool, -, rfl⟩ := takeSendBuffer?_eq_ok take
  exact ⟨rfl, rfl, rfl, rfl⟩

theorem enqueue_unread (m : Mailbox) (front : Bool) (b : Buffer) (expectsResponse : Bool)
    (deadline : Nat) : m.Unread (m.enqueue front b expectsResponse deadline).2 := by
  have queueing (push : ProtocolQueues → Protocol → Buffer → Option ProtocolQueues) :
      m.Unread (m.enqueueWith push b expectsResponse deadline).2 := by
    by_cases owned : m.sendPool.owns b = true
    · rcases m.enqueueWith_cases push owned expectsResponse deadline with
        ⟨cause, eq⟩ | ⟨p, sendQueues, -, eq⟩ <;> rw [eq] <;> exact ⟨rfl, rfl, rfl, rfl⟩
    · rw [enqueueWith, if_neg owned]
      exact .refl m
  cases front with
  | true => exact queueing _
  | false => exact queueing _

theorem settle_unread (m : Mailbox) (h : Handle) : m.Unread (m.settle h).2 := by
  rcases m.settle_eq h with eq | ⟨-, eq⟩ <;> rw [eq]
  · exact .refl m
  rcases m.abandon_cases h with
    eq | ⟨p, b, sendQueues, -, eq⟩ | ⟨flight, -, -, ⟨-, eq⟩ | ⟨-, eq⟩⟩ <;> rw [eq] <;>
    exact ⟨rfl, rfl, rfl, rfl⟩

theorem Reads.taken_or_unread {got : Option (Except Error Message)} (reads : m.Reads p got m') :
    (∃ result, got = some result ∧ m.takeReceived? p = some (result, m')) ∨ m.Unread m' := by
  cases reads with
  | got taken => exact .inl ⟨_, rfl, taken⟩
  | missed => exact .inr ⟨rfl, rfl, rfl, rfl⟩

theorem Stocked.takeReceived (stocked : m.Stocked held)
    (taken : m.takeReceived? p = some (result, m')) :
    m.waiting = Function.update m'.waiting p (result :: m'.waiting p) := by
  obtain ⟨⟨b, receiveQueues⟩, popped, eq⟩ := Option.map_eq_some_iff.mp taken
  simp only [Prod.mk.injEq] at eq
  obtain ⟨rfl, rfl⟩ := eq
  obtain ⟨entries, -⟩ := stocked.pop popped
  funext q
  by_cases same : q = p
  · subst same
    simp [waiting, entries, putReceive]
  · simp [waiting, entries, putReceive, Function.update_of_ne same]

theorem Filtered.takeReceived (filtered : m.Filtered) (stocked : m.Stocked held)
    (taken : m.takeReceived? p = some (result, m')) : ∃ message, result = .ok message := by
  have first : result ∈ m.waiting p := by
    rw [stocked.takeReceived taken, Function.update_self]
    exact List.mem_cons_self ..
  obtain ⟨message, -, rfl⟩ := List.mem_map.mp ((filtered.waiting p).subset first)
  exact ⟨message, rfl⟩

end Mailbox

namespace Session

/-- The steps of a session and what happens in them. -/
inductive Occurs : Session → Occurrence → Session → Prop
  | turn {m : Mailbox} {held : List Buffer} {pending : List Handle} {σ : Type}
      (d : SlotDevice σ) (device : σ) (now : Nat) :
      Occurs ⟨m, held, pending⟩ (.turn now (m.calls d now device))
        ⟨(m.turn d.transport now device).2.1, held, pending⟩
  | queue {m : Mailbox} (left : List Buffer) {right : List Buffer} {pending : List Handle}
      {b : Buffer} {h : Handle} {header : MessageHeader} (front expectsResponse : Bool)
      (deadline : Nat) :
      (m.enqueue front b expectsResponse deadline).1 = .ok h →
      MessageHeader.decode? b.bytes = .ok header →
      Occurs ⟨m, left ++ b :: right, pending⟩
        (.queue header.protocol front ⟨h.ticket, expectsResponse, deadline⟩ b)
        ⟨(m.enqueue front b expectsResponse deadline).2, left ++ right, h :: pending⟩
  | tryRead {m : Mailbox} {held : List Buffer} {pending : List Handle} (p : Protocol)
      {message : Message} : (m.tryRead p).1 = .ok message →
      Occurs ⟨m, held, pending⟩ (.read p message) ⟨(m.tryRead p).2, held, pending⟩
  | requestRead {m : Mailbox} {held : List Buffer} {pending : List Handle} (p : Protocol)
      {message : Message} : (m.requestRead p).1 = .ok (some message) →
      Occurs ⟨m, held, pending⟩ (.read p message) ⟨(m.requestRead p).2, held, pending⟩
  | read {m : Mailbox} {held : List Buffer} {pending : List Handle} (p : Protocol)
      {message : Message} : (m.read p).1 = .ok message →
      Occurs ⟨m, held, pending⟩ (.read p message) ⟨(m.read p).2, held, pending⟩
  | close {m : Mailbox} {held : List Buffer} {pending : List Handle} :
      Occurs ⟨m, held, pending⟩ .close ⟨m.close.2, held, pending⟩
  | aside {s s' : Session} : Step s s' → s.mailbox.Idles s'.mailbox →
      s.mailbox.Unread s'.mailbox → Occurs s .aside s'

/-- The history of a new session up to `s`. -/
inductive Recorded : List Occurrence → Session → Prop
  | start (slave : SlaveConfig) (config : Config) (sendId receiveId : Nat) :
      Recorded [] (start slave config sendId receiveId)
  | step {history : List Occurrence} {s s' : Session} {occurrence : Occurrence} :
      Recorded history s → Occurs s occurrence s' → Recorded (history ++ [occurrence]) s'

inductive Course (s₀ : Session) : List Occurrence → Session → Prop
  | refl : Course s₀ [] s₀
  | step {history : List Occurrence} {s s' : Session} {occurrence : Occurrence} :
      Course s₀ history s → Occurs s occurrence s' → Course s₀ (history ++ [occurrence]) s'

variable {s s' : Session} {occurrence : Occurrence} {history more : List Occurrence}

theorem Recorded.trans (recorded : Recorded history s) (course : Course s more s') :
    Recorded (history ++ more) s' := by
  induction course with
  | refl => rwa [List.append_nil]
  | step _ occurs ih =>
      rw [← List.append_assoc]
      exact .step ih occurs

theorem Occurs.shows (occurs : Occurs s occurrence s') : Shows s occurrence.sight s' := by
  cases occurs with
  | turn d device now => exact .turn d device now
  | queue left front expectsResponse deadline queued =>
      exact .queue left front expectsResponse deadline queued
  | tryRead p => exact .aside (.tryRead p) (.inl (Mailbox.tryRead_untouched _ p))
  | requestRead p => exact .aside (.requestRead p) (.inl (Mailbox.requestRead_untouched _ p))
  | read p => exact .aside (.read p) (.inl (Mailbox.read_untouched _ p))
  | close => exact .close
  | aside step idles => exact .aside step idles

theorem Recorded.traced (recorded : Recorded history s) :
    Traced (history.map Occurrence.sight) s := by
  induction recorded with
  | start slave config sendId receiveId => exact .start slave config sendId receiveId
  | step _ occurs traced =>
      rw [List.map_append, List.map_singleton]
      exact traced.step occurs.shows

theorem Reachable.filtered (reached : s.Reachable) : s.mailbox.Filtered := by
  obtain ⟨slave, config, sendId, receiveId, beats⟩ := reached.reached.beats
  exact beats.filtered (Mailbox.orderly_create slave config sendId receiveId)
    (Mailbox.filtered_create slave config sendId receiveId)

theorem Reachable.orderly (reached : s.Reachable) : Mailbox.Orderly ⟨s.mailbox, []⟩ := by
  obtain ⟨slave, config, sendId, receiveId, beats⟩ := reached.reached.beats
  exact beats.orderly (Mailbox.orderly_create slave config sendId receiveId)

theorem Reachable.stocked (reached : s.Reachable) : s.mailbox.Stocked [] := reached.orderly.stocked

theorem Recorded.reachable (recorded : Recorded history s) : s.Reachable :=
  recorded.traced.reachable

theorem Recorded.told (recorded : Recorded history s) :
    s.mailbox.exchanges = (callsIn history).filterMap Call.exchange? := by
  rw [recorded.traced.told, callsOf_sights]

theorem Recorded.takers (recorded : Recorded history s) :
    s.mailbox.takers = (callsIn history).filterMap Call.taker? := by
  rw [recorded.traced.takers, callsOf_sights]

/-! ## Every run has a history -/

theorem Step.occurs (reached : s.Reachable) (step : Step s s') :
    ∃ occurrence, Occurs s occurrence s' := by
  have decodes {p : Protocol} {result : Except Error Message} {m' : Mailbox}
      (taken : s.mailbox.takeReceived? p = some (result, m')) :=
    reached.filtered.takeReceived reached.stocked taken
  obtain ⟨sight, shown⟩ := step.shows reached
  cases shown with
  | turn d device now => exact ⟨_, .turn d device now⟩
  | queue left front expectsResponse deadline queued =>
      obtain ⟨header, decoded⟩ := Mailbox.decode_of_enqueue queued
      exact ⟨_, .queue left front expectsResponse deadline queued decoded⟩
  | close => exact ⟨_, .close⟩
  | aside step idles =>
      have aside (unread : s.mailbox.Unread s'.mailbox) : ∃ occurrence, Occurs s occurrence s' :=
        ⟨.aside, .aside step idles unread⟩
      have looked {p : Protocol} {got : Option (Except Error Message)}
          (reads : s.mailbox.Reads p got s'.mailbox)
          (occurs : ∀ message, got = some (.ok message) → Occurs s (.read p message) s') :
          ∃ occurrence, Occurs s occurrence s' := by
        rcases reads.taken_or_unread with ⟨result, rfl, taken⟩ | unread
        · obtain ⟨message, rfl⟩ := decodes taken
          exact ⟨_, occurs message rfl⟩
        · exact aside unread
      cases step with
      | take take => exact aside (Mailbox.takeSendBuffer_unread take)
      | change left => exact aside (.refl _)
      | giveBack left => exact aside ⟨rfl, rfl, rfl, rfl⟩
      | enqueue left front expectsResponse deadline => exact aside (Mailbox.enqueue_unread ..)
      | enqueueForeign front expectsResponse deadline => exact aside (Mailbox.enqueue_unread ..)
      | turn d device now => exact ⟨_, .turn d device now⟩
      | wait left => exact aside (Mailbox.settle_unread ..)
      | tryRead p =>
          obtain ⟨got, reads, answers⟩ := Mailbox.tryRead_reads _ p
          exact looked reads fun message taken => .tryRead p ((answers message).mpr taken)
      | requestRead p =>
          obtain ⟨got, reads, answers⟩ := Mailbox.requestRead_reads _ p
          exact looked reads fun message taken => .requestRead p ((answers message).mpr taken)
      | read p =>
          obtain ⟨got, reads, answers⟩ := Mailbox.read_reads _ p
          exact looked reads fun message taken => .read p ((answers message).mpr taken)
      | scheduleRead => exact aside ⟨rfl, rfl, rfl, rfl⟩
      | close => exact ⟨_, .close⟩

theorem Reachable.recorded (reached : s.Reachable) : ∃ history, Recorded history s := by
  obtain ⟨slave, config, sendId, receiveId, run⟩ := reached
  induction run with
  | refl => exact ⟨[], .start slave config sendId receiveId⟩
  | tail _ step ih =>
      obtain ⟨history, recorded⟩ := ih
      obtain ⟨occurrence, occurs⟩ := step.occurs recorded.reachable
      exact ⟨_, recorded.step occurs⟩

theorem prepare_protocol {m : Mailbox} {b c : Buffer} {p : Protocol} {address : UInt16}
    {payload : Bytes} (prepared : m.prepare b p address payload = .ok c) :
    ∃ header, MessageHeader.decode? c.bytes = .ok header ∧ header.protocol = p := by
  unfold Mailbox.prepare at prepared
  dsimp only at prepared
  split at prepared
  · cases prepared
  · unfold Message.encodeInto at prepared
    dsimp only at prepared
    split at prepared
    · cases prepared
    · let header : MessageHeader :=
        { MessageHeader.plain p address 0 with length := UInt16.ofNat payload.length }
      rcases stored : Bytes.store (Bytes.zeros b.capacity) (Message.encode ⟨header, payload⟩) with
        cause | bytes
      · rw [stored] at prepared
        cases prepared
      · rw [stored] at prepared
        cases prepared
        obtain ⟨-, rfl⟩ := Bytes.store_eq_ok_iff.mp stored
        refine ⟨header, ?_, rfl⟩
        change MessageHeader.decode? (header.encode ++ payload ++ List.drop _ _) = _
        rw [List.append_assoc]
        exact MessageHeader.decode?_encode _ (by decide : (0 : UInt8).toNat < 64)
          (by decide : (0 : UInt8).toNat < 4) (by decide : (0 : UInt8).toNat < 8)

def lodging (p : Protocol) (request : PendingRequest) (b : Buffer) : List Occurrence :=
  [.aside] ++ [.aside] ++ [.queue p false request b]

theorem submit_recorded {m : Mailbox} {held : List Buffer} {pending : List Handle}
    (recorded : Recorded history ⟨m, held, pending⟩) {p : Protocol} {address : UInt16}
    {payload : Bytes} {expectsResponse : Bool} {deadline : Nat} {h : Handle}
    (queued : (m.submit p address payload expectsResponse deadline).1 = .ok h) :
    ∃ b, Recorded (history ++ lodging p ⟨h.ticket, expectsResponse, deadline⟩ b)
      ⟨(m.submit p address payload expectsResponse deadline).2, held, h :: pending⟩ := by
  unfold Mailbox.submit at queued ⊢
  split
  case h_1 refused =>
    rw [refused] at queued
    cases queued
  case h_2 supported =>
    rw [supported] at queued
    dsimp only at queued
    split
    case h_1 refused =>
      rw [refused] at queued
      cases queued
    case h_2 b m₁ taken =>
      rw [taken] at queued
      dsimp only at queued
      split
      case h_1 refused =>
        rw [refused] at queued
        cases queued
      case h_2 c prepared =>
        rw [prepared] at queued
        obtain ⟨index, owner⟩ := prepare_place prepared
        obtain ⟨header, decoded, rfl⟩ := prepare_protocol prepared
        have taken := recorded.step (.aside (.take taken)
          (.inl (Mailbox.takeSendBuffer_untouched taken)) (Mailbox.takeSendBuffer_unread taken))
        have filled := taken.step (.aside (.change [] index owner) (.inl (.refl m₁)) (.refl m₁))
        have lodged := filled.step (.queue [] false expectsResponse deadline queued decoded)
        rw [List.append_assoc, List.append_assoc, ← List.append_assoc [Occurrence.aside]] at lodged
        exact ⟨c, lodged⟩

end Session

end Fieldbus
