import Mathlib.Logic.Relation
import Fieldbus.Engine.Transmit

/-!
# Moves of an engine

Everything an engine does is a path of small moves, each of which reports what it did in at most
one entry of the journal. The moves know nothing of frames and ports. A path can be held to a
predicate on its entries, which says what the moves of one operation report, and when.
-/

namespace Fieldbus

def JournalEntry.generation? : JournalEntry → Option Nat
  | .prepared generation .. => some generation
  | .packed generation .. => some generation
  | .completed generation .. => some generation
  | .cancelled generation => some generation
  | .sent _ | .followed .. => none

namespace Engine

/-- A transaction leaves its slot, which is reported as `x`. It keeps its index and its buffer. -/
def detach (e : Engine) (index : UInt8) (x : JournalEntry) : Engine :=
  (e.setSlot index none).record x

/-- One change of an engine, with what it adds to the journal. -/
inductive Move : Engine → List JournalEntry → Engine → Prop
  | enroll {e : Engine} {r : Request} {followUps : List FollowUp} {index : UInt8} {leases : Leases}
      {b : Buffer} {pool : Pool} {length : Nat} {bytes : Bytes}
      (lease : e.leases.lease? = some (index, leases))
      (take : e.pool.take? = .ok (b, pool))
      (encode : Datagram.encodeInto b.bytes r.command index r.address r.payload =
        .ok (length, bytes)) :
      Move e [.prepared e.nextGeneration index r]
        ({ e with leases, pool }.enroll r (.ofRequest r followUps e.nextGeneration index
          ({ b with bytes }.withLength length)))
  /-- An index is leased and given back. -/
  | waver {e : Engine} {index : UInt8} {leases : Leases}
      (lease : e.leases.lease? = some (index, leases)) :
      Move e [] { e with leases := (leases.release index).2 }
  | return {e : Engine} {b : Buffer} {pool : Pool} (take : e.pool.take? = .ok (b, pool)) :
      Move e [] { e with pool := pool.put b }
  | enqueue {e : Engine} {index : UInt8} {t : Transaction} (slot : e.slot index = some t)
      (unsent : t.isSent = false) (idle : t.queued = false) :
      Move e [] ({ e with queue := e.queue ++ [index] }.setSlot index
        (some { t with queued := true }))
  /-- An index is dropped from the queue, unless a waiting transaction depends on it. -/
  | skip {e : Engine} {index : UInt8} {queue : List UInt8} (front : e.queue = index :: queue)
      (idle : ∀ t, e.slot index = some t → t.queued = true → index ∈ queue) :
      Move e [] { e with queue }
  | rotate {e : Engine} {index : UInt8} {queue : List UInt8} (front : e.queue = index :: queue) :
      Move e [] { e with queue := queue ++ [index] }
  | pack {e : Engine} {index : UInt8} {queue : List UInt8} {t : Transaction} (now : Nat)
      (front : e.queue = index :: queue) (slot : e.slot index = some t) (queued : t.queued) :
      Move e [.packed t.generation index now] ({ e with queue }.markSent now index t)
  | finish {e : Engine} {index : UInt8} {t : Transaction} (outcome : Outcome)
      (slot : e.slot index = some t) {queue : List UInt8}
      (kept : ∀ other ∈ e.queue, other ≠ index → other ∈ queue) :
      Move e [.completed t.generation t.id outcome]
        ({ e with queue }.detach index (.completed t.generation t.id outcome))
  | cancel {e : Engine} {index : UInt8} {t : Transaction} (slot : e.slot index = some t) :
      Move e [.cancelled t.generation] (e.detach index (.cancelled t.generation))
  | release {e : Engine} {index : UInt8} (vacant : e.slot index = none) (b : Buffer) :
      Move e [] (e.release index b)
  /-- The journal takes down something that is not about one transaction. -/
  | note {e : Engine} {x : JournalEntry} (general : x.generation? = none) :
      Move e [x] (e.record x)
  | count {e : Engine} (statistics : TrafficStatistics) : Move e [] { e with statistics }
  | shut {e : Engine} : Move e [] { e with pool := e.pool.close.2 }
  /-- Others use the pool. -/
  | share {e : Engine} (pool : Pool) : Move e [] { e with pool }

/-- A path of moves. Each entry is allowed at the point where it is made. -/
def Moves (allow : Engine → JournalEntry → Prop) : Engine → Engine → Prop :=
  Relation.ReflTransGen fun e e' => ∃ xs, Move e xs e' ∧ ∀ x ∈ xs, allow e x

namespace Moves

variable {allow allow' : Engine → JournalEntry → Prop} {e e' e'' : Engine}

theorem refl (e : Engine) : Moves allow e e := Relation.ReflTransGen.refl

theorem trans (h : Moves allow e e') (h' : Moves allow e' e'') : Moves allow e e'' :=
  Relation.ReflTransGen.trans h h'

theorem single {xs : List JournalEntry} (h : Move e xs e') (ok : ∀ x ∈ xs, allow e x) :
    Moves allow e e' :=
  Relation.ReflTransGen.single ⟨xs, h, ok⟩

theorem silent (h : Move e [] e') : Moves allow e e' := single h fun _ hx => by cases hx

theorem report {x : JournalEntry} (h : Move e [x] e') (ok : allow e x) : Moves allow e e' :=
  single h fun _ hx => List.mem_singleton.mp hx ▸ ok

theorem mono (h : Moves allow e e') (sub : ∀ e x, allow e x → allow' e x) : Moves allow' e e' :=
  Relation.ReflTransGen.mono
    (fun _ _ ⟨xs, move, ok⟩ => ⟨xs, move, fun x hx => sub _ x (ok x hx)⟩) _ _ h

end Moves

/-! ## Slots -/

theorem slot_enroll (e : Engine) (r : Request) (t : Transaction) (other : UInt8) :
    (e.enroll r t).slot other = if other = t.index then some t else e.slot other :=
  slot_setSlot _ t.index other (some t)

theorem slot_detach (e : Engine) (index : UInt8) (x : JournalEntry) (other : UInt8) :
    (e.detach index x).slot other = if other = index then none else e.slot other :=
  slot_setSlot e index other none

theorem finish_eq {e : Engine} {index : UInt8} {t : Transaction} (outcome : Outcome)
    (slot : e.slot index = some t) :
    e.finish index outcome =
      ((e.detach index (.completed t.generation t.id outcome)).follow t).release index
        t.buffer := by
  simp only [finish, slot, complete, detach]

theorem cancel_eq {e : Engine} {index : UInt8} {t : Transaction} (slot : e.slot index = some t) :
    e.cancel index =
      (true, (e.detach index (.cancelled t.generation)).release index t.buffer) := by
  simp only [cancel, slot, detach]

end Engine

end Fieldbus
