import Fieldbus.Buffer.Basic

/-!
# Queues of buffers

A queue has one place for every index below its capacity, and a buffer always takes the place of
its own index. The places in use are linked in both directions, so that a buffer leaves the queue
from wherever it stands and the others keep their order. `BufferQueue.toList` reads the links from
front to back.
-/

namespace Fieldbus

structure Node where
  buffer : Buffer
  previous : Option Nat
  /-- The index towards the back. -/
  next : Option Nat
  deriving DecidableEq, Repr

structure BufferQueue where
  nodes : Array (Option Node)
  front : Option Nat
  back : Option Nat
  length : Nat
  deriving DecidableEq, Repr

namespace BufferQueue

def empty (capacity : Nat) : BufferQueue := ⟨Array.replicate capacity none, none, none, 0⟩

def capacity (q : BufferQueue) : Nat := q.nodes.size

def isEmpty (q : BufferQueue) : Bool := q.length == 0

def node? (q : BufferQueue) (index : Nat) : Option Node := q.nodes[index]?.join

def contains (q : BufferQueue) (index : Nat) : Bool := (q.node? index).isSome

def accepts (q : BufferQueue) (index : Nat) : Bool := index < q.capacity && !q.contains index

def setNode (q : BufferQueue) (index : Nat) (node : Option Node) : BufferQueue :=
  { q with nodes := q.nodes.setIfInBounds index node }

def updateNode (q : BufferQueue) (index : Nat) (change : Node → Node) : BufferQueue :=
  match q.node? index with
  | none => q
  | some node => q.setNode index (some (change node))

/-- Makes `next` the successor of `index`, or the front where there is no `index`. -/
def linkNext (q : BufferQueue) (index next : Option Nat) : BufferQueue :=
  match index with
  | none => { q with front := next }
  | some i => q.updateNode i fun node => { node with next }

/-- Makes `previous` the predecessor of `index`, or the back where there is no `index`. -/
def linkPrevious (q : BufferQueue) (index previous : Option Nat) : BufferQueue :=
  match index with
  | none => { q with back := previous }
  | some i => q.updateNode i fun node => { node with previous }

def insertBetween? (q : BufferQueue) (previous next : Option Nat) (b : Buffer) :
    Option BufferQueue :=
  if q.accepts b.index then
    let q := q.setNode b.index (some ⟨b, previous, next⟩)
    let q := (q.linkNext previous (some b.index)).linkPrevious next (some b.index)
    some { q with length := q.length + 1 }
  else
    none

def pushBack? (q : BufferQueue) (b : Buffer) : Option BufferQueue :=
  q.insertBetween? q.back none b

def pushFront? (q : BufferQueue) (b : Buffer) : Option BufferQueue :=
  q.insertBetween? none q.front b

def remove? (q : BufferQueue) (index : Nat) : Option (Buffer × BufferQueue) :=
  match q.node? index with
  | none => none
  | some node =>
      let q := q.setNode index none
      let q := (q.linkNext node.previous node.next).linkPrevious node.next node.previous
      some (node.buffer, { q with length := q.length - 1 })

def popFront? (q : BufferQueue) : Option (Buffer × BufferQueue) := q.front.bind q.remove?

def popBack? (q : BufferQueue) : Option (Buffer × BufferQueue) := q.back.bind q.remove?

def front? (q : BufferQueue) : Option Buffer := (q.front.bind q.node?).map Node.buffer

/-- Follows the links towards the back from `index`, over at most `fuel` buffers. -/
def walk (q : BufferQueue) : Nat → Option Nat → List Buffer
  | 0, _ => []
  | _ + 1, none => []
  | fuel + 1, some index =>
      match q.node? index with
      | none => []
      | some node => node.buffer :: q.walk fuel node.next

def toList (q : BufferQueue) : List Buffer := q.walk q.length q.front

def popMany : Nat → BufferQueue → List Buffer × BufferQueue
  | 0, q => ([], q)
  | fuel + 1, q =>
      match q.popFront? with
      | none => ([], q)
      | some (b, rest) =>
          let (others, rest) := popMany fuel rest
          (b :: others, rest)

def drain (q : BufferQueue) : List Buffer × BufferQueue := popMany q.length q

end BufferQueue

end Fieldbus
