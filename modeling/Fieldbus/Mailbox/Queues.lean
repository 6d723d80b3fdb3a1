import Fieldbus.Buffer.Queue
import Fieldbus.Mailbox.Protocol

/-!
# One queue for each protocol

Every protocol has a queue of its own. An order of protocols decides whose front is taken next.
-/

namespace Fieldbus

structure ProtocolQueues where
  queues : Vector BufferQueue 7
  deriving DecidableEq, Repr

namespace ProtocolQueues

def empty (capacity : Nat) : ProtocolQueues := ⟨Vector.replicate 7 (.empty capacity)⟩

def queue (q : ProtocolQueues) (p : Protocol) : BufferQueue := q.queues[p.slot]

def setQueue (q : ProtocolQueues) (p : Protocol) (queue : BufferQueue) : ProtocolQueues :=
  ⟨q.queues.set p.slot.val queue p.slot.isLt⟩

theorem queue_setQueue (q : ProtocolQueues) (p other : Protocol) (queue : BufferQueue) :
    (q.setQueue p queue).queue other = if p = other then queue else q.queue other := by
  unfold ProtocolQueues.queue setQueue
  rw [Fin.getElem_fin, Fin.getElem_fin, Vector.getElem_set]
  simp only [Fin.val_inj, Protocol.slot_inj]

def pushBack? (q : ProtocolQueues) (p : Protocol) (b : Buffer) : Option ProtocolQueues :=
  ((q.queue p).pushBack? b).map (q.setQueue p)

def pushFront? (q : ProtocolQueues) (p : Protocol) (b : Buffer) : Option ProtocolQueues :=
  ((q.queue p).pushFront? b).map (q.setQueue p)

def pop? (q : ProtocolQueues) (p : Protocol) : Option (Buffer × ProtocolQueues) :=
  (q.queue p).popFront?.map fun (b, queue) => (b, q.setQueue p queue)

def peek? (q : ProtocolQueues) (order : List Protocol) : Option Protocol :=
  order.find? fun p => !(q.queue p).isEmpty

def next? (q : ProtocolQueues) (order : List Protocol) :
    Option (Protocol × Buffer × ProtocolQueues) :=
  (q.peek? order).bind fun p => (q.pop? p).map fun (b, rest) => (p, b, rest)

/-- Takes the buffer of an index out of whichever queue holds it. -/
def remove? (q : ProtocolQueues) (index : Nat) : Option (Protocol × Buffer × ProtocolQueues) :=
  Protocol.all.findSome? fun p =>
    ((q.queue p).remove? index).map fun (b, queue) => (p, b, q.setQueue p queue)

def contains (q : ProtocolQueues) (index : Nat) : Bool :=
  Protocol.all.any fun p => (q.queue p).contains index

def length (q : ProtocolQueues) (p : Protocol) : Nat := (q.queue p).length

def totalLength (q : ProtocolQueues) : Nat := Protocol.all.foldl (fun n p => n + q.length p) 0

def isEmpty (q : ProtocolQueues) : Bool := Protocol.all.all fun p => (q.queue p).isEmpty

def entries (q : ProtocolQueues) (p : Protocol) : List Buffer := (q.queue p).toList

def drain (q : ProtocolQueues) : List (Protocol × Buffer) × ProtocolQueues :=
  (Protocol.all.flatMap fun p => (q.queue p).drain.1.map fun b => (p, b),
    ⟨q.queues.map fun queue => queue.drain.2⟩)

end ProtocolQueues

end Fieldbus
