import Fieldbus.Buffer.Queue

/-!
# Pools of buffers

A pool makes all its buffers when it opens and hands them out from the front of its free queue.
A buffer that comes back loses its callback and its length and keeps its bytes. A closed pool
hands nothing out and lets go of what comes back.
-/

namespace Fieldbus

structure Pool where
  id : Nat
  capacity : Nat
  bufferSize : Nat
  free : BufferQueue
  closed : Bool
  deriving DecidableEq, Repr

inductive Return where
  | accepted
  | refused (buffer : Buffer)
  deriving DecidableEq, Repr

namespace Pool

/-- A queue with every buffer of a new pool in the order of the indices. -/
def stock (id capacity bufferSize : Nat) : BufferQueue :=
  (List.range capacity).foldl
    (fun q index => (q.pushBack? (Buffer.fresh id index bufferSize)).getD q)
    (BufferQueue.empty capacity)

def openWith (id capacity bufferSize : Nat) : Pool :=
  ⟨id, capacity, bufferSize, stock id capacity bufferSize, false⟩

def available (p : Pool) : Nat := p.free.length

def owns (p : Pool) (b : Buffer) : Bool := b.pool == p.id

def newQueue (p : Pool) : BufferQueue := .empty p.capacity

def take? (p : Pool) : Except Error (Buffer × Pool) :=
  if p.closed then .error (.exhausted .poolBuffers)
  else match p.free.popFront? with
    | none => .error (.exhausted .poolBuffers)
    | some (b, free) => .ok (b, { p with free })

/-- The index of the buffer that is handed out next. -/
def peek? (p : Pool) : Except Error Nat :=
  match p.free.front? with
  | none => .error .empty
  | some b => .ok b.index

def remove? (p : Pool) (index : Nat) : Option (Buffer × Pool) :=
  (p.free.remove? index).map fun (b, free) => (b, { p with free })

/-- Takes a buffer back at the end of the free queue that `push` names. A buffer that is already
there is let go. -/
def giveBack (p : Pool) (push : BufferQueue → Buffer → Option BufferQueue) (b : Buffer) :
    Return × Pool :=
  if p.owns b then
    if p.closed then (.accepted, p)
    else match push p.free b.retire with
      | none => (.accepted, p)
      | some free => (.accepted, { p with free })
  else
    (.refused b, p)

/-- Takes a buffer back to be reused last, unless it belongs elsewhere. -/
def offer (p : Pool) (b : Buffer) : Return × Pool := p.giveBack BufferQueue.pushBack? b

/-- Takes a buffer back to be reused last. A buffer of another pool is lost. -/
def put (p : Pool) (b : Buffer) : Pool := (p.offer b).2

/-- Takes a buffer back to be reused first. A buffer of another pool is lost. -/
def putFront (p : Pool) (b : Buffer) : Pool := (p.giveBack BufferQueue.pushFront? b).2

/-- Closes the pool and returns the number of buffers that are not in it. -/
def close (p : Pool) : Nat × Pool :=
  (p.capacity - p.free.length, { p with free := p.free.drain.2, closed := true })

end Pool

end Fieldbus
