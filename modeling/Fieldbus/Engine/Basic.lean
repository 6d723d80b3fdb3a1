import Fieldbus.Buffer.Pool
import Fieldbus.Config
import Fieldbus.Engine.Leases
import Fieldbus.Engine.Statistics
import Fieldbus.Engine.Transaction

/-!
# The datagram engine

The engine ties requests to answers. Each transaction leases one of 256 indices, which is also its
slot, and holds one buffer of the pool. Scheduled transactions wait in a queue of indices. An index
may stand in the queue after its transaction is gone, so what is taken from the queue counts only
if the slot holds a transaction that waits to be sent.
-/

namespace Fieldbus

structure Engine where
  config : Config
  pool : Pool
  leases : Leases
  slots : Vector (Option Transaction) 256
  queue : List UInt8
  statistics : TrafficStatistics
  nextGeneration : Nat
  journal : List JournalEntry

namespace Engine

def withParts (config : Config) (pool : Pool) (leases : Leases) : Engine where
  config
  pool
  leases
  slots := Vector.replicate 256 none
  queue := []
  statistics := {}
  nextGeneration := 1
  journal := []

def create (config : Config) (poolId : Nat) (start : UInt8) : Engine :=
  withParts config (Pool.openWith poolId config.poolSize config.bufferSize) (.startingAt start)

/-! ## Slots -/

def slot (e : Engine) (index : UInt8) : Option Transaction :=
  have bound : index.toNat < 256 := index.toNat_lt
  e.slots[index.toNat]

def setSlot (e : Engine) (index : UInt8) (t : Option Transaction) : Engine :=
  { e with slots := e.slots.set index.toNat t index.toNat_lt }

theorem slot_setSlot (e : Engine) (index other : UInt8) (t : Option Transaction) :
    (e.setSlot index t).slot other = if other = index then t else e.slot other := by
  unfold slot setSlot
  rw [Vector.getElem_set]
  simp only [UInt8.toNat_inj, eq_comm]

def inFlight (e : Engine) : Nat := e.leases.count

def isOutstanding (e : Engine) (index : UInt8) : Bool := (e.slot index).isSome

def generation? (e : Engine) (index : UInt8) : Option Nat :=
  (e.slot index).map Transaction.generation

def record (e : Engine) (entry : JournalEntry) : Engine :=
  { e with journal := e.journal ++ [entry] }

def tally (e : Engine) (change : TrafficStatistics → TrafficStatistics) : Engine :=
  { e with statistics := change e.statistics }

def resetStatistics (e : Engine) : Engine := { e with statistics := {} }

/-- Gives up the index and the buffer of a transaction that has left its slot. -/
def release (e : Engine) (index : UInt8) (b : Buffer) : Engine :=
  { e with leases := (e.leases.release index).2, pool := e.pool.put b }

/-! ## Beginning a transaction -/

/-- The largest datagram that a transaction can carry. -/
def room (e : Engine) : Nat := min e.pool.bufferSize (e.config.mtu - Layout.frameHeader)

def enroll (e : Engine) (r : Request) (t : Transaction) : Engine :=
  ({ e with nextGeneration := t.generation + 1 }.record
    (.prepared t.generation t.index r)).setSlot t.index (some t)

/-- Leases an index, takes a buffer and encodes the request into it. On failure both are given up
again, though the next lease then begins one further on. -/
def prepare (e : Engine) (r : Request) (followUps : List FollowUp) :
    Except Error UInt8 × Engine :=
  let required := Layout.datagramHeader + r.payload.length + Layout.workCounter
  if required > e.room then
    (.error (.capacity required e.room), e)
  else match e.leases.lease? with
    | none => (.error (.exhausted .datagramIndices), e)
    | some (index, leases) =>
        let e := { e with leases }
        match e.pool.take? with
        | .error cause => (.error cause, { e with leases := (leases.release index).2 })
        | .ok (b, pool) =>
            let e := { e with pool }
            match Datagram.encodeInto b.bytes r.command index r.address r.payload with
            | .error cause => (.error cause, e.release index b)
            | .ok (length, bytes) =>
                let buffer := { b with bytes }.withLength length
                (.ok index, e.enroll r (.ofRequest r followUps e.nextGeneration index buffer))

/-- Queues a prepared transaction, once however often it is asked to. -/
def schedule (e : Engine) (index : UInt8) : Except Error Unit × Engine :=
  match e.slot index with
  | none => (.error .empty, e)
  | some t =>
      if t.isSent then (.error .empty, e)
      else if t.queued then (.ok (), e)
      else
        (.ok (), { e with queue := e.queue ++ [index] }.setSlot index
          (some { t with queued := true }))

def submit (e : Engine) (r : Request) (followUps : List FollowUp) :
    Except Error UInt8 × Engine :=
  match e.prepare r followUps with
  | (.error cause, e) => (.error cause, e)
  | (.ok index, e) =>
      match e.schedule index with
      | (.error cause, e) => (.error cause, e)
      | (.ok (), e) => (.ok index, e)

/-! ## Ending a transaction -/

def follow (e : Engine) (t : Transaction) : Engine :=
  match t.followUps with
  | [] => e
  | .refuse cause :: _ => e.record (.followed t.id (.error cause))
  | .submit next :: others =>
      let (result, e) := e.submit next others
      e.record (.followed t.id result)

/-- Reports the outcome of a transaction that has left its slot and sets off what follows it. The
transaction gives up its index and its buffer last. -/
def complete (e : Engine) (index : UInt8) (t : Transaction) (outcome : Outcome) : Engine :=
  ((e.record (.completed t.generation t.id outcome)).follow t).release index t.buffer

def finish (e : Engine) (index : UInt8) (outcome : Outcome) : Engine :=
  match e.slot index with
  | none => e
  | some t => (e.setSlot index none).complete index t outcome

/-- Drops the transaction of an index without an outcome. The answer says whether there was one. -/
def cancel (e : Engine) (index : UInt8) : Bool × Engine :=
  match e.slot index with
  | none => (false, e)
  | some t =>
      (true, ((e.setSlot index none).record (.cancelled t.generation)).release index t.buffer)

/-- Drops a transaction, but not another one that came to use its index. -/
def withdraw (e : Engine) (index : UInt8) (generation : Nat) : Bool × Engine :=
  if e.generation? index = some generation then e.cancel index else (false, e)

def expire (e : Engine) (now : Nat) (index : UInt8) : Bool × Engine :=
  match e.slot index with
  | none => (false, e)
  | some t => if t.isExpired now then (true, e.finish index .timeout) else (false, e)

def expireAll (e : Engine) (now : Nat) : List UInt8 → Nat × Engine
  | [] => (0, e)
  | index :: rest =>
      let (expired, e) := e.expire now index
      let (others, e) := e.expireAll now rest
      (others + expired.toNat, e)

/-- Ends every sent transaction whose time has run out and returns their number. -/
def sweep (e : Engine) (now : Nat) : Nat × Engine :=
  let (expired, e) := e.expireAll now e.leases.leased
  (expired, e.tally fun s => { s with datagramTimeouts := s.datagramTimeouts + expired })

/-- Ends every transaction, closes the pool and returns the number of buffers that are not in it. -/
def close (e : Engine) : Nat × Engine :=
  let e := { e with queue := [] }
  let e := Leases.indices.foldl (fun e index => e.finish index .timeout) e
  let (outstanding, pool) := e.pool.close
  (outstanding, { e with pool })

end Engine

end Fieldbus
