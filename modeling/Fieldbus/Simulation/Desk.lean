import Fieldbus.Mailbox.Turn
import Fieldbus.Simulation.Script

/-!
# A desk for mailboxes

A script calls on a mailbox and holds the buffers and handles that it gets, by name. The mailbox
reaches its slave through a device `δ`.
-/

namespace Fieldbus.Simulation

structure Hands where
  buffers : Shelf Buffer := []
  handles : Shelf Handle := []
  foreign : Pool := .openWith 3 4 128

structure Desk (δ : Type) where
  mailbox : Mailbox
  hands : Hands := {}
  device : δ

namespace Desk

variable {δ : Type}

def setMailbox (mailbox : Mailbox) (s : Desk δ) : Desk δ := { s with mailbox }

def setDevice (device : δ) (s : Desk δ) : Desk δ := { s with device }

def work {α : Type} (f : Mailbox → α × Mailbox) : Step (Desk δ) α := do
  Step.keep setMailbox (f (← get).mailbox)

def workDevice {α : Type} (f : Mailbox → δ → α × δ) : Step (Desk δ) α := do
  let s ← get
  Step.keep setDevice (f s.mailbox s.device)

/-! ## Buffers -/

def buffer (name : String) : Step (Desk δ) Buffer := do
  Step.found "entry" ((← get).hands.buffers.lookup name)

def hold (name : String) (b : Buffer) : Step (Desk δ) Buffer := do
  modify fun s => { s with hands := { s.hands with buffers := s.hands.buffers.put name b } }
  return b

def release (name : String) : Step (Desk δ) Buffer := do
  let b ← buffer name
  modify fun s => { s with hands := { s.hands with buffers := s.hands.buffers.drop name } }
  return b

def alter (name : String) (change : Mailbox → Buffer → Except Error Buffer) :
    Step (Desk δ) Buffer := do
  let b ← buffer name
  hold name (← Step.need (change (← get).mailbox b))

def takeBuffer : Step (Desk δ) Buffer := do
  Step.keep setMailbox (← Step.need (← get).mailbox.takeSendBuffer?)

def takeForeign : Step (Desk δ) Buffer := do
  let (b, foreign) ← Step.need (← get).hands.foreign.take?
  modify fun s => { s with hands := { s.hands with foreign } }
  return b

/-! ## Requests -/

structure Order where
  /-- The name for the handle. -/
  handle : String
  expectsResponse : Bool
  deadline : Nat
  urgent : Bool
  /-- With a callback attached. -/
  watched : Bool
  deriving DecidableEq, Repr

def enqueue (b : Buffer) (o : Order) : Step (Desk δ) Nat := do
  let b := if o.watched then { b with callback := some 0 } else b
  let result ← work fun m =>
    if o.urgent then m.enqueueFront b o.expectsResponse o.deadline
    else m.enqueueBack b o.expectsResponse o.deadline
  let handle ← Step.need result
  modify fun s =>
    { s with hands := { s.hands with handles := s.hands.handles.put o.handle handle } }
  return handle.index

def prepare (name : String) (p : Except Error Protocol) (address : UInt16) (payload : Bytes) :
    Step (Desk δ) Buffer :=
  alter name fun m b => p.bind fun p => m.prepare b p address payload

def send (p : Except Error Protocol) (address : UInt16) (payload : Bytes) (o : Order) :
    Step (Desk δ) Nat := do
  let b ← takeBuffer
  let p ← Step.need p
  enqueue (← Step.need ((← get).mailbox.prepare b p address payload)) o

def wait (name : String) : Step (Desk δ) (Except Error Reply) := do
  let handle ← Step.found "handle" ((← get).hands.handles.lookup name)
  modify fun s => { s with hands := { s.hands with handles := s.hands.handles.drop name } }
  work fun m => m.settle handle

def run (t : Transport (Hands × δ)) (now : Nat) : Step (Desk δ) (Except Error Unit) := do
  let s ← get
  let (result, mailbox, hands, device) := s.mailbox.turn t now (s.hands, s.device)
  set { mailbox, hands, device : Desk δ }
  return result

end Desk

end Fieldbus.Simulation
