import Fieldbus.Buffer.Basic
import Fieldbus.Datagram.Basic

/-!
# Transactions

A transaction is one datagram on its way: prepared, scheduled, sent and at last completed by an
answer or by time running out. What its completion sets off is data: the name under which the
outcome is reported, and what follows then, one thing after the completion of the other. A callback
calls the engine for nothing else than to submit one more request.
-/

namespace Fieldbus

inductive Outcome where
  | response (workCounter : UInt16) (payload : Bytes)
  | timeout
  deriving DecidableEq, Repr

structure Request where
  /-- The name under which the outcome is reported. -/
  id : Nat
  command : Command
  address : Address
  payload : Bytes
  timeout : Nat
  deriving DecidableEq, Repr

/-- What a callback does with the engine, if anything. It calls the engine for nothing else. -/
inductive FollowUp where
  | submit (request : Request)
  /-- A request that cannot be made out, which is found out when its turn comes. -/
  | refuse (cause : Error)
  deriving DecidableEq, Repr

structure Transaction where
  index : UInt8
  /-- Tells apart the transactions that use the same index one after the other. -/
  generation : Nat
  command : Command
  buffer : Buffer
  /-- The time allowed for the answer, counted from sending. -/
  timeout : Nat
  /-- Known once the transaction is sent. -/
  deadline : Option Nat
  /-- Waits to be sent. -/
  queued : Bool
  id : Nat
  /-- What follows on completion, in turn. -/
  followUps : List FollowUp
  deriving DecidableEq, Repr

namespace Transaction

def ofRequest (r : Request) (followUps : List FollowUp) (generation : Nat) (index : UInt8)
    (buffer : Buffer) : Transaction where
  index
  generation
  command := r.command
  buffer
  timeout := r.timeout
  deadline := none
  queued := false
  id := r.id
  followUps

def isSent (t : Transaction) : Bool := t.deadline.isSome

def encoded (t : Transaction) : Bytes := t.buffer.contents

def isExpired (t : Transaction) (now : Nat) : Bool :=
  match t.deadline with
  | none => false
  | some deadline => deadline ≤ now

def markSent (t : Transaction) (now : Nat) : Transaction :=
  { t with queued := false, deadline := some (now + t.timeout) }

def awaits (t : Transaction) (d : Datagram) : Bool := t.isSent && t.command == d.header.command

end Transaction

/-- What an engine has done so far, as far as its callers can tell. -/
inductive JournalEntry where
  | prepared (generation : Nat) (index : UInt8) (request : Request)
  | packed (generation : Nat) (index : UInt8) (now : Nat)
  /-- The port took a frame. -/
  | sent (frame : Bytes)
  | completed (generation : Nat) (id : Nat) (outcome : Outcome)
  | cancelled (generation : Nat)
  /-- On completion of the transaction named `id` another was submitted. -/
  | followed (id : Nat) (result : Except Error UInt8)
  deriving Repr

end Fieldbus
