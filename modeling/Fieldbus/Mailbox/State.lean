import Fieldbus.Share

/-!
# States and counters of a mailbox
-/

namespace Fieldbus

/-- How far the handshake of a mailbox with its slave has come. -/
inductive Handshake where
  | idle
  /-- A message has left its queue. -/
  | sendPending
  /-- The message is being written. -/
  | awaitEcho
  /-- The message was accepted and its reply is outstanding. -/
  | awaitResponse
  | complete
  | timeout
  deriving DecidableEq, Repr

namespace Handshake

def all : List Handshake := [.idle, .sendPending, .awaitEcho, .awaitResponse, .complete, .timeout]

def text : Handshake → String
  | .idle => "Idle"
  | .sendPending => "SendPending"
  | .awaitEcho => "AwaitEcho"
  | .awaitResponse => "AwaitResponse"
  | .complete => "Complete"
  | .timeout => "Timeout"

def isInFlight : Handshake → Bool
  | .sendPending | .awaitEcho | .awaitResponse => true
  | _ => false

def isReady (h : Handshake) : Bool := !h.isInFlight

end Handshake

/-- Whether a slot of a slave holds data that nobody has read yet. -/
inductive SlotState where
  | empty
  | full
  deriving DecidableEq, Repr

def SlotState.text : SlotState → String
  | .empty => "Empty"
  | .full => "Full"

/-- Bit 3 of the status register says that the slot is full. -/
def SlotState.ofStatus (status : UInt8) : SlotState :=
  if status &&& 0x08 = 0 then .empty else .full

structure MailboxStatistics where
  messagesSent : Nat := 0
  messagesReceived : Nat := 0
  writeRetries : Nat := 0
  requeued : Nat := 0
  staleDropped : Nat := 0
  invalidDropped : Nat := 0
  timeouts : Nat := 0
  deriving DecidableEq, Repr

def MailboxStatistics.writeFailureRate (s : MailboxStatistics) : Float32 :=
  share (UInt64.ofNat s.writeRetries) (UInt64.ofNat (s.messagesSent + s.writeRetries))

end Fieldbus
