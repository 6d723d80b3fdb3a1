import Fieldbus.Hex

/-!
# Failures

Every operation that can fail returns an `Error`, which names the cause. `Error.message` is the
one place where a cause is put into words.
-/

namespace Fieldbus

inductive Resource where
  | poolBuffers
  | datagramIndices
  | mailboxBuffers
  deriving DecidableEq, Repr

inductive Malformed where
  | frameTooShort
  | etherType
  | frameType
  | command
  | protocol
  | datagramTruncated
  | messageTruncated
  deriving DecidableEq, Repr

inductive FaultKind where
  | invalidInput
  | brokenPipe
  | wouldBlock
  | other
  deriving DecidableEq, Repr

structure Fault where
  kind : FaultKind
  text : String
  deriving DecidableEq, Repr

inductive Error where
  | exhausted (resource : Resource)
  | capacity (required available : Nat)
  | timeout
  | stale
  | empty
  | device (fault : Fault)
  | malformed (cause : Malformed)
  | unsupported (protocol : UInt8)
  | unknownSlave (position : UInt16)
  | closed
  | foreign
  deriving DecidableEq, Repr

def FaultKind.text : FaultKind → String
  | .invalidInput => "InvalidInput"
  | .brokenPipe => "BrokenPipe"
  | .wouldBlock => "WouldBlock"
  | .other => "Other"

def Resource.message : Resource → String
  | .poolBuffers => "pool entries"
  | .datagramIndices => "datagram indices"
  | .mailboxBuffers => "mailbox buffers"

def Malformed.message : Malformed → String
  | .frameTooShort => "frame too short"
  | .etherType => "unexpected ethertype"
  | .frameType => "unsupported frame type"
  | .command => "unknown datagram command"
  | .protocol => "unknown mailbox type"
  | .datagramTruncated => "datagram truncated"
  | .messageTruncated => "mailbox message truncated"

namespace Error

def kind : Error → String
  | .exhausted _ => "ResourceExhausted"
  | .capacity _ _ => "CapacityExceeded"
  | .timeout => "Timeout"
  | .stale => "StaleResponse"
  | .empty => "Empty"
  | .device _ => "DeviceError"
  | .malformed _ => "DecodingError"
  | .unsupported _ => "UnsupportedProtocol"
  | .unknownSlave _ => "UnknownSlave"
  | .closed => "MailboxClosed"
  | .foreign => "ForeignEntry"

def message : Error → String
  | .exhausted resource => "resource exhausted: " ++ resource.message
  | .capacity required available =>
      "capacity exceeded: " ++ toString required ++ " bytes required, " ++
        toString available ++ " available"
  | .timeout => "timed out waiting for response"
  | .stale => "stale response"
  | .empty => "empty"
  | .device fault => "device error: " ++ fault.text
  | .malformed cause => "decoding error: " ++ cause.message
  | .unsupported protocol =>
      "mailbox protocol 0x" ++ Hex.text [protocol] ++ " not supported by slave"
  | .unknownSlave position => "unknown slave " ++ toString position.toNat
  | .closed => "mailbox closed"
  | .foreign => "buffer belongs to another pool"

/-- Failures that go away by themselves, so that the caller may simply try again. -/
def isTransient : Error → Bool
  | .exhausted _ => true
  | .timeout => true
  | _ => false

def isTimeout : Error → Bool
  | .timeout => true
  | _ => false

end Error

end Fieldbus
