import Fieldbus.Layout
import Fieldbus.MacAddress
import Fieldbus.Mailbox.Protocol

/-!
# Configuration

Times are whole microseconds.
-/

namespace Fieldbus

structure Config where
  blocking : Bool := false
  poolSize : Nat := 256
  bufferSize : Nat := Layout.defaultBuffer
  /-- The largest Ethernet payload: the frame header and all datagrams. -/
  mtu : Nat := Layout.defaultMtu
  source : MacAddress := .ofOctets 0x00 0x30 0x64 0x0F 0x83 0x35
  destination : MacAddress := .broadcast
  datagramTimeout : Nat := 2000
  cycleInterval : Nat := 1000
  mailboxTimeout : Nat := 1000000
  /-- How long a mailbox goes without looking at the read slot when nothing wakes it. -/
  pollInterval : Nat := 10000
  mailboxPoolSize : Nat := 64
  writeAttempts : UInt8 := 10
  priority : List Protocol := Protocol.defaultPriority
  receiveBuffer : Option Nat := none
  sendBuffer : Option Nat := none
  pollingTimeout : Option Nat := some 1000
  deriving DecidableEq, Repr

/-- Takes over an order of the protocols. An order has seven places, and another list of protocols
leaves the order as it was. -/
def Config.withPriority (c : Config) (order : List Protocol) : Config :=
  if order.length = 7 then { c with priority := order } else c

/-- A slot in a slave's memory through which mailbox messages pass. -/
structure SyncManager where
  number : UInt8
  address : UInt16
  length : UInt16
  deriving DecidableEq, Repr

namespace SyncManager

def statusBase : UInt16 := 0x0805

/-- The registers of successive sync managers lie eight bytes apart. -/
def statusRegister (sm : SyncManager) : UInt16 := statusBase + 8 * sm.number.toUInt16

end SyncManager

structure SlaveConfig where
  position : UInt16
  fixedAddress : UInt16
  /-- The slot that the master writes. -/
  writeSlot : SyncManager := ⟨0, 0x1000, 128⟩
  /-- The slot that the master reads. -/
  readSlot : SyncManager := ⟨1, 0x1080, 128⟩
  supported : ProtocolSet
  deriving DecidableEq, Repr

end Fieldbus
