import Fieldbus.Mailbox.Turn

/-!
# A scripted slave

The slave has an outbox, whose first message stands in the slot that the master reads, and answers
accesses by a few settings. Results may be forced on it, in the order in which they are given.
-/

namespace Fieldbus.Simulation

structure SlaveSettings where
  /-- Answer each message with its payload reversed. -/
  echo : Bool := false
  acknowledgement : UInt16 := 1
  writeFull : Bool := false
  rejectWrites : Nat := 0
  /-- Leave what a read message does not cover as it was. -/
  keepStale : Bool := false
  deriving DecidableEq, Repr

inductive SlotCall where
  | readState
  | writeState
  | write
  | read
  deriving DecidableEq, Repr

namespace SlotCall

def all : List SlotCall := [.readState, .writeState, .write, .read]

def text : SlotCall → String
  | .readState => "slot_read"
  | .writeState => "slot_write"
  | .write => "write"
  | .read => "read"

end SlotCall

inductive Forced (α : Type) where
  | answer (a : α)
  | failure (cause : Error)
  deriving DecidableEq, Repr

structure ScriptedSlave where
  settings : SlaveSettings := {}
  outbox : List Bytes := []
  readStates : List (Forced SlotState) := []
  writeStates : List (Forced SlotState) := []
  writes : List (Forced UInt16) := []
  reads : List (Forced UInt16) := []
  deriving DecidableEq, Repr

namespace ScriptedSlave

/-- Forces results on the next calls of one kind: states on those that ask for a state, work
counters on the others. -/
def force (s : ScriptedSlave) (call : SlotCall) (states : List (Forced SlotState))
    (counters : List (Forced UInt16)) : ScriptedSlave :=
  match call with
  | .readState => { s with readStates := s.readStates ++ states }
  | .writeState => { s with writeStates := s.writeStates ++ states }
  | .write => { s with writes := s.writes ++ counters }
  | .read => { s with reads := s.reads ++ counters }

def nextForced {α : Type} : List (Forced α) → Option (Forced α) × List (Forced α)
  | [] => (none, [])
  | result :: rest => (some result, rest)

def isReadSlot (slave : SlaveConfig) (sm : SyncManager) : Bool :=
  sm.number == slave.readSlot.number

def stateCall (slave : SlaveConfig) (sm : SyncManager) : SlotCall :=
  if isReadSlot slave sm then .readState else .writeState

def slotState (slave : SlaveConfig) (sm : SyncManager) (s : ScriptedSlave) :
    Except Error SlotState × ScriptedSlave :=
  let reading := isReadSlot slave sm
  let (forced, rest) := nextForced (if reading then s.readStates else s.writeStates)
  let s := if reading then { s with readStates := rest } else { s with writeStates := rest }
  let full := if reading then !s.outbox.isEmpty else s.settings.writeFull
  match forced with
  | some (.failure cause) => (.error cause, s)
  | some (.answer state) => (.ok state, s)
  | none => (.ok (if full then .full else .empty), s)

def echoOf? (address : UInt16) (size : Nat) (data : Bytes) : Option Bytes :=
  match Message.decode? data with
  | .error _ => none
  | .ok message =>
      let header : MessageHeader :=
        { MessageHeader.plain message.header.protocol address 0 with
          counter := message.header.counter }
      match Message.encodeInto (Bytes.zeros size) header message.payload.reverse with
      | .error _ => none
      | .ok (_, bytes) => some bytes

def ordinaryCounter (s : ScriptedSlave) : UInt16 × ScriptedSlave :=
  match s.settings.rejectWrites with
  | 0 => (s.settings.acknowledgement, s)
  | n + 1 => (0, { s with settings := { s.settings with rejectWrites := n } })

def write (slave : SlaveConfig) (data : Bytes) (s : ScriptedSlave) :
    Except Error UInt16 × ScriptedSlave :=
  let (forced, writes) := nextForced s.writes
  let s := { s with writes }
  match forced with
  | some (.failure cause) => (.error cause, s)
  | _ =>
      let (counter, s) := match forced with
        | some (.answer n) => (n, s)
        | _ => s.ordinaryCounter
      let echo :=
        if counter > 0 && s.settings.echo then
          echoOf? slave.fixedAddress slave.readSlot.length.toNat data
        else none
      (.ok counter, { s with outbox := s.outbox ++ echo.toList })

def deliver (bytes : Bytes) (counter : UInt16) (s : ScriptedSlave) :
    (Except Error UInt16 × Bytes) × ScriptedSlave :=
  match s.outbox with
  | [] => ((.ok 0, bytes), s)
  | message :: outbox =>
      let ground := if s.settings.keepStale then bytes else Bytes.zeros bytes.length
      ((.ok counter, ground.overwrite 0 (message.take bytes.length)), { s with outbox })

def read (_slave : SlaveConfig) (bytes : Bytes) (s : ScriptedSlave) :
    (Except Error UInt16 × Bytes) × ScriptedSlave :=
  let (forced, reads) := nextForced s.reads
  let s := { s with reads }
  match forced with
  | some (.failure cause) => ((.error cause, bytes), s)
  | some (.answer 0) => ((.ok 0, bytes), s)
  | some (.answer n) => s.deliver bytes n
  | none => s.deliver bytes 1

def device : SlotDevice ScriptedSlave := ⟨slotState, write, read⟩

end ScriptedSlave

end Fieldbus.Simulation
