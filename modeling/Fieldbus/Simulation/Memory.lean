import Fieldbus.Config
import Fieldbus.Frame.Builder
import Fieldbus.Mailbox.Message

/-!
# A slave with memory

The slave answers reads and writes of its memory that carry its station address. A message written
into its input slot is answered at once by one with the payload reversed in its output slot.
-/

namespace Fieldbus.Simulation

/-- What the bus may do to the answers to a frame: the work counter of every datagram, bytes
overwritten at offsets, and the length after which the frame is cut. -/
structure Answering where
  workCounter : UInt16 := 1
  patches : List (Nat × UInt8) := []
  limit : Option Nat := none
  deriving DecidableEq, Repr

def setWorkCounters (counter : UInt16) (frame : Bytes) : Bytes :=
  match Frame.parse? frame with
  | .error _ => frame
  | .ok parsed => parsed.chain.toList.foldl (fun frame item =>
      match item with
      | .error _ => frame
      | .ok d => frame.overwrite (Frame.headerLength + d.stop - Layout.workCounter)
          (Bytes.encodeWord counter)) frame

def Answering.apply (a : Answering) (frame : Bytes) : Bytes :=
  let frame := setWorkCounters a.workCounter frame
  let frame := a.patches.foldl (fun frame (offset, byte) => frame.set offset byte) frame
  match a.limit with
  | none => frame
  | some n => frame.take n

structure MemorySlave where
  slave : SlaveConfig
  station : UInt16
  /-- Runs of bytes that were written, the latest first; all else is zero. -/
  written : List (Nat × Bytes) := []
  cut : Option Nat := none
  deriving DecidableEq, Repr

namespace MemorySlave

def size : Nat := 65536

def ofConfig (slave : SlaveConfig) : MemorySlave := { slave, station := slave.fixedAddress }

def byteAt (m : MemorySlave) (place : Nat) : UInt8 :=
  (m.written.findSome? fun (start, bytes) =>
    if start ≤ place then bytes[place - start]? else none).getD 0

def load (m : MemorySlave) (place length : Nat) : Bytes :=
  (List.range (min length (size - place))).map fun i => m.byteAt (place + i)

/-- Bytes beyond the end of the memory are lost. -/
def store (m : MemorySlave) (place : Nat) (bytes : Bytes) : MemorySlave :=
  { m with written := (place, bytes.take (size - place)) :: m.written }

def setOutputFull (m : MemorySlave) (full : Bool) : MemorySlave :=
  let place := m.slave.readSlot.statusRegister.toNat
  let status := m.byteAt place
  m.store place [if full then status ||| 0x08 else status &&& 0xF7]

def respond (m : MemorySlave) : MemorySlave :=
  let input := m.load m.slave.writeSlot.address.toNat m.slave.writeSlot.length.toNat
  match Message.decode? input with
  | .error _ => m
  | .ok message =>
      let header : MessageHeader :=
        { MessageHeader.plain message.header.protocol 0 0 with counter := message.header.counter }
      let room := Bytes.zeros m.slave.readSlot.length.toNat
      match Message.encodeInto room header message.payload.reverse with
      | .error _ => m
      | .ok (length, bytes) =>
          (m.store m.slave.readSlot.address.toNat (bytes.take length)).setOutputFull true

def process (m : MemorySlave) (d : Datagram) : (Bytes × UInt16) × MemorySlave :=
  match d.address with
  | .logical _ => ((d.payload, d.workCounter), m)
  | .physical station offset =>
      if station ≠ m.station then ((d.payload, d.workCounter), m)
      else match d.header.command with
        | .fprd =>
            let found := m.load offset.toNat d.payload.length
            let m := if offset = m.slave.readSlot.address then m.setOutputFull false else m
            ((d.payload.overwrite 0 found, d.workCounter + 1), m)
        | .fpwr =>
            let m := m.store offset.toNat d.payload
            let m := if offset = m.slave.writeSlot.address then m.respond else m
            ((d.payload, d.workCounter + 1), m)
        | _ => ((d.payload, d.workCounter), m)

def answer (m : MemorySlave) (d : Datagram) (b : FrameBuilder) : FrameBuilder × MemorySlave :=
  let ((payload, counter), m) := m.process d
  let payload := match m.cut with
    | none => payload
    | some n => payload.take n
  match b.add d.header.command d.header.index d.address payload with
  | .error _ => (b, m)
  | .ok (_, b) => (b.setWorkCounter counter, m)

def answerFrame (m : MemorySlave) (bytes : Bytes) : Bytes × MemorySlave :=
  match Frame.parse? bytes with
  | .error _ => (bytes, m)
  | .ok frame =>
      match FrameBuilder.create? (Bytes.zeros (max bytes.length Frame.headerLength))
          bytes.length frame.ethernet.destination frame.ethernet.source with
      | .error _ => (bytes, m)
      | .ok b =>
          let (b, m) := frame.chain.toList.foldl (fun (b, m) item =>
            match item with
            | .error _ => (b, m)
            | .ok d => m.answer d b) (b, m)
          (b.frame, m)

end MemorySlave

end Fieldbus.Simulation
