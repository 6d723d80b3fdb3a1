import Fieldbus.Frame.Basic

/-!
# Building frames

A builder fills a buffer with one frame. Each datagram clears its own more flag and sets that of
the datagram before it, and the frame header is written anew, so the buffer holds a complete frame
after every step.
-/

namespace Fieldbus

structure FrameBuilder where
  buffer : Bytes
  mtu : Nat
  length : Nat
  last : Option Nat
  count : Nat
  deriving DecidableEq, Repr

namespace FrameBuilder

def sealed (b : FrameBuilder) : FrameBuilder :=
  let header : FrameHeader := ⟨UInt16.ofNat (b.length - Frame.headerLength), FrameHeader.datagrams⟩
  { b with buffer := b.buffer.overwrite Layout.ethernetHeader (Bytes.encodeWord header.toWord) }

/-- Starts a frame without datagrams. The room reported when there is none is a word, so it wraps
for the largest payload sizes. -/
def create? (buffer : Bytes) (mtu : Nat) (destination source : MacAddress) :
    Except Error FrameBuilder :=
  if buffer.length < Frame.headerLength ∨ mtu < Layout.frameHeader then
    .error (.capacity Frame.headerLength
      (min buffer.length ((mtu + Layout.ethernetHeader) % Layout.wordCount)))
  else do
    let header : EthernetHeader := { destination, source }
    let buffer ← header.encodeInto buffer
    return (FrameBuilder.mk buffer mtu Frame.headerLength none 0).sealed

def remaining (b : FrameBuilder) : Nat :=
  min (b.mtu - (b.length - Layout.ethernetHeader)) (b.buffer.length - b.length)

/-- Whether a datagram with a payload of `n` bytes has room. Its size is a word. -/
def fits (b : FrameBuilder) (n : Nat) : Bool :=
  (Layout.datagramHeader + n + Layout.workCounter) % Layout.wordCount ≤ b.remaining

def setMoreAt (b : FrameBuilder) (offset : Nat) (more : Bool) : FrameBuilder :=
  { b with
    buffer := b.buffer.take offset ++ DatagramHeader.setMore more (b.buffer.drop offset) }

/-- Takes the `size` bytes after the frame as its next datagram. -/
def link (b : FrameBuilder) (size : Nat) : FrameBuilder :=
  let offset := b.length
  let b := match b.last with
    | none => b
    | some previous => b.setMoreAt previous true
  let b := b.setMoreAt offset false
  { b with last := some offset, length := offset + size, count := b.count + 1 }.sealed

def place (b : FrameBuilder) (datagram : Bytes) : FrameBuilder :=
  { b with buffer := b.buffer.overwrite b.length datagram }.link datagram.length

def reserve (b : FrameBuilder) (required : Nat) : Except Error Unit :=
  if required > b.remaining then .error (.capacity required b.remaining) else .ok ()

/-- Appends a request and returns where its payload begins in the frame. -/
def add (b : FrameBuilder) (command : Command) (index : UInt8) (address : Address)
    (payload : Bytes) : Except Error (Nat × FrameBuilder) := do
  b.reserve (Layout.datagramHeader + payload.length + Layout.workCounter)
  let (size, rest) ← Datagram.encodeInto (b.buffer.drop b.length) command index address payload
  return (b.length + Layout.datagramHeader,
    { b with buffer := b.buffer.take b.length ++ rest }.link size)

def append (b : FrameBuilder) (bytes : Bytes) : Except Error FrameBuilder := do
  let header ← DatagramHeader.decode? bytes
  let size := header.datagramLength
  if bytes.length < size then
    .error (.malformed .datagramTruncated)
  b.reserve size
  return b.place (bytes.take size)

def setWorkCounter (b : FrameBuilder) (counter : UInt16) : FrameBuilder :=
  match b.last with
  | none => b
  | some _ => { b with
      buffer := b.buffer.overwrite (b.length - Layout.workCounter) (Bytes.encodeWord counter) }

def isEmpty (b : FrameBuilder) : Bool := b.count == 0

def frame (b : FrameBuilder) : Bytes := b.buffer.take b.length

end FrameBuilder

end Fieldbus
