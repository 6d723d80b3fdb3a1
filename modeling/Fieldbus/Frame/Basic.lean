import Fieldbus.Frame.Header
import Fieldbus.Datagram.Basic

/-!
# Received frames

Reading a frame checks its headers. What follows the announced datagrams is padding.
-/

namespace Fieldbus

structure Frame where
  ethernet : EthernetHeader
  header : FrameHeader
  region : Bytes
  deriving DecidableEq, Repr

namespace Frame

def headerLength : Nat := Layout.ethernetHeader + Layout.frameHeader

def parse? (bytes : Bytes) : Except Error Frame :=
  match bytes.drop Layout.ethernetHeader with
  | w₀ :: w₁ :: rest => do
      let ethernet ← EthernetHeader.decode? bytes
      if ethernet.etherType ≠ Layout.etherType then
        .error (.malformed .etherType)
      let header := FrameHeader.ofWord (Bytes.decodeWord w₀ w₁)
      if header.type ≠ FrameHeader.datagrams then
        .error (.malformed .frameType)
      if rest.length < header.length.toNat then
        .error (.malformed .datagramTruncated)
      return ⟨ethernet, header, rest.take header.length.toNat⟩
  | _ => .error (.malformed .frameTooShort)

def chain (f : Frame) : Chain := .ofRegion f.region

end Frame

end Fieldbus
