import Fieldbus.Bytes
import Fieldbus.Layout
import Fieldbus.Mailbox.Protocol

/-!
# Mailbox messages

The six bytes of a header are the payload length, a station address, a byte with the channel in
its low six bits and the priority above them, and a byte with the protocol in its low four bits and
the sequence counter in the three above them. The top bit is reserved.
-/

namespace Fieldbus

structure MessageHeader where
  length : UInt16
  address : UInt16
  channel : UInt8
  priority : UInt8
  protocol : Protocol
  /-- Zero stands for a message outside any sequence. -/
  counter : UInt8
  deriving DecidableEq, Repr

namespace MessageHeader

def plain (protocol : Protocol) (address : UInt16) (length : UInt16) : MessageHeader :=
  ⟨length, address, 0, 0, protocol, 0⟩

/-- Fields that are too large lose their high bits. -/
def encode (h : MessageHeader) : Bytes :=
  Bytes.encodeWord h.length ++ Bytes.encodeWord h.address ++
    [UInt8.ofNat (h.channel.toNat % 64 + 64 * (h.priority.toNat % 4)),
      UInt8.ofNat (h.protocol.toByte.toNat + 16 * (h.counter.toNat % 8))]

def encodeInto (h : MessageHeader) (buffer : Bytes) : Except Error Bytes :=
  Bytes.store buffer h.encode

def decode? : Bytes → Except Error MessageHeader
  | l₀ :: l₁ :: a₀ :: a₁ :: channel :: kind :: _ => do
      let protocol ← Protocol.ofByte? (UInt8.ofNat (kind.toNat % 16))
      return {
        length := Bytes.decodeWord l₀ l₁
        address := Bytes.decodeWord a₀ a₁
        channel := UInt8.ofNat (channel.toNat % 64)
        priority := UInt8.ofNat (channel.toNat / 64)
        protocol
        counter := UInt8.ofNat (kind.toNat / 16 % 8) }
  | _ => .error (.malformed .messageTruncated)

def stamp (counter : UInt8) : Bytes → Bytes
  | b₀ :: b₁ :: b₂ :: b₃ :: b₄ :: kind :: rest =>
      [b₀, b₁, b₂, b₃, b₄, UInt8.ofNat
        (kind.toNat % 16 + 16 * (counter.toNat % 8) + 128 * (kind.toNat / 128))] ++ rest
  | short => short

@[simp] theorem length_encode (h : MessageHeader) : h.encode.length = 6 := rfl

theorem decode?_encode {h : MessageHeader} (rest : Bytes) (channel : h.channel.toNat < 64)
    (priority : h.priority.toNat < 4) (counter : h.counter.toNat < 8) :
    decode? (h.encode ++ rest) = .ok h := by
  obtain ⟨length, address, c, p, protocol, n⟩ := h
  simp only at channel priority counter
  have kind : protocol.toByte.toNat < 16 := by
    cases protocol <;> decide
  have routing : (UInt8.ofNat (c.toNat % 64 + 64 * (p.toNat % 4))).toNat =
      c.toNat + 64 * p.toNat := by
    rw [UInt8.toNat_ofNat']
    omega
  have sequence : (UInt8.ofNat (protocol.toByte.toNat + 16 * (n.toNat % 8))).toNat =
      protocol.toByte.toNat + 16 * n.toNat := by
    rw [UInt8.toNat_ofNat']
    omega
  have first : (c.toNat + 64 * p.toNat) % 64 = c.toNat := by omega
  have second : (c.toNat + 64 * p.toNat) / 64 = p.toNat := by omega
  have low : (protocol.toByte.toNat + 16 * n.toNat) % 16 = protocol.toByte.toNat := by omega
  have high : (protocol.toByte.toNat + 16 * n.toNat) / 16 % 8 = n.toNat := by omega
  simp only [encode, Bytes.encodeWord, List.cons_append, List.nil_append, decode?, routing,
    sequence, first, second, low, high, UInt8.ofNat_toNat, Protocol.ofByte?_toByte,
    Bytes.decodeWord_encodeWord]
  rfl

end MessageHeader

structure Message where
  header : MessageHeader
  payload : Bytes
  deriving DecidableEq, Repr

namespace Message

def maxPayload : Nat := 65535

def encode (m : Message) : Bytes := m.header.encode ++ m.payload

/-- Writes a header that announces `payload`, and the payload, to the start of a buffer. Returns
the length of the message beside the buffer. -/
def encodeInto (buffer : Bytes) (header : MessageHeader) (payload : Bytes) :
    Except Error (Nat × Bytes) :=
  let message : Message := ⟨{ header with length := UInt16.ofNat payload.length }, payload⟩
  if payload.length > maxPayload then
    .error (.capacity message.encode.length buffer.length)
  else do
    return (message.encode.length, ← Bytes.store buffer message.encode)

/-- Reads the message at the start of `bytes`; what follows it does not matter. -/
def decode? (bytes : Bytes) : Except Error Message := do
  let header ← MessageHeader.decode? bytes
  let rest := bytes.drop Layout.mailboxHeader
  if rest.length < header.length.toNat then
    .error (.malformed .messageTruncated)
  return ⟨header, rest.take header.length.toNat⟩

def isError (m : Message) : Bool := m.header.protocol == .error

end Message

/-- The counter stamped on outgoing messages: 1 to 7 and then 1 again, never 0. -/
structure SequenceCounter where
  /-- The value stamped last, 0 before the first. -/
  last : UInt8 := 0
  deriving DecidableEq, Repr

namespace SequenceCounter

def unsequenced : UInt8 := 0

def maximum : UInt8 := 7

def next (c : SequenceCounter) : SequenceCounter :=
  ⟨if c.last ≥ maximum then 1 else c.last + 1⟩

def matchesLast (c : SequenceCounter) (counter : UInt8) : Bool :=
  counter != unsequenced && counter == c.last

end SequenceCounter

end Fieldbus
