import Fieldbus.Bytes
import Fieldbus.Layout
import Fieldbus.Datagram.Command

/-!
# Datagram headers

The ten bytes of a header are the command, the index, the address, a word with the payload length
in its low eleven bits, the circulating flag in bit 14 and the more flag in bit 15, and a word of
interrupt requests.
-/

namespace Fieldbus

structure DatagramHeader where
  command : Command
  /-- Carried back by the answer, which it ties to the request. -/
  index : UInt8
  address : UInt32
  length : UInt16
  circulating : Bool
  /-- Another datagram follows in the same frame. -/
  more : Bool
  interrupt : UInt16
  deriving DecidableEq, Repr

namespace DatagramHeader

def request (command : Command) (index : UInt8) (address : Address) (length : UInt16) :
    DatagramHeader :=
  ⟨command, index, address.toLong, length, false, false, 0⟩

def datagramLength (h : DatagramHeader) : Nat :=
  Layout.datagramHeader + h.length.toNat + Layout.workCounter

/-- Longer lengths lose their high bits. -/
def lengthWord (h : DatagramHeader) : UInt16 :=
  UInt16.ofNat (h.length.toNat % 2048 + (if h.circulating then 0x4000 else 0) +
    (if h.more then 0x8000 else 0))

def encode (h : DatagramHeader) : Bytes :=
  [h.command.toByte, h.index] ++ Bytes.encodeLong h.address ++ Bytes.encodeWord h.lengthWord ++
    Bytes.encodeWord h.interrupt

def encodeInto (h : DatagramHeader) (buffer : Bytes) : Except Error Bytes :=
  Bytes.store buffer h.encode

def decode? : Bytes → Except Error DatagramHeader
  | command :: index :: a₀ :: a₁ :: a₂ :: a₃ :: l₀ :: l₁ :: i₀ :: i₁ :: _ => do
      let command ← Command.ofByte? command
      let word := (Bytes.decodeWord l₀ l₁).toNat
      return {
        command
        index
        address := Bytes.decodeLong a₀ a₁ a₂ a₃
        length := UInt16.ofNat (word % 2048)
        circulating := word / 0x4000 % 2 == 1
        more := word / 0x8000 == 1
        interrupt := Bytes.decodeWord i₀ i₁ }
  | _ => .error (.malformed .datagramTruncated)

def setMore (more : Bool) : Bytes → Bytes
  | b₀ :: b₁ :: b₂ :: b₃ :: b₄ :: b₅ :: l₀ :: l₁ :: rest =>
      let word := (Bytes.decodeWord l₀ l₁).toNat % 0x8000 + if more then 0x8000 else 0
      [b₀, b₁, b₂, b₃, b₄, b₅] ++ Bytes.encodeWord (UInt16.ofNat word) ++ rest
  | short => short

@[simp] theorem length_encode (h : DatagramHeader) : h.encode.length = 10 := rfl

theorem lengthWord_toNat {h : DatagramHeader} (bound : h.length.toNat < 2048) :
    h.lengthWord.toNat = h.length.toNat + (if h.circulating then 0x4000 else 0) +
      (if h.more then 0x8000 else 0) := by
  unfold lengthWord
  rw [UInt16.toNat_ofNat']
  split <;> split <;> omega

theorem decode?_encode {h : DatagramHeader} (rest : Bytes) (bound : h.length.toNat < 2048) :
    decode? (h.encode ++ rest) = .ok h := by
  have word := lengthWord_toNat bound
  have length : UInt16.ofNat (h.lengthWord.toNat % 2048) = h.length := by
    rw [word, ← UInt16.toNat_inj, UInt16.toNat_ofNat']
    split <;> split <;> omega
  have circulating : (h.lengthWord.toNat / 0x4000 % 2 == 1) = h.circulating := by
    rw [word]
    cases h.circulating <;> cases h.more <;> simp <;> omega
  have more : (h.lengthWord.toNat / 0x8000 == 1) = h.more := by
    rw [word]
    cases h.circulating <;> cases h.more <;> simp <;> omega
  simp only [encode, Bytes.encodeLong, Bytes.encodeWord, List.cons_append, List.nil_append,
    decode?, Command.ofByte?_toByte, Bytes.decodeLong_encodeLong, Bytes.decodeWord_encodeWord]
  rw [length, circulating, more]
  rfl

end DatagramHeader

end Fieldbus
