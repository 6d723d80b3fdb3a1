import Fieldbus.Bytes
import Fieldbus.Layout
import Fieldbus.MacAddress

/-!
# Frame headers

A frame opens with an Ethernet header, whose type stands most significant byte first. The frame
header after it is one word: the size of all datagrams in the low eleven bits and the frame type
in the high four.
-/

namespace Fieldbus

structure EthernetHeader where
  destination : MacAddress
  source : MacAddress
  etherType : UInt16 := Layout.etherType
  deriving DecidableEq, Repr

namespace EthernetHeader

def encode (h : EthernetHeader) : Bytes :=
  h.destination.bytes ++ h.source.bytes ++ (Bytes.encodeWord h.etherType).reverse

def encodeInto (h : EthernetHeader) (buffer : Bytes) : Except Error Bytes :=
  Bytes.store buffer h.encode

def decode? : Bytes → Except Error EthernetHeader
  | d₀ :: d₁ :: d₂ :: d₃ :: d₄ :: d₅ :: s₀ :: s₁ :: s₂ :: s₃ :: s₄ :: s₅ :: t₀ :: t₁ :: _ =>
      .ok ⟨.ofOctets d₀ d₁ d₂ d₃ d₄ d₅, .ofOctets s₀ s₁ s₂ s₃ s₄ s₅, Bytes.decodeWord t₁ t₀⟩
  | _ => .error (.malformed .frameTooShort)

@[simp] theorem length_encode (h : EthernetHeader) : h.encode.length = 14 := by
  simp [encode, Bytes.encodeWord]

theorem decode?_encode (h : EthernetHeader) (rest : Bytes) :
    decode? (h.encode ++ rest) = .ok h := by
  obtain ⟨⟨⟨⟨d⟩, hd⟩⟩, ⟨⟨⟨s⟩, hs⟩⟩, type⟩ := h
  match d, hd, s, hs with
  | [d₀, d₁, d₂, d₃, d₄, d₅], _, [s₀, s₁, s₂, s₃, s₄, s₅], _ =>
    simp only [encode, MacAddress.bytes, Bytes.encodeWord, Vector.toList_mk,
      List.reverse_cons, List.reverse_nil, List.nil_append, List.cons_append, decode?,
      Bytes.decodeWord_encodeWord, MacAddress.ofOctets]

end EthernetHeader

structure FrameHeader where
  /-- The size of all datagrams. -/
  length : UInt16
  type : UInt8
  deriving DecidableEq, Repr

namespace FrameHeader

def datagrams : UInt8 := 1

/-- Lengths and types that are too large lose their high bits. -/
def toWord (h : FrameHeader) : UInt16 :=
  UInt16.ofNat (h.length.toNat % 2048 + 4096 * (h.type.toNat % 16))

def ofWord (word : UInt16) : FrameHeader :=
  ⟨UInt16.ofNat (word.toNat % 2048), UInt8.ofNat (word.toNat / 4096)⟩

theorem ofWord_toWord {h : FrameHeader} (length : h.length.toNat < 2048)
    (type : h.type.toNat < 16) : ofWord h.toWord = h := by
  have word : h.toWord.toNat = h.length.toNat + 4096 * h.type.toNat := by
    rw [toWord, UInt16.toNat_ofNat']
    omega
  have size : (h.length.toNat + 4096 * h.type.toNat) % 2048 = h.length.toNat := by omega
  have kind : (h.length.toNat + 4096 * h.type.toNat) / 4096 = h.type.toNat := by omega
  rw [ofWord, word, size, kind, UInt16.ofNat_toNat, UInt8.ofNat_toNat]

end FrameHeader

end Fieldbus
