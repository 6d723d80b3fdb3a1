import Fieldbus.Error

/-!
# Byte strings

Words lie on the wire with their least significant byte first.
-/

namespace Fieldbus

abbrev Bytes := List UInt8

namespace Bytes

def zeros (n : Nat) : Bytes := List.replicate n 0

/-- Puts `patch` in place of the bytes from `offset` on. -/
def overwrite (bytes : Bytes) (offset : Nat) (patch : Bytes) : Bytes :=
  bytes.take offset ++ patch ++ bytes.drop (offset + patch.length)

/-- Puts `patch` at the start of `bytes`, which must be long enough to hold it. -/
def store (bytes patch : Bytes) : Except Error Bytes :=
  if bytes.length < patch.length then
    .error (.capacity patch.length bytes.length)
  else
    .ok (overwrite bytes 0 patch)

def encodeWord (w : UInt16) : Bytes :=
  [UInt8.ofNat w.toNat, UInt8.ofNat (w.toNat / 256)]

def decodeWord (b₀ b₁ : UInt8) : UInt16 :=
  UInt16.ofNat (b₀.toNat + 256 * b₁.toNat)

def encodeLong (w : UInt32) : Bytes :=
  [UInt8.ofNat w.toNat, UInt8.ofNat (w.toNat / 256), UInt8.ofNat (w.toNat / 65536),
    UInt8.ofNat (w.toNat / 16777216)]

def decodeLong (b₀ b₁ b₂ b₃ : UInt8) : UInt32 :=
  UInt32.ofNat (b₀.toNat + 256 * b₁.toNat + 65536 * b₂.toNat + 16777216 * b₃.toNat)

@[simp] theorem length_zeros (n : Nat) : (zeros n).length = n := by
  simp [zeros]

theorem length_overwrite {bytes patch : Bytes} {offset : Nat}
    (h : offset + patch.length ≤ bytes.length) :
    (overwrite bytes offset patch).length = bytes.length := by
  simp [overwrite]
  omega

theorem overwrite_zero (bytes patch : Bytes) :
    overwrite bytes 0 patch = patch ++ bytes.drop patch.length := by
  simp [overwrite]

theorem store_eq_ok_iff {bytes patch result : Bytes} :
    store bytes patch = .ok result ↔
      patch.length ≤ bytes.length ∧ result = patch ++ bytes.drop patch.length := by
  unfold store
  split
  · rename_i short
    simp
    omega
  · rename_i long
    rw [Except.ok.injEq, overwrite_zero]
    constructor
    · intro h
      exact ⟨by omega, h.symm⟩
    · intro h
      exact h.2.symm

@[simp] theorem length_encodeWord (w : UInt16) : (encodeWord w).length = 2 := rfl

@[simp] theorem length_encodeLong (w : UInt32) : (encodeLong w).length = 4 := rfl

theorem decodeWord_encodeWord (w : UInt16) :
    decodeWord (UInt8.ofNat w.toNat) (UInt8.ofNat (w.toNat / 256)) = w := by
  apply UInt16.toNat_inj.mp
  have := w.toNat_lt
  simp [decodeWord]
  omega

theorem decodeLong_encodeLong (w : UInt32) :
    decodeLong (UInt8.ofNat w.toNat) (UInt8.ofNat (w.toNat / 256))
      (UInt8.ofNat (w.toNat / 65536)) (UInt8.ofNat (w.toNat / 16777216)) = w := by
  apply UInt32.toNat_inj.mp
  have := w.toNat_lt
  simp [decodeLong]
  omega

end Bytes

end Fieldbus
