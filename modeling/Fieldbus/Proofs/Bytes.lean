import Mathlib.Data.Nat.Bitwise
import Fieldbus.Bytes

/-!
# Words in byte strings

What is read as a word is written back as the same bytes. A word can be changed in its place, and
masks that keep some of its bits are quotients and remainders of powers of two.
-/

namespace Fieldbus

namespace Bytes

theorem encodeWord_decodeWord (b₀ b₁ : UInt8) : encodeWord (decodeWord b₀ b₁) = [b₀, b₁] := by
  have low := b₀.toNat_lt
  have high := b₁.toNat_lt
  have word : (decodeWord b₀ b₁).toNat = b₀.toNat + 256 * b₁.toNat := by
    rw [decodeWord, UInt16.toNat_ofNat']
    omega
  simp only [encodeWord, word, List.cons.injEq, ← UInt8.toNat_inj, UInt8.toNat_ofNat',
    and_true]
  omega

theorem encodeLong_decodeLong (b₀ b₁ b₂ b₃ : UInt8) :
    encodeLong (decodeLong b₀ b₁ b₂ b₃) = [b₀, b₁, b₂, b₃] := by
  have := b₀.toNat_lt
  have := b₁.toNat_lt
  have := b₂.toNat_lt
  have := b₃.toNat_lt
  have long : (decodeLong b₀ b₁ b₂ b₃).toNat =
      b₀.toNat + 256 * b₁.toNat + 65536 * b₂.toNat + 16777216 * b₃.toNat := by
    rw [decodeLong, UInt32.toNat_ofNat']
    omega
  simp only [encodeLong, long, List.cons.injEq, ← UInt8.toNat_inj, UInt8.toNat_ofNat', and_true]
  omega

theorem store_append {bytes patch : Bytes} {n : Nat} (length : patch.length = n)
    (room : n ≤ bytes.length) :
    bytes.store patch = .ok (patch ++ bytes.drop n) ∧
      (patch ++ bytes.drop n).length = bytes.length ∧
      (patch ++ bytes.drop n).drop n = bytes.drop n := by
  refine ⟨store_eq_ok_iff.mpr ⟨length ▸ room, by rw [length]⟩, ?_, List.drop_left' length⟩
  rw [List.length_append, length, List.length_drop, Nat.add_sub_cancel' room]

def word? (bytes : Bytes) (offset : Nat) : Option UInt16 :=
  match bytes.drop offset with
  | b₀ :: b₁ :: _ => some (decodeWord b₀ b₁)
  | _ => none

def modifyWord (bytes : Bytes) (offset : Nat) (change : UInt16 → UInt16) : Bytes :=
  match bytes.word? offset with
  | some word => bytes.overwrite offset (encodeWord (change word))
  | none => bytes

/-- A mask with a gap below bit `w`. -/
theorem and_gap (n k : Nat) {v w : Nat} (below : v ≤ w) :
    n &&& (2 ^ w * (2 ^ k - 1) + (2 ^ v - 1)) = 2 ^ w * (n / 2 ^ w % 2 ^ k) + n % 2 ^ v := by
  have small : 2 ^ v - 1 < 2 ^ w :=
    Nat.lt_of_lt_of_le (Nat.sub_lt (Nat.two_pow_pos v) Nat.one_pos)
      (Nat.pow_le_pow_right (by decide) below)
  have high : (2 ^ w * (2 ^ k - 1) + (2 ^ v - 1)) / 2 ^ w = 2 ^ k - 1 := by
    rw [Nat.mul_add_div (Nat.two_pow_pos w), Nat.div_eq_of_lt small, Nat.add_zero]
  have low : (2 ^ w * (2 ^ k - 1) + (2 ^ v - 1)) % 2 ^ w = 2 ^ v - 1 := by
    rw [Nat.mul_add_mod, Nat.mod_eq_of_lt small]
  conv_lhs => rw [← Nat.div_add_mod (n &&& _) (2 ^ w)]
  rw [Nat.and_div_two_pow, Nat.and_mod_two_pow, high, low, Nat.and_two_pow_sub_one_eq_mod,
    Nat.and_two_pow_sub_one_eq_mod, Nat.mod_mod_of_dvd _ (Nat.pow_dvd_pow 2 below)]

end Bytes

end Fieldbus
