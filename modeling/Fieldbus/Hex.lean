/-!
# Hexadecimal text

A byte is written as two digits in lower case. Both cases are read.
-/

namespace Fieldbus.Hex

def digits (b : UInt8) : List Char :=
  [Nat.digitChar (b.toNat / 16), Nat.digitChar (b.toNat % 16)]

def digit? (c : Char) : Option Nat :=
  if '0' ≤ c ∧ c ≤ '9' then some (c.toNat - '0'.toNat)
  else if 'a' ≤ c ∧ c ≤ 'f' then some (c.toNat - 'a'.toNat + 10)
  else if 'A' ≤ c ∧ c ≤ 'F' then some (c.toNat - 'A'.toNat + 10)
  else none

/-- The number that digits spell, after a number that stands before them. -/
def number? (start : Nat) : List Char → Option Nat
  | [] => some start
  | c :: rest => do number? (16 * start + (← digit? c)) rest

def text (bytes : List UInt8) : String := String.ofList (bytes.flatMap digits)

def bytes? : List Char → Option (List UInt8)
  | [] => some []
  | a :: b :: rest => do
      let byte := 16 * (← digit? a) + (← digit? b)
      return UInt8.ofNat byte :: (← bytes? rest)
  | [_] => none

theorem digit?_digitChar : ∀ n < 16, digit? (Nat.digitChar n) = some n := by
  decide

end Fieldbus.Hex
