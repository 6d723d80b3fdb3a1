import Fieldbus.Bytes
import Fieldbus.Hex

/-!
# Hardware addresses

An address is written as six parts of two characters, cut at colons. Reading also takes hyphens,
in any mixture, and a part may be a plus sign and one digit.
-/

namespace Fieldbus

structure MacAddress where
  octets : Vector UInt8 6
  deriving DecidableEq, Repr

namespace MacAddress

def ofOctets (a b c d e f : UInt8) : MacAddress := ⟨#v[a, b, c, d, e, f]⟩

def broadcast : MacAddress := ⟨Vector.replicate 6 0xFF⟩

def zero : MacAddress := ⟨Vector.replicate 6 0⟩

def isBroadcast (m : MacAddress) : Bool := m == broadcast

def bytes (m : MacAddress) : Bytes := m.octets.toList

def ofBytes? : Bytes → Option MacAddress
  | [a, b, c, d, e, f] => some (ofOctets a b c d e f)
  | _ => none

@[simp] theorem length_bytes (m : MacAddress) : m.bytes.length = 6 := by
  simp [bytes]

theorem ofBytes?_bytes (m : MacAddress) : ofBytes? m.bytes = some m := by
  obtain ⟨⟨octets, size⟩⟩ := m
  obtain ⟨list⟩ := octets
  match list, size with
  | [a, b, c, d, e, f], _ => rfl

def text (m : MacAddress) : String :=
  ":".intercalate (m.bytes.map fun b => String.ofList (Hex.digits b))

def debugText (m : MacAddress) : String := "MacAddress(" ++ m.text ++ ")"

/-! ## Reading -/

def isSeparator (c : Char) : Bool := c == ':' || c == '-'

/-- The pieces between separators, one more than there are separators. -/
def parts : List Char → List (List Char)
  | [] => [[]]
  | c :: rest =>
      if isSeparator c then [] :: parts rest
      else match parts rest with
        | [] => [[c]]
        | part :: others => (c :: part) :: others

/-- A hexadecimal number below 256, which may follow a plus sign. -/
def octet? (chars : List Char) : Option UInt8 :=
  let digits := match chars with
    | '+' :: rest => rest
    | _ => chars
  if digits.isEmpty then none
  else match Hex.number? 0 digits with
    | some n => if n < 256 then some (UInt8.ofNat n) else none
    | none => none

def utf8Length (chars : List Char) : Nat := chars.foldl (fun n c => n + c.utf8Size) 0

/-- One part of an address: two bytes of text that spell a number. -/
def part? (chars : List Char) : Option UInt8 :=
  if utf8Length chars = 2 then octet? chars else none

def parse? (text : String) : Option MacAddress :=
  ((parts text.toList).mapM part?).bind ofBytes?

def refusal (text : String) : String := "invalid MAC address: " ++ text

structure Unreadable where
  text : String
  deriving DecidableEq, Repr

def Unreadable.message (e : Unreadable) : String := refusal e.text

def read (text : String) : Except Unreadable MacAddress :=
  match parse? text with
  | none => .error ⟨text⟩
  | some m => .ok m

end MacAddress

end Fieldbus
