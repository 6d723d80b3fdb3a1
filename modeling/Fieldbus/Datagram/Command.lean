import Fieldbus.Error

/-!
# Commands and addresses of datagrams

Three commands address the logical process image; the others name a slave and a place in its
memory. Both forms of address fill one word of 32 bits.
-/

namespace Fieldbus

inductive Command where
  | nop
  | aprd
  | apwr
  | aprw
  | fprd
  | fpwr
  | fprw
  | brd
  | bwr
  | brw
  | lrd
  | lwr
  | lrw
  | armw
  | frmw
  deriving DecidableEq, Repr

namespace Command

def toByte : Command → UInt8
  | .nop => 0
  | .aprd => 1
  | .apwr => 2
  | .aprw => 3
  | .fprd => 4
  | .fpwr => 5
  | .fprw => 6
  | .brd => 7
  | .bwr => 8
  | .brw => 9
  | .lrd => 10
  | .lwr => 11
  | .lrw => 12
  | .armw => 13
  | .frmw => 14

def ofByte? : UInt8 → Except Error Command
  | 0 => .ok .nop
  | 1 => .ok .aprd
  | 2 => .ok .apwr
  | 3 => .ok .aprw
  | 4 => .ok .fprd
  | 5 => .ok .fpwr
  | 6 => .ok .fprw
  | 7 => .ok .brd
  | 8 => .ok .bwr
  | 9 => .ok .brw
  | 10 => .ok .lrd
  | 11 => .ok .lwr
  | 12 => .ok .lrw
  | 13 => .ok .armw
  | 14 => .ok .frmw
  | _ => .error (.malformed .command)

def text : Command → String
  | .nop => "Nop"
  | .aprd => "Aprd"
  | .apwr => "Apwr"
  | .aprw => "Aprw"
  | .fprd => "Fprd"
  | .fpwr => "Fpwr"
  | .fprw => "Fprw"
  | .brd => "Brd"
  | .bwr => "Bwr"
  | .brw => "Brw"
  | .lrd => "Lrd"
  | .lwr => "Lwr"
  | .lrw => "Lrw"
  | .armw => "Armw"
  | .frmw => "Frmw"

def isLogical : Command → Bool
  | .lrd | .lwr | .lrw => true
  | _ => false

theorem ofByte?_toByte (c : Command) : ofByte? c.toByte = .ok c := by
  cases c <;> rfl

end Command

inductive Address where
  /-- A slave, by position or by station address, and an offset in its memory. -/
  | physical (slave offset : UInt16)
  | logical (address : UInt32)
  deriving DecidableEq, Repr

namespace Address

/-- The slave is the low half of a physical address. -/
def toLong : Address → UInt32
  | .physical slave offset => UInt32.ofNat (slave.toNat + 65536 * offset.toNat)
  | .logical address => address

/-- The command decides which form of address a word holds. -/
def ofLong (command : Command) (word : UInt32) : Address :=
  if command.isLogical then .logical word
  else .physical (UInt16.ofNat word.toNat) (UInt16.ofNat (word.toNat / 65536))

end Address

end Fieldbus
