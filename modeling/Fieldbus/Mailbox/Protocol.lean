import Fieldbus.Error

/-!
# Mailbox protocols

The low four bits of a mailbox header name one of seven protocols. A slave announces the ones it
implements as a set of bits. Error replies need no bit, since every mailbox sends them.
-/

namespace Fieldbus

inductive Protocol where
  | error
  | aoe
  | eoe
  | coe
  | foe
  | soe
  | voe
  deriving DecidableEq, Repr

namespace Protocol

def all : List Protocol := [.error, .aoe, .eoe, .coe, .foe, .soe, .voe]

/-- Error replies first and bulk transfers last. -/
def defaultPriority : List Protocol := [.error, .coe, .soe, .foe, .aoe, .eoe, .voe]

def toByte : Protocol → UInt8
  | .error => 0
  | .aoe => 1
  | .eoe => 2
  | .coe => 3
  | .foe => 4
  | .soe => 5
  | .voe => 15

def ofByte? : UInt8 → Except Error Protocol
  | 0 => .ok .error
  | 1 => .ok .aoe
  | 2 => .ok .eoe
  | 3 => .ok .coe
  | 4 => .ok .foe
  | 5 => .ok .soe
  | 15 => .ok .voe
  | _ => .error (.malformed .protocol)

def slot : Protocol → Fin 7
  | .error => 0
  | .aoe => 1
  | .eoe => 2
  | .coe => 3
  | .foe => 4
  | .soe => 5
  | .voe => 6

def text : Protocol → String
  | .error => "ERR"
  | .aoe => "AoE"
  | .eoe => "EoE"
  | .coe => "CoE"
  | .foe => "FoE"
  | .soe => "SoE"
  | .voe => "VoE"

def flag? : Protocol → Option UInt16
  | .error => none
  | .aoe => some 0x01
  | .eoe => some 0x02
  | .coe => some 0x04
  | .foe => some 0x08
  | .soe => some 0x10
  | .voe => some 0x20

theorem ofByte?_toByte (p : Protocol) : ofByte? p.toByte = .ok p := by
  cases p <;> rfl

theorem mem_all (p : Protocol) : p ∈ all := by
  cases p <;> decide

theorem slot_inj {p q : Protocol} : p.slot = q.slot ↔ p = q := by
  cases p <;> cases q <;> decide

end Protocol

structure ProtocolSet where
  bits : UInt16
  deriving DecidableEq, Repr

namespace ProtocolSet

def mask : UInt16 := 0x3F

def ofBits (bits : UInt16) : ProtocolSet := ⟨bits &&& mask⟩

def none : ProtocolSet := ⟨0⟩

def all : ProtocolSet := ⟨mask⟩

def union (s t : ProtocolSet) : ProtocolSet := ⟨s.bits ||| t.bits⟩

def contains (s t : ProtocolSet) : Bool := s.bits &&& t.bits == t.bits

def supports (s : ProtocolSet) (p : Protocol) : Bool :=
  match p.flag? with
  | .none => true
  | some flag => s.contains ⟨flag⟩

end ProtocolSet

end Fieldbus
