import Fieldbus.Layout

/-!
# Leases of datagram indices

One bit for each of the 256 indices says whether it is leased. A search begins after the index
leased last and goes round once, so an index that is given back stays out of use for as long as
the others last.
-/

namespace Fieldbus

structure Leases where
  used : BitVec 256
  /-- Where the next search begins. -/
  start : UInt8
  count : Nat
  deriving DecidableEq, Repr

namespace Leases

def startingAt (start : UInt8) : Leases := ⟨0, start, 0⟩

def isLeased (l : Leases) (index : UInt8) : Bool := l.used.getLsbD index.toNat

def bit (index : Nat) : BitVec 256 := 1#256 <<< index

def ahead (l : Leases) : BitVec 256 := ~~~l.used &&& (BitVec.allOnes 256 <<< l.start.toNat)

/-- The free indices among which the next lease is the lowest. -/
def candidates (l : Leases) : BitVec 256 := if l.ahead = 0#256 then ~~~l.used else l.ahead

def lease? (l : Leases) : Option (UInt8 × Leases) :=
  if l.count = Layout.indexCount then none
  else if l.candidates = 0#256 then none
  else
    let index := l.candidates.ctz.toNat
    some (UInt8.ofNat index,
      ⟨l.used ||| bit index, UInt8.ofNat (index + 1), l.count + 1⟩)

/-- Gives an index back. The answer says whether it was leased. -/
def release (l : Leases) (index : UInt8) : Bool × Leases :=
  if l.isLeased index then
    (true, { l with used := l.used &&& ~~~bit index.toNat, count := l.count - 1 })
  else
    (false, l)

def available (l : Leases) : Nat := Layout.indexCount - l.count

def indices : List UInt8 := (List.range Layout.indexCount).map UInt8.ofNat

def leased (l : Leases) : List UInt8 := indices.filter l.isLeased

end Leases

end Fieldbus
