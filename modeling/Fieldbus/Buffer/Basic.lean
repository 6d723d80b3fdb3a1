import Fieldbus.Bytes

/-!
# Buffers

A buffer belongs to one pool, in which its index is its place. Its first bytes are valid, the rest
is left over from earlier use. A callback may be attached to it, which runs once.
-/

namespace Fieldbus

structure Buffer where
  /-- The pool that the buffer belongs to. -/
  pool : Nat
  index : Nat
  bytes : Bytes
  /-- The number of valid bytes. -/
  length : Nat
  /-- The name of the attached callback. -/
  callback : Option Nat
  deriving DecidableEq, Repr

/-- A callback that ran, and the buffer as it found it. -/
structure Firing where
  callback : Nat
  buffer : Buffer
  deriving DecidableEq, Repr

namespace Buffer

def fresh (pool index size : Nat) : Buffer := ⟨pool, index, Bytes.zeros size, 0, none⟩

def capacity (b : Buffer) : Nat := b.bytes.length

def isEmpty (b : Buffer) : Bool := b.length == 0

def contents (b : Buffer) : Bytes := b.bytes.take b.length

/-- Declares the first `n` bytes valid, or all there are. -/
def withLength (b : Buffer) (n : Nat) : Buffer := { b with length := min n b.capacity }

def fill (b : Buffer) (bytes : Bytes) : Except Error Buffer := do
  return { b with bytes := ← Bytes.store b.bytes bytes, length := bytes.length }

def reset (b : Buffer) : Buffer :=
  { b with bytes := Bytes.zeros b.capacity, length := 0, callback := none }

/-- Makes the buffer ready for its next use. The bytes stay. -/
def retire (b : Buffer) : Buffer := { b with length := 0, callback := none }

/-- Runs the callback, which is no longer attached when it runs. -/
def fire (b : Buffer) : List Firing × Buffer :=
  match b.callback with
  | none => ([], b)
  | some callback =>
      let b := { b with callback := none }
      ([⟨callback, b⟩], b)

end Buffer

end Fieldbus
