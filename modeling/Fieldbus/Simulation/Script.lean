import Fieldbus.Error

/-!
# Scripts

A script works on some state, one step after the other. A step may be refused, and what it changed
before that stays changed; the script goes on with the next step. What a script holds meanwhile, it
knows by name.
-/

namespace Fieldbus.Simulation

inductive Refusal where
  | missing (what : String)
  | failed (cause : Error)
  | faulted (fault : Fault)
  deriving DecidableEq, Repr

abbrev Step (σ : Type) := ExceptT Refusal (StateM σ)

namespace Step

variable {σ τ α : Type}

def perform (step : Step σ α) (s : σ) : Except Refusal α × σ := (ExceptT.run step).run s

def need : Except Error α → Step σ α
  | .ok a => pure a
  | .error cause => throw (.failed cause)

def found (what : String) : Option α → Step σ α
  | some a => pure a
  | none => throw (.missing what)

/-- Keeps what an operation left and goes on with what it returned. -/
def keep (store : τ → σ → σ) (r : α × τ) : Step σ α := do
  modify (store r.2)
  return r.1

end Step

abbrev Shelf (α : Type) := List (String × α)

namespace Shelf

variable {α : Type}

def drop (s : Shelf α) (name : String) : Shelf α := s.filter fun entry => entry.1 != name

def put (s : Shelf α) (name : String) (a : α) : Shelf α := (name, a) :: s.drop name

end Shelf

end Fieldbus.Simulation
