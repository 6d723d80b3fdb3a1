import Fieldbus.Engine.Receive
import Fieldbus.Engine.Transmit
import Fieldbus.Simulation.Filter
import Fieldbus.Simulation.Memory
import Fieldbus.Simulation.Port
import Fieldbus.Simulation.Script

/-!
# A rig for engines

An engine sends through a scripted port and a filter. The script answers the frames that were sent
and takes buffers out of the pool of the engine.
-/

namespace Fieldbus.Simulation

structure Rig where
  engine : Engine
  port : ScriptedPort
  filter : PatchFilter := {}
  taken : List Buffer := []

namespace Rig

def setEngine (engine : Engine) (s : Rig) : Rig := { s with engine }

def work {α : Type} (f : Engine → α × Engine) : Step Rig α := do
  Step.keep setEngine (f (← get).engine)

def transmit (now : Nat) : Step Rig (Except Error Nat) := do
  let s ← get
  let sending := s.engine.transmit s.port s.filter now
  set { s with engine := sending.engine, port := sending.port, filter := sending.filter }
  return sending.result

def answer (frame : Nat) (answering : Answering) : Step Rig (Except Error Nat) := do
  let bytes ← Step.found "frame" (← get).port.sent[frame]?
  work fun e => e.receive (answering.apply bytes)

def take : Step Rig Buffer := do
  let s ← get
  let (b, pool) ← Step.need s.engine.pool.take?
  set { s with engine := { s.engine with pool }, taken := b :: s.taken }
  return b

def putBack : Step Rig Bool := do
  let s ← get
  match s.taken with
  | [] => return false
  | b :: taken =>
      set { s with engine := { s.engine with pool := s.engine.pool.put b }, taken }
      return true

end Rig

end Fieldbus.Simulation
