import Fieldbus.Master
import Fieldbus.Simulation.Filter
import Fieldbus.Simulation.Memory
import Fieldbus.Simulation.Port
import Fieldbus.Simulation.Script

/-!
# A station for masters

A master has one end of a pair of ports and the script has the other, the bus. The clock of the
script is the clock of the master unless the master has its own, which then stands still.
-/

namespace Fieldbus.Simulation

structure Station where
  master : Master PairedPort (Option PatchFilter)
  present : Bool := true
  clock : Clock := {}
  clocked : Bool
  /-- Frames taken from the bus, oldest first. -/
  seen : List Bytes := []

namespace Station

def setMaster (master : Master PairedPort (Option PatchFilter)) (s : Station) : Station :=
  { s with master }

def bus (s : Station) : Loopback := s.master.port.pair.flip

def setBus (bus : Loopback) (s : Station) : Station :=
  { s with master := { s.master with port := { s.master.port with pair := bus.flip } } }

/-! ## The master -/

def running : Step Station (Master PairedPort (Option PatchFilter)) := do
  let s ← get
  Step.found "master" (if s.present then some s.master else none)

def work {α : Type} (f : Master PairedPort (Option PatchFilter) →
    α × Master PairedPort (Option PatchFilter)) : Step Station α := do
  Step.keep setMaster (f (← running))

def cancel (index : UInt8) : Step Station Bool :=
  work fun m =>
    let (found, engine) := m.engine.cancel index
    (found, { m with engine })

/-- Polls until the filter has seen a frame sent, for at most `fuel` cycles, or not at all if a stop
was requested before. Returns whether the request to stop still stands. -/
def pollUntilSend (stopped : Bool) (fuel : Nat) : Step Station Bool :=
  work fun m =>
    let filter := m.filter.map fun f => { f with sawSend := false }
    let m := { m with stopRequested := stopped, filter }
    let m := m.pollUntil (fun filter => filter.any PatchFilter.sawSend) fuel
    (m.stopRequested, m)

def write (position : UInt16) (p : Except Error Protocol) (payload : Bytes) :
    Step Station (Except Error UInt16) := do
  let m ← running
  let mailbox ← Step.need (m.mailbox position)
  let (result, mailbox) := mailbox.write (← Step.need p) 0 payload
  Step.keep setMaster (result, m.setMailbox position mailbox)

def close : Step Station (Except Error Unit) := do
  let result ← work fun m => m.close
  modify fun s => { setBus s.master.port.pair.detach.flip s with present := false }
  return result

/-! ## The bus -/

def onBus {α : Type} (f : Loopback → α × Loopback) : Step Station α := do
  let bus := (← get).bus
  if bus.near.attached then Step.keep setBus (f bus) else throw (.missing "bus")

def receive : Step Station (List Bytes) := do
  let frames ← onBus Loopback.takeFrames
  modify fun s => { s with seen := s.seen ++ frames }
  return frames

def send (frame : Bytes) : Step Station (Except Fault Nat) := do
  let result ← onBus (Loopback.sendFrame frame)
  return result.map fun _ => frame.length

def answer (frame : Nat) (answering : Answering) : Step Station (Except Fault Nat) := do
  discard (onBus fun bus => ((), bus))
  send (answering.apply (← Step.found "frame" (← get).seen[frame]?))

def dropBus : Step Station Bool := do
  let s ← get
  set (setBus s.bus.detach s)
  return s.bus.near.attached

/-! ## What the script keeps -/

def advance (step : Nat) : Step Station Nat := do
  let s ← get
  let clock := s.clock.advance step
  set { s with clock, master := if s.clocked then s.master.advance step else s.master }
  return clock.now

def setFilter (filter : PatchFilter) : Step Station Unit :=
  modify fun s =>
    setMaster { s.master with filter := s.master.filter.map fun _ => filter } s

end Station

end Fieldbus.Simulation
