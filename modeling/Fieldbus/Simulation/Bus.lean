import Fieldbus.Engine.Access
import Fieldbus.Mailbox.Worker
import Fieldbus.Master
import Fieldbus.Port.Loopback
import Fieldbus.Simulation.Memory

/-!
# A bus with one slave

The engine sends through one end of a pair of ports, and a slave with memory sits at the other end.
Frames may be lost on the way, and then the engine gives the datagrams up.
-/

namespace Fieldbus.Simulation

/-- A frame on the bus and what came back, unless it was lost. -/
structure Exchange where
  sent : Bytes
  reply : Option Bytes
  deriving DecidableEq, Repr

structure Bus where
  engine : Engine
  port : Loopback
  slave : MemorySlave
  timeout : Nat
  lose : Nat := 0
  stalled : Bool := false
  exchanges : List Exchange := []

namespace Bus

def create (engine : Engine) (mtu : Nat) (slave : SlaveConfig) (timeout : Nat) : Bus where
  engine
  port := { mtu }
  slave := .ofConfig slave
  timeout

def exchange (b : Bus) (frame : Bytes) : Bus :=
  match b.lose with
  | n + 1 =>
      { b with
        lose := n
        engine := (b.engine.sweep b.timeout).2
        exchanges := b.exchanges ++ [⟨frame, none⟩] }
  | 0 =>
      let (reply, slave) := b.slave.answerFrame frame
      { b with
        slave
        engine := (b.engine.receive reply).2
        exchanges := b.exchanges ++ [⟨frame, some reply⟩] }

def cycle (b : Bus) : Nat × Bus :=
  let sending := b.engine.transmit b.port PassThrough.mk 0
  let (frames, far) := sending.port.flip.takeFrames
  (frames.length, frames.foldl exchange { b with engine := sending.engine, port := far.flip })

def takeBuffer (b : Bus) : Bool × Bus :=
  match b.engine.pool.take? with
  | .error _ => (false, b)
  | .ok (_, pool) => (true, { b with engine := { b.engine with pool } })

def close (b : Bus) : Nat × Bus :=
  let (outstanding, engine) := b.engine.close
  (outstanding, { b with engine })

def run (_ : PendingAccess) (b : Bus) : Bus := if b.stalled then b else b.cycle.2

def carrier (b : Bus) : Carrier Bus where
  engine := Bus.engine
  setEngine engine b := { b with engine }
  timeout := b.timeout
  run := Bus.run

end Bus

structure MasteredBus where
  master : Master Loopback PassThrough
  slave : MemorySlave

namespace MasteredBus

def exchange (b : MasteredBus) (frame : Bytes) : MasteredBus :=
  let (reply, slave) := b.slave.answerFrame frame
  let port := (b.master.port.flip.sendFrame reply).2.flip
  { b with slave, master := { b.master with port } }

/-- Two cycles of the master, between which the slave answers what was sent. -/
def run (_ : PendingAccess) (b : MasteredBus) : MasteredBus :=
  let master := b.master.poll.2
  let (frames, far) := master.port.flip.takeFrames
  let b := frames.foldl exchange { b with master := { master with port := far.flip } }
  { b with master := b.master.poll.2 }

def carrier (b : MasteredBus) : Carrier MasteredBus where
  engine b := b.master.engine
  setEngine engine b := { b with master := { b.master with engine } }
  timeout := b.master.config.datagramTimeout
  run := MasteredBus.run

end MasteredBus

end Fieldbus.Simulation
