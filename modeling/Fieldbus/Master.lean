import Fieldbus.Clock
import Fieldbus.Engine.Receive
import Fieldbus.Engine.Transmit
import Fieldbus.Mailbox.Basic

/-!
# The master

A master drives one port. Each cycle sends what is queued, takes in what has arrived and ends the
transactions whose time has run out. A failure of the port does not keep the later steps of a cycle
from being taken.
-/

namespace Fieldbus

structure Master (π φ : Type) where
  config : Config
  port : π
  engine : Engine
  /-- The mailboxes of the registered slaves, by position. -/
  slaves : List (UInt16 × Mailbox)
  filter : φ
  clock : Clock
  stopRequested : Bool

namespace Master

variable {π φ : Type}

def create (config : Config) (port : π) (engine : Engine) (filter : φ) : Master π φ where
  config
  port
  engine
  slaves := []
  filter
  clock := {}
  stopRequested := false

def advance (m : Master π φ) (step : Nat) : Master π φ :=
  { m with clock := m.clock.advance step }

/-! ## Slaves -/

/-- Registers a slave. Another one at the same position is replaced. -/
def addSlave (m : Master π φ) (slave : SlaveConfig) (sendId receiveId : Nat) : Master π φ :=
  let others := m.slaves.filter fun entry => entry.1 != slave.position
  { m with slaves :=
      others ++ [(slave.position, Mailbox.create slave m.config sendId receiveId)] }

def mailbox (m : Master π φ) (position : UInt16) : Except Error Mailbox :=
  match m.slaves.lookup position with
  | none => .error (.unknownSlave position)
  | some mailbox => .ok mailbox

def setMailbox (m : Master π φ) (position : UInt16) (mailbox : Mailbox) : Master π φ :=
  { m with slaves := m.slaves.map fun entry =>
      if entry.1 = position then (position, mailbox) else entry }

/-! ## Cycles -/

def schedule (m : Master π φ) (r : Request) (timeout : Option Nat) (followUps : List FollowUp) :
    Except Error UInt8 × Master π φ :=
  let r := { r with timeout := timeout.getD m.config.datagramTimeout }
  let (result, engine) := m.engine.submit r followUps
  (result, { m with engine })

variable [FramePort π] [FrameFilter φ]

def receiveWithin : Nat → Master π φ → Except Error Unit × Master π φ
  | 0, m => (.ok (), m)
  | fuel + 1, m =>
      match FramePort.receive Layout.ethernetFrame m.port with
      | (.error fault, port) =>
          let m := { m with port }
          if fault.kind = .wouldBlock then (.ok (), m) else (.error (.device fault), m)
      | (.ok frame, port) =>
          let ((passed, filtered), filter) := FrameFilter.onReceive frame m.filter
          let engine :=
            if passed then (m.engine.receive (refit frame filtered)).2 else m.engine
          let m := { m with port, filter, engine }
          if FramePort.isBlocking m.port then (.ok (), m) else receiveWithin fuel m

/-- Takes in every frame that has arrived, or only one if that means waiting for it. -/
def receiveAll (m : Master π φ) : Except Error Unit × Master π φ :=
  receiveWithin (FramePort.backlog m.port + 1) m

/-- One cycle at `time`. The first failure is the one reported. -/
def pollAt (m : Master π φ) (time : Nat) : Except Error Unit × Master π φ :=
  let sending := m.engine.transmit m.port m.filter time
  let m := { m with engine := sending.engine, port := sending.port, filter := sending.filter }
  let (received, m) := m.receiveAll
  let m := { m with engine := (m.engine.sweep time).2 }
  match sending.result with
  | .error cause => (.error cause, m)
  | .ok _ => (received, m)

def poll (m : Master π φ) : Except Error Unit × Master π φ := m.pollAt m.clock.now

/-- Polls until the filter or the caller asks to stop, for at most `fuel` cycles, and takes the
request to stop back. -/
def pollUntil (stopped : φ → Bool) : Nat → Master π φ → Master π φ
  | 0, m => { m with stopRequested := false }
  | fuel + 1, m =>
      if m.stopRequested || stopped m.filter then { m with stopRequested := false }
      else pollUntil stopped fuel m.poll.2

def close (m : Master π φ) : Except Error Unit × Master π φ :=
  let m := { m with
    engine := m.engine.close.2
    slaves := m.slaves.map fun entry => (entry.1, entry.2.close.2) }
  match FramePort.close m.port with
  | .error fault => (.error (.device fault), m)
  | .ok () => (.ok (), m)

end Master

end Fieldbus
