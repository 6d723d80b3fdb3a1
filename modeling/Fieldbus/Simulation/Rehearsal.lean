import Fieldbus.Simulation.Slave

/-!
# Rehearsals

In a rehearsal every call on a scripted slave is written down, and acts may be set down that are
performed just before a call, when the mailbox waits for the bus. An act may do anything to the
mailbox and to what the script holds.
-/

namespace Fieldbus.Simulation

/-- What is written down: the calls, and before each of them the acts that were performed. -/
inductive Noted (ρ : Type) where
  | act (result : ρ)
  | state (call : SlotCall) (result : Except Error SlotState)
  | write (data : Bytes) (result : Except Error UInt16)
  | read (length : Nat) (result : Except Error UInt16)

structure Rehearsal (ι ρ : Type) where
  slave : ScriptedSlave
  /-- The acts before the next calls, in turn for each kind of call. -/
  acts : List (SlotCall × List ι) := []
  notes : List (Noted ρ) := []

namespace Rehearsal

variable {ι ρ τ : Type}

def note (r : Rehearsal ι ρ) (entry : Noted ρ) : Rehearsal ι ρ :=
  { r with notes := r.notes ++ [entry] }

def addActs (r : Rehearsal ι ρ) (call : SlotCall) (acts : List ι) : Rehearsal ι ρ :=
  { r with acts := r.acts ++ [(call, acts)] }

def takeActs (r : Rehearsal ι ρ) (call : SlotCall) : List ι × Rehearsal ι ρ :=
  ((r.acts.lookup call).getD [], { r with acts := r.acts.eraseP fun entry => entry.1 == call })

abbrev Performer (ι ρ τ : Type) :=
  ι → Mailbox → τ × Rehearsal ι ρ → ρ × Mailbox × τ × Rehearsal ι ρ

def before (perform : Performer ι ρ τ) (call : SlotCall) (m : Mailbox) (s : τ × Rehearsal ι ρ) :
    Mailbox × τ × Rehearsal ι ρ :=
  let (acts, r) := s.2.takeActs call
  acts.foldl (fun (m, s) act =>
    let (result, m, held, r) := perform act m s
    (m, held, r.note (.act result))) (m, s.1, r)

def transport (perform : Performer ι ρ τ) : Transport (τ × Rehearsal ι ρ) where
  slotState sm m s :=
    let call := ScriptedSlave.stateCall m.slave sm
    let (m, held, r) := before perform call m s
    let (result, slave) := ScriptedSlave.slotState m.slave sm r.slave
    (result, m, held, { r with slave }.note (.state call result))
  write data m s :=
    let (m, held, r) := before perform .write m s
    let (result, slave) := ScriptedSlave.write m.slave data r.slave
    (result, m, held, { r with slave }.note (.write data result))
  read bytes m s :=
    let (m, held, r) := before perform .read m s
    let (outcome, slave) := ScriptedSlave.read m.slave bytes r.slave
    (outcome, m, held, { r with slave }.note (.read bytes.length outcome.1))

end Rehearsal

end Fieldbus.Simulation
