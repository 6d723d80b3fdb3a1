import Fieldbus.Engine.Receive
import Fieldbus.Engine.Transmit
import Fieldbus.Mailbox.Turn

/-!
# Reaching mailbox slots through the engine

An access is one datagram to the station address of the slave: a read of the status register, a
write into the slot that the slave reads, or a read from the slot that it writes. The access begins
with the submission of its transaction. After that the engine runs as it does for everyone, and in
the end the access takes the outcome or, if there is none, withdraws the transaction.
-/

namespace Fieldbus

structure Access where
  command : Command
  address : Address
  payload : Bytes
  deriving DecidableEq, Repr

namespace Access

def status (slave : SlaveConfig) (sm : SyncManager) : Access :=
  ⟨.fprd, .physical slave.fixedAddress sm.statusRegister, [0]⟩

def write (slave : SlaveConfig) (data : Bytes) : Access :=
  ⟨.fpwr, .physical slave.fixedAddress slave.writeSlot.address, data⟩

def read (slave : SlaveConfig) (length : Nat) : Access :=
  ⟨.fprd, .physical slave.fixedAddress slave.readSlot.address, Bytes.zeros length⟩

def request (a : Access) (timeout : Nat) : Request :=
  { id := 0, command := a.command, address := a.address, payload := a.payload, timeout }

end Access

structure PendingAccess where
  index : UInt8
  generation : Nat
  deriving DecidableEq, Repr

namespace Engine

def begin (e : Engine) (a : Access) (timeout : Nat) : Except Error PendingAccess × Engine :=
  match e.prepare (a.request timeout) [] with
  | (.error cause, e) => (.error cause, e)
  | (.ok index, e) =>
      match e.generation? index with
      | none => (.error .timeout, e)
      | some generation =>
          match e.schedule index with
          | (.error cause, e) => (.error cause, (e.withdraw index generation).2)
          | (.ok (), e) => (.ok ⟨index, generation⟩, e)

def outcomeOf? (generation : Nat) : JournalEntry → Option Outcome
  | .completed g _ outcome => if g = generation then some outcome else none
  | _ => none

def outcome? (e : Engine) (generation : Nat) : Option Outcome :=
  e.journal.findSome? (outcomeOf? generation)

def collect (e : Engine) (p : PendingAccess) : Except Error (UInt16 × Bytes) × Engine :=
  match e.outcome? p.generation with
  | some (.response counter payload) => (.ok (counter, payload), e)
  | some .timeout => (.error .timeout, e)
  | none => (.error .timeout, (e.withdraw p.index p.generation).2)

end Engine

/-- What runs an engine while an access waits for its outcome. -/
structure Carrier (σ : Type) where
  engine : σ → Engine
  setEngine : Engine → σ → σ
  timeout : Nat
  /-- Runs until the access has its outcome or has waited long enough. -/
  run : PendingAccess → σ → σ

namespace Carrier

variable {σ : Type}

def carry (c : Carrier σ) (a : Access) (s : σ) : Except Error (UInt16 × Bytes) × σ :=
  match (c.engine s).begin a c.timeout with
  | (.error cause, e) => (.error cause, c.setEngine e s)
  | (.ok pending, e) =>
      let s := c.run pending (c.setEngine e s)
      let (result, e) := (c.engine s).collect pending
      (result, c.setEngine e s)

def slotState (c : Carrier σ) (slave : SlaveConfig) (sm : SyncManager) (s : σ) :
    Except Error SlotState × σ :=
  match c.carry (.status slave sm) s with
  | (.error cause, s) => (.error cause, s)
  | (.ok (counter, payload), s) =>
      if counter = 0 then (.error .timeout, s)
      else (.ok (.ofStatus (payload.headD 0)), s)

def write (c : Carrier σ) (slave : SlaveConfig) (data : Bytes) (s : σ) :
    Except Error UInt16 × σ :=
  let (result, s) := c.carry (.write slave data) s
  (result.map Prod.fst, s)

/-- What the answer does not cover reads as zeros, also when there is no answer. -/
def read (c : Carrier σ) (slave : SlaveConfig) (bytes : Bytes) (s : σ) :
    (Except Error UInt16 × Bytes) × σ :=
  let blank := Bytes.zeros bytes.length
  match c.carry (.read slave bytes.length) s with
  | (.error cause, s) => ((.error cause, blank), s)
  | (.ok (counter, payload), s) =>
      ((.ok counter, blank.overwrite 0 (payload.take bytes.length)), s)

def device (c : Carrier σ) : SlotDevice σ := ⟨c.slotState, c.write, c.read⟩

end Carrier

end Fieldbus
