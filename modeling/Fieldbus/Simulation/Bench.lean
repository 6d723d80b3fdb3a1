import Fieldbus.Buffer.Pool
import Fieldbus.Mailbox.Queues
import Fieldbus.Simulation.Script

/-!
# A bench for buffers

On the bench stand pools, queues and a set of protocol queues. Buffers move between them and the
script, which holds them by name. Holding a buffer under a used name loses the former one.
-/

namespace Fieldbus.Simulation

structure Bench where
  pools : Array Pool
  lists : Array BufferQueue := #[]
  queues : ProtocolQueues := .empty 0
  held : Shelf Buffer := []
  firings : List Firing := []

namespace Bench

def pool (s : Bench) (place : Nat) : Pool := (s.pools[place]?).getD (.openWith 0 0 0)

def list (s : Bench) (place : Nat) : BufferQueue := (s.lists[place]?).getD (.empty 0)

def setPool (s : Bench) (place : Nat) (pool : Pool) : Bench :=
  { s with pools := s.pools.setIfInBounds place pool }

def setList (s : Bench) (place : Nat) (list : BufferQueue) : Bench :=
  { s with lists := s.lists.setIfInBounds place list }

/-! ## Held buffers -/

def buffer (name : String) : Step Bench Buffer := do
  Step.found "entry" ((← get).held.lookup name)

def hold (name : String) (b : Buffer) : Step Bench Buffer := do
  modify fun s => { s with held := s.held.put name b }
  return b

def release (name : String) : Step Bench Unit :=
  modify fun s => { s with held := s.held.drop name }

def alter (name : String) (change : Buffer → Except Error Buffer) : Step Bench Buffer := do
  hold name (← Step.need (change (← buffer name)))

def fire (name : String) : Step Bench Buffer := do
  let (firings, b) := (← buffer name).fire
  modify fun s => { s with firings := s.firings ++ firings }
  hold name b

/-! ## Taking buffers -/

def take (name : String) (place : Nat) : Step Bench Buffer := do
  let (b, pool) ← Step.need ((← get).pool place).take?
  modify fun s => s.setPool place pool
  hold name b

def takeWith {α τ : Type} (name : String) (store : τ → Bench → Bench) (buffer : α → Buffer)
    (from? : Option (α × τ)) : Step Bench (Option α) := do
  match from? with
  | none => return none
  | some (a, rest) =>
      modify (store rest)
      discard (hold name (buffer a))
      return some a

def removeFromPool (name : String) (place index : Nat) : Step Bench (Option Buffer) := do
  takeWith name (fun pool s => s.setPool place pool) id (((← get).pool place).remove? index)

def takeFromList (name : String) (place : Nat)
    (pop : BufferQueue → Option (Buffer × BufferQueue)) : Step Bench (Option Buffer) := do
  takeWith name (fun list s => s.setList place list) id (pop ((← get).list place))

def takeFromQueues (name : String)
    (pop : ProtocolQueues → Option (Protocol × Buffer × ProtocolQueues)) :
    Step Bench (Option (Protocol × Buffer)) := do
  takeWith name (fun queues s => { s with queues }) Prod.snd
    ((pop (← get).queues).map fun (p, b, queues) => ((p, b), queues))

/-! ## Giving buffers -/

def give (name : String) (place : Nat) (put : Pool → Buffer → Pool) : Step Bench Unit := do
  let b ← buffer name
  modify fun s => s.setPool place (put (s.pool place) b)
  release name

/-- Gives a buffer to a pool, which may refuse it. The answer says whether it is gone. -/
def offer (name : String) (place : Nat) : Step Bench Bool := do
  match ((← get).pool place).offer (← buffer name) with
  | (.accepted, pool) =>
      modify fun s => s.setPool place pool
      release name
      return true
  | (.refused b, pool) =>
      modify fun s => s.setPool place pool
      discard (hold name b)
      return false

def giveToList (name : String) (place : Nat)
    (push : BufferQueue → Buffer → Option BufferQueue) : Step Bench Bool := do
  match push ((← get).list place) (← buffer name) with
  | none => return false
  | some list =>
      modify fun s => s.setList place list
      release name
      return true

def giveToQueues (name : String) (push : ProtocolQueues → Buffer → Option ProtocolQueues) :
    Step Bench Bool := do
  match push (← get).queues (← buffer name) with
  | none => return false
  | some queues =>
      modify fun s => { s with queues }
      release name
      return true

/-! ## Whole containers -/

def drainList (place into : Nat) : Step Bench (List Buffer) := do
  let (buffers, list) := ((← get).list place).drain
  modify fun s => (s.setList place list).setPool into (buffers.foldl Pool.put (s.pool into))
  return buffers

def drainQueues : Step Bench (List (Protocol × Buffer)) := do
  let (drained, queues) := (← get).queues.drain
  modify fun s => { s with queues }
  return drained

def closePool (place : Nat) : Step Bench Nat := do
  let (outstanding, pool) := ((← get).pool place).close
  modify fun s => s.setPool place pool
  return outstanding

def addList (place : Nat) : Step Bench Nat := do
  let s ← get
  set { s with lists := s.lists.push (s.pool place).newQueue }
  return s.lists.size

end Bench

end Fieldbus.Simulation
