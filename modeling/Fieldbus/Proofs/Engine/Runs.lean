import Fieldbus.Proofs.Engine.Sending

/-!
# Runs of an engine

A run is a list of operations on a new engine, in any order and with any arguments. The callback of
a transaction may submit others. The pool may be shared with others, who take buffers and give them
back between two operations.
-/

namespace Fieldbus.Engine

inductive Operation : Type 1
  | prepare (r : Request) (followUps : List FollowUp)
  | schedule (index : UInt8)
  | transmit {π φ : Type} [FramePort π] [FrameFilter φ] (port : π) (filter : φ) (now : Nat)
  | receive (bytes : Bytes)
  | sweep (now : Nat)
  | cancel (index : UInt8)
  | withdraw (index : UInt8) (generation : Nat)
  | close
  | resetStatistics
  /-- Others leave the pool in this state. -/
  | share (pool : Pool)

def perform (e : Engine) : Operation → Engine
  | .prepare r followUps => (e.prepare r followUps).2
  | .schedule index => (e.schedule index).2
  | @Operation.transmit _ _ _ _ port filter now => (e.transmit port filter now).engine
  | .receive bytes => (e.receive bytes).2
  | .sweep now => (e.sweep now).2
  | .cancel index => (e.cancel index).2
  | .withdraw index generation => (e.withdraw index generation).2
  | .close => e.close.2
  | .resetStatistics => e.resetStatistics
  | .share pool => { e with pool }

def run (e : Engine) (ops : List Operation) : Engine := ops.foldl perform e

theorem run_cons (e : Engine) (op : Operation) (later : List Operation) :
    e.run (op :: later) = (e.perform op).run later := rfl

def Operation.Permits (e₀ : Engine) : Operation → Engine → JournalEntry → Prop
  | .prepare r _ => fun _ x => ∃ generation index, x = .prepared generation index r
  | @transmit _ _ _ _ port filter now => Transmission.Reports now (.opening e₀ port filter)
  | .receive bytes => Answered (Frame.decoded bytes)
  | .sweep now => Overdue now
  | .cancel _ | .withdraw .. => fun _ x => ∃ generation, x = .cancelled generation
  | .close => Ended
  | .schedule _ | .resetStatistics | .share _ => fun _ _ => False

theorem perform_moves {e : Engine} (h : e.Sound) (op : Operation) :
    Moves (Along (op.Permits e)) e (e.perform op) := by
  cases op with
  | prepare r followUps => exact (prepare_moves e r followUps).mono fun _ _ => .inr
  | schedule index => exact (schedule_moves e index).mono fun _ _ => .inr
  | transmit port filter now => exact transmit_moves h port filter now
  | receive bytes => exact receive_moves h bytes
  | sweep now => exact sweep_moves h now
  | cancel index => exact (cancel_moves e index).mono fun _ _ => .inr
  | withdraw index generation => exact (withdraw_moves e index generation).mono fun _ _ => .inr
  | close => exact close_moves h
  | resetStatistics => exact .silent (.count _)
  | share pool => exact .silent (.share pool)

theorem Sound.perform {e : Engine} (h : e.Sound) (op : Operation) : (e.perform op).Sound :=
  (perform_moves h op).sound h

theorem Sound.run {e : Engine} (h : e.Sound) (ops : List Operation) : (e.run ops).Sound := by
  induction ops generalizing e with
  | nil => exact h
  | cons op rest ih => exact ih (h.perform op)

theorem Sound.journal_perform {e : Engine} (h : e.Sound) (op : Operation) :
    e.journal <+: (e.perform op).journal := by
  obtain ⟨-, -, xs, journal, -⟩ := (perform_moves h op).trace h
  exact ⟨xs, journal.symm⟩

theorem Sound.journal_run {e : Engine} (h : e.Sound) (ops : List Operation) :
    e.journal <+: (e.run ops).journal := by
  induction ops generalizing e with
  | nil => exact List.prefix_rfl
  | cons op rest ih => exact (h.journal_perform op).trans (ih (h.perform op))

theorem Sound.mem_run {e : Engine} (h : e.Sound) (later : List Operation) {x : JournalEntry}
    (hx : x ∈ e.journal) : x ∈ (e.run later).journal :=
  (h.journal_run later).subset hx

end Fieldbus.Engine
