import Fieldbus.Proofs.Engine.Turnover

/-!
# The length of the queue

A transaction that is dropped while it waits leaves its index in the queue, where it stays until a
call takes it. So the queue has every transaction that waits, and it may be longer by as many
indices as such transactions were dropped.
-/

namespace Fieldbus.Engine

variable {e : Engine}

theorem Sound.waitingCount_le (h : e.Sound) : e.waitingCount ≤ e.queue.length := by
  have sub : (Leases.indices.filter fun index => (e.slot index).any Transaction.queued) ⊆
      e.queue := by
    intro index here
    obtain ⟨-, waits⟩ := List.mem_filter.mp here
    cases slot : e.slot index with
    | none =>
        rw [slot] at waits
        cases waits
    | some t =>
        rw [slot] at waits
        exact (h.waiting slot waits).2
  rw [Engine.waitingCount, census_eq_length]
  exact ((Leases.nodup_indices.filter _).subperm sub).length_le

def Operation.StaysOpen : Operation → Prop
  | .close => False
  | _ => True

theorem Sound.backlog (h : e.Sound) {op : Operation} (stays : op.StaysOpen) :
    (e.perform op).queue.length + e.waitingCount ≤
      e.queue.length + (e.perform op).waitingCount + e.drops Transaction.queued op := by
  cases op with
  | close => exact stays.elim
  | resetStatistics => exact Nat.le_refl _
  | _ =>
      refine (h.turns ?_).backlog
      trivial

theorem Sound.run_backlog (h : e.Sound) {ops : List Operation}
    (stays : ∀ op ∈ ops, op.StaysOpen) :
    (e.run ops).queue.length + e.waitingCount ≤
      e.queue.length + (e.run ops).waitingCount + total (drops Transaction.queued) e ops := by
  induction ops generalizing e with
  | nil => exact Nat.le_refl _
  | cons op rest ih =>
      obtain ⟨first, others⟩ := List.forall_mem_cons.mp stays
      have now := h.backlog first
      have later := ih (h.perform op) others
      rw [run_cons, total]
      omega

/-! ## The contract -/

theorem queue_length_bounds (config : Config) (pool : Pool) (start : UInt8)
    (ops : List Operation) (stays : ∀ op ∈ ops, op.StaysOpen) :
    let new := withParts config pool (.startingAt start)
    let e := new.run ops
    let dropped := total (drops Transaction.queued) new ops
    (∀ index t, e.slot index = some t → t.queued = true →
        t.isSent = false ∧ index ∈ e.queue) ∧
      e.waitingCount ≤ e.queue.length ∧ e.queue.length ≤ e.waitingCount + dropped ∧
      (dropped = 0 → e.queue.length = e.waitingCount ∧ e.queue.length ≤ e.inFlight) ∧
      e.waitingCount ≤ e.inFlight ∧ e.inFlight ≤ 256 := by
  intro new e dropped
  have fresh : new.Reachable := ⟨config, pool, start, [], rfl⟩
  have sound : e.Sound := fresh.sound.run ops
  have seated : e.Seated [] := fresh.seated.run ops
  have shorter : e.queue.length ≤ e.waitingCount + dropped := by
    have bound : e.queue.length + new.waitingCount ≤ new.queue.length + e.waitingCount + dropped :=
      fresh.sound.run_backlog stays
    have none : new.queue.length = 0 := rfl
    omega
  have held : e.waitingCount ≤ e.inFlight := by
    rw [seated.inFlight_eq sound]
    exact census_le_occupied e _
  have longer := sound.waitingCount_le
  refine ⟨fun index t slot queued => ?_, longer, shorter, fun none => ?_, held,
    seated.inFlight_le⟩
  · exact ⟨sound.unsent slot queued, (sound.waiting slot queued).2⟩
  · constructor <;> omega

/-- An errand that is dropped while it waits, and another one that waits. -/
def dropping : List Operation :=
  [.prepare errand [], .schedule 7, .cancel 7, .prepare errand [], .schedule 8]

/-- The queue keeps the index of a dropped transaction. -/
theorem exists_stale_queue : ∃ ops : List Operation, (∀ op ∈ ops, op.StaysOpen) ∧
    (workshop.run ops).queue.length ≠ (workshop.run ops).waitingCount ∧
    ¬(workshop.run ops).queue.length ≤ (workshop.run ops).inFlight := by
  refine ⟨dropping, by simp [dropping, Operation.StaysOpen], ?_⟩
  have long : (workshop.run dropping).queue.length = 2 := by decide +kernel
  have waiting : (workshop.run dropping).waitingCount = 1 := by decide +kernel
  have held : (workshop.run dropping).inFlight = 1 := by decide +kernel
  rw [long, waiting, held]
  exact ⟨by decide, by decide⟩

theorem queue_length_bounds_dropping :
    (∀ op ∈ dropping, op.StaysOpen) ∧ (workshop.run dropping).waitingCount = 1 ∧
      total (drops Transaction.queued) workshop dropping = 1 ∧
      1 ≤ (workshop.run dropping).queue.length ∧ (workshop.run dropping).queue.length ≤ 2 ∧
      8 ∈ (workshop.run dropping).queue := by
  have stays : ∀ op ∈ dropping, op.StaysOpen := by simp [dropping, Operation.StaysOpen]
  obtain ⟨queued, longer, shorter, -⟩ :=
    queue_length_bounds {} (Pool.openWith 0 2 64) 7 dropping stays
  have waiting : (workshop.run dropping).waitingCount = 1 := by decide +kernel
  have dropped : total (drops Transaction.queued) workshop dropping = 1 := by decide +kernel
  have waits : ((workshop.run dropping).slot 8).any Transaction.queued = true := by
    decide +kernel
  cases slot : (workshop.run dropping).slot 8 with
  | none =>
      rw [slot] at waits
      cases waits
  | some t =>
      rw [slot] at waits
      have here := (queued 8 t slot waits).2
      simp only [workshop] at waiting dropped here ⊢
      exact ⟨stays, waiting, dropped, by omega, by omega, here⟩

end Fieldbus.Engine
