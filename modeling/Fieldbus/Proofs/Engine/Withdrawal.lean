import Fieldbus.Proofs.Engine.Line
import Fieldbus.Proofs.Engine.Lives
import Fieldbus.Proofs.Engine.Turnover

/-!
# Withdrawing a transaction

An index is used again and again, but a generation names one transaction for good. A withdrawal
names both, so however old the pair is, it ends that transaction or nothing. The queue may have the
index for a while longer; whoever gets the index next is none the wiser.
-/

namespace Fieldbus.Engine

open JournalEntry (completes cancels ends packs prepared?)

variable {e e' : Engine} {index : UInt8} {t : Transaction} {generation : Nat}
  {xs : List JournalEntry}

/-! ## Generations -/

theorem Move.entrants (move : Move e xs e') :
    xs.filterMap prepared? = [] ∨ xs.filterMap prepared? = [e.nextGeneration] := by
  cases move with
  | enroll => exact .inr rfl
  | @note x general =>
      refine .inl ?_
      cases x <;> first | rfl | cases general
  | _ => exact .inl rfl

theorem Moves.entrants_sorted {allow : Engine → JournalEntry → Prop} (path : Moves allow e e')
    (h : e.Sound) (sorted : e.entrants.Pairwise (· < ·)) : e'.entrants.Pairwise (· < ·) := by
  induction path with
  | refl => exact sorted
  | @tail mid e' before last ih =>
      obtain ⟨xs, move, -⟩ := last
      have sound : mid.Sound := Moves.sound before h
      have journal := (move.sound sound).2.1
      have grown : e'.entrants = mid.entrants ++ xs.filterMap prepared? := by
        rw [Engine.entrants, journal, List.filterMap_append]
        rfl
      rw [grown]
      rcases move.entrants with none | one
      · rw [none, List.append_nil]
        exact ih
      · rw [one, List.pairwise_append]
        refine ⟨ih, List.pairwise_singleton _ _, fun g old g' new => ?_⟩
        rw [List.mem_singleton.mp new]
        obtain ⟨x, here, about⟩ := List.mem_filterMap.mp old
        refine sound.fresh x here g ?_
        cases x <;> cases about
        rfl

theorem Sound.run_entrants_sorted (h : e.Sound) (sorted : e.entrants.Pairwise (· < ·))
    (ops : List Operation) : (e.run ops).entrants.Pairwise (· < ·) := by
  induction ops generalizing e with
  | nil => exact sorted
  | cons op rest ih =>
      exact ih (h.perform op) ((perform_moves h op).entrants_sorted h sorted)

theorem Sound.prepare_generation (h : e.Sound) {r : Request} {followUps : List FollowUp}
    (done : (e.prepare r followUps).1 = .ok index) :
    (e.prepare r followUps).2.entrants = e.entrants ++ [e.nextGeneration] ∧
      (e.prepare r followUps).2.generation? index = some e.nextGeneration := by
  have journal := (h.prepared done).1
  rcases e.prepare_cases r followUps with
    ⟨_, _, _, failed, -⟩ | ⟨place, leases, pool, b, -, prepared, -⟩
  · rw [failed] at done
    cases done
  · rw [prepared] at done
    cases done
    have placed := slot_enroll { e with pool, leases } r
      (.ofRequest r followUps e.nextGeneration index b) index
    constructor
    · rw [entrants, journal, List.filterMap_append]
      rfl
    · rw [prepared]
      exact generation?_eq (placed.trans (if_pos rfl))

theorem Sound.generation?_iff (h : e.Sound) (index : UInt8) (generation : Nat) :
    e.generation? index = some generation ↔
      (∃ r, .prepared generation index r ∈ e.journal) ∧ e.endings generation = 0 := by
  constructor
  · intro held
    obtain ⟨t, slot, rfl⟩ := Option.map_eq_some_iff.mp held
    obtain ⟨r, prepared, -⟩ := (h.backed slot).prepared
    exact ⟨⟨r, prepared⟩, h.pending ⟨index, t, slot, rfl⟩⟩
  · rintro ⟨⟨r, prepared⟩, unended⟩
    have out : e.Outstanding generation := by
      by_contra gone
      rw [h.settled prepared gone] at unended
      cases unended
    obtain ⟨other, t, slot, rfl⟩ := out
    obtain ⟨s, known, -⟩ := (h.backed slot).prepared
    obtain ⟨rfl, -⟩ := h.once prepared known
    exact generation?_eq slot

/-! ## One withdrawal -/

theorem withdraw_iff (e : Engine) (index : UInt8) (generation : Nat) :
    (e.withdraw index generation).1 = true ↔ e.generation? index = some generation := by
  unfold withdraw
  split
  · rename_i held
    obtain ⟨t, slot, -⟩ := Option.map_eq_some_iff.mp held
    rw [cancel_eq slot]
    exact ⟨fun _ => held, fun _ => rfl⟩
  · rename_i away
    exact ⟨fun impossible => absurd impossible Bool.false_ne_true, fun held => absurd held away⟩

theorem withdraw_of_false (done : (e.withdraw index generation).1 = false) :
    (e.withdraw index generation).2 = e := by
  rcases withdraw_cases e index generation with ⟨-, same⟩ | ⟨_, -, -, yes, -⟩
  · exact same
  · rw [done] at yes
    cases yes

/-- The transaction has left its slot, and its index and its buffer are given up. Nothing else has
changed, and its index may still be in the queue. -/
structure Withdrawn (e : Engine) (index : UInt8) (generation : Nat) (e' : Engine) : Prop where
  held : ∃ t, e.slot index = some t ∧ t.generation = generation ∧ e'.pool = e.pool.put t.buffer
  vacant : e'.slot index = none
  others : ∀ other, other ≠ index → e'.slot other = e.slot other
  queue : e'.queue = e.queue
  statistics : e'.statistics = e.statistics
  released : e.leases.release index = (true, e'.leases)
  freed : e'.inFlight + 1 = e.inFlight

theorem Reachable.withdrawn (h : e.Reachable)
    (done : (e.withdraw index generation).1 = true) :
    Withdrawn e index generation (e.withdraw index generation).2 := by
  have held := (withdraw_iff e index generation).mp done
  obtain ⟨t, slot, same⟩ := Option.map_eq_some_iff.mp held
  have taken : (e.withdraw index generation).2 =
      (e.detach index (.cancelled t.generation)).release index t.buffer := by
    rw [withdraw, if_pos held, cancel_eq slot]
  have next : (e.withdraw index generation).2.Reachable := h.perform (.withdraw index generation)
  have seated := next.seated.inFlight_eq next.sound
  rw [taken] at seated ⊢
  have leased := h.sound.leased slot
  have slots (other : UInt8) := slot_detach e index (.cancelled t.generation) other
  constructor
  case held => exact ⟨t, slot, same, rfl⟩
  case vacant => exact (slots index).trans (if_pos rfl)
  case others => exact fun other ne => (slots other).trans (if_neg ne)
  case queue => rfl
  case statistics => rfl
  case released =>
    show e.leases.release index = (true, (e.leases.release index).2)
    unfold Leases.release
    rw [if_pos leased]
  case freed =>
    rw [seated, h.seated.inFlight_eq h.sound, occupied_eq_census, occupied_eq_census]
    exact census_detach slot (.cancelled t.generation) fun _ => true

theorem Withdrawn.available (h : Withdrawn e index generation e') (stocked : e.Stocked [])
    (stocked' : e'.Stocked []) : e'.pool.available = e.pool.available + 1 := by
  obtain ⟨t, -, -, pool⟩ := h.held
  have capacity : e'.pool.capacity = e.pool.capacity :=
    (congrArg Pool.capacity pool).trans (Pool.capacity_put _ _)
  have before := stocked.available_add
  have after := stocked'.available_add
  have freed := h.freed
  omega

/-! ## Ever after -/

theorem run_append (e : Engine) (ops later : List Operation) :
    e.run (ops ++ later) = (e.run ops).run later :=
  List.foldl_append

theorem Reachable.run (h : e.Reachable) (later : List Operation) : (e.run later).Reachable := by
  obtain ⟨config, pool, start, ops, rfl⟩ := h
  exact ⟨config, pool, start, ops ++ later, (run_append _ ops later).symm⟩

theorem Reachable.packings_run (h : e.Reachable) (ended : e.endings generation ≠ 0)
    (later : List Operation) :
    (e.run later).journal.countP (packs generation) = e.journal.countP (packs generation) := by
  obtain ⟨xs, journal⟩ := h.sound.journal_run later
  obtain ⟨config, pool, start, ops, rfl⟩ := h
  have packed := (accounted_withParts config pool start (ops ++ later)).packed
  rw [run_append, ← journal] at packed
  rw [← journal, List.countP_append, Nat.add_eq_left, List.countP_eq_zero]
  intro x hx packs'
  cases x with
  | packed g i now =>
      obtain rfl : g = generation := eq_of_beq packs'
      obtain ⟨ys, zs, rfl⟩ := List.append_of_mem hx
      obtain ⟨_, _, _, -, by'⟩ := packed (_ ++ ys) zs g i now (List.append_assoc _ _ _).symm
      have unended := by'.wanted.unended
      rw [List.nil_append, List.countP_append] at unended
      exact ended (Nat.eq_zero_of_add_eq_zero_right unended)
  | _ => cases packs'

/-- Nothing more happens to a transaction that was withdrawn. -/
structure Gone (generation : Nat) (e e' : Engine) : Prop where
  silent : e'.fired generation = 0
  ended : e'.endings generation = 1
  unpacked : e'.journal.countP (packs generation) = e.journal.countP (packs generation)
  away : ¬e'.Outstanding generation
  again : ∀ index, e'.withdraw index generation = (false, e')

theorem Reachable.gone (h : e.Reachable) (done : (e.withdraw index generation).1 = true)
    (later : List Operation) :
    Gone generation e ((e.withdraw index generation).2.run later) := by
  have next := h.perform (.withdraw index generation)
  have sound := next.sound.run later
  obtain ⟨held, cancelled, never⟩ := h.sound.fired_after_withdraw done
  obtain ⟨⟨r, prepared⟩, -⟩ := (h.sound.generation?_iff index generation).mp held
  have known := next.sound.mem_run later
    ((h.sound.journal_perform (.withdraw index generation)).subset prepared)
  have dropped : 0 < (e.withdraw index generation).2.endings generation :=
    List.countP_pos_iff.mpr ⟨_, cancelled, by simp [ends, cancels]⟩
  have away : ¬((e.withdraw index generation).2.run later).Outstanding generation := by
    intro out
    have here := next.sound.mem_run later cancelled
    exact List.countP_eq_zero.mp (sound.pending out) _ here (by simp [ends, cancels])
  constructor
  case silent => exact never later
  case ended => exact sound.settled known away
  case unpacked =>
    refine (next.packings_run (Nat.ne_of_gt dropped) later).trans ?_
    rcases withdraw_cases e index generation with ⟨failed, -⟩ | ⟨t, -, -, -, journal⟩
    · rw [failed] at done
      cases done
    · rw [Engine.perform, journal, List.countP_append]
      rfl
  case away => exact away
  case again =>
    intro other
    refine if_neg fun there => away ?_
    obtain ⟨t, slot, same⟩ := Option.map_eq_some_iff.mp there
    exact ⟨other, t, slot, same⟩

/-! ## The contract -/

theorem withdraw_exact (config : Config) (id capacity bufferSize : Nat) (start : UInt8)
    (ops : List Operation) :
    let new := withParts config (.openWith id capacity bufferSize) (.startingAt start)
    let e := new.run ops
    e.entrants.Pairwise (· < ·) ∧
    (∀ r followUps index, (e.prepare r followUps).1 = .ok index →
      (e.prepare r followUps).2.entrants = e.entrants ++ [e.nextGeneration] ∧
        (e.prepare r followUps).2.generation? index = some e.nextGeneration) ∧
    (∀ index generation, e.generation? index = some generation ↔
      (∃ r, .prepared generation index r ∈ e.journal) ∧ e.endings generation = 0) ∧
    ∀ index generation,
      let e' := (e.withdraw index generation).2
      ((e.withdraw index generation).1 = true ↔
        (∃ r, .prepared generation index r ∈ e.journal) ∧ e.endings generation = 0) ∧
      ((e.withdraw index generation).1 = false → e' = e) ∧
      ((e.withdraw index generation).1 = true → Withdrawn e index generation e' ∧
        ∀ later, Gone generation e (e'.run later) ∧
          (∀ other, (e'.run later).leases.isLeased other = true ↔
            ((e'.run later).slot other).isSome) ∧
          (∀ other t, (e'.run later).slot other = some t → t.generation ≠ generation ∧
            ∀ op, Fares (e'.run later) op other t) ∧
          ((∀ op ∈ ops ++ later, op.IsOwn) →
            e'.pool.available = e.pool.available + 1 ∧
              (e'.run later).pool.available + (e'.run later).inFlight =
                (e'.run later).pool.capacity)) := by
  intro new e
  have fresh : new.Reachable := ⟨config, _, start, [], rfl⟩
  have reachable : e.Reachable := ⟨config, _, start, ops, rfl⟩
  have sound := reachable.sound
  refine ⟨fresh.sound.run_entrants_sorted .nil ops,
    fun r followUps index done => sound.prepare_generation done, sound.generation?_iff,
    fun index generation => ?_⟩
  intro e'
  have exact' := (withdraw_iff e index generation).trans (sound.generation?_iff index generation)
  refine ⟨exact', withdraw_of_false, fun done => ?_⟩
  have withdrawn := reachable.withdrawn done
  refine ⟨withdrawn, fun later => ?_⟩
  have onward : (e'.run later).Reachable :=
    (reachable.perform (.withdraw index generation)).run later
  have gone := reachable.gone done later
  refine ⟨gone, onward.seated.isLeased_iff onward.sound, fun other t slot => ?_, fun own => ?_⟩
  · exact ⟨fun same => gone.away ⟨other, t, slot, same⟩, onward.fares slot⟩
  · obtain ⟨before, behind⟩ := List.forall_mem_append.mp own
    have stocked : e.Stocked [] :=
      (stocked_withParts config id capacity bufferSize start).run before
    have stocked' : (e.perform (.withdraw index generation)).Stocked [] := stocked.perform trivial
    exact ⟨withdrawn.available stocked stocked', (stocked'.run behind).available_add⟩

/-- An errand that is withdrawn while it waits. Its index stays in the queue. -/
theorem withdraw_exact_queued :
    let e := workshop.run [.prepare errand [], .schedule 7]
    let e' := (e.withdraw 7 1).2
    (e.withdraw 7 1).1 = true ∧ e'.queue = [7] ∧ Withdrawn e 7 1 e' ∧
      ∀ later, Gone 1 e (e'.run later) := by
  intro e e'
  have done : (e.withdraw 7 1).1 = true := by decide +kernel
  have queue : e'.queue = [7] := by decide +kernel
  obtain ⟨-, -, -, exact'⟩ :=
    withdraw_exact {} 0 2 64 7 [.prepare errand [], .schedule 7]
  obtain ⟨withdrawn, after⟩ := (exact' 7 1).2.2 done
  exact ⟨done, queue, withdrawn, fun later => (after later).1⟩

end Fieldbus.Engine
