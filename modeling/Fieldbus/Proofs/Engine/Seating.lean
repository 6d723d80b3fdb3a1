import Fieldbus.Proofs.Engine.Census

/-!
# Leases and slots

The leases are the engine's own, whoever else uses the pool. Between two operations an index is on
lease exactly if its slot holds a transaction, so the leases count the transactions. While one is
being ended its index is loose: out of its slot, and not given up yet.
-/

namespace Fieldbus

namespace Leases

/-- The count is the number of indices on lease. -/
def Tidy (l : Leases) : Prop := ∃ out, l.Lends out

variable {l leases : Leases} {index : UInt8}

theorem Tidy.lease (h : l.Tidy) (lease : l.lease? = some (index, leases)) : leases.Tidy := by
  obtain ⟨out, lends⟩ := h
  exact ⟨index :: out, lends.lease lease⟩

theorem Tidy.release (h : l.Tidy) (index : UInt8) : (l.release index).2.Tidy := by
  obtain ⟨out, lends⟩ := h
  cases leased : l.isLeased index with
  | false =>
      simp only [Leases.release, leased]
      exact ⟨out, lends⟩
  | true =>
      have here : index ∈ out := (lends.leased index).mp leased
      exact ⟨out.erase index, (lends.perm (List.perm_cons_erase here).symm).release⟩

end Leases

namespace Engine

/-- An index on lease is that of a transaction in its slot, or it is loose. -/
structure Seated (e : Engine) (loose : List UInt8) : Prop where
  tidy : e.leases.Tidy
  seated : ∀ {index}, e.leases.isLeased index = true → (e.slot index).isSome ∨ index ∈ loose

variable {e e' : Engine} {loose : List UInt8} {xs : List JournalEntry}

/-! ## Steps -/

theorem Seated.congr (h : e.Seated loose) (leases : e'.leases = e.leases)
    (slots : ∀ {index}, (e.slot index).isSome → (e'.slot index).isSome) : e'.Seated loose := by
  refine ⟨leases ▸ h.tidy, fun {index} leased => ?_⟩
  exact (h.seated (leases ▸ leased)).imp_left slots

theorem Seated.setSlot (h : e.Seated loose) (index : UInt8) (t : Transaction) :
    (e.setSlot index (some t)).Seated loose := by
  refine h.congr rfl fun {other} occupied => ?_
  rw [slot_setSlot]
  split
  · rfl
  · exact occupied

theorem Move.seated (move : Move e xs e') (h : e.Seated loose)
    (unended : ∀ x ∈ xs, ∀ generation, x.ends generation = false) : e'.Seated loose := by
  cases move with
  | @enroll r followUps index leases b pool length bytes lease take encode =>
      obtain ⟨-, grown⟩ := Leases.lease?_eq_some lease
      refine ⟨h.tidy.lease lease, fun {other} leased => ?_⟩
      rw [slot_enroll]
      split
      · exact .inl rfl
      · rename_i ne
        have before : e.leases.isLeased other = true := by
          have both : (e.leases.isLeased other || other == index) = true :=
            (grown other).symm.trans leased
          rw [Bool.or_eq_true, beq_iff_eq] at both
          exact both.resolve_right ne
        exact h.seated before
  | @waver index leases lease =>
      refine ⟨(h.tidy.lease lease).release index, fun {other} leased => ?_⟩
      exact h.seated ((Leases.isLeased_returned lease other).symm.trans leased)
  | @enqueue index t slot unsent idle =>
      have queued : ({ e with queue := e.queue ++ [index] } : Engine).Seated loose :=
        h.congr rfl fun occupied => occupied
      exact queued.setSlot index _
  | @pack index queue t now front slot queued =>
      have taken : ({ e with queue } : Engine).Seated loose :=
        h.congr rfl fun occupied => occupied
      exact (taken.setSlot index _).congr rfl fun occupied => occupied
  | @finish index t outcome slot queue kept =>
      have ending := unended _ (List.mem_singleton_self _) t.generation
      simp [JournalEntry.ends, JournalEntry.completes] at ending
  | @cancel index t slot =>
      have ending := unended _ (List.mem_singleton_self _) t.generation
      simp [JournalEntry.ends, JournalEntry.cancels] at ending
  | @release index vacant b =>
      refine ⟨h.tidy.release index, fun {other} leased => ?_⟩
      have both : (e.leases.isLeased other && other != index) = true :=
        (Leases.isLeased_release e.leases index other).symm.trans leased
      exact h.seated (Bool.and_eq_true_iff.mp both).1
  | «return» take => exact h.congr rfl fun occupied => occupied
  | skip front idle => exact h.congr rfl fun occupied => occupied
  | rotate front => exact h.congr rfl fun occupied => occupied
  | note general => exact h.congr rfl fun occupied => occupied
  | count statistics => exact h.congr rfl fun occupied => occupied
  | shut => exact h.congr rfl fun occupied => occupied
  | share pool => exact h.congr rfl fun occupied => occupied

theorem Seated.moves {allow : Engine → JournalEntry → Prop} (h : e.Seated loose)
    (path : Moves allow e e') (unended : ∀ mid x, allow mid x → ∀ generation,
      x.ends generation = false) : e'.Seated loose := by
  induction path with
  | refl => exact h
  | tail _ last ih =>
      obtain ⟨xs, move, allowed⟩ := last
      exact move.seated ih fun x hx => unended _ x (allowed x hx)

namespace Seated

theorem follow (h : e.Seated loose) (t : Transaction) : (e.follow t).Seated loose := by
  refine h.moves (follow_moves e t) fun _ x sequel generation => ?_
  cases sequel <;> rfl

theorem detach (h : e.Seated loose) (index : UInt8) (x : JournalEntry) :
    (e.detach index x).Seated (index :: loose) := by
  refine ⟨h.tidy, fun {other} leased => ?_⟩
  rw [slot_detach]
  split
  · rename_i here
    exact .inr (here ▸ List.mem_cons_self)
  · exact (h.seated leased).imp_right (List.mem_cons_of_mem index)

theorem release {index : UInt8} (h : e.Seated (index :: loose)) (b : Buffer) :
    (e.release index b).Seated loose := by
  refine ⟨h.tidy.release index, fun {other} leased => ?_⟩
  have both : (e.leases.isLeased other && other != index) = true :=
    (Leases.isLeased_release e.leases index other).symm.trans leased
  obtain ⟨before, ne⟩ := Bool.and_eq_true_iff.mp both
  refine (h.seated before).imp_right fun here => ?_
  exact (List.mem_cons.mp here).resolve_left (bne_iff_ne.mp ne)

theorem finish (h : e.Seated loose) (index : UInt8) (outcome : Outcome) :
    (e.finish index outcome).Seated loose := by
  cases slot : e.slot index with
  | none =>
      simp only [Engine.finish, slot]
      exact h
  | some t =>
      rw [finish_eq outcome slot]
      exact ((h.detach index _).follow t).release t.buffer

theorem cancel (h : e.Seated loose) (index : UInt8) : (e.cancel index).2.Seated loose := by
  cases slot : e.slot index with
  | none =>
      simp only [Engine.cancel, slot]
      exact h
  | some t =>
      rw [cancel_eq slot]
      exact (h.detach index _).release t.buffer

theorem withdraw (h : e.Seated loose) (index : UInt8) (generation : Nat) :
    (e.withdraw index generation).2.Seated loose := by
  unfold Engine.withdraw
  split
  · exact h.cancel index
  · exact h

theorem course (h : e.Seated loose) (path : Course e e') : e'.Seated loose := by
  induction path with
  | refl => exact h
  | tail _ action ih =>
      cases action with
      | adjust queue statistics => exact ih.congr rfl fun occupied => occupied
      | finish index outcome => exact ih.finish index outcome
      | markSent now slot queued =>
          exact (ih.setSlot _ _).congr rfl fun occupied => occupied
      | sent frame => exact ih.congr rfl fun occupied => occupied

/-! ## Runs -/

theorem perform (h : e.Seated []) (op : Operation) : (e.perform op).Seated [] := by
  cases op with
  | prepare r followUps =>
      refine h.moves (prepare_moves e r followUps) fun _ x allowed generation => ?_
      obtain ⟨_, _, rfl⟩ := allowed
      rfl
  | schedule index => exact h.moves (schedule_moves e index) fun _ _ => False.elim
  | transmit port filter now => exact h.course (course_transmit e port filter now)
  | receive bytes => exact h.course (course_receive e bytes)
  | sweep now => exact h.course (course_sweep e now)
  | cancel index => exact h.cancel index
  | withdraw index generation => exact h.withdraw index generation
  | close =>
      have emptied : ({ e with queue := [] } : Engine).Seated [] :=
        h.congr rfl fun occupied => occupied
      have ended := emptied.course (course_finishAll { e with queue := [] } Leases.indices)
      rw [Engine.perform, close_eq]
      generalize ({ e with queue := [] } : Engine).finishAll Leases.indices = bare at ended ⊢
      exact ended.congr rfl fun occupied => occupied
  | resetStatistics => exact h.congr rfl fun occupied => occupied
  | share pool => exact h.congr rfl fun occupied => occupied

theorem run (h : e.Seated []) (ops : List Operation) : (e.run ops).Seated [] := by
  induction ops generalizing e with
  | nil => exact h
  | cons op rest ih => exact ih (h.perform op)

end Seated

theorem seated_withParts (config : Config) (pool : Pool) (start : UInt8) :
    (withParts config pool (.startingAt start)).Seated [] := by
  refine ⟨⟨[], Leases.lends_startingAt start⟩, fun {index} leased => ?_⟩
  have none := ((Leases.lends_startingAt start).leased index).mp leased
  cases none

/-! ## Between operations -/

theorem Seated.isLeased_iff (h : e.Seated []) (sound : e.Sound) (index : UInt8) :
    e.leases.isLeased index = true ↔ (e.slot index).isSome := by
  constructor
  · intro leased
    exact (h.seated leased).resolve_right List.not_mem_nil
  · intro occupied
    obtain ⟨t, slot⟩ := Option.isSome_iff_exists.mp occupied
    exact sound.leased slot

theorem Seated.inFlight_eq (h : e.Seated []) (sound : e.Sound) : e.inFlight = e.occupied := by
  obtain ⟨out, lends⟩ := h.tidy
  have same : out.Perm (Leases.indices.filter fun index => (e.slot index).any fun _ => true) := by
    refine (List.perm_ext_iff_of_nodup lends.distinct (Leases.nodup_indices.filter _)).mpr
      fun index => ?_
    rw [← lends.leased, h.isLeased_iff sound, List.mem_filter, and_iff_right (Leases.mem_indices _)]
    cases e.slot index <;> rfl
  rw [inFlight, lends.counted, same.length_eq, occupied_eq_census, census_eq_length]

theorem Seated.inFlight_le (h : e.Seated loose) : e.inFlight ≤ 256 := by
  obtain ⟨out, lends⟩ := h.tidy
  exact lends.count_le

end Engine

end Fieldbus
