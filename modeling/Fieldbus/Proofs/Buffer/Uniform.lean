import Fieldbus.Proofs.Buffer.Pool

/-!
# Buffers of one size

The buffers of a pool have the size that it was opened with. They keep it whoever takes them and
gives them back, as nobody can make a buffer longer or shorter, and a buffer that is taken and given
back is idle again.
-/

namespace Fieldbus

namespace BufferQueue

variable {q q' : BufferQueue} {bs : List Buffer} {b : Buffer}

theorem Holds.room_of_insert (h : q.Holds bs) {previous next : Option Nat}
    (joined : q.insertBetween? previous next b = some q') :
    b.index < q.capacity ∧ b.index ∉ indices bs := by
  refine Decidable.byContradiction fun refused => ?_
  rw [h.insertBetween?_eq_none previous next refused] at joined
  cases joined

theorem Holds.joined_back (h : q.Holds bs) (joined : q.pushBack? b = some q') :
    q'.Holds (bs ++ [b]) ∧ q'.capacity = q.capacity := by
  obtain ⟨bound, fresh⟩ := h.room_of_insert joined
  obtain ⟨q'', pushed, holds, capacity⟩ := h.pushBack? bound fresh
  rw [joined, Option.some.injEq] at pushed
  exact pushed ▸ ⟨holds, capacity⟩

theorem Holds.joined_front (h : q.Holds bs) (joined : q.pushFront? b = some q') :
    q'.Holds (b :: bs) ∧ q'.capacity = q.capacity := by
  obtain ⟨bound, fresh⟩ := h.room_of_insert joined
  obtain ⟨q'', pushed, holds, capacity⟩ := h.pushFront? bound fresh
  rw [joined, Option.some.injEq] at pushed
  exact pushed ▸ ⟨holds, capacity⟩

end BufferQueue

namespace Pool

open BufferQueue (indices)

variable {p p' : Pool} {b : Buffer} {n : Nat}

/-! ## What is idle -/

theorem Sound.bound (h : p.Sound) (idle : b ∈ p.idle) : b.index < p.capacity := by
  obtain ⟨node, here, -⟩ := h.holds.node_mem idle
  exact h.capacity ▸ BufferQueue.lt_capacity_of_node? here

theorem take?_error {cause : Error} (failed : p.take? = .error cause) :
    cause = .exhausted .poolBuffers := by
  unfold take? at failed
  split at failed
  · exact (Except.error.inj failed).symm
  · split at failed
    · exact (Except.error.inj failed).symm
    · cases failed

theorem Sound.take?_failed_iff (h : p.Sound) :
    (∃ cause, p.take? = .error cause) ↔ p.closed = true ∨ p.available = 0 := by
  rw [h.available]
  constructor
  · rintro ⟨cause, failed⟩
    cases opened : p.closed with
    | true => exact .inl rfl
    | false =>
        refine .inr (List.length_eq_zero_iff.mpr ?_)
        cases idle : p.idle with
        | nil => rfl
        | cons b rest =>
            obtain ⟨p', taken⟩ := h.take?_ok opened idle
            rw [taken] at failed
            cases failed
  · intro nothing
    cases taken : p.take? with
    | error cause => exact ⟨cause, rfl⟩
    | ok lent =>
        obtain ⟨b, p'⟩ := lent
        obtain ⟨-, idle, -, -, -⟩ := h.take? taken
        rcases nothing with closed | empty
        · rw [Pool.take?, if_pos closed] at taken
          cases taken
        · rw [idle] at empty
          cases empty

theorem Sound.available_returned (h : p.Sound) (take : p.take? = .ok (b, p')) :
    (p'.put b).available = p.available ∧ (p'.put b).closed = p.closed := by
  obtain ⟨sound, idle, id, capacity, closed⟩ := h.take? take
  have here : b ∈ p.idle := idle ▸ List.mem_cons_self
  have opened : p.closed = false := by
    cases shut : p.closed with
    | false => rfl
    | true =>
        obtain ⟨cause, failed⟩ := h.take?_failed_iff.mpr (.inl shut)
        rw [take] at failed
        cases failed
  have fresh : b.index ∉ indices p'.idle := by
    have distinct := h.holds.distinct
    rw [idle, indices, List.map_cons] at distinct
    exact (List.nodup_cons.mp distinct).1
  obtain ⟨sound', idle', -, -, closed'⟩ := sound.put (closed.trans opened)
    ((h.owned b here).trans id.symm) (capacity.symm ▸ h.bound here) fresh
  refine ⟨?_, closed'.trans closed⟩
  rw [sound'.available, idle', h.available, idle, List.length_append, List.length_singleton,
    List.length_cons]

/-! ## Sizes -/

/-- The pool hands out buffers of `n` bytes, and all that are idle have this size. -/
structure Uniform (n : Nat) (p : Pool) : Prop where
  sound : p.Sound
  size : p.bufferSize = n
  sized : ∀ b ∈ p.idle, b.capacity = n

theorem uniform_openWith (id capacity n : Nat) : (openWith id capacity n).Uniform n := by
  obtain ⟨sound, idle⟩ := sound_openWith id capacity n
  refine ⟨sound, rfl, fun b here => ?_⟩
  rw [idle] at here
  obtain ⟨i, -, rfl⟩ := List.mem_map.mp here
  exact Bytes.length_zeros n

theorem Uniform.with_free {free : BufferQueue} {bs : List Buffer} (h : p.Uniform n)
    (holds : free.Holds bs) (capacity : free.capacity = p.free.capacity)
    (owned : ∀ b ∈ bs, b.pool = p.id) (sized : ∀ b ∈ bs, b.capacity = n) :
    ({ p with free } : Pool).Uniform n := by
  refine ⟨.with_free holds (capacity.trans h.sound.capacity) owned, h.size, ?_⟩
  rw [idle_of_holds holds]
  exact sized

theorem Uniform.take? (h : p.Uniform n) (take : p.take? = .ok (b, p')) :
    p'.Uniform n ∧ b.capacity = n := by
  obtain ⟨sound, idle, -, -, -⟩ := h.sound.take? take
  have size : p'.bufferSize = p.bufferSize := by
    unfold Pool.take? at take
    split at take
    · cases take
    · split at take <;> cases take
      rfl
  refine ⟨⟨sound, size.trans h.size, fun c here => h.sized c ?_⟩, h.sized b ?_⟩
  · exact idle ▸ List.mem_cons_of_mem b here
  · exact idle ▸ List.mem_cons_self

theorem Uniform.giveBack {push : BufferQueue → Buffer → Option BufferQueue} (h : p.Uniform n)
    (size : b.pool = p.id → b.capacity = n)
    (joins : ∀ {free}, push p.free b.retire = some free →
      ∃ bs, free.Holds bs ∧ free.capacity = p.free.capacity ∧ bs.Perm (b.retire :: p.idle)) :
    (p.giveBack push b).2.Uniform n := by
  unfold Pool.giveBack
  split
  · rename_i own
    have owner : b.pool = p.id := by simpa [owns] using own
    split
    · exact h
    · split
      · exact h
      · rename_i free pushed
        obtain ⟨bs, holds, capacity, grown⟩ := joins pushed
        refine h.with_free holds capacity (fun c here => ?_) (fun c here => ?_)
        · rcases List.mem_cons.mp (grown.mem_iff.mp here) with rfl | idle
          · exact owner
          · exact h.sound.owned c idle
        · rcases List.mem_cons.mp (grown.mem_iff.mp here) with rfl | idle
          · exact size owner
          · exact h.sized c idle
  · exact h

theorem Uniform.put (h : p.Uniform n) (size : b.pool = p.id → b.capacity = n) :
    (p.put b).Uniform n := by
  refine h.giveBack size fun joined => ?_
  obtain ⟨holds, capacity⟩ := h.sound.holds.joined_back joined
  exact ⟨_, holds, capacity, List.perm_append_singleton _ _⟩

theorem Uniform.putFront (h : p.Uniform n) (size : b.pool = p.id → b.capacity = n) :
    (p.putFront b).Uniform n := by
  refine h.giveBack size fun joined => ?_
  obtain ⟨holds, capacity⟩ := h.sound.holds.joined_front joined
  exact ⟨_, holds, capacity, .refl _⟩

theorem Uniform.remove? {i : Nat} (h : p.Uniform n) (removed : p.remove? i = some (b, p')) :
    p'.Uniform n := by
  obtain ⟨sound, idle, -⟩ := h.sound.of_remove? removed
  have size : p'.bufferSize = p.bufferSize := by
    unfold Pool.remove? at removed
    obtain ⟨free, -, same⟩ := Option.map_eq_some_iff.mp removed
    cases same
    rfl
  exact ⟨sound, size.trans h.size, fun c here => h.sized c (idle.mem_iff.mpr (.tail _ here))⟩

theorem Uniform.close (h : p.Uniform n) : p.close.2.Uniform n := by
  obtain ⟨-, holds, capacity⟩ := h.sound.holds.drain
  have emptied : ({ p with free := p.free.drain.2 } : Pool).Uniform n :=
    h.with_free holds capacity (by simp) (by simp)
  exact ⟨⟨emptied.sound.holds, emptied.sound.capacity, emptied.sound.owned⟩, emptied.size,
    emptied.sized⟩

/-! ## What others do with a pool -/

/-- One call of a pool. Whoever has a buffer of the pool has one of its size. -/
inductive Used (p : Pool) : Pool → Prop
  | take {b : Buffer} {p' : Pool} (take : p.take? = .ok (b, p')) : Used p p'
  | remove {i : Nat} {b : Buffer} {p' : Pool} (removed : p.remove? i = some (b, p')) : Used p p'
  | put {b : Buffer} (size : b.pool = p.id → b.capacity = p.bufferSize) : Used p (p.put b)
  | putFront {b : Buffer} (size : b.pool = p.id → b.capacity = p.bufferSize) :
      Used p (p.putFront b)
  | close : Used p p.close.2

theorem Uniform.used (h : p.Uniform n) (use : p.Used p') : p'.Uniform n := by
  cases use with
  | take take => exact (h.take? take).1
  | remove removed => exact h.remove? removed
  | put size => exact h.put fun own => (size own).trans h.size
  | putFront size => exact h.putFront fun own => (size own).trans h.size
  | close => exact h.close

end Pool

end Fieldbus
