import Fieldbus.Buffer.Pool
import Fieldbus.Proofs.Buffer.Queue

/-!
# Pools as lists

A sound pool is known by `Pool.idle`, the list of the buffers it has to give. Taking a buffer takes
the first of them, and a buffer that comes back becomes the last or the first. Together with the
buffers that are out these are all the buffers there are.
-/

namespace Fieldbus

@[simp] theorem Buffer.retire_index (b : Buffer) : b.retire.index = b.index := rfl

@[simp] theorem Buffer.retire_pool (b : Buffer) : b.retire.pool = b.pool := rfl

namespace Pool

open BufferQueue (indices)

/-- The buffers that the pool has to give, the next one first. -/
def idle (p : Pool) : List Buffer := p.free.toList

structure Sound (p : Pool) : Prop where
  holds : p.free.Holds p.idle
  capacity : p.free.capacity = p.capacity
  owned : ∀ b ∈ p.idle, b.pool = p.id

theorem Sound.available {p : Pool} (h : p.Sound) : p.available = p.idle.length := h.holds.length

theorem capacity_take {p p' : Pool} {b : Buffer} (take : p.take? = .ok (b, p')) :
    p'.capacity = p.capacity := by
  unfold take? at take
  split at take
  · cases take
  · split at take <;> cases take
    rfl

theorem capacity_put (p : Pool) (b : Buffer) : (p.put b).capacity = p.capacity := by
  unfold put offer giveBack
  split
  · split
    · rfl
    · split <;> rfl
  · rfl

theorem idle_of_holds {p : Pool} {free : BufferQueue} {bs : List Buffer} (h : free.Holds bs) :
    ({ p with free } : Pool).idle = bs := h.toList

theorem Sound.with_free {p : Pool} {free : BufferQueue} {bs : List Buffer} (h : free.Holds bs)
    (capacity : free.capacity = p.capacity) (owned : ∀ b ∈ bs, b.pool = p.id) :
    ({ p with free } : Pool).Sound := by
  have idle : ({ p with free } : Pool).idle = bs := h.toList
  exact ⟨by rw [idle]; exact h, capacity, by rw [idle]; exact owned⟩

theorem Sound.take? {p p' : Pool} {b : Buffer} (h : p.Sound) (take : p.take? = .ok (b, p')) :
    p'.Sound ∧ p.idle = b :: p'.idle ∧ p'.id = p.id ∧ p'.capacity = p.capacity ∧
      p'.closed = p.closed := by
  unfold Pool.take? at take
  split at take
  · simp at take
  · cases hidle : p.idle with
    | nil =>
        have none := (hidle ▸ h.holds).popFront?_nil
        simp [none] at take
    | cons c rest =>
        obtain ⟨free, pop, holds, cap⟩ := (hidle ▸ h.holds).popFront?
        simp only [pop, Except.ok.injEq, Prod.mk.injEq] at take
        obtain ⟨rfl, rfl⟩ := take
        refine ⟨.with_free holds (cap.trans h.capacity) fun d hd => h.owned d ?_, ?_, rfl, rfl, rfl⟩
        · simp [hidle, hd]
        · rw [idle_of_holds holds]

theorem Sound.take?_ok {p : Pool} {b : Buffer} {rest : List Buffer} (h : p.Sound)
    (opened : p.closed = false) (idle : p.idle = b :: rest) : ∃ p', p.take? = .ok (b, p') := by
  obtain ⟨free, pop, -, -⟩ := (idle ▸ h.holds).popFront?
  exact ⟨{ p with free }, by simp [Pool.take?, opened, pop]⟩

theorem put_closed {p : Pool} (b : Buffer) (closed : p.closed = true) : p.put b = p := by
  unfold put offer giveBack
  simp only [closed, if_true]
  split <;> rfl

theorem Sound.giveBack {p : Pool} {b : Buffer} {push : BufferQueue → Buffer → Option BufferQueue}
    {free : BufferQueue} {bs : List Buffer} (h : p.Sound) (opened : p.closed = false)
    (owned : b.pool = p.id) (pushed : push p.free b.retire = some free) (holds : free.Holds bs)
    (capacity : free.capacity = p.free.capacity) (grown : bs.Perm (b.retire :: p.idle)) :
    p.giveBack push b = (.accepted, { p with free }) ∧ ({ p with free } : Pool).Sound ∧
      ({ p with free } : Pool).idle = bs := by
  refine ⟨?_, .with_free holds (capacity.trans h.capacity) ?_, idle_of_holds holds⟩
  · simp [Pool.giveBack, Pool.owns, owned, opened, pushed]
  · intro c hc
    rcases List.mem_cons.mp (grown.mem_iff.mp hc) with rfl | hc
    · exact owned
    · exact h.owned c hc

theorem Sound.put {p : Pool} {b : Buffer} (h : p.Sound) (opened : p.closed = false)
    (owned : b.pool = p.id) (bound : b.index < p.capacity) (fresh : b.index ∉ indices p.idle) :
    (p.put b).Sound ∧ (p.put b).idle = p.idle ++ [b.retire] ∧ (p.put b).id = p.id ∧
      (p.put b).capacity = p.capacity ∧ (p.put b).closed = p.closed := by
  obtain ⟨free, push, holds, cap⟩ :=
    h.holds.pushBack? (b := b.retire) (by simpa [h.capacity] using bound) (by simpa using fresh)
  obtain ⟨back, sound, idle⟩ :=
    h.giveBack opened owned push holds cap (List.perm_append_singleton _ _)
  have put : p.put b = { p with free } := by rw [Pool.put, Pool.offer, back]
  rw [put]
  exact ⟨sound, idle, rfl, rfl, rfl⟩

theorem Sound.putFront {p : Pool} {b : Buffer} (h : p.Sound) (opened : p.closed = false)
    (owned : b.pool = p.id) (bound : b.index < p.capacity) (fresh : b.index ∉ indices p.idle) :
    (p.putFront b).Sound ∧ (p.putFront b).idle = b.retire :: p.idle ∧ (p.putFront b).id = p.id ∧
      (p.putFront b).capacity = p.capacity ∧ (p.putFront b).closed = p.closed := by
  obtain ⟨free, push, holds, cap⟩ :=
    h.holds.pushFront? (b := b.retire) (by simpa [h.capacity] using bound) (by simpa using fresh)
  obtain ⟨back, sound, idle⟩ := h.giveBack opened owned push holds cap (List.Perm.refl _)
  have put : p.putFront b = { p with free } := by rw [Pool.putFront, back]
  rw [put]
  exact ⟨sound, idle, rfl, rfl, rfl⟩

theorem Sound.remove? {p : Pool} {b : Buffer} (h : p.Sound) (before after : List Buffer)
    (idle : p.idle = before ++ b :: after) :
    ∃ p', p.remove? b.index = some (b, p') ∧ p'.Sound ∧ p'.idle = before ++ after ∧
      p'.id = p.id ∧ p'.capacity = p.capacity ∧ p'.closed = p.closed := by
  obtain ⟨free, removed, holds, cap⟩ := (idle ▸ h.holds).remove? before after
  refine ⟨{ p with free }, by simp [Pool.remove?, removed], ?_, idle_of_holds holds, rfl, rfl, rfl⟩
  refine .with_free holds (cap.trans h.capacity) fun c hc => h.owned c ?_
  rw [idle, List.mem_append, List.mem_cons]
  rcases List.mem_append.mp hc with hc | hc
  · exact .inl hc
  · exact .inr (.inr hc)

theorem Sound.remove?_eq_none {p : Pool} {i : Nat} (h : p.Sound) (absent : i ∉ indices p.idle) :
    p.remove? i = none := by
  rw [Pool.remove?, h.holds.remove?_eq_none absent, Option.map_none]

theorem Sound.of_remove? {p p' : Pool} {b : Buffer} {i : Nat} (h : p.Sound)
    (removed : p.remove? i = some (b, p')) : p'.Sound ∧ p.idle.Perm (b :: p'.idle) ∧
      p'.id = p.id ∧ p'.capacity = p.capacity ∧ p'.closed = p.closed := by
  have here : i ∈ indices p.idle := by
    refine Decidable.byContradiction fun absent => ?_
    rw [h.remove?_eq_none absent] at removed
    cases removed
  obtain ⟨c, idle, rfl⟩ := List.mem_map.mp here
  obtain ⟨before, after, split⟩ := List.append_of_mem idle
  obtain ⟨p'', taken, sound, left, rest⟩ := h.remove? before after split
  rw [removed, Option.some.injEq, Prod.mk.injEq] at taken
  obtain ⟨rfl, rfl⟩ := taken
  refine ⟨sound, ?_, rest⟩
  rw [split, left]
  exact List.perm_middle

theorem stock_holds (id capacity bufferSize : Nat) :
    (stock id capacity bufferSize).Holds
      ((List.range capacity).map fun i => Buffer.fresh id i bufferSize) ∧
    (stock id capacity bufferSize).capacity = capacity := by
  suffices fill : ∀ n ≤ capacity,
      let q := (List.range n).foldl
        (fun q index => (q.pushBack? (Buffer.fresh id index bufferSize)).getD q)
        (BufferQueue.empty capacity)
      q.Holds ((List.range n).map fun i => Buffer.fresh id i bufferSize) ∧
        q.capacity = capacity from fill capacity (Nat.le_refl _)
  intro n hn
  induction n with
  | zero => exact ⟨BufferQueue.holds_empty capacity, BufferQueue.capacity_empty capacity⟩
  | succ n ih =>
      obtain ⟨holds, cap⟩ := ih (by omega)
      obtain ⟨q', push, holds', cap'⟩ := holds.pushBack?
        (b := Buffer.fresh id n bufferSize) (by rw [cap]; exact hn)
        (by simp [indices, Buffer.fresh])
      simp only [List.range_succ, List.foldl_append, List.foldl_cons, List.foldl_nil, push,
        Option.getD_some, List.map_append, List.map_cons, List.map_nil]
      exact ⟨holds', cap'.trans cap⟩

theorem sound_openWith (id capacity bufferSize : Nat) : (openWith id capacity bufferSize).Sound ∧
    (openWith id capacity bufferSize).idle =
      (List.range capacity).map fun i => Buffer.fresh id i bufferSize := by
  obtain ⟨holds, cap⟩ := stock_holds id capacity bufferSize
  have idle := holds.toList
  refine ⟨⟨?_, cap, ?_⟩, idle⟩
  · exact (congrArg _ idle).mpr holds
  · intro b hb
    rw [Pool.idle, openWith] at hb
    obtain ⟨i, -, rfl⟩ := List.mem_map.mp (idle ▸ hb)
    rfl

/-! ## Buffers out of the pool -/

theorem perm_range_iff {l : List Nat} {n : Nat} :
    l.Perm (List.range n) ↔ ∀ i, l.count i = if i < n then 1 else 0 := by
  rw [List.perm_iff_count]
  refine forall_congr' fun i => ?_
  rw [(List.nodup_range (n := n)).count]
  simp

/-- Every buffer of an open pool is in one place: it is idle, or it is one of those that are
out. -/
structure Lends (p : Pool) (out : List Buffer) : Prop where
  opened : p.closed = false
  sound : p.Sound
  owned : ∀ b ∈ out, b.pool = p.id
  once : (indices (p.idle ++ out)).Perm (List.range p.capacity)

namespace Lends

variable {p p' : Pool} {b c : Buffer} {out out' : List Buffer}

theorem count (h : p.Lends out) (i : Nat) :
    (indices p.idle).count i + (indices out).count i = if i < p.capacity then 1 else 0 := by
  rw [← perm_range_iff.mp h.once i, indices, indices, indices, List.map_append,
    List.count_append]

theorem distinct (h : p.Lends out) : (indices out).Nodup := by
  have nodup := h.once.nodup_iff.mpr List.nodup_range
  rw [indices, List.map_append] at nodup
  exact nodup.of_append_right

theorem bound (h : p.Lends (b :: out)) : b.index < p.capacity := by
  have count := h.count b.index
  simp only [indices, List.map_cons, List.count_cons_self] at count
  split at count <;> omega

theorem not_mem_idle (h : p.Lends (b :: out)) : b.index ∉ indices p.idle := by
  intro mem
  have count := h.count b.index
  have pos := List.count_pos_iff.mpr mem
  simp only [indices, List.map_cons, List.count_cons_self] at count pos
  split at count <;> omega

theorem available (h : p.Lends out) : p.available + out.length = p.capacity := by
  have total := h.once.length_eq
  rw [List.length_map, List.length_append, List.length_range] at total
  rw [h.sound.available, total]

theorem regrip (h : p.Lends out) (same : (indices out').Perm (indices out))
    (owned : ∀ b ∈ out', b.pool = p.id) : p.Lends out' where
  opened := h.opened
  sound := h.sound
  owned := owned
  once := by
    refine List.Perm.trans ?_ h.once
    rw [indices, indices, List.map_append, List.map_append]
    exact same.append_left _

theorem perm (h : p.Lends out) (same : out'.Perm out) : p.Lends out' :=
  h.regrip (same.map Buffer.index) fun b hb => h.owned b (same.subset hb)

theorem change (h : p.Lends (b :: out)) (index : c.index = b.index) (owner : c.pool = b.pool) :
    p.Lends (c :: out) := by
  refine h.regrip (by simp only [indices, List.map_cons, index, List.Perm.refl]) ?_
  intro d hd
  rcases List.mem_cons.mp hd with rfl | hd
  · exact owner.trans (h.owned b List.mem_cons_self)
  · exact h.owned d (List.mem_cons_of_mem b hd)

theorem lend (h : p.Lends out) (sound : p'.Sound) (idle : p.idle.Perm (b :: p'.idle))
    (id : p'.id = p.id) (capacity : p'.capacity = p.capacity) (closed : p'.closed = p.closed) :
    p'.Lends (b :: out) := by
  constructor
  case opened => exact closed.trans h.opened
  case sound => exact sound
  case owned =>
    intro c hc
    rw [id]
    rcases List.mem_cons.mp hc with rfl | hc
    · exact h.sound.owned c (idle.mem_iff.mpr List.mem_cons_self)
    · exact h.owned c hc
  case once =>
    rw [capacity]
    have moved : (p'.idle ++ b :: out).Perm (p.idle ++ out) :=
      List.perm_middle.trans (idle.symm.append_right out)
    exact (moved.map Buffer.index).trans h.once

theorem take (h : p.Lends out) (take : p.take? = .ok (b, p')) : p'.Lends (b :: out) := by
  obtain ⟨sound, idle, id, capacity, closed⟩ := h.sound.take? take
  exact h.lend sound (.of_eq idle) id capacity closed

theorem settle (h : p.Lends (b :: out)) (sound : p'.Sound)
    (idle : p'.idle.Perm (b.retire :: p.idle)) (id : p'.id = p.id)
    (capacity : p'.capacity = p.capacity) (closed : p'.closed = p.closed) : p'.Lends out := by
  constructor
  case opened => exact closed.trans h.opened
  case sound => exact sound
  case owned =>
    intro c hc
    exact (h.owned c (List.mem_cons_of_mem b hc)).trans id.symm
  case once =>
    rw [capacity]
    refine ((idle.append_right out).map Buffer.index).trans ?_
    refine List.Perm.trans ?_ h.once
    rw [indices, List.map_append, List.map_append, List.map_cons, Buffer.retire_index,
      List.map_cons]
    exact List.perm_middle.symm

theorem put (h : p.Lends (b :: out)) : (p.put b).Lends out := by
  obtain ⟨sound, idle, id, capacity, closed⟩ :=
    h.sound.put h.opened (h.owned b List.mem_cons_self) h.bound h.not_mem_idle
  exact h.settle sound (.trans (.of_eq idle) (List.perm_append_singleton _ _)) id capacity closed

theorem close (h : p.Lends out) : p.close.1 = out.length ∧ p.close.2.available = 0 := by
  have counted := h.available
  have drained := h.sound.holds.drain.2.1.length
  refine ⟨?_, drained⟩
  rw [Pool.close]
  change p.capacity - p.available = _
  omega

end Lends

theorem lends_openWith (id capacity bufferSize : Nat) :
    (openWith id capacity bufferSize).Lends [] := by
  obtain ⟨sound, idle⟩ := sound_openWith id capacity bufferSize
  constructor
  case opened => rfl
  case sound => exact sound
  case owned =>
    intro b hb
    cases hb
  case once =>
    rw [idle]
    simp [indices, Function.comp_def, Buffer.fresh, openWith]

end Pool

end Fieldbus
