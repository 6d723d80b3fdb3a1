import Fieldbus.Proofs.Buffer.Pool
import Fieldbus.Proofs.Mailbox.Queues
import Mathlib.Data.List.Pairwise

/-!
# Where the buffers are

Every buffer of an open pool is in one place: it is idle in the pool, in the hands of somebody, or
queued. Buffers change hands by the few transfers below.
-/

namespace Fieldbus

open BufferQueue (indices)
open Pool (perm_range_iff)

/-- The places of the buffers of an open pool of which `held` are in somebody's hands. -/
structure Stock (pool : Pool) (queues : ProtocolQueues) (held : List Buffer) : Prop where
  opened : pool.closed = false
  sound : pool.Sound
  queued : queues.Sound pool.capacity
  owned : ∀ b ∈ held ++ queues.everything, b.pool = pool.id
  once : (indices (pool.idle ++ held ++ queues.everything)).Perm (List.range pool.capacity)

namespace Stock

variable {pool : Pool} {queues : ProtocolQueues} {held : List Buffer}

theorem lends (h : Stock pool queues held) : pool.Lends (held ++ queues.everything) := by
  refine ⟨h.opened, h.sound, h.owned, ?_⟩
  rw [← List.append_assoc]
  exact h.once

theorem of_lends (h : pool.Lends (held ++ queues.everything))
    (queued : queues.Sound pool.capacity) : Stock pool queues held := by
  refine ⟨h.opened, h.sound, queued, h.owned, ?_⟩
  rw [List.append_assoc]
  exact h.once

theorem count (h : Stock pool queues held) (i : Nat) :
    (indices pool.idle).count i + (indices held).count i +
      (indices queues.everything).count i = if i < pool.capacity then 1 else 0 := by
  rw [← h.lends.count i, indices, indices, indices, indices, List.map_append, List.count_append,
    Nat.add_assoc]

theorem regrip {held' : List Buffer} (h : Stock pool queues held)
    (same : (indices held').Perm (indices held)) (owned : ∀ b ∈ held', b.pool = pool.id) :
    Stock pool queues held' := by
  refine of_lends (h.lends.regrip ?_ fun b hb => ?_) h.queued
  · rw [indices, indices, List.map_append, List.map_append]
    exact same.append_right _
  · rcases List.mem_append.mp hb with hb | hb
    · exact owned b hb
    · exact h.owned b (List.mem_append_right held hb)

theorem change {b c : Buffer} (h : Stock pool queues (b :: held)) (index : c.index = b.index)
    (owner : c.pool = b.pool) : Stock pool queues (c :: held) :=
  of_lends (h.lends.change index owner) h.queued

theorem bound {b : Buffer} (h : Stock pool queues (b :: held)) : b.index < pool.capacity :=
  h.lends.bound

theorem not_mem_idle {b : Buffer} (h : Stock pool queues (b :: held)) :
    b.index ∉ indices pool.idle :=
  h.lends.not_mem_idle

theorem not_mem_everything {b : Buffer} (h : Stock pool queues (b :: held)) :
    b.index ∉ indices queues.everything := by
  intro mem
  have count := h.count b.index
  have pos := List.count_pos_iff.mpr mem
  simp only [indices, List.map_cons, List.count_cons_self] at count pos
  split at count <;> omega

theorem fresh {b : Buffer} (h : Stock pool queues (b :: held)) (p : Protocol) :
    b.index ∉ indices (queues.entries p) := fun mem =>
  h.not_mem_everything (ProtocolQueues.mem_indices_everything.mpr ⟨p, mem⟩)

theorem nodup_everything (h : Stock pool queues held) : (indices queues.everything).Nodup := by
  have nodup := h.lends.distinct
  rw [indices, List.map_append] at nodup
  exact nodup.of_append_right

theorem queue_unique (h : Stock pool queues held) {p q : Protocol} {i : Nat}
    (hp : i ∈ indices (queues.entries p)) (hq : i ∈ indices (queues.entries q)) : p = q := by
  by_contra ne
  have nodup : (Protocol.all.flatMap fun p => indices (queues.entries p)).Nodup := by
    simpa [ProtocolQueues.everything, indices, List.map_flatMap] using h.nodup_everything
  have apart := (List.nodup_flatMap.mp nodup).2
  have symmetric : Std.Symm (Function.onFun List.Disjoint fun p => indices (queues.entries p)) :=
    ⟨fun _ _ => List.disjoint_symm⟩
  exact apart.forall (Protocol.mem_all p) (Protocol.mem_all q) ne hp hq

/-! ## Transfers -/

theorem take {b : Buffer} {pool' : Pool} (h : Stock pool queues held)
    (take : pool.take? = .ok (b, pool')) : Stock pool' queues (b :: held) := by
  obtain ⟨-, -, -, capacity, -⟩ := h.sound.take? take
  exact of_lends (h.lends.take take) (capacity ▸ h.queued)

theorem put {b : Buffer} (h : Stock pool queues (b :: held)) :
    Stock (pool.put b) queues held := by
  obtain ⟨-, -, -, capacity, -⟩ :=
    h.sound.put h.opened (h.owned b List.mem_cons_self) h.bound h.not_mem_idle
  exact of_lends h.lends.put (capacity ▸ h.queued)

theorem returned {bs : List Buffer} (h : Stock pool queues (bs ++ held)) :
    ∃ pool', Stock pool' queues held := by
  induction bs generalizing pool with
  | nil => exact ⟨pool, h⟩
  | cons b bs ih => exact ih (put h)

theorem count_dequeue {p : Protocol} {before after : List Buffer} {b : Buffer}
    {queues' : ProtocolQueues} (entries : queues.entries p = before ++ b :: after)
    (becomes : queues.Becomes pool.capacity p (before ++ after) queues') (i : Nat) :
    (indices queues.everything).count i =
      (indices queues'.everything).count i + if b.index = i then 1 else 0 := by
  have counted := becomes.count i
  rw [entries] at counted
  simp only [indices, List.map_append, List.map_cons, List.count_append, List.count_cons,
    beq_iff_eq] at counted ⊢
  omega

theorem dequeue {p : Protocol} {before after : List Buffer} {b : Buffer}
    {queues' : ProtocolQueues} (h : Stock pool queues held)
    (entries : queues.entries p = before ++ b :: after)
    (becomes : queues.Becomes pool.capacity p (before ++ after) queues') :
    Stock pool queues' (b :: held) := by
  have mem : b ∈ queues.everything := ProtocolQueues.mem_everything.mpr ⟨p, by simp [entries]⟩
  constructor
  case opened => exact h.opened
  case sound => exact h.sound
  case queued => exact becomes.sound
  case owned =>
    intro c hc
    rcases List.mem_append.mp hc with hc | hc
    · rcases List.mem_cons.mp hc with rfl | hc
      · exact h.owned c (List.mem_append_right held mem)
      · exact h.owned c (List.mem_append_left _ hc)
    · refine h.owned c (List.mem_append_right held ?_)
      rcases becomes.mem_everything hc with hc | hc
      · refine ProtocolQueues.mem_everything.mpr ⟨p, ?_⟩
        rw [entries]
        rcases List.mem_append.mp hc with hc | hc <;> simp [hc]
      · exact hc
  case once =>
    refine perm_range_iff.mpr fun i => Eq.trans ?_ (h.count i)
    have more := count_dequeue entries becomes i
    simp only [indices, List.map_append, List.map_cons, List.count_append, List.count_cons,
      beq_iff_eq] at more ⊢
    omega

theorem mem_dequeue {p : Protocol} {before after : List Buffer} {b : Buffer}
    {queues' : ProtocolQueues} (h : Stock pool queues held)
    (entries : queues.entries p = before ++ b :: after)
    (becomes : queues.Becomes pool.capacity p (before ++ after) queues') (q : Protocol)
    (c : Buffer) : c ∈ queues'.entries q ↔ c ∈ queues.entries q ∧ c.index ≠ b.index := by
  constructor
  · intro mem
    constructor
    · rw [becomes.entries, Function.update_apply] at mem
      split at mem
      case isTrue here =>
        rw [here, entries]
        rcases List.mem_append.mp mem with mem | mem <;> simp [mem]
      case isFalse => exact mem
    · intro same
      have gone := (h.dequeue entries becomes).fresh q
      rw [← same] at gone
      exact gone (List.mem_map_of_mem mem)
  · rintro ⟨mem, other⟩
    rw [becomes.entries, Function.update_apply]
    split
    case isTrue here =>
      rw [here, entries, List.mem_append, List.mem_cons] at mem
      rcases mem with mem | rfl | mem
      · exact List.mem_append_left _ mem
      · exact absurd rfl other
      · exact List.mem_append_right _ mem
    case isFalse => exact mem

theorem count_enqueue {p : Protocol} {b : Buffer} {bs : List Buffer} {queues' : ProtocolQueues}
    (perm : bs.Perm (b :: queues.entries p)) (becomes : queues.Becomes pool.capacity p bs queues')
    (i : Nat) :
    (indices queues'.everything).count i =
      (indices queues.everything).count i + if b.index = i then 1 else 0 := by
  have counted := becomes.count i
  have same := (perm.map Buffer.index).count_eq i
  simp only [indices, List.map_cons, List.count_cons, beq_iff_eq] at counted same ⊢
  omega

theorem enqueue {p : Protocol} {b : Buffer} {bs : List Buffer} {queues' : ProtocolQueues}
    (h : Stock pool queues (b :: held)) (perm : bs.Perm (b :: queues.entries p))
    (becomes : queues.Becomes pool.capacity p bs queues') : Stock pool queues' held := by
  constructor
  case opened => exact h.opened
  case sound => exact h.sound
  case queued => exact becomes.sound
  case owned =>
    intro c hc
    rcases List.mem_append.mp hc with hc | hc
    · exact h.owned c (by simp [hc])
    · rcases becomes.mem_everything hc with hc | hc
      · rcases List.mem_cons.mp (perm.mem_iff.mp hc) with rfl | hc
        · exact h.owned c (by simp)
        · exact h.owned c (by simp [ProtocolQueues.mem_everything.mpr ⟨p, hc⟩])
      · exact h.owned c (by simp [hc])
  case once =>
    refine perm_range_iff.mpr fun i => Eq.trans ?_ (h.count i)
    have more := count_enqueue perm becomes i
    simp only [indices, List.map_append, List.map_cons, List.count_append, List.count_cons,
      beq_iff_eq] at more ⊢
    omega

theorem pushBack? {b : Buffer} (h : Stock pool queues (b :: held)) (p : Protocol) :
    ∃ queues', queues.pushBack? p b = some queues' ∧
      queues.Becomes pool.capacity p (queues.entries p ++ [b]) queues' ∧
      Stock pool queues' held := by
  obtain ⟨queues', push, becomes⟩ := h.queued.pushBack? p h.bound (h.fresh p)
  exact ⟨queues', push, becomes, h.enqueue (List.perm_append_singleton b _) becomes⟩

theorem pushFront? {b : Buffer} (h : Stock pool queues (b :: held)) (p : Protocol) :
    ∃ queues', queues.pushFront? p b = some queues' ∧
      queues.Becomes pool.capacity p (b :: queues.entries p) queues' ∧
      Stock pool queues' held := by
  obtain ⟨queues', push, becomes⟩ := h.queued.pushFront? p h.bound (h.fresh p)
  exact ⟨queues', push, becomes, h.enqueue (.refl _) becomes⟩

end Stock

theorem stock_openWith (id capacity bufferSize : Nat) :
    Stock (.openWith id capacity bufferSize) (.empty capacity) [] := by
  refine Stock.of_lends ?_ (ProtocolQueues.sound_empty capacity)
  simpa using Pool.lends_openWith id capacity bufferSize

end Fieldbus
