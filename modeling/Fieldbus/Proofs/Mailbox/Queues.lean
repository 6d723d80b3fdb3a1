import Fieldbus.Mailbox.Queues
import Fieldbus.Proofs.Buffer.Queue
import Mathlib.Data.List.Count
import Mathlib.Data.List.Perm.Basic
import Mathlib.Logic.Function.Basic

/-!
# Protocol queues as lists

Sound queues are known by `ProtocolQueues.entries`, one list for each protocol. An operation puts
another list in the place of one of them and leaves the others alone.
-/

namespace Fieldbus.ProtocolQueues

open BufferQueue (indices)

/-- Every queue spells its list and has a place for each index below `capacity`. -/
structure Sound (q : ProtocolQueues) (capacity : Nat) : Prop where
  holds : ∀ p, (q.queue p).Holds (q.entries p)
  capacity : ∀ p, (q.queue p).capacity = capacity

def everything (q : ProtocolQueues) : List Buffer := Protocol.all.flatMap q.entries

theorem mem_everything {q : ProtocolQueues} {b : Buffer} :
    b ∈ q.everything ↔ ∃ p, b ∈ q.entries p := by
  simp [everything, Protocol.mem_all]

theorem mem_indices_everything {q : ProtocolQueues} {i : Nat} :
    i ∈ indices q.everything ↔ ∃ p, i ∈ indices (q.entries p) := by
  constructor
  · intro h
    obtain ⟨b, hb, rfl⟩ := List.mem_map.mp h
    obtain ⟨p, hp⟩ := mem_everything.mp hb
    exact ⟨p, List.mem_map_of_mem hp⟩
  · rintro ⟨p, h⟩
    obtain ⟨b, hb, rfl⟩ := List.mem_map.mp h
    exact List.mem_map_of_mem (mem_everything.mpr ⟨p, hb⟩)

theorem everything_perm {q q' : ProtocolQueues} {p : Protocol} {bs : List Buffer}
    (h : q'.entries = Function.update q.entries p bs) :
    (q'.everything ++ q.entries p).Perm (q.everything ++ bs) := by
  classical
  rw [List.perm_iff_count]
  intro b
  cases p <;>
    simp [everything, Protocol.all, h, Function.update] <;> omega

structure Becomes (q : ProtocolQueues) (capacity : Nat) (p : Protocol) (bs : List Buffer)
    (q' : ProtocolQueues) : Prop where
  sound : q'.Sound capacity
  entries : q'.entries = Function.update q.entries p bs

theorem Becomes.mem_everything {q q' : ProtocolQueues} {capacity : Nat} {p : Protocol}
    {bs : List Buffer} (h : q.Becomes capacity p bs q') {b : Buffer} (mem : b ∈ q'.everything) :
    b ∈ bs ∨ b ∈ q.everything := by
  obtain ⟨other, hb⟩ := ProtocolQueues.mem_everything.mp mem
  rw [h.entries, Function.update_apply] at hb
  split at hb
  · exact .inl hb
  · exact .inr (ProtocolQueues.mem_everything.mpr ⟨other, hb⟩)

theorem Becomes.count {q q' : ProtocolQueues} {capacity : Nat} {p : Protocol}
    {bs : List Buffer} (h : q.Becomes capacity p bs q') (i : Nat) :
    (indices q'.everything).count i + (indices (q.entries p)).count i =
      (indices q.everything).count i + (indices bs).count i := by
  simpa [indices] using ((everything_perm h.entries).map Buffer.index).count_eq i

theorem becomes_setQueue {q : ProtocolQueues} {capacity : Nat} (h : q.Sound capacity)
    (p : Protocol) {queue : BufferQueue} {bs : List Buffer} (holds : queue.Holds bs)
    (cap : queue.capacity = (q.queue p).capacity) :
    q.Becomes capacity p bs (q.setQueue p queue) := by
  have entries (other : Protocol) : (q.setQueue p queue).entries other =
      if p = other then bs else q.entries other := by
    unfold ProtocolQueues.entries
    rw [queue_setQueue]
    split
    · exact holds.toList
    · rfl
  refine ⟨⟨?_, ?_⟩, ?_⟩
  · intro other
    rw [entries, queue_setQueue]
    split
    · exact holds
    · exact h.holds other
  · intro other
    rw [queue_setQueue]
    split
    · exact cap.trans (h.capacity p)
    · exact h.capacity other
  · funext other
    rw [entries, Function.update_apply]
    simp only [eq_comm]

theorem Sound.pushBack? {q : ProtocolQueues} {capacity : Nat} (h : q.Sound capacity)
    (p : Protocol) {b : Buffer} (bound : b.index < capacity)
    (fresh : b.index ∉ indices (q.entries p)) :
    ∃ q', q.pushBack? p b = some q' ∧ q.Becomes capacity p (q.entries p ++ [b]) q' := by
  obtain ⟨queue, push, holds, cap⟩ :=
    (h.holds p).pushBack? (by rw [h.capacity]; exact bound) fresh
  exact ⟨_, by rw [ProtocolQueues.pushBack?, push]; rfl, becomes_setQueue h p holds cap⟩

theorem Sound.pushFront? {q : ProtocolQueues} {capacity : Nat} (h : q.Sound capacity)
    (p : Protocol) {b : Buffer} (bound : b.index < capacity)
    (fresh : b.index ∉ indices (q.entries p)) :
    ∃ q', q.pushFront? p b = some q' ∧ q.Becomes capacity p (b :: q.entries p) q' := by
  obtain ⟨queue, push, holds, cap⟩ :=
    (h.holds p).pushFront? (by rw [h.capacity]; exact bound) fresh
  exact ⟨_, by rw [ProtocolQueues.pushFront?, push]; rfl, becomes_setQueue h p holds cap⟩

theorem Sound.pop? {q q' : ProtocolQueues} {capacity : Nat} (h : q.Sound capacity)
    {p : Protocol} {b : Buffer} (pop : q.pop? p = some (b, q')) :
    ∃ rest, q.entries p = b :: rest ∧ q.Becomes capacity p rest q' := by
  cases hentries : q.entries p with
  | nil =>
      have none := (hentries ▸ h.holds p).popFront?_nil
      simp [ProtocolQueues.pop?, none] at pop
  | cons c rest =>
      obtain ⟨queue, front, holds, cap⟩ := (hentries ▸ h.holds p).popFront?
      simp only [ProtocolQueues.pop?, front, Option.map_some, Option.some.injEq,
        Prod.mk.injEq] at pop
      obtain ⟨rfl, rfl⟩ := pop
      exact ⟨rest, rfl, becomes_setQueue h p holds cap⟩

theorem Sound.next? {q q' : ProtocolQueues} {capacity : Nat} (h : q.Sound capacity)
    {order : List Protocol} {p : Protocol} {b : Buffer}
    (next : q.next? order = some (p, b, q')) :
    ∃ rest, q.entries p = b :: rest ∧ q.Becomes capacity p rest q' := by
  obtain ⟨front, -, taken⟩ := Option.bind_eq_some_iff.mp next
  obtain ⟨⟨c, rest⟩, pop, eq⟩ := Option.map_eq_some_iff.mp taken
  simp only [Prod.mk.injEq] at eq
  obtain ⟨rfl, rfl, rfl⟩ := eq
  exact h.pop? pop

theorem Sound.remove? {q q' : ProtocolQueues} {capacity : Nat} (h : q.Sound capacity)
    {i : Nat} {p : Protocol} {b : Buffer} (remove : q.remove? i = some (p, b, q')) :
    ∃ before after, q.entries p = before ++ b :: after ∧ b.index = i ∧
      q.Becomes capacity p (before ++ after) q' := by
  obtain ⟨other, -, found⟩ := List.exists_of_findSome?_eq_some remove
  obtain ⟨⟨c, queue⟩, removed, eq⟩ := Option.map_eq_some_iff.mp found
  simp only [Prod.mk.injEq] at eq
  obtain ⟨rfl, rfl, rfl⟩ := eq
  by_cases mem : i ∈ indices (q.entries other)
  · obtain ⟨d, hd, rfl⟩ := List.mem_map.mp mem
    obtain ⟨before, after, split⟩ := List.append_of_mem hd
    obtain ⟨queue', again, holds, cap⟩ :=
      BufferQueue.Holds.remove? before after (split ▸ h.holds other)
    rw [removed] at again
    simp only [Option.some.injEq, Prod.mk.injEq] at again
    obtain ⟨rfl, rfl⟩ := again
    exact ⟨before, after, split, rfl, becomes_setQueue h other holds cap⟩
  · rw [(h.holds other).remove?_eq_none mem] at removed
    simp at removed

theorem Sound.remove?_eq_none_iff {q : ProtocolQueues} {capacity : Nat} (h : q.Sound capacity)
    {i : Nat} : q.remove? i = none ↔ i ∉ indices q.everything := by
  rw [ProtocolQueues.remove?, List.findSome?_eq_none_iff, mem_indices_everything, not_exists]
  simp only [Protocol.mem_all, forall_const, Option.map_eq_none_iff]
  refine forall_congr' fun p => ⟨fun none mem => ?_, (h.holds p).remove?_eq_none⟩
  obtain ⟨b, hb, rfl⟩ := List.mem_map.mp mem
  obtain ⟨before, after, split⟩ := List.append_of_mem hb
  obtain ⟨queue, removed, -⟩ := BufferQueue.Holds.remove? before after (split ▸ h.holds p)
  simp [none] at removed

theorem queue_empty (capacity : Nat) (p : Protocol) :
    (empty capacity).queue p = BufferQueue.empty capacity := by
  simp [ProtocolQueues.queue, ProtocolQueues.empty]

@[simp] theorem entries_empty (capacity : Nat) (p : Protocol) :
    (empty capacity).entries p = [] := by
  rw [ProtocolQueues.entries, queue_empty]
  exact (BufferQueue.holds_empty capacity).toList

theorem sound_empty (capacity : Nat) : (empty capacity).Sound capacity where
  holds p := by
    rw [entries_empty, queue_empty]
    exact BufferQueue.holds_empty capacity
  capacity p := by rw [queue_empty, BufferQueue.capacity_empty]

@[simp] theorem everything_empty (capacity : Nat) : (empty capacity).everything = [] := by
  simp [everything]

end Fieldbus.ProtocolQueues
