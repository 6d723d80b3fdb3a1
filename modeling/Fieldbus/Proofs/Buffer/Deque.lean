import Fieldbus.Proofs.Buffer.Queue

/-!
# Queues as double-ended queues

Any calls on a queue are answered as the same calls on a list of buffers with distinct indices
below the capacity, and the links of the queue spell that list in both directions.
-/

namespace Fieldbus.BufferQueue

def walkBack (q : BufferQueue) : Nat → Option Nat → List Buffer
  | 0, _ => []
  | _ + 1, none => []
  | fuel + 1, some index =>
      match q.node? index with
      | none => []
      | some node => node.buffer :: q.walkBack fuel node.previous

inductive Operation where
  | pushBack (b : Buffer)
  | pushFront (b : Buffer)
  | popFront
  | popBack
  | remove (index : Nat)
  | front
  | contains (index : Nat)
  | iterate
  | take (n : Nat)
  | drain
  deriving DecidableEq, Repr

inductive Answer where
  | linked
  | refused (b : Buffer)
  | buffer (b : Option Buffer)
  | buffers (bs : List Buffer)
  | member (known : Bool)
  deriving DecidableEq, Repr

/-! ## The same calls on a queue and on a list -/

def pushed (q : BufferQueue) (b : Buffer) : Option BufferQueue → Answer × BufferQueue
  | none => (.refused b, q)
  | some q => (.linked, q)

def popped (q : BufferQueue) : Option (Buffer × BufferQueue) → Answer × BufferQueue
  | none => (.buffer none, q)
  | some (b, q) => (.buffer (some b), q)

def apply (q : BufferQueue) : Operation → Answer × BufferQueue
  | .pushBack b => q.pushed b (q.pushBack? b)
  | .pushFront b => q.pushed b (q.pushFront? b)
  | .popFront => q.popped q.popFront?
  | .popBack => q.popped q.popBack?
  | .remove i => q.popped (q.remove? i)
  | .front => (.buffer q.front?, q)
  | .contains i => (.member (q.contains i), q)
  | .iterate => (.buffers q.toList, q)
  | .take n => (.buffers (popMany n q).1, (popMany n q).2)
  | .drain => (.buffers q.drain.1, q.drain.2)

/-- What the operation does to a list of which the indices stay below `capacity`. -/
def Operation.onList (capacity : Nat) (bs : List Buffer) : Operation → Answer × List Buffer
  | .pushBack b =>
      if b.index < capacity ∧ b.index ∉ indices bs then (.linked, bs ++ [b]) else (.refused b, bs)
  | .pushFront b =>
      if b.index < capacity ∧ b.index ∉ indices bs then (.linked, b :: bs) else (.refused b, bs)
  | .popFront => (.buffer bs.head?, bs.tail)
  | .popBack => (.buffer bs.getLast?, bs.dropLast)
  | .remove i => (.buffer (bs.find? (·.index == i)), bs.filter (·.index != i))
  | .front => (.buffer bs.head?, bs)
  | .contains i => (.member (i ∈ indices bs), bs)
  | .iterate => (.buffers bs, bs)
  | .take n => (.buffers (bs.take n), bs.drop n)
  | .drain => (.buffers bs, [])

def run (q : BufferQueue) : List Operation → List Answer × BufferQueue
  | [] => ([], q)
  | op :: ops =>
      let (answer, q) := q.apply op
      let (answers, q) := q.run ops
      (answer :: answers, q)

def runList (capacity : Nat) (bs : List Buffer) : List Operation → List Answer × List Buffer
  | [] => ([], bs)
  | op :: ops =>
      let (answer, bs) := op.onList capacity bs
      let (answers, bs) := runList capacity bs ops
      (answer :: answers, bs)

/-- The queue is the sequence `bs`, whichever way it is read. -/
structure Spells (q : BufferQueue) (places : Nat) (bs : List Buffer) : Prop where
  capacity : q.capacity = places
  distinct : (indices bs).Nodup
  bounded : ∀ b ∈ bs, b.index < places
  length : q.length = bs.length
  forwards : ∀ fuel, q.walk fuel q.front = bs.take fuel
  backwards : ∀ fuel, q.walkBack fuel q.back = bs.reverse.take fuel
  member : ∀ i, q.contains i = true ↔ ∃ b ∈ bs, b.index = i

/-! ## One operation -/

variable {q : BufferQueue} {bs : List Buffer}

theorem Holds.walkBack (h : q.Holds bs) (fuel : Nat) (before after : List Buffer)
    (split : bs = before ++ after) :
    q.walkBack fuel (lastIndex before) = before.reverse.take fuel := by
  induction fuel generalizing before after with
  | zero => simp [BufferQueue.walkBack]
  | succ fuel ih =>
      rcases List.eq_nil_or_concat before with rfl | ⟨before, b, rfl⟩
      · simp [lastIndex, BufferQueue.walkBack]
      · have node := h.node before b after (by simpa using split)
        have rest := ih before (b :: after) (by simpa using split)
        have last : lastIndex (before ++ [b]) = some b.index := by simp [lastIndex]
        simp [last, BufferQueue.walkBack, node, rest]

theorem Holds.spells (h : q.Holds bs) : q.Spells q.capacity bs where
  capacity := rfl
  distinct := h.distinct
  bounded b mem := by
    obtain ⟨n, found, -⟩ := h.node_mem mem
    apply lt_capacity_of_node? found
  length := h.length
  forwards fuel := by
    rw [h.front]
    apply h.walk fuel [] bs rfl
  backwards fuel := by
    rw [h.back]
    apply h.walkBack fuel bs [] (by simp)
  member i := by simp [h.contains_iff]

/-- One step of the queue is one step of the list. -/
structure Agrees (places : Nat) (queued : Answer × BufferQueue) (listed : Answer × List Buffer) :
    Prop where
  answer : queued.1 = listed.1
  holds : queued.2.Holds listed.2
  capacity : queued.2.capacity = places

theorem Holds.pushed_agrees (h : q.Holds bs) {b : Buffer} {result : Option BufferQueue}
    {grown : List Buffer}
    (taken : b.index < q.capacity → b.index ∉ indices bs →
      ∃ q', result = some q' ∧ q'.Holds grown ∧ q'.capacity = q.capacity)
    (refused : ¬(b.index < q.capacity ∧ b.index ∉ indices bs) → result = none) :
    Agrees q.capacity (q.pushed b result)
      (if b.index < q.capacity ∧ b.index ∉ indices bs then (.linked, grown)
        else (.refused b, bs)) := by
  split
  case isTrue free =>
    obtain ⟨q', rfl, holds, cap⟩ := taken free.1 free.2
    exact ⟨rfl, holds, cap⟩
  case isFalse full =>
    rw [refused full]
    exact ⟨rfl, h, rfl⟩

theorem agrees_popped (q : BufferQueue) {places : Nat} {b : Buffer} {rest : List Buffer}
    {result : Option (Buffer × BufferQueue)}
    (taken : ∃ q', result = some (b, q') ∧ q'.Holds rest ∧ q'.capacity = places) :
    Agrees places (q.popped result) (.buffer (some b), rest) := by
  obtain ⟨q', rfl, holds, cap⟩ := taken
  exact ⟨rfl, holds, cap⟩

theorem Holds.agrees_nothing (h : q.Holds bs) {result : Option (Buffer × BufferQueue)}
    (nothing : result = none) : Agrees q.capacity (q.popped result) (.buffer none, bs) := by
  subst nothing
  exact ⟨rfl, h, rfl⟩

theorem filter_absent {before : List Buffer} {i : Nat} (absent : i ∉ indices before) :
    before.filter (·.index != i) = before := by
  simp only [indices, List.mem_map, not_exists, not_and] at absent
  simpa using absent

theorem Holds.remove_agrees (h : q.Holds bs) (i : Nat) :
    Agrees q.capacity (q.popped (q.remove? i))
      (.buffer (bs.find? (·.index == i)), bs.filter (·.index != i)) := by
  by_cases mem : i ∈ indices bs
  · obtain ⟨b, hb, rfl⟩ := List.mem_map.mp mem
    obtain ⟨before, after, rfl⟩ := List.append_of_mem hb
    have distinct := h.distinct
    rw [indices, List.map_append, List.map_cons, List.nodup_middle, List.nodup_cons,
      List.mem_append, not_or] at distinct
    obtain ⟨⟨ahead, behind⟩, -⟩ := distinct
    have first : before.find? (·.index == b.index) = none := by
      simpa using ahead
    rw [List.find?_append, first, List.filter_append, List.filter_cons, filter_absent ahead,
      filter_absent behind]
    simpa using agrees_popped q (h.remove? before after)
  · have unknown : bs.find? (·.index == i) = none := by
      simpa using mem
    rw [filter_absent mem, unknown]
    exact h.agrees_nothing (h.remove?_eq_none mem)

theorem Holds.apply_agrees (h : q.Holds bs) (op : Operation) :
    Agrees q.capacity (q.apply op) (op.onList q.capacity bs) := by
  cases op with
  | pushBack b =>
      apply h.pushed_agrees h.pushBack?
      apply h.insertBetween?_eq_none
  | pushFront b =>
      apply h.pushed_agrees h.pushFront?
      apply h.insertBetween?_eq_none
  | popFront =>
      cases bs with
      | nil => exact h.agrees_nothing h.popFront?_nil
      | cons b bs => exact agrees_popped q h.popFront?
  | popBack =>
      rcases List.eq_nil_or_concat bs with rfl | ⟨bs, b, rfl⟩
      · apply h.agrees_nothing
        simp [BufferQueue.popBack?, h.back, lastIndex]
      · rw [List.concat_eq_append] at h ⊢
        simpa [apply, Operation.onList] using agrees_popped q h.popBack?
  | remove i => exact h.remove_agrees i
  | front => exact ⟨by simp [apply, Operation.onList, h.front?], h, rfl⟩
  | contains i =>
      have member : q.contains i = decide (i ∈ indices bs) := by
        rw [Bool.eq_iff_iff, h.contains_iff, decide_eq_true_iff]
      exact ⟨by simp only [apply, Operation.onList, member], h, rfl⟩
  | iterate => exact ⟨by simp [apply, Operation.onList, h.toList], h, rfl⟩
  | take n =>
      obtain ⟨items, left, cap⟩ := h.popMany n
      exact ⟨by simp [apply, Operation.onList, items], left, cap⟩
  | drain =>
      obtain ⟨items, left, cap⟩ := h.drain
      exact ⟨by simp [apply, Operation.onList, items], left, cap⟩

/-! ## Any operations -/

theorem Holds.run_agrees (h : q.Holds bs) (ops : List Operation) :
    (q.run ops).1 = (runList q.capacity bs ops).1 ∧
      (q.run ops).2.Holds (runList q.capacity bs ops).2 ∧
      (q.run ops).2.capacity = q.capacity := by
  induction ops generalizing q bs with
  | nil => exact ⟨rfl, h, rfl⟩
  | cons op ops ih =>
      have step := h.apply_agrees op
      obtain ⟨answers, holds, cap⟩ := ih step.holds
      simp only [step.capacity] at answers holds cap
      simp only [run, runList, step.answer, answers]
      simp [holds, cap]

/-- A queue of any capacity answers any operations as a sequence of buffers does, and is that
sequence after them. -/
theorem run_spells (capacity : Nat) (ops : List Operation) :
    ((empty capacity).run ops).1 = (runList capacity [] ops).1 ∧
      ((empty capacity).run ops).2.Spells capacity (runList capacity [] ops).2 := by
  obtain ⟨answers, holds, cap⟩ := (holds_empty capacity).run_agrees ops
  rw [capacity_empty] at answers holds cap
  have spells := holds.spells
  rw [cap] at spells
  exact ⟨answers, spells⟩

end Fieldbus.BufferQueue
