import Fieldbus.Buffer.Queue
import Mathlib.Data.List.Basic
import Mathlib.Data.List.Nodup

/-!
# Buffer queues as lists

`BufferQueue.Holds q bs` says that the links of `q` spell the list `bs` in both directions and that
every other place is vacant. Each operation of a queue is an operation on that list, so that later
arguments speak of lists and never of links.
-/

namespace Fieldbus.BufferQueue

abbrev indices (bs : List Buffer) : List Nat := bs.map Buffer.index

def firstIndex (bs : List Buffer) : Option Nat := bs.head?.map Buffer.index

def lastIndex (bs : List Buffer) : Option Nat := bs.getLast?.map Buffer.index

/-- The links of `q` spell `bs`. -/
structure Holds (q : BufferQueue) (bs : List Buffer) : Prop where
  front : q.front = firstIndex bs
  back : q.back = lastIndex bs
  length : q.length = bs.length
  distinct : (indices bs).Nodup
  node : ∀ before b after, bs = before ++ b :: after →
    q.node? b.index = some ⟨b, lastIndex before, firstIndex after⟩
  vacant : ∀ i, i ∉ indices bs → q.node? i = none

/-! ## Single links -/

theorem lt_capacity_of_node? {q : BufferQueue} {i : Nat} {n : Node} (h : q.node? i = some n) :
    i < q.capacity := by
  unfold node? at h
  by_contra hi
  rw [Array.getElem?_eq_none (by simpa [capacity] using hi)] at h
  simp at h

theorem node?_setNode (q : BufferQueue) {i : Nat} (hi : i < q.capacity) (n : Option Node)
    (j : Nat) : (q.setNode i n).node? j = if i = j then n else q.node? j := by
  unfold node? setNode
  rw [Array.getElem?_setIfInBounds]
  split
  · rw [if_pos (by simpa [capacity] using hi)]
    rfl
  · rfl

theorem node?_updateNode (q : BufferQueue) (i : Nat) (change : Node → Node) (j : Nat) :
    (q.updateNode i change).node? j =
      if i = j then (q.node? j).map change else q.node? j := by
  unfold updateNode
  cases found : q.node? i with
  | none =>
      by_cases same : i = j
      · subst same
        simp [found]
      · simp [same]
  | some n =>
      simp only
      rw [node?_setNode q (lt_capacity_of_node? found)]
      by_cases same : i = j
      · subst same
        simp [found]
      · simp [same]

theorem node?_linkNext (q : BufferQueue) (index next : Option Nat) (j : Nat) :
    (q.linkNext index next).node? j =
      if index = some j then (q.node? j).map fun n => { n with next } else q.node? j := by
  cases index with
  | none => simp [linkNext, node?]
  | some i => simp [linkNext, node?_updateNode]

theorem node?_linkPrevious (q : BufferQueue) (index previous : Option Nat) (j : Nat) :
    (q.linkPrevious index previous).node? j =
      if index = some j then (q.node? j).map fun n => { n with previous } else q.node? j := by
  cases index with
  | none => simp [linkPrevious, node?]
  | some i => simp [linkPrevious, node?_updateNode]

@[simp] theorem capacity_setNode (q : BufferQueue) (i : Nat) (n : Option Node) :
    (q.setNode i n).capacity = q.capacity := by
  simp [setNode, capacity]

@[simp] theorem capacity_updateNode (q : BufferQueue) (i : Nat) (change : Node → Node) :
    (q.updateNode i change).capacity = q.capacity := by
  unfold updateNode
  split <;> simp

@[simp] theorem capacity_linkNext (q : BufferQueue) (index next : Option Nat) :
    (q.linkNext index next).capacity = q.capacity := by
  cases index <;> simp [linkNext, capacity]
  exact capacity_updateNode _ _ _

@[simp] theorem capacity_linkPrevious (q : BufferQueue) (index previous : Option Nat) :
    (q.linkPrevious index previous).capacity = q.capacity := by
  cases index <;> simp [linkPrevious, capacity]
  exact capacity_updateNode _ _ _

theorem updateNode_ends (q : BufferQueue) (i : Nat) (change : Node → Node) :
    (q.updateNode i change).front = q.front ∧ (q.updateNode i change).back = q.back ∧
      (q.updateNode i change).length = q.length := by
  unfold updateNode
  split <;> simp [setNode]

theorem linkNext_ends (q : BufferQueue) (index next : Option Nat) :
    (q.linkNext index next).front = (if index = none then next else q.front) ∧
      (q.linkNext index next).back = q.back ∧
      (q.linkNext index next).length = q.length := by
  cases index with
  | none => simp [linkNext]
  | some i => simpa [linkNext] using updateNode_ends q i _

theorem linkPrevious_ends (q : BufferQueue) (index previous : Option Nat) :
    (q.linkPrevious index previous).front = q.front ∧
      (q.linkPrevious index previous).back = (if index = none then previous else q.back) ∧
      (q.linkPrevious index previous).length = q.length := by
  cases index with
  | none => simp [linkPrevious]
  | some i => simpa [linkPrevious] using updateNode_ends q i _

/-- Both operations that change a queue set one node and tell its neighbours. -/
theorem node?_relink (q : BufferQueue) {i : Nat} (hi : i < q.capacity) (n : Option Node)
    (previous next successor predecessor : Option Nat) (j : Nat) :
    (((q.setNode i n).linkNext previous successor).linkPrevious next predecessor).node? j =
      (if i = j then n else q.node? j).map fun m =>
        ⟨m.buffer, if next = some j then predecessor else m.previous,
          if previous = some j then successor else m.next⟩ := by
  rw [node?_linkPrevious, node?_linkNext, node?_setNode q hi]
  cases (if i = j then n else q.node? j) <;> split <;> split <;> rfl

theorem relink_ends (q : BufferQueue) (i : Nat) (n : Option Node)
    (previous next successor predecessor : Option Nat) :
    let r := ((q.setNode i n).linkNext previous successor).linkPrevious next predecessor
    r.front = (if previous = none then successor else q.front) ∧
      r.back = (if next = none then predecessor else q.back) ∧
      r.length = q.length ∧ r.capacity = q.capacity := by
  intro r
  obtain ⟨front₁, back₁, length₁⟩ :=
    linkPrevious_ends ((q.setNode i n).linkNext previous successor) next predecessor
  obtain ⟨front₂, back₂, length₂⟩ := linkNext_ends (q.setNode i n) previous successor
  refine ⟨?_, ?_, ?_, ?_⟩
  · rw [front₁, front₂]
    rfl
  · rw [back₁, back₂]
    rfl
  · rw [length₁, length₂]
    rfl
  · simp [r]

/-! ## Ends of lists -/

theorem mem_of_firstIndex {bs : List Buffer} {i : Nat} (h : firstIndex bs = some i) :
    i ∈ indices bs := by
  obtain ⟨b, hb, rfl⟩ := Option.map_eq_some_iff.mp h
  exact List.mem_map_of_mem (List.mem_of_mem_head? hb)

theorem mem_of_lastIndex {bs : List Buffer} {i : Nat} (h : lastIndex bs = some i) :
    i ∈ indices bs := by
  obtain ⟨b, hb, rfl⟩ := Option.map_eq_some_iff.mp h
  exact List.mem_map_of_mem (List.mem_of_mem_getLast? hb)

/-! ## Operations -/

theorem Holds.node_mem {q : BufferQueue} {bs : List Buffer} (h : q.Holds bs) {b : Buffer}
    (mem : b ∈ bs) : ∃ n, q.node? b.index = some n ∧ n.buffer = b := by
  obtain ⟨before, after, rfl⟩ := List.append_of_mem mem
  exact ⟨_, h.node before b after rfl, rfl⟩

theorem Holds.contains_iff {q : BufferQueue} {bs : List Buffer} (h : q.Holds bs) (i : Nat) :
    q.contains i = true ↔ i ∈ indices bs := by
  constructor
  · intro found
    by_contra absent
    simp [contains, h.vacant i absent] at found
  · intro mem
    obtain ⟨b, hb, rfl⟩ := List.mem_map.mp mem
    obtain ⟨n, hn, -⟩ := h.node_mem hb
    simp [contains, hn]

theorem Holds.accepts_iff {q : BufferQueue} {bs : List Buffer} (h : q.Holds bs) (i : Nat) :
    q.accepts i = true ↔ i < q.capacity ∧ i ∉ indices bs := by
  simp [accepts, ← h.contains_iff]

theorem Holds.distinct_left {q : BufferQueue} {bs cs : List Buffer} (h : q.Holds (bs ++ cs)) :
    (indices bs).Nodup :=
  (List.nodup_append.mp (by simpa using h.distinct)).1

theorem Holds.distinct_right {q : BufferQueue} {bs cs : List Buffer} (h : q.Holds (bs ++ cs)) :
    (indices cs).Nodup :=
  (List.nodup_append.mp (by simpa using h.distinct)).2.1

theorem holds_empty (capacity : Nat) : (empty capacity).Holds [] where
  front := rfl
  back := rfl
  length := rfl
  distinct := List.nodup_nil
  node before b after h := by simp at h
  vacant i _ := by
    unfold node? empty
    rw [Array.getElem?_replicate]
    split <;> rfl

@[simp] theorem capacity_empty (capacity : Nat) : (empty capacity).capacity = capacity := by
  simp [empty, BufferQueue.capacity]

theorem split_middle {before after left right : List Buffer} {b x : Buffer}
    (h : before ++ b :: after = left ++ x :: right) :
    (∃ mid, before = left ++ x :: mid ∧ right = mid ++ b :: after) ∨
      (left = before ∧ x = b ∧ right = after) ∨
      ∃ mid, after = mid ++ x :: right ∧ left = before ++ b :: mid := by
  rcases List.append_eq_append_iff.mp h with ⟨mid, rfl, hmid⟩ | ⟨mid, rfl, hmid⟩
  · cases mid with
    | nil =>
        simp only [List.nil_append, List.cons.injEq] at hmid
        exact .inr (.inl ⟨by simp, hmid.1.symm, hmid.2.symm⟩)
    | cons c mid =>
        simp only [List.cons_append, List.cons.injEq] at hmid
        obtain ⟨rfl, rfl⟩ := hmid
        exact .inr (.inr ⟨mid, rfl, rfl⟩)
  · cases mid with
    | nil =>
        simp only [List.nil_append, List.cons.injEq] at hmid
        exact .inr (.inl ⟨by simp, hmid.1, hmid.2⟩)
    | cons c mid =>
        simp only [List.cons_append, List.cons.injEq] at hmid
        obtain ⟨rfl, rfl⟩ := hmid
        exact .inl ⟨mid, rfl, rfl⟩

theorem split_append {before after left right : List Buffer} {x : Buffer}
    (h : before ++ after = left ++ x :: right) :
    (∃ mid, before = left ++ x :: mid ∧ right = mid ++ after) ∨
      ∃ mid, after = mid ++ x :: right ∧ left = before ++ mid := by
  rcases List.append_eq_append_iff.mp h with ⟨mid, rfl, hmid⟩ | ⟨mid, rfl, hmid⟩
  · exact .inr ⟨mid, hmid, rfl⟩
  · cases mid with
    | nil =>
        simp only [List.nil_append] at hmid
        exact .inr ⟨[], by simp [hmid], by simp⟩
    | cons c mid =>
        simp only [List.cons_append, List.cons.injEq] at hmid
        obtain ⟨rfl, rfl⟩ := hmid
        exact .inl ⟨mid, rfl, rfl⟩

theorem firstIndex_append_of_ne_nil {bs : List Buffer} (h : bs ≠ []) (cs : List Buffer) :
    firstIndex (bs ++ cs) = firstIndex bs := by
  cases bs with
  | nil => exact absurd rfl h
  | cons b bs => rfl

theorem lastIndex_append_of_ne_nil (bs : List Buffer) {cs : List Buffer} (h : cs ≠ []) :
    lastIndex (bs ++ cs) = lastIndex cs := by
  simp [lastIndex, List.getLast?_append_of_ne_nil bs h]

theorem firstIndex_eq_middle_iff {mid right : List Buffer} {x : Buffer}
    (distinct : (indices (mid ++ x :: right)).Nodup) :
    firstIndex (mid ++ x :: right) = some x.index ↔ mid = [] := by
  cases mid with
  | nil => simp [firstIndex]
  | cons y mid =>
      simp only [indices, List.cons_append, List.map_cons, List.map_append, List.nodup_cons,
        List.mem_append, List.mem_cons, not_or] at distinct
      simp [firstIndex, distinct.1.2.1]

theorem lastIndex_eq_middle_iff {left mid : List Buffer} {x : Buffer}
    (distinct : (indices (left ++ x :: mid)).Nodup) :
    lastIndex (left ++ x :: mid) = some x.index ↔ mid = [] := by
  rcases List.eq_nil_or_concat mid with rfl | ⟨mid, y, rfl⟩
  · simp [lastIndex]
  · have ne : y.index ≠ x.index := by
      intro same
      simp [indices, List.nodup_append, same] at distinct
    have last : lastIndex (left ++ x :: (mid ++ [y])) = some y.index := by
      simpa [lastIndex] using lastIndex_append_of_ne_nil (left ++ x :: mid) (by simp : [y] ≠ [])
    simp [last, ne]

theorem index_ne_of_distinct {before after : List Buffer}
    (distinct : (indices (before ++ after)).Nodup) {x y : Buffer} (hx : x ∈ before)
    (hy : y ∈ after) : x.index ≠ y.index := by
  intro same
  rw [indices, List.map_append, List.nodup_append] at distinct
  exact distinct.2.2 _ (List.mem_map_of_mem hx) _ (List.mem_map_of_mem hy) same

theorem insertBetween?_holds {q : BufferQueue} (before after : List Buffer) {b : Buffer}
    (h : q.Holds (before ++ after)) (bound : b.index < q.capacity)
    (fresh : b.index ∉ indices (before ++ after)) :
    ∃ q', q.insertBetween? (lastIndex before) (firstIndex after) b = some q' ∧
      q'.Holds (before ++ b :: after) ∧ q'.capacity = q.capacity := by
  have accepts := (h.accepts_iff b.index).mpr ⟨bound, fresh⟩
  refine ⟨_, if_pos accepts, ?_, (relink_ends ..).2.2.2⟩
  constructor
  case front =>
    refine (relink_ends ..).1.trans ?_
    rw [h.front]
    cases before <;> simp [firstIndex, lastIndex]
  case back =>
    refine (relink_ends ..).2.1.trans ?_
    rw [h.back]
    cases after <;> simp [firstIndex, lastIndex]
  case length =>
    simp only [(relink_ends ..).2.2.1, h.length]
    simp
    omega
  case distinct =>
    rw [indices, List.map_append, List.map_cons, List.nodup_middle, ← List.map_append]
    exact List.nodup_cons.mpr ⟨fresh, h.distinct⟩
  case node =>
    intro left x right hsplit
    refine (node?_relink q bound ..).trans ?_
    rcases split_middle hsplit with ⟨mid, rfl, rfl⟩ | ⟨rfl, rfl, rfl⟩ | ⟨mid, rfl, rfl⟩
    · have old := h.node left x (mid ++ after) (by simp)
      have ne : b.index ≠ x.index := fun same => fresh (by simp [indices, same])
      have skip : firstIndex after ≠ some x.index := fun same => by
        obtain ⟨y, hy, hyx⟩ := List.mem_map.mp (mem_of_firstIndex same)
        exact index_ne_of_distinct h.distinct (by simp : x ∈ left ++ x :: mid) hy hyx.symm
      have last := lastIndex_eq_middle_iff (h.distinct_left)
      rw [if_neg ne, old, Option.map_some, if_neg skip]
      by_cases hm : mid = []
      · subst hm
        rw [if_pos (last.mpr rfl)]
        rfl
      · rw [if_neg (mt last.mp hm), firstIndex_append_of_ne_nil hm,
          firstIndex_append_of_ne_nil hm]
    · have first : firstIndex right ≠ some x.index := fun same =>
        fresh (by simpa [indices] using .inr (List.mem_map.mp (mem_of_firstIndex same)))
      have last : lastIndex left ≠ some x.index := fun same =>
        fresh (by simpa [indices] using .inl (List.mem_map.mp (mem_of_lastIndex same)))
      rw [if_pos rfl, Option.map_some, if_neg first, if_neg last]
    · have old := h.node (before ++ mid) x right (by simp)
      have ne : b.index ≠ x.index := fun same => fresh (by simp [indices, same])
      have skip : lastIndex before ≠ some x.index := fun same => by
        obtain ⟨y, hy, hyx⟩ := List.mem_map.mp (mem_of_lastIndex same)
        exact index_ne_of_distinct h.distinct hy (by simp : x ∈ mid ++ x :: right) hyx
      have first := firstIndex_eq_middle_iff (h.distinct_right)
      rw [if_neg ne, old, Option.map_some, if_neg skip]
      by_cases hm : mid = []
      · subst hm
        rw [if_pos (first.mpr rfl)]
        simp [lastIndex]
      · rw [if_neg (mt first.mp hm), lastIndex_append_of_ne_nil _ hm,
          ← List.singleton_append, ← List.append_assoc, lastIndex_append_of_ne_nil _ hm]
  case vacant =>
    intro i hi
    refine (node?_relink q bound ..).trans ?_
    simp only [indices, List.map_append, List.map_cons, List.mem_append, List.mem_cons,
      not_or] at hi
    rw [if_neg (Ne.symm hi.2.1), h.vacant i (by simp [indices, hi.1, hi.2.2])]
    rfl

theorem Holds.pushBack? {q : BufferQueue} {bs : List Buffer} {b : Buffer} (h : q.Holds bs)
    (bound : b.index < q.capacity) (fresh : b.index ∉ indices bs) :
    ∃ q', q.pushBack? b = some q' ∧ q'.Holds (bs ++ [b]) ∧ q'.capacity = q.capacity := by
  rw [BufferQueue.pushBack?, h.back]
  exact insertBetween?_holds bs [] (by simpa using h) bound (by simpa using fresh)

theorem Holds.pushFront? {q : BufferQueue} {bs : List Buffer} {b : Buffer} (h : q.Holds bs)
    (bound : b.index < q.capacity) (fresh : b.index ∉ indices bs) :
    ∃ q', q.pushFront? b = some q' ∧ q'.Holds (b :: bs) ∧ q'.capacity = q.capacity := by
  rw [BufferQueue.pushFront?, h.front]
  exact insertBetween?_holds [] bs h bound fresh

theorem Holds.insertBetween?_eq_none {q : BufferQueue} {bs : List Buffer} {b : Buffer}
    (h : q.Holds bs) (previous next : Option Nat)
    (refused : ¬(b.index < q.capacity ∧ b.index ∉ indices bs)) :
    q.insertBetween? previous next b = none := by
  rw [insertBetween?, if_neg (mt (h.accepts_iff b.index).mp refused)]

theorem remove?_of_node? {q : BufferQueue} {i : Nat} {n : Node} (found : q.node? i = some n) :
    q.remove? i = some (n.buffer,
      let r := ((q.setNode i none).linkNext n.previous n.next).linkPrevious n.next n.previous
      { r with length := r.length - 1 }) := by
  rw [BufferQueue.remove?, found]

theorem Holds.remove? {q : BufferQueue} (before after : List Buffer) {b : Buffer}
    (h : q.Holds (before ++ b :: after)) :
    ∃ q', q.remove? b.index = some (b, q') ∧ q'.Holds (before ++ after) ∧
      q'.capacity = q.capacity := by
  have found := h.node before b after rfl
  have bound := lt_capacity_of_node? found
  have absent : b.index ∉ indices (before ++ after) := by
    have distinct := h.distinct
    rw [indices, List.map_append, List.map_cons, List.nodup_middle, ← List.map_append] at distinct
    exact (List.nodup_cons.mp distinct).1
  refine ⟨_, remove?_of_node? found, ?_, (relink_ends ..).2.2.2⟩
  constructor
  case front =>
    refine (relink_ends ..).1.trans ?_
    rw [h.front]
    cases before <;> simp [firstIndex, lastIndex]
  case back =>
    refine (relink_ends ..).2.1.trans ?_
    rw [h.back]
    by_cases none : after = []
    · subst none
      simp [firstIndex]
    · rw [if_neg (by simpa [firstIndex] using none), lastIndex_append_of_ne_nil _ none,
        lastIndex_append_of_ne_nil _ (List.cons_ne_nil b after),
        ← List.singleton_append, lastIndex_append_of_ne_nil _ none]
  case length =>
    simp only [(relink_ends ..).2.2.1, h.length]
    simp
  case distinct =>
    have distinct := h.distinct
    rw [indices, List.map_append, List.map_cons, List.nodup_middle, ← List.map_append] at distinct
    exact (List.nodup_cons.mp distinct).2
  case node =>
    intro left x right hsplit
    refine (node?_relink q bound ..).trans ?_
    have ne : b.index ≠ x.index := fun same => absent (by rw [hsplit]; simp [same])
    rcases split_append hsplit with ⟨mid, rfl, rfl⟩ | ⟨mid, rfl, rfl⟩
    · have old := h.node left x (mid ++ b :: after) (by simp)
      have skip : firstIndex after ≠ some x.index := fun same => by
        obtain ⟨y, hy, hyx⟩ := List.mem_map.mp (mem_of_firstIndex same)
        exact index_ne_of_distinct h.distinct (by simp : x ∈ left ++ x :: mid)
          (List.mem_cons_of_mem b hy) hyx.symm
      have last := lastIndex_eq_middle_iff h.distinct_left
      rw [if_neg ne, old, Option.map_some, if_neg skip]
      by_cases hm : mid = []
      · subst hm
        rw [if_pos (last.mpr rfl)]
        rfl
      · rw [if_neg (mt last.mp hm), firstIndex_append_of_ne_nil hm,
          firstIndex_append_of_ne_nil hm]
    · have old := h.node (before ++ b :: mid) x right (by simp)
      have skip : lastIndex before ≠ some x.index := fun same => by
        obtain ⟨y, hy, hyx⟩ := List.mem_map.mp (mem_of_lastIndex same)
        exact index_ne_of_distinct h.distinct hy (by simp : x ∈ b :: (mid ++ x :: right)) hyx
      have first := firstIndex_eq_middle_iff (List.nodup_cons.mp h.distinct_right).2
      rw [if_neg ne, old, Option.map_some, if_neg skip]
      by_cases hm : mid = []
      · subst hm
        rw [if_pos (first.mpr rfl)]
        simp
      · rw [if_neg (mt first.mp hm), lastIndex_append_of_ne_nil _ hm,
          ← List.singleton_append, ← List.append_assoc, lastIndex_append_of_ne_nil _ hm]
  case vacant =>
    intro i hi
    refine (node?_relink q bound ..).trans ?_
    by_cases same : b.index = i
    · rw [if_pos same]
      rfl
    · rw [if_neg same, h.vacant i (by simpa [indices, Ne.symm same] using hi)]
      rfl

theorem Holds.remove?_eq_none {q : BufferQueue} {bs : List Buffer} {i : Nat} (h : q.Holds bs)
    (absent : i ∉ indices bs) : q.remove? i = none := by
  rw [BufferQueue.remove?, h.vacant i absent]

theorem Holds.popFront? {q : BufferQueue} {b : Buffer} {bs : List Buffer}
    (h : q.Holds (b :: bs)) :
    ∃ q', q.popFront? = some (b, q') ∧ q'.Holds bs ∧ q'.capacity = q.capacity := by
  rw [BufferQueue.popFront?, h.front]
  exact Holds.remove? [] bs h

theorem Holds.popFront?_nil {q : BufferQueue} (h : q.Holds []) : q.popFront? = none := by
  rw [BufferQueue.popFront?, h.front]
  rfl

theorem Holds.popBack? {q : BufferQueue} {b : Buffer} {bs : List Buffer}
    (h : q.Holds (bs ++ [b])) :
    ∃ q', q.popBack? = some (b, q') ∧ q'.Holds bs ∧ q'.capacity = q.capacity := by
  rw [BufferQueue.popBack?, h.back]
  simpa [lastIndex] using Holds.remove? bs [] h

theorem Holds.front? {q : BufferQueue} {bs : List Buffer} (h : q.Holds bs) :
    q.front? = bs.head? := by
  rw [BufferQueue.front?, h.front]
  cases bs with
  | nil => rfl
  | cons b bs => simp [firstIndex, h.node [] b bs rfl]

theorem Holds.walk {q : BufferQueue} {bs : List Buffer} (h : q.Holds bs) (fuel : Nat)
    (before after : List Buffer) (split : bs = before ++ after) :
    q.walk fuel (firstIndex after) = after.take fuel := by
  induction fuel generalizing before after with
  | zero => simp [BufferQueue.walk]
  | succ fuel ih =>
      cases after with
      | nil => simp [firstIndex, BufferQueue.walk]
      | cons b after =>
          simp only [firstIndex, List.head?_cons, Option.map_some, BufferQueue.walk,
            h.node before b after split, List.take_succ_cons]
          rw [← firstIndex, ih (before ++ [b]) after (by simp [split])]

theorem Holds.toList {q : BufferQueue} {bs : List Buffer} (h : q.Holds bs) : q.toList = bs := by
  rw [BufferQueue.toList, h.length, h.front, h.walk bs.length [] bs rfl, List.take_length]

theorem Holds.popMany {q : BufferQueue} {bs : List Buffer} (h : q.Holds bs) (n : Nat) :
    (popMany n q).1 = bs.take n ∧ (popMany n q).2.Holds (bs.drop n) ∧
      (popMany n q).2.capacity = q.capacity := by
  induction n generalizing q bs with
  | zero => exact ⟨rfl, h, rfl⟩
  | succ n ih =>
      cases bs with
      | nil => simpa [BufferQueue.popMany, h.popFront?_nil] using h
      | cons b bs =>
          obtain ⟨q', pop, rest, cap⟩ := h.popFront?
          obtain ⟨items, left, cap'⟩ := ih rest
          simp only [BufferQueue.popMany, pop, List.take_succ_cons, List.drop_succ_cons]
          exact ⟨by rw [items], left, by rw [cap', cap]⟩

theorem Holds.drain {q : BufferQueue} {bs : List Buffer} (h : q.Holds bs) :
    q.drain.1 = bs ∧ q.drain.2.Holds [] ∧ q.drain.2.capacity = q.capacity := by
  simpa [BufferQueue.drain, h.length] using h.popMany bs.length

end Fieldbus.BufferQueue
