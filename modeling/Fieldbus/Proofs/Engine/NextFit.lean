import Fieldbus.Proofs.Engine.Scan
import Mathlib.Data.Finset.Card
import Mathlib.Data.Finset.Dedup

/-!
# Leases as a next-fit allocator

A next-fit allocator is a set of indices and the index it gave out last. It gives out the first
index outside the set, in the round that begins right after the last one. The leases answer every
sequence of calls as such an allocator does, and stand for its set at every moment.

Since every search begins where the last one ended, the searches between two leases of one index
sweep the whole round together. So an index comes back only after every other index was out.
-/

namespace Fieldbus

namespace Leases

inductive Call where
  | lease
  | release (index : UInt8)
  deriving DecidableEq, Repr

inductive Answer where
  | leased (index : Option UInt8)
  | released (known : Bool)
  deriving DecidableEq, Repr

def answerAll {State : Type} (call : State → Call → Answer × State) (state : State) :
    List Call → List Answer × State
  | [] => ([], state)
  | first :: calls =>
    let (answer, next) := call state first
    let (answers, last) := answerAll call next calls
    (answer :: answers, last)

def call (l : Leases) : Call → Answer × Leases
  | .lease =>
    match l.lease? with
    | none => (.leased none, l)
    | some (index, leases) => (.leased (some index), leases)
  | .release index => (.released (l.release index).1, (l.release index).2)

def run (l : Leases) (calls : List Call) : List Answer × Leases := answerAll call l calls

def after (l : Leases) (calls : List Call) : Leases := (l.run calls).2

end Leases

/-! ## The allocator -/

structure NextFit where
  start : UInt8
  /-- The index that was leased last. -/
  recent : Option UInt8
  out : Finset UInt8

namespace NextFit

open Leases

def startingAt (start : UInt8) : NextFit := ⟨start, none, ∅⟩

def onset (a : NextFit) : UInt8 :=
  match a.recent with
  | none => a.start
  | some index => index + 1

def round (a : NextFit) : List UInt8 := (List.range 256).map (onward a.onset)

def firstFree? (a : NextFit) : Option UInt8 := a.round.find? fun index => index ∉ a.out

def call (a : NextFit) : Call → Answer × NextFit
  | .lease =>
    match a.firstFree? with
    | none => (.leased none, a)
    | some index =>
      (.leased (some index), { a with recent := some index, out := insert index a.out })
  | .release index =>
    if index ∈ a.out then (.released true, { a with out := a.out.erase index })
    else (.released false, a)

def run (a : NextFit) (calls : List Call) : List Answer × NextFit := answerAll call a calls

end NextFit

namespace Leases

variable {l leases : Leases} {a : NextFit} {index : UInt8}

/-! ## The same answers -/

/-- The leases stand for the allocator's set, and search from the same place. -/
structure Tracks (l : Leases) (a : NextFit) : Prop where
  start : l.start = a.onset
  lends : l.Lends a.out.toList

theorem tracks_startingAt (start : UInt8) : (startingAt start).Tracks (.startingAt start) where
  start := rfl
  lends := by
    rw [NextFit.startingAt, Finset.toList_empty]
    exact lends_startingAt start

namespace Tracks

theorem isLeased_iff (h : l.Tracks a) (index : UInt8) :
    l.isLeased index = true ↔ index ∈ a.out :=
  (h.lends.leased index).trans Finset.mem_toList

theorem count_eq (h : l.Tracks a) : l.count = a.out.card :=
  h.lends.counted.trans (Finset.length_toList _)

theorem firstFree?_eq (h : l.Tracks a) :
    a.firstFree? = l.distance?.map (onward l.start) := by
  have same : (fun index => decide (index ∉ a.out)) ∘ onward a.onset =
      fun distance => !l.isLeased (onward l.start distance) := by
    funext distance
    rw [Function.comp, h.start, Bool.eq_iff_iff, decide_eq_true_iff, Bool.not_eq_true',
      ← Bool.not_eq_true, h.isLeased_iff]
  rw [NextFit.firstFree?, NextFit.round, List.find?_map, same, distance?, h.start]
  rfl

/-- The counter stops a lease only where the search would find nothing. -/
theorem full_of_count (h : l.Tracks a) (full : l.count = Layout.indexCount) (index : UInt8) :
    l.isLeased index = true := by
  have within : a.out.toList.Subperm indices :=
    h.lends.distinct.subperm fun index _ => mem_indices index
  have whole : a.out.toList.Perm indices := by
    refine within.perm_of_length_le (Nat.le_of_eq ?_)
    rw [length_indices, ← h.lends.counted, full]
    rfl
  exact (h.lends.leased index).mpr (whole.mem_iff.mpr (mem_indices index))

theorem lease?_eq_map (h : l.Tracks a) :
    l.lease? = a.firstFree?.map fun index => (index, l.mark index) := by
  rw [h.firstFree?_eq, lease?_eq, Option.map_map]
  split
  case isTrue full =>
    rw [distance?_eq_none.mpr (h.full_of_count full), Option.map_none]
  case isFalse => rfl

theorem lease (h : l.Tracks a) (lease : l.lease? = some (index, leases)) :
    leases.Tracks { a with recent := some index, out := insert index a.out } := by
  obtain ⟨free, _⟩ := lease?_eq_some lease
  constructor
  case start =>
    rw [h.lease?_eq_map, Option.map_eq_some_iff] at lease
    obtain ⟨_, _, same⟩ := lease
    cases same
    rfl
  case lends =>
    have away : index ∉ a.out := fun out =>
      Bool.false_ne_true (free.symm.trans ((h.isLeased_iff index).mpr out))
    exact (h.lends.lease lease).perm (Finset.toList_insert away)

theorem release (h : l.Tracks a) (out : index ∈ a.out) :
    (l.release index).2.Tracks { a with out := a.out.erase index } where
  start := by
    rw [Leases.release, if_pos ((h.isLeased_iff index).mpr out)]
    exact h.start
  lends := by
    have split := Finset.toList_insert (Finset.notMem_erase index a.out)
    rw [Finset.insert_erase out] at split
    exact (h.lends.perm split.symm).release

theorem call (h : l.Tracks a) (c : Call) :
    (l.call c).1 = (a.call c).1 ∧ (l.call c).2.Tracks (a.call c).2 := by
  cases c with
  | lease =>
    have found := h.lease?_eq_map
    rw [Leases.call, NextFit.call]
    cases searched : a.firstFree? with
    | none =>
      rw [searched, Option.map_none] at found
      rw [found]
      exact ⟨rfl, h⟩
    | some index =>
      rw [searched, Option.map_some] at found
      rw [found]
      exact ⟨rfl, h.lease found⟩
  | release index =>
    rw [Leases.call, NextFit.call]
    by_cases out : index ∈ a.out
    · rw [if_pos out]
      refine ⟨?_, h.release out⟩
      rw [Leases.release, if_pos ((h.isLeased_iff index).mpr out)]
    · rw [if_neg out, Leases.release, if_neg ((h.isLeased_iff index).not.mpr out)]
      exact ⟨rfl, h⟩

theorem run (h : l.Tracks a) (calls : List Call) :
    (l.run calls).1 = (a.run calls).1 ∧ (l.run calls).2.Tracks (a.run calls).2 := by
  induction calls generalizing l a with
  | nil => exact ⟨rfl, h⟩
  | cons first calls ih =>
    obtain ⟨same, next⟩ := h.call first
    obtain ⟨answers, last⟩ := ih next
    refine ⟨?_, last⟩
    simp only [Leases.run, NextFit.run, answerAll] at answers ⊢
    rw [same, answers]

end Tracks

/-! ## What the leases tell about the set -/

theorem mem_leased : index ∈ l.leased ↔ l.isLeased index = true := by
  rw [leased, List.mem_filter, and_iff_right (mem_indices index)]

theorem ascending_leased (l : Leases) : l.leased.Pairwise (· < ·) := by
  refine List.Pairwise.filter _ (List.pairwise_map.mpr ?_)
  refine List.Pairwise.imp_of_mem (fun {i j} hi hj lt => ?_) List.pairwise_lt_range
  rw [UInt8.lt_iff_toNat_lt, UInt8.toNat_ofNat_of_lt' (List.mem_range.mp hi),
    UInt8.toNat_ofNat_of_lt' (List.mem_range.mp hj)]
  exact lt

theorem cpop_used (l : Leases) : l.used.cpop.toNat = l.leased.length := by
  have counted (n : Nat) : l.used.cpopNatRec n 0 = (List.range n).countP l.used.getLsbD := by
    induction n with
    | zero => rfl
    | succ n ih =>
      rw [BitVec.cpopNatRec_succ, BitVec.cpopNatRec_add, ih, List.range_succ, List.countP_append,
        List.countP_singleton]
      cases l.used.getLsbD n <;> simp
  rw [BitVec.toNat_cpop, counted, leased, ← List.countP_eq_length_filter, indices, List.countP_map]
  refine List.countP_congr fun i hi => ?_
  rw [Function.comp, isLeased, UInt8.toNat_ofNat_of_lt' (List.mem_range.mp hi)]

theorem Tracks.length_leased (h : l.Tracks a) : l.leased.length = l.count := by
  have distinct : l.leased.Nodup := nodup_indices.filter _
  have same : l.leased.toFinset = a.out := by
    ext index
    rw [List.mem_toFinset, mem_leased, h.isLeased_iff]
  rw [h.count_eq, ← same, List.toFinset_card_of_nodup distinct]

/-- The leases are a next-fit allocator in the state `a`: their counters and lists tell its set,
and they lease and release as it does. -/
structure Implements (l : Leases) (a : NextFit) : Prop where
  isLeased_iff : ∀ index, l.isLeased index = true ↔ index ∈ a.out
  set_bits : l.used.cpop.toNat = l.count
  count_eq : l.count = a.out.card
  available_add_count : l.available + l.count = 256
  ascending : l.leased.Pairwise (· < ·)
  mem_leased : ∀ index, index ∈ l.leased ↔ index ∈ a.out
  /-- The word scan of the bitmap is the search that the leases do. -/
  scanned : l.scan? = l.lease?
  /-- A lease fails exactly when all indices are out. -/
  exhausted : l.lease? = none ↔ ∀ index, index ∈ a.out
  leases : ∀ index leases, l.lease? = some (index, leases) →
    a.firstFree? = some index ∧ index ∉ a.out ∧
      ∀ other, leases.isLeased other = true ↔ other = index ∨ other ∈ a.out
  releases : ∀ index, ((l.release index).1 = true ↔ index ∈ a.out) ∧
    (index ∉ a.out → (l.release index).2 = l) ∧
      ∀ other, (l.release index).2.isLeased other = true ↔ other ≠ index ∧ other ∈ a.out

theorem Tracks.implements (h : l.Tracks a) : l.Implements a where
  isLeased_iff := h.isLeased_iff
  set_bits := (cpop_used l).trans h.length_leased
  count_eq := h.count_eq
  available_add_count := Nat.sub_add_cancel h.lends.count_le
  ascending := ascending_leased l
  mem_leased index := Leases.mem_leased.trans (h.isLeased_iff index)
  scanned := scan?_eq_lease? l
  exhausted := by
    rw [h.lease?_eq_map, Option.map_eq_none_iff, h.firstFree?_eq, Option.map_eq_none_iff,
      distance?_eq_none]
    exact forall_congr' h.isLeased_iff
  leases index leases lease := by
    obtain ⟨free, grown⟩ := lease?_eq_some lease
    refine ⟨?_, fun out => ?_, fun other => ?_⟩
    · rw [h.lease?_eq_map, Option.map_eq_some_iff] at lease
      obtain ⟨_, found, same⟩ := lease
      cases same
      exact found
    · exact Bool.false_ne_true (free.symm.trans ((h.isLeased_iff index).mpr out))
    · rw [grown, Bool.or_eq_true, beq_iff_eq, h.isLeased_iff, or_comm]
  releases index := by
    refine ⟨?_, fun away => ?_, fun other => ?_⟩
    · rw [← h.isLeased_iff, Leases.release]
      split
      case isTrue leased => exact iff_of_true rfl leased
      case isFalse free => exact iff_of_false Bool.false_ne_true free
    · rw [Leases.release, if_neg ((h.isLeased_iff index).not.mpr away)]
    · rw [isLeased_release, Bool.and_eq_true, bne_iff_ne, h.isLeased_iff, and_comm]

/-- From any start, the leases answer every sequence of calls as the next-fit allocator does, and
are such an allocator after it. -/
theorem run_eq_nextFit (start : UInt8) (calls : List Call) :
    ((startingAt start).run calls).1 = ((NextFit.startingAt start).run calls).1 ∧
      ((startingAt start).run calls).2.Implements ((NextFit.startingAt start).run calls).2 := by
  obtain ⟨answers, last⟩ := (tracks_startingAt start).run calls
  exact ⟨answers, last.implements⟩

example : ((startingAt 254).run [.lease, .release 254, .lease, .lease]).1 =
    [.leased (some 254), .released true, .leased (some 255), .leased (some 0)] := by
  decide +kernel

/-! ## Reuse of an index -/

theorem after_cons (l : Leases) (c : Call) (calls : List Call) :
    l.after (c :: calls) = (l.call c).2.after calls :=
  rfl

theorem after_append (l : Leases) (past : List Call) (c : Call) :
    l.after (past ++ [c]) = ((l.after past).call c).2 := by
  induction past generalizing l with
  | nil => rfl
  | cons first past ih => exact ih (l.call first).2

theorem exists_firstFree (lease : l.lease? = some (index, leases)) :
    ∃ distance, l.FirstFree distance ∧ index = onward l.start distance ∧
      leases.start = onward l.start (distance + 1) := by
  rw [lease?_eq] at lease
  split at lease
  · cases lease
  · obtain ⟨distance, found, same⟩ := Option.map_eq_some_iff.mp lease
    cases same
    refine ⟨distance, distance?_eq_some.mp found, rfl, ?_⟩
    rw [← onward_onward]
    rfl

/-- In the course of the calls, at their start or after some of them, the index was leased. -/
def EverLeased (l : Leases) (past : List Call) (index : UInt8) : Prop :=
  ∃ moment, moment <+: past ∧ (l.after moment).isLeased index = true

theorem EverLeased.append {past : List Call} (h : l.EverLeased past index) (c : Call) :
    l.EverLeased (past ++ [c]) index := by
  obtain ⟨moment, early, leased⟩ := h
  exact ⟨moment, early.trans (List.prefix_append past [c]), leased⟩

theorem EverLeased.of_last {past : List Call} (leased : (l.after past).isLeased index = true) :
    l.EverLeased past index :=
  ⟨past, List.prefix_rfl, leased⟩

/-- How far the searches have come round from `origin`: the next one begins `reach` steps on, and
every index they passed was leased at some moment. -/
structure Swept (l : Leases) (origin : UInt8) (past : List Call) (reach : Nat) : Prop where
  start : (l.after past).start = onward origin reach
  passed : ∀ distance < reach, l.EverLeased past (onward origin distance)

namespace Swept

variable {origin : UInt8} {past : List Call} {reach : Nat}

theorem passed_lease (h : l.Swept origin past reach)
    (lease : (l.after past).lease? = some (index, leases)) :
    ∃ distance < 256, index = onward origin (reach + distance) ∧
      leases.start = onward origin (reach + distance + 1) ∧
      ∀ nearer < reach + distance, l.EverLeased past (onward origin nearer) := by
  obtain ⟨distance, first, taken, next⟩ := exists_firstFree lease
  rw [h.start, onward_onward] at taken next
  refine ⟨distance, first.bound, taken, next, fun nearer lt => ?_⟩
  by_cases before : nearer < reach
  · exact h.passed nearer before
  · have leased := first.passed (nearer - reach) (by omega)
    rw [h.start, onward_onward, Nat.add_sub_cancel' (Nat.le_of_not_lt before)] at leased
    exact .of_last leased

theorem call (h : l.Swept origin past reach) (c : Call) :
    ∃ reach', reach ≤ reach' ∧ l.Swept origin (past ++ [c]) reach' := by
  have kept (same : (l.after (past ++ [c])).start = (l.after past).start) :
      l.Swept origin (past ++ [c]) reach :=
    ⟨same.trans h.start, fun distance lt => (h.passed distance lt).append c⟩
  cases c with
  | release index =>
    refine ⟨reach, Nat.le_refl reach, kept ?_⟩
    rw [after_append, Leases.call, release]
    split <;> rfl
  | lease =>
    cases lease : (l.after past).lease? with
    | none =>
      refine ⟨reach, Nat.le_refl reach, kept ?_⟩
      rw [after_append, Leases.call, lease]
    | some found =>
      obtain ⟨index, leases⟩ := found
      have last : l.after (past ++ [.lease]) = leases := by
        rw [after_append, Leases.call, lease]
      obtain ⟨distance, _, taken, next, passed⟩ := h.passed_lease lease
      refine ⟨reach + distance + 1, by omega, ?_, fun nearer lt => ?_⟩
      · rw [last, next]
      · rcases Nat.lt_succ_iff_lt_or_eq.mp lt with before | rfl
        · exact (passed nearer before).append _
        · refine .of_last ?_
          rw [last, (lease?_eq_some lease).2, taken, beq_self_eq_true, Bool.or_true]

end Swept

theorem exists_swept (l : Leases) (past : List Call) : ∃ reach, l.Swept l.start past reach := by
  induction past using List.reverseRecOn with
  | nil =>
    refine ⟨0, ?_, fun distance lt => absurd lt (Nat.not_lt_zero distance)⟩
    exact (UInt8.add_zero l.start).symm
  | append_singleton past c ih =>
    obtain ⟨_, swept⟩ := ih
    obtain ⟨reach, _, swept⟩ := swept.call c
    exact ⟨reach, swept⟩

/-- An index is leased again only after each of the other 255 was leased at some moment since. -/
theorem others_leased_between (start : UInt8) (before between : List Call) {index : UInt8}
    {leases later : Leases}
    (first : ((startingAt start).after before).lease? = some (index, leases))
    (again : (leases.after between).lease? = some (index, later))
    {other : UInt8} (ne : other ≠ index) :
    ∃ moment, moment <+: between ∧ (leases.after moment).isLeased other = true := by
  obtain ⟨distance, _, taken, next⟩ := exists_firstFree first
  have origin : leases.start = onward index 1 := by
    rw [next, taken, onward_onward]
  obtain ⟨reach, swept⟩ := leases.exists_swept between
  obtain ⟨further, _, back, _, passed⟩ := swept.passed_lease again
  -- the second lease ends a whole number of rounds, at least one
  have whole : (1 + (reach + further)) % 256 = 0 := by
    rw [origin, onward_onward, ← UInt8.toNat_inj, toNat_onward] at back
    have below : index.toNat < 256 := index.toNat_lt
    omega
  obtain ⟨steps, bound, rfl⟩ := exists_onward leases.start other
  refine passed steps ?_
  have short : steps ≠ 255 := by
    rintro rfl
    refine ne ?_
    rw [origin, onward_onward, ← UInt8.toNat_inj, toNat_onward]
    have below : index.toNat < 256 := index.toNat_lt
    omega
  omega

theorem lease?_of_free (room : l.count ≠ Layout.indexCount) (free : l.isLeased l.start = false) :
    l.lease? = some (l.start, l.mark l.start) := by
  have here : onward l.start 0 = l.start := UInt8.add_zero l.start
  have first : l.FirstFree 0 :=
    ⟨by decide, (congrArg l.isLeased here).trans free,
      fun nearer lt => absurd lt (Nat.not_lt_zero nearer)⟩
  rw [lease?_eq, if_neg room, distance?_eq_some.mpr first, Option.map_some, here]

theorem after_leases (l : Leases) (n : Nat) (room : l.count + n ≤ Layout.indexCount)
    (free : ∀ k < n, l.isLeased (onward l.start k) = false) :
    l.after (List.replicate n .lease) = (fun l => l.mark l.start)^[n] l := by
  induction n generalizing l with
  | zero => rfl
  | succ n ih =>
    have small : l.count + (n + 1) ≤ 256 := room
    have first := lease?_of_free (l := l) (fun full => absurd (full ▸ room) (by omega))
      ((congrArg l.isLeased (UInt8.add_zero l.start)).symm.trans (free 0 (Nat.succ_pos n)))
    rw [List.replicate_succ, after_cons, Leases.call, first]
    refine ih (l.mark l.start) (Nat.le_trans (Nat.le_of_eq (Nat.succ_add _ _)) room)
      fun k lt => ?_
    have next : onward (l.mark l.start).start k = onward l.start (1 + k) :=
      onward_onward l.start 1 k
    have ahead : onward l.start (1 + k) ≠ l.start := by
      have below : l.start.toNat < 256 := l.start.toNat_lt
      rw [Ne, ← UInt8.toNat_inj, toNat_onward]
      omega
    rw [next, (lease?_eq_some first).2, free (1 + k) (by omega), beq_false_of_ne ahead,
      Bool.or_false]

theorem others_leased_between_wrap :
    ∃ later, ((startingAt 0).after []).lease? = some (0, (startingAt 0).mark 0) ∧
      (((startingAt 0).mark 0).after (.release 0 :: List.replicate 255 .lease)).lease? =
        some (0, later) ∧
      ∃ moment, moment <+: .release 0 :: List.replicate 255 .lease ∧
        (((startingAt 0).mark 0).after moment).isLeased 200 = true := by
  have first : ((startingAt 0).after []).lease? = some (0, (startingAt 0).mark 0) :=
    lease?_of_free (by decide) (by decide)
  have released : (((startingAt 0).mark 0).call (.release 0)).2 = ⟨0, 1, 0⟩ := by decide +kernel
  have round : ((startingAt 0).mark 0).after (.release 0 :: List.replicate 255 .lease) =
      (fun l => l.mark l.start)^[255] ⟨0, 1, 0⟩ := by
    rw [after_cons, released]
    exact after_leases ⟨0, 1, 0⟩ 255 (by decide) fun _ _ => BitVec.getLsbD_zero
  have back : ((fun l => l.mark l.start)^[255] ⟨0, 1, 0⟩ : Leases).start = 0 := by decide +kernel
  have again := lease?_of_free (l := (fun l => l.mark l.start)^[255] ⟨0, 1, 0⟩)
    (by decide +kernel) (by decide +kernel)
  rw [← round] at again back
  rw [back] at again
  exact ⟨_, first, again, others_leased_between 0 [] _ first again (by decide)⟩

end Leases

end Fieldbus
