import Fieldbus.Engine.Leases
import Mathlib.Data.List.Nodup
import Mathlib.Data.List.Perm.Subperm

/-!
# Leases as a set

What counts about the leases is which indices are leased, and how many. A lease adds one index that
was free, and an index that is given back is free again.
-/

namespace Fieldbus.Leases

theorem getLsbD_bit (n i : Nat) (bound : n < 256) : (bit n).getLsbD i = decide (i = n) := by
  have spelled : bit n = BitVec.twoPow 256 n := (BitVec.twoPow_eq 256 n).symm
  rw [spelled, BitVec.getLsbD_twoPow, decide_eq_true bound, Bool.true_and]
  exact decide_eq_decide.mpr eq_comm

theorem getLsbD_candidates {l : Leases} {i : Nat} (h : l.candidates.getLsbD i = true) :
    l.used.getLsbD i = false := by
  unfold candidates ahead at h
  split at h
  · simpa using (by simpa using h : i < 256 ∧ l.used.getLsbD i = false).2
  · simp only [BitVec.getLsbD_and, BitVec.getLsbD_not, Bool.and_eq_true, Bool.not_eq_true',
      decide_eq_true_eq] at h
    exact h.1.2

theorem lease?_eq_some {l leases : Leases} {index : UInt8}
    (h : l.lease? = some (index, leases)) :
    l.isLeased index = false ∧
      ∀ other, leases.isLeased other = (l.isLeased other || other == index) := by
  unfold lease? at h
  split at h
  · cases h
  · split at h
    · cases h
    · rename_i some_free
      have bound : l.candidates.ctz.toNat < 256 :=
        BitVec.ctz_lt_iff_ne_zero.mpr some_free
      have free := getLsbD_candidates (BitVec.getLsbD_true_ctz_of_ne_zero some_free)
      have place : (UInt8.ofNat l.candidates.ctz.toNat).toNat = l.candidates.ctz.toNat := by
        rw [UInt8.toNat_ofNat']
        exact Nat.mod_eq_of_lt bound
      simp only [Option.some.injEq, Prod.mk.injEq] at h
      obtain ⟨rfl, rfl⟩ := h
      refine ⟨by rw [isLeased, place, free], fun other => ?_⟩
      simp only [isLeased, BitVec.getLsbD_or, getLsbD_bit _ _ bound]
      congr 1
      rw [Bool.eq_iff_iff, decide_eq_true_iff, beq_iff_eq, ← UInt8.toNat_inj, place]

theorem count_lease? {l leases : Leases} {index : UInt8}
    (h : l.lease? = some (index, leases)) : leases.count = l.count + 1 := by
  unfold lease? at h
  split at h
  · cases h
  · split at h
    · cases h
    · cases h
      rfl

theorem isLeased_release (l : Leases) (index other : UInt8) :
    (l.release index).2.isLeased other = (l.isLeased other && other != index) := by
  unfold release
  split
  · simp only [isLeased, BitVec.getLsbD_and, BitVec.getLsbD_not,
      getLsbD_bit _ _ index.toNat_lt]
    have bound : other.toNat < 256 := other.toNat_lt
    rw [decide_eq_true bound, Bool.true_and]
    congr 1
    rw [Bool.eq_iff_iff]
    simp [← UInt8.toNat_inj]
  · rename_i free
    by_cases same : other = index
    · subst same
      simpa using free
    · simp [same]

theorem isLeased_returned {l leases : Leases} {index : UInt8}
    (h : l.lease? = some (index, leases)) (other : UInt8) :
    (leases.release index).2.isLeased other = l.isLeased other := by
  obtain ⟨free, grown⟩ := lease?_eq_some h
  rw [isLeased_release, grown]
  by_cases same : other = index
  · subst same
    simp [free]
  · rw [beq_false_of_ne same, bne_iff_ne.mpr same, Bool.or_false, Bool.and_true]

theorem mem_indices (index : UInt8) : index ∈ indices :=
  List.mem_map.mpr ⟨index.toNat, List.mem_range.mpr index.toNat_lt, UInt8.ofNat_toNat⟩

theorem length_indices : indices.length = 256 := by
  simp [indices, Layout.indexCount]

theorem nodup_indices : indices.Nodup := by
  refine (List.nodup_map_iff_inj_on List.nodup_range).mpr fun i hi j hj same => ?_
  have toNat {n : Nat} (hn : n ∈ List.range Layout.indexCount) : (UInt8.ofNat n).toNat = n := by
    rw [UInt8.toNat_ofNat']
    exact Nat.mod_eq_of_lt (List.mem_range.mp hn)
  rw [← toNat hi, same, toNat hj]

/-! ## Indices out on lease -/

/-- The indices on lease are `out`, and the count of leases is their number. -/
structure Lends (l : Leases) (out : List UInt8) : Prop where
  distinct : out.Nodup
  leased : ∀ index, l.isLeased index = true ↔ index ∈ out
  counted : l.count = out.length

namespace Lends

variable {l leases : Leases} {index : UInt8} {out out' : List UInt8}

theorem count_le (h : l.Lends out) : l.count ≤ 256 := by
  have sub : out ⊆ indices := fun index _ => mem_indices index
  have fewer := (h.distinct.subperm sub).length_le
  rw [length_indices] at fewer
  rw [h.counted]
  exact fewer

theorem perm (h : l.Lends out) (same : out'.Perm out) : l.Lends out' where
  distinct := same.nodup_iff.mpr h.distinct
  leased index := (h.leased index).trans same.mem_iff.symm
  counted := h.counted.trans same.length_eq.symm

theorem lease (h : l.Lends out) (lease : l.lease? = some (index, leases)) :
    leases.Lends (index :: out) := by
  obtain ⟨free, grown⟩ := lease?_eq_some lease
  constructor
  case distinct =>
    refine List.nodup_cons.mpr ⟨fun held => ?_, h.distinct⟩
    rw [(h.leased index).mpr held] at free
    cases free
  case leased =>
    intro other
    rw [grown, Bool.or_eq_true, h.leased, beq_iff_eq, List.mem_cons, or_comm]
  case counted =>
    rw [count_lease? lease, h.counted, List.length_cons]

theorem release (h : l.Lends (index :: out)) : (l.release index).2.Lends out := by
  have leased : l.isLeased index = true := (h.leased index).mpr List.mem_cons_self
  obtain ⟨away, distinct⟩ := List.nodup_cons.mp h.distinct
  constructor
  case distinct => exact distinct
  case leased =>
    intro other
    rw [isLeased_release, Bool.and_eq_true, h.leased, bne_iff_ne, List.mem_cons]
    constructor
    · rintro ⟨here | here, ne⟩
      · exact absurd here ne
      · exact here
    · intro here
      refine ⟨.inr here, ?_⟩
      rintro rfl
      exact away here
  case counted =>
    simp [Leases.release, leased, h.counted]

end Lends

theorem lends_startingAt (start : UInt8) : (startingAt start).Lends [] := by
  refine ⟨List.nodup_nil, fun index => ?_, rfl⟩
  simp [isLeased, startingAt]

end Fieldbus.Leases
