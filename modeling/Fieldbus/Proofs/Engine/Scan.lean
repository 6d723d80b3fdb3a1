import Fieldbus.Proofs.Engine.Leases

/-!
# The search for a free index

A search goes round the indices once, from where the last one ended. It can look at the bitmap as
a whole, and it can look at four words of 64 bits, one after the other. Then it visits the word it
begins in twice: first for the bits from the start on, last for the bits below the start. Both
ways find the first free index of the round.
-/

namespace Fieldbus.Leases

variable {l : Leases} {distance step : Nat}

/-- The index so many steps after `start`, round the 256 indices. -/
def onward (start : UInt8) (distance : Nat) : UInt8 := start + UInt8.ofNat distance

def mark (l : Leases) (index : UInt8) : Leases :=
  ⟨l.used ||| bit index.toNat, index + 1, l.count + 1⟩

theorem toNat_onward (start : UInt8) (distance : Nat) :
    (onward start distance).toNat = (start.toNat + distance) % 256 := by
  simp [onward]

theorem onward_onward (start : UInt8) (first second : Nat) :
    onward (onward start first) second = onward start (first + second) := by
  rw [onward, onward, onward, UInt8.ofNat_add, UInt8.add_assoc]

theorem exists_onward (start index : UInt8) :
    ∃ distance < 256, onward start distance = index := by
  refine ⟨(index.toNat + (256 - start.toNat)) % 256, Nat.mod_lt _ (by decide), ?_⟩
  have below : start.toNat < 256 := start.toNat_lt
  have within : index.toNat < 256 := index.toNat_lt
  rw [← UInt8.toNat_inj, toNat_onward]
  omega

/-! ## The first free index of a round -/

/-- So many steps on stands the first free index of the round. -/
structure FirstFree (l : Leases) (distance : Nat) : Prop where
  bound : distance < 256
  free : l.isLeased (onward l.start distance) = false
  passed : ∀ nearer < distance, l.isLeased (onward l.start nearer) = true

def distance? (l : Leases) : Option Nat :=
  (List.range Layout.indexCount).find? fun distance => !l.isLeased (onward l.start distance)

theorem distance?_eq_some : l.distance? = some distance ↔ l.FirstFree distance := by
  rw [distance?, List.find?_range_eq_some, List.mem_range]
  constructor
  · rintro ⟨free, bound, passed⟩
    exact ⟨bound, by simpa using free, fun nearer lt => by simpa using passed nearer lt⟩
  · rintro ⟨bound, free, passed⟩
    exact ⟨by simpa using free, bound, fun nearer lt => by simpa using passed nearer lt⟩

theorem distance?_eq_none : l.distance? = none ↔ ∀ index, l.isLeased index = true := by
  rw [distance?, List.find?_eq_none]
  constructor
  · intro none_free index
    obtain ⟨distance, bound, rfl⟩ := exists_onward l.start index
    simpa using none_free distance (List.mem_range.mpr bound)
  · intro full distance _
    simp [full]

/-! ## In the bitmap as a whole -/

theorem getLsbD_ahead (l : Leases) (i : Nat) (bound : i < 256) :
    l.ahead.getLsbD i = (!l.used.getLsbD i && decide (l.start.toNat ≤ i)) := by
  simp only [ahead, BitVec.getLsbD_and, BitVec.getLsbD_not, BitVec.getLsbD_shiftLeft,
    BitVec.getLsbD_allOnes, bound, decide_true, Bool.true_and]
  have shifted : i - l.start.toNat < 256 := by omega
  rw [decide_eq_true shifted, Bool.and_true]
  congr 1
  rw [Bool.eq_iff_iff]
  simp

theorem isLeased_onward (l : Leases) (start : UInt8) (distance : Nat) :
    l.isLeased (onward start distance) = l.used.getLsbD ((start.toNat + distance) % 256) := by
  rw [isLeased, toNat_onward]

/-- The lowest candidate ends the round's leased part: everything from the start on comes before
it, or it stands at the start or later. -/
theorem lowest_firstFree (some_free : l.candidates ≠ 0#256) :
    ∃ distance, l.FirstFree distance ∧
      UInt8.ofNat l.candidates.ctz.toNat = onward l.start distance := by
  have bound : l.candidates.ctz.toNat < 256 := BitVec.ctz_lt_iff_ne_zero.mpr some_free
  have found := BitVec.getLsbD_true_ctz_of_ne_zero some_free
  have lower {i : Nat} (lt : i < l.candidates.ctz.toNat) : l.candidates.getLsbD i = false :=
    BitVec.getLsbD_false_of_lt_ctz lt
  have below : l.start.toNat < 256 := l.start.toNat_lt
  generalize l.candidates.ctz.toNat = lowest at bound found lower
  have free := getLsbD_candidates found
  have place : (UInt8.ofNat lowest).toNat = lowest := UInt8.toNat_ofNat_of_lt' bound
  by_cases none_ahead : l.ahead = 0#256
  case pos =>
    -- the search wraps: all from the start on is leased, and so is all below the lowest
    have candidates : l.candidates = ~~~l.used := if_pos none_ahead
    have above {i : Nat} (lt : i < 256) (ge : l.start.toNat ≤ i) : l.used.getLsbD i = true := by
      have gone := getLsbD_ahead l i lt
      rw [none_ahead, BitVec.getLsbD_zero, decide_eq_true ge, Bool.and_true] at gone
      simpa using gone.symm
    have under : lowest < l.start.toNat := by
      by_contra not_lt
      rw [above bound (Nat.le_of_not_lt not_lt)] at free
      cases free
    refine ⟨256 - l.start.toNat + lowest, ⟨by omega, ?_, fun nearer lt => ?_⟩, ?_⟩
    · rw [isLeased_onward, show (l.start.toNat + (256 - l.start.toNat + lowest)) % 256 = lowest by
        omega]
      exact free
    · rw [isLeased_onward]
      by_cases wrapped : l.start.toNat + nearer < 256
      · rw [Nat.mod_eq_of_lt wrapped]
        exact above wrapped (Nat.le_add_right _ _)
      · have leased := lower (i := (l.start.toNat + nearer) % 256) (by omega)
        have within : (l.start.toNat + nearer) % 256 < 256 := Nat.mod_lt _ (by decide)
        rw [candidates, BitVec.getLsbD_not, decide_eq_true within] at leased
        simpa using leased
    · rw [← UInt8.toNat_inj, place, toNat_onward]
      omega
  case neg =>
    have candidates : l.candidates = l.ahead := if_neg none_ahead
    have onset : l.start.toNat ≤ lowest := by
      rw [candidates, getLsbD_ahead l lowest bound, Bool.and_eq_true, decide_eq_true_eq] at found
      exact found.2
    refine ⟨lowest - l.start.toNat, ⟨by omega, ?_, fun nearer lt => ?_⟩, ?_⟩
    · rw [isLeased_onward, Nat.add_sub_cancel' onset, Nat.mod_eq_of_lt bound]
      exact free
    · have within : l.start.toNat + nearer < 256 := by omega
      rw [isLeased_onward, Nat.mod_eq_of_lt within]
      have leased := lower (i := l.start.toNat + nearer) (by omega)
      rw [candidates, getLsbD_ahead l _ within] at leased
      simpa using leased
    · rw [← UInt8.toNat_inj, place, toNat_onward, Nat.add_sub_cancel' onset,
        Nat.mod_eq_of_lt bound]

theorem candidates_eq_zero : l.candidates = 0#256 ↔ ∀ index, l.isLeased index = true := by
  constructor
  · intro none_free index
    have no_ahead : l.ahead = 0#256 := by
      by_contra some_ahead
      exact some_ahead ((if_neg some_ahead).symm.trans none_free)
    have gone : (~~~l.used).getLsbD index.toNat = false := by
      rw [← show l.candidates = ~~~l.used from if_pos no_ahead, none_free, BitVec.getLsbD_zero]
    rw [BitVec.getLsbD_not, decide_eq_true (show index.toNat < 256 from index.toNat_lt)] at gone
    simpa [isLeased] using gone
  · intro full
    by_contra some_free
    obtain ⟨distance, first, _⟩ := lowest_firstFree some_free
    exact Bool.false_ne_true (first.free.symm.trans (full _))

/-- A lease takes the first free index of the round. -/
theorem lease?_eq (l : Leases) :
    l.lease? = if l.count = Layout.indexCount then none
      else l.distance?.map fun distance =>
        (onward l.start distance, l.mark (onward l.start distance)) := by
  unfold lease?
  split
  · rfl
  · split
    · rename_i none_free
      rw [distance?_eq_none.mpr (candidates_eq_zero.mp none_free), Option.map_none]
    · rename_i some_free
      obtain ⟨distance, first, same⟩ := lowest_firstFree some_free
      have bound : l.candidates.ctz.toNat < 256 := BitVec.ctz_lt_iff_ne_zero.mpr some_free
      have place : (UInt8.ofNat l.candidates.ctz.toNat).toNat = l.candidates.ctz.toNat :=
        UInt8.toNat_ofNat_of_lt' bound
      rw [distance?_eq_some.mpr first, Option.map_some, ← same, mark, place]
      simp only [UInt8.ofNat_add]
      rfl

/-! ## Word by word -/

def word (l : Leases) (position : Nat) : BitVec 64 := l.used.extractLsb' (64 * position) 64

/-- The bits from the start on, in the word that the search begins in. -/
def startMask (l : Leases) : BitVec 64 := BitVec.allOnes 64 <<< (l.start.toNat % 64)

/-- Which word a step visits. The last step is back at the first one's. -/
def visited (l : Leases) (step : Nat) : Nat := (l.start.toNat / 64 + step) % 4

def freeBits (l : Leases) (step : Nat) : BitVec 64 :=
  if step = 0 then ~~~l.word (l.visited step) &&& l.startMask
  else if step = 4 then ~~~l.word (l.visited step) &&& ~~~l.startMask
  else ~~~l.word (l.visited step)

/-- A lease that scans the words, at most five of them. -/
def scan? (l : Leases) : Option (UInt8 × Leases) :=
  if l.count = Layout.indexCount then none
  else
    ((List.range 5).find? fun step => l.freeBits step != 0#64).map fun step =>
      let index := UInt8.ofNat (64 * l.visited step + (l.freeBits step).ctz.toNat)
      (index, l.mark index)

theorem getLsbD_word (l : Leases) (position i : Nat) (bound : i < 64) :
    (l.word position).getLsbD i = l.used.getLsbD (64 * position + i) := by
  rw [word, BitVec.getLsbD_extractLsb', decide_eq_true bound, Bool.true_and]

theorem getLsbD_startMask (l : Leases) (i : Nat) (bound : i < 64) :
    l.startMask.getLsbD i = decide (l.start.toNat % 64 ≤ i) := by
  rw [startMask, BitVec.getLsbD_shiftLeft, BitVec.getLsbD_allOnes, decide_eq_true bound,
    decide_eq_true (show i - l.start.toNat % 64 < 64 by omega), Bool.true_and, Bool.and_true,
    Bool.eq_iff_iff]
  simp

/-- Which bits a step finds: counted from the beginning of the first word, those of the 256 bits
from the start on that are free. -/
theorem getLsbD_freeBits (l : Leases) {i : Nat} (bound : i < 64) (last : step ≤ 4) :
    (l.freeBits step).getLsbD i = true ↔
      l.start.toNat % 64 ≤ 64 * step + i ∧ 64 * step + i < 256 + l.start.toNat % 64 ∧
        l.isLeased (onward l.start (64 * step + i - l.start.toNat % 64)) = false := by
  have spelled : (~~~l.word (l.visited step)).getLsbD i = true ↔
      l.used.getLsbD (64 * l.visited step + i) = false := by
    rw [BitVec.getLsbD_not, decide_eq_true bound, getLsbD_word l _ _ bound]
    simp
  have here (reached : l.start.toNat % 64 ≤ 64 * step + i) :
      l.isLeased (onward l.start (64 * step + i - l.start.toNat % 64)) =
        l.used.getLsbD (64 * l.visited step + i) := by
    rw [isLeased_onward, visited]
    congr 1
    omega
  unfold freeBits
  split
  case isTrue first =>
    subst first
    rw [BitVec.getLsbD_and, getLsbD_startMask l i bound, Bool.and_eq_true, spelled,
      decide_eq_true_eq]
    constructor
    · rintro ⟨free, onset⟩
      exact ⟨by omega, by omega, (here (by omega)).trans free⟩
    · rintro ⟨onset, _, free⟩
      exact ⟨(here onset).symm.trans free, by omega⟩
  case isFalse =>
    split
    case isTrue closing =>
      subst closing
      rw [BitVec.getLsbD_and, Bool.and_eq_true, spelled, BitVec.getLsbD_not,
        getLsbD_startMask l i bound, decide_eq_true bound]
      constructor
      · rintro ⟨free, under⟩
        have under : i < l.start.toNat % 64 := by simpa using under
        exact ⟨by omega, by omega, (here (by omega)).trans free⟩
      · rintro ⟨onset, under, free⟩
        refine ⟨(here onset).symm.trans free, ?_⟩
        have under : i < l.start.toNat % 64 := by omega
        simpa using under
    case isFalse =>
      rw [spelled]
      constructor
      · intro free
        exact ⟨by omega, by omega, (here (by omega)).trans free⟩
      · rintro ⟨onset, _, free⟩
        exact (here onset).symm.trans free

theorem isLeased_of_unset (bound : distance < 256)
    (unset : (l.freeBits ((l.start.toNat % 64 + distance) / 64)).getLsbD
      ((l.start.toNat % 64 + distance) % 64) = false) :
    l.isLeased (onward l.start distance) = true := by
  by_contra not_leased
  have last : (l.start.toNat % 64 + distance) / 64 ≤ 4 := by omega
  have taken := (getLsbD_freeBits l (Nat.mod_lt (l.start.toNat % 64 + distance) (by decide))
    last).mpr ⟨by omega, by omega, by
      rw [Nat.div_add_mod, Nat.add_sub_cancel_left]
      simpa using not_leased⟩
  exact Bool.false_ne_true (unset.symm.trans taken)

theorem freeBits_firstFree (last : step ≤ 4) (found : l.freeBits step ≠ 0#64)
    (passed : ∀ earlier < step, l.freeBits earlier = 0#64) :
    ∃ distance, l.FirstFree distance ∧
      UInt8.ofNat (64 * l.visited step + (l.freeBits step).ctz.toNat) =
        onward l.start distance := by
  have bound : (l.freeBits step).ctz.toNat < 64 := BitVec.ctz_lt_iff_ne_zero.mpr found
  obtain ⟨onset, within, free⟩ :=
    (getLsbD_freeBits l bound last).mp (BitVec.getLsbD_true_ctz_of_ne_zero found)
  have lower {i : Nat} (lt : i < (l.freeBits step).ctz.toNat) :
      (l.freeBits step).getLsbD i = false := BitVec.getLsbD_false_of_lt_ctz lt
  generalize (l.freeBits step).ctz.toNat = lowest at bound onset within free lower
  refine ⟨64 * step + lowest - l.start.toNat % 64, ⟨by omega, free, fun nearer lt => ?_⟩, ?_⟩
  case refine_1 =>
    -- the step that visits this nearer place, and the bit it stands at
    have seen : l.freeBits ((l.start.toNat % 64 + nearer) / 64) = 0#64 ∨
        (l.start.toNat % 64 + nearer) / 64 = step ∧
          (l.start.toNat % 64 + nearer) % 64 < lowest := by
      by_cases earlier : (l.start.toNat % 64 + nearer) / 64 < step
      · exact .inl (passed _ earlier)
      · exact .inr ⟨by omega, by omega⟩
    refine isLeased_of_unset (by omega) ?_
    rcases seen with none_free | ⟨same, lt⟩
    · rw [none_free, BitVec.getLsbD_zero]
    · rw [same]
      exact lower lt
  case refine_2 =>
    rw [← UInt8.toNat_inj, UInt8.toNat_ofNat', toNat_onward, visited]
    omega

/-- The scan over the words is the search in the whole bitmap. -/
theorem scan?_eq_lease? (l : Leases) : l.scan? = l.lease? := by
  rw [lease?_eq, scan?]
  split
  · rfl
  · cases scanned : (List.range 5).find? fun step => l.freeBits step != 0#64 with
    | none =>
      have full (index : UInt8) : l.isLeased index = true := by
        obtain ⟨distance, bound, rfl⟩ := exists_onward l.start index
        refine isLeased_of_unset bound ?_
        have unset := List.find?_eq_none.mp scanned ((l.start.toNat % 64 + distance) / 64)
          (List.mem_range.mpr (by omega))
        rw [show l.freeBits ((l.start.toNat % 64 + distance) / 64) = 0#64 by simpa using unset,
          BitVec.getLsbD_zero]
      rw [distance?_eq_none.mpr full]
      rfl
    | some step =>
      obtain ⟨found, last, passed⟩ := List.find?_range_eq_some.mp scanned
      obtain ⟨distance, first, same⟩ := freeBits_firstFree
        (Nat.le_of_lt_succ (List.mem_range.mp last)) (by simpa using found)
        fun earlier lt => by simpa using passed earlier lt
      rw [distance?_eq_some.mpr first]
      simp only [Option.map_some, same]

end Fieldbus.Leases
