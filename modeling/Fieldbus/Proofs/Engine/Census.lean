import Fieldbus.Proofs.Engine.Resources

/-!
# Counting transactions

The slots are counted by what stands in them, and the journal by the kinds of its entries. The two
counts belong together: what has begun is in its slot, or it has been completed or cancelled.
-/

namespace Fieldbus

inductive JournalEntry.Kind where
  | begun
  | packed
  | sent
  | completed
  | cancelled
  | accepted
  | declined
  deriving DecidableEq, Repr

def JournalEntry.kind : JournalEntry → Kind
  | .prepared .. => .begun
  | .packed .. => .packed
  | .sent _ => .sent
  | .completed .. => .completed
  | .cancelled _ => .cancelled
  | .followed _ (.ok _) => .accepted
  | .followed _ (.error _) => .declined

namespace Engine

variable {e e' : Engine} {index : UInt8} {t : Transaction} {xs : List JournalEntry}

/-! ## Entries -/

def logged (e : Engine) (kind : JournalEntry.Kind) : Nat :=
  e.journal.countP fun x => x.kind = kind

theorem logged_append (journal : e'.journal = e.journal ++ xs) (kind : JournalEntry.Kind) :
    e'.logged kind = e.logged kind + xs.countP fun x => x.kind = kind := by
  unfold logged
  rw [journal, List.countP_append]

theorem logged_record (e : Engine) (x : JournalEntry) (kind : JournalEntry.Kind) :
    (e.record x).logged kind = e.logged kind + if x.kind = kind then 1 else 0 := by
  have journal : (e.record x).journal = e.journal ++ [x] := rfl
  rw [logged_append journal, List.countP_singleton]
  simp only [decide_eq_true_eq]

/-! ## Slots -/

def census (e : Engine) (p : Transaction → Bool) : Nat := e.slots.countP fun slot => slot.any p

/-- The number of transactions that wait for their answers. -/
def flying (e : Engine) : Nat := e.census Transaction.isSent

def waitingCount (e : Engine) : Nat := e.census Transaction.queued

theorem occupied_eq_census (e : Engine) : e.occupied = e.census fun _ => true := by
  have same : Option.isSome = fun slot : Option Transaction => slot.any fun _ => true := by
    funext slot
    cases slot <;> rfl
  rw [occupied, census, same]

theorem toNat_eq_ite (b : Bool) : b.toNat = if b then 1 else 0 := by
  cases b <;> rfl

theorem census_setSlot (e : Engine) (index : UInt8) (t : Option Transaction)
    (p : Transaction → Bool) :
    (e.setSlot index t).census p + ((e.slot index).any p).toNat =
      e.census p + (t.any p).toNat := by
  have there : ((e.slot index).any p).toNat ≤ e.census p := by
    rw [toNat_eq_ite]
    exact Vector.boole_getElem_le_countP index.toNat_lt
  have changed : (e.setSlot index t).census p =
      e.census p - ((e.slot index).any p).toNat + (t.any p).toNat := by
    simp only [census, setSlot, Vector.countP_set, slot, toNat_eq_ite]
  omega

theorem census_detach (slot : e.slot index = some t) (x : JournalEntry)
    (p : Transaction → Bool) : (e.detach index x).census p + (p t).toNat = e.census p := by
  have changed := census_setSlot e index none p
  rw [slot] at changed
  exact changed

theorem census_fill (vacant : e.slot index = none) (p : Transaction → Bool) :
    (e.setSlot index (some t)).census p = e.census p + (p t).toNat := by
  have changed := census_setSlot e index (some t) p
  rw [vacant] at changed
  exact changed

theorem census_progress {u : Transaction} (slot : e.slot index = some t)
    (p : Transaction → Bool) :
    (e.setSlot index (some u)).census p + (p t).toNat = e.census p + (p u).toNat := by
  have changed := census_setSlot e index (some u) p
  rw [slot] at changed
  exact changed

theorem census_eq_length (e : Engine) (p : Transaction → Bool) :
    e.census p = (Leases.indices.filter fun index => (e.slot index).any p).length := by
  rw [census, ← Vector.countP_toList, toList_slots, List.countP_map,
    List.countP_eq_length_filter]
  rfl

theorem census_eq_zero {p : Transaction → Bool}
    (none : ∀ index t, e.slot index = some t → p t = false) : e.census p = 0 := by
  rw [census_eq_length, List.length_eq_zero_iff, List.filter_eq_nil_iff]
  intro index _
  cases held : e.slot index with
  | none => exact Bool.false_ne_true
  | some t => simp [none index t held]

theorem census_le_occupied (e : Engine) (p : Transaction → Bool) : e.census p ≤ e.occupied := by
  rw [occupied_eq_census, census, census, ← Vector.countP_toList, ← Vector.countP_toList]
  refine List.countP_mono_left fun slot _ some => ?_
  cases slot with
  | none => cases some
  | some t => rfl

/-- The slots as far as the leases vouch for them. -/
def Leased (e : Engine) : Prop :=
  ∀ {index t}, e.slot index = some t → e.leases.isLeased index = true

theorem Leased.vacant (h : e.Leased) {leases : Leases}
    (lease : e.leases.lease? = some (index, leases)) : e.slot index = none := by
  cases slot : e.slot index with
  | none => rfl
  | some t =>
      have free := (Leases.lease?_eq_some lease).1
      rw [h slot] at free
      cases free

/-! ## The balance -/

def Balanced (e : Engine) : Prop :=
  e.logged .begun = e.logged .completed + e.logged .cancelled + e.occupied

theorem Move.occupied (move : Move e xs e') (h : e.Sound) :
    e'.occupied + ((xs.countP fun x => x.kind = .completed) +
        xs.countP fun x => x.kind = .cancelled) =
      e.occupied + xs.countP fun x => x.kind = .begun := by
  rw [occupied_eq_census, occupied_eq_census]
  cases move with
  | @enroll r followUps index leases b pool length bytes lease take encode =>
      have vacant : e.slot index = none := Leased.vacant h.leased lease
      exact census_fill (e := ({ e with leases, pool, nextGeneration := _ } : Engine).record _)
        vacant fun _ => true
  | @enqueue index t slot unsent idle =>
      have same := census_progress (e := { e with queue := e.queue ++ [index] })
        (u := { t with queued := true }) slot fun _ => true
      exact Nat.add_right_cancel same
  | @pack index queue t now front slot queued =>
      have same := census_progress (e := { e with queue }) (u := t.markSent now) slot
        fun _ => true
      exact Nat.add_right_cancel same
  | @finish index t outcome slot queue kept =>
      exact census_detach (e := { e with queue }) slot (.completed t.generation t.id outcome)
        fun _ => true
  | @cancel index t slot => exact census_detach slot (.cancelled t.generation) fun _ => true
  | @note x general =>
      cases x with
      | followed id result => cases result <;> rfl
      | sent frame => rfl
      | _ => cases general
  | waver lease => rfl
  | «return» take => rfl
  | skip front idle => rfl
  | rotate front => rfl
  | release vacant b => rfl
  | count statistics => rfl
  | shut => rfl
  | share pool => rfl

theorem Move.balanced (move : Move e xs e') (h : e.Sound) (balanced : e.Balanced) :
    e'.Balanced := by
  have logged := logged_append (move.sound h).2.1
  have occupied := move.occupied h
  unfold Balanced at balanced ⊢
  rw [logged, logged, logged]
  omega

theorem Moves.balanced {allow : Engine → JournalEntry → Prop} (path : Moves allow e e')
    (h : e.Sound) (balanced : e.Balanced) : e'.Balanced := by
  induction path with
  | refl => exact balanced
  | tail before last ih =>
      obtain ⟨xs, move, -⟩ := last
      exact move.balanced (Moves.sound before h) ih

theorem Sound.run_balanced (h : e.Sound) (balanced : e.Balanced) (ops : List Operation) :
    (e.run ops).Balanced := by
  induction ops generalizing e with
  | nil => exact balanced
  | cons op rest ih => exact ih (h.perform op) ((perform_moves h op).balanced h balanced)

theorem balanced_withParts (config : Config) (pool : Pool) (start : UInt8) :
    (withParts config pool (.startingAt start)).Balanced := by
  have vacant : (withParts config pool (.startingAt start)).occupied = 0 := by
    rw [occupied_eq_census]
    refine census_eq_zero fun index t slot => ?_
    simp [Engine.slot, withParts] at slot
  unfold Balanced
  rw [vacant]
  rfl

end Engine

end Fieldbus
