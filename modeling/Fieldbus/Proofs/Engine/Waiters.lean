import Fieldbus.Proofs.Engine.Sending
import Mathlib.Data.List.Chain

/-!
# Who waits to be sent

The queue has indices. Some stand in it more than once, and some have no transaction any more or one
that is not to be sent. What is left without these are the transactions that wait, in the order in
which sending comes to them.
-/

namespace Fieldbus

theorem filterMap_eraseDups_filter {α β : Type} [BEq α] [LawfulBEq α] {f : α → Option β} {a : α}
    (dropped : f a = none) (l : List α) :
    (l.filter fun b => !b == a).eraseDups.filterMap f = l.eraseDups.filterMap f := by
  induction size : l.length using Nat.strongRecOn generalizing l with
  | ind n ih =>
      cases l with
      | nil => rfl
      | cons b rest =>
          subst size
          have shorter : (rest.filter fun c => !c == b).length < rest.length + 1 :=
            Nat.lt_succ_of_le (List.length_filter_le _ _)
          by_cases same : b = a
          · subst same
            rw [List.eraseDups_cons]
            simp [dropped]
          · rw [List.filter_cons_of_pos (by simpa using same), List.eraseDups_cons,
              List.eraseDups_cons, List.filterMap_cons, List.filterMap_cons, List.filter_comm,
              ih _ shorter _ rfl]

namespace Engine

def waiting? (e : Engine) (index : UInt8) : Option Transaction :=
  (e.slot index).filter Transaction.queued

/-- The transactions that wait, in the order of the queue. An index that stands there more than once
counts where it stands first. -/
def waiters (e : Engine) : List Transaction := e.queue.eraseDups.filterMap e.waiting?

variable {e e' : Engine} {index : UInt8} {t : Transaction}

theorem waiting?_eq_some_iff : e.waiting? index = some t ↔
    e.slot index = some t ∧ t.queued = true :=
  Option.filter_eq_some_iff

theorem waiting?_eq_none (idle : ∀ t, e.slot index = some t → t.queued = false) :
    e.waiting? index = none := by
  refine Option.eq_none_iff_forall_ne_some.mpr fun t waits => ?_
  obtain ⟨slot, queued⟩ := waiting?_eq_some_iff.mp waits
  rw [idle t slot] at queued
  cases queued

theorem waiters_skip (idle : ∀ t, e.slot index = some t → t.queued = false) :
    ({ e with queue := index :: e.queue } : Engine).waiters = e.waiters := by
  have none : e.waiting? index = none := waiting?_eq_none idle
  show (index :: e.queue).eraseDups.filterMap e.waiting? = _
  rw [List.eraseDups_cons, List.filterMap_cons_none none, filterMap_eraseDups_filter none]
  rfl

theorem waiters_take (slot : e.slot index = some t) (queued : t.queued = true) (now : Nat) :
    ({ e with queue := index :: e.queue } : Engine).waiters =
      t :: (e.markSent now index t).waiters := by
  have waits : e.waiting? index = some t := waiting?_eq_some_iff.mpr ⟨slot, queued⟩
  have slots (other : UInt8) : (e.markSent now index t).slot other =
      if other = index then some (t.markSent now) else e.slot other :=
    slot_setSlot e index other _
  have sent : (e.markSent now index t).waiting? index = none :=
    waiting?_eq_none fun u here => by
      rw [slots, if_pos rfl, Option.some.injEq] at here
      rw [← here]
      rfl
  show (index :: e.queue).eraseDups.filterMap e.waiting? =
    t :: e.queue.eraseDups.filterMap (e.markSent now index t).waiting?
  rw [List.eraseDups_cons, List.filterMap_cons_some waits, ← filterMap_eraseDups_filter sent]
  congr 1
  refine List.filterMap_congr fun other here => ?_
  have ne : other ≠ index := by
    simpa using (List.mem_filter.mp (List.mem_eraseDups.mp here)).2
  rw [waiting?, waiting?, slots, if_neg ne]

theorem Sound.mem_waiters (h : e.Sound) :
    t ∈ e.waiters ↔ e.slot t.index = some t ∧ t.queued = true := by
  rw [waiters, List.mem_filterMap]
  constructor
  · rintro ⟨index, -, waits⟩
    obtain ⟨slot, queued⟩ := waiting?_eq_some_iff.mp waits
    obtain ⟨r, -, carries⟩ := (h.backed slot).prepared
    exact ⟨carries.place ▸ slot, queued⟩
  · rintro ⟨slot, queued⟩
    exact ⟨t.index, List.mem_eraseDups.mpr (h.waiting slot queued).2,
      waiting?_eq_some_iff.mpr ⟨slot, queued⟩⟩

/-! ## Groups, one for each frame -/

/-- The first of the later ones has no room behind a group. -/
def Tight (room : Nat) (group later : List Transaction) : Prop :=
  ∀ t ∈ later.head?, room < Frame.size (group.map Transaction.encoded) + t.encoded.length

theorem Tight.of_append {room : Nat} {group later more : List Transaction}
    (h : Tight room group (later ++ more)) (some : later ≠ []) : Tight room group later := by
  intro t first
  refine h t ?_
  rw [List.head?_append_of_ne_nil _ some]
  exact first

/-- Those who waited have been sent in groups, in order, each group as large as a frame allows. -/
structure Groups (e₀ : Engine) (room : Nat) (groups : List (List Transaction)) (e : Engine) :
    Prop where
  order : groups.flatten ++ e.waiters = e₀.waiters
  filled : ∀ group ∈ groups, group ≠ []
  tight : (groups ++ [e.waiters]).IsChain (Tight room)
  framesSent : e.statistics.framesSent = e₀.statistics.framesSent + groups.length
  datagramsSent : e.statistics.datagramsSent =
    e₀.statistics.datagramsSent + groups.flatten.length

variable {e₀ : Engine} {room : Nat} {groups : List (List Transaction)} {group : List Transaction}

theorem Groups.none (e : Engine) (room : Nat) : Groups e room [] e :=
  ⟨rfl, by simp, .singleton _, rfl, rfl⟩

theorem Groups.congr (h : Groups e₀ room groups e) (waiters : e'.waiters = e.waiters)
    (statistics : e'.statistics = e.statistics) : Groups e₀ room groups e' := by
  constructor
  case order => rw [waiters, h.order]
  case filled => exact h.filled
  case tight => rw [waiters]; exact h.tight
  case framesSent => rw [statistics, h.framesSent]
  case datagramsSent => rw [statistics, h.datagramsSent]

theorem Groups.next (h : Groups e₀ room groups e) (some : group ≠ [])
    (order : e.waiters = group ++ e'.waiters) (tight : Tight room group e'.waiters)
    (framesSent : e'.statistics.framesSent = e.statistics.framesSent + 1)
    (datagramsSent : e'.statistics.datagramsSent = e.statistics.datagramsSent + group.length) :
    Groups e₀ room (groups ++ [group]) e' := by
  constructor
  case order =>
    rw [List.flatten_append, List.flatten_singleton, List.append_assoc, ← order, h.order]
  case filled =>
    intro g hg
    rcases List.mem_append.mp hg with old | new
    · exact h.filled g old
    · exact List.mem_singleton.mp new ▸ some
  case tight =>
    rw [List.append_assoc, List.singleton_append, List.isChain_append_cons_cons]
    refine ⟨?_, tight, .singleton _⟩
    have before := h.tight
    rw [order, List.isChain_append] at before
    rw [List.isChain_append]
    obtain ⟨chain, -, last⟩ := before
    refine ⟨chain, .singleton _, fun g hg later first => ?_⟩
    obtain rfl : group = later := Option.some.inj first
    exact (last g hg _ rfl).of_append some
  case framesSent => rw [framesSent, h.framesSent, List.length_append]; rfl
  case datagramsSent =>
    rw [datagramsSent, h.datagramsSent, List.flatten_append, List.flatten_singleton,
      List.length_append, Nat.add_assoc]

end Engine

end Fieldbus
