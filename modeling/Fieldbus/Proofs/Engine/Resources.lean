import Fieldbus.Port.Loopback
import Fieldbus.Proofs.Buffer.Pool
import Fieldbus.Proofs.Engine.Actions
import Fieldbus.Proofs.Engine.Runs

/-!
# What an engine owes

An index on lease and a buffer out of the pool belong to one transaction each. The transaction is in
the slot of its index, or it has just left the slot and what it sets off is under way; then its
index and its buffer are loose until it gives them up. The leases and the pool are both accounted
for by the list of these holdings.
-/

namespace Fieldbus.Engine

def holdings (e : Engine) : List (UInt8 × Buffer) :=
  Leases.indices.filterMap fun index => (e.slot index).map fun t => (index, t.buffer)

/-- The leases and the pool are accounted for by the transactions in the slots and by what is
loose. -/
structure Stocked (e : Engine) (loose : List (UInt8 × Buffer)) : Prop where
  leases : e.leases.Lends ((loose ++ e.holdings).map Prod.fst)
  pool : e.pool.Lends ((loose ++ e.holdings).map Prod.snd)

/-! ## Holdings -/

def others (e : Engine) (index : UInt8) : List (UInt8 × Buffer) :=
  (Leases.indices.erase index).filterMap fun other =>
    (e.slot other).map fun t => (other, t.buffer)

theorem holdings_congr {e e' : Engine} (slots : ∀ index, e'.slot index = e.slot index) :
    e'.holdings = e.holdings := by
  simp only [holdings, slots]

theorem mem_holdings {e : Engine} {index : UInt8} {b : Buffer} :
    (index, b) ∈ e.holdings ↔ ∃ t, e.slot index = some t ∧ t.buffer = b := by
  unfold holdings
  rw [List.mem_filterMap]
  constructor
  · rintro ⟨other, -, found⟩
    obtain ⟨t, slot, same⟩ := Option.map_eq_some_iff.mp found
    cases same
    exact ⟨t, slot, rfl⟩
  · rintro ⟨t, slot, rfl⟩
    exact ⟨index, Leases.mem_indices index, by rw [slot, Option.map_some]⟩

theorem holdings_perm (e : Engine) (index : UInt8) :
    e.holdings.Perm (((e.slot index).map fun t => (index, t.buffer)).toList ++ e.others index) := by
  have apart := List.perm_cons_erase (Leases.mem_indices index)
  refine (apart.filterMap _).trans ?_
  rw [List.filterMap_cons]
  cases e.slot index with
  | none => exact .refl _
  | some t => exact .refl _

theorem others_setSlot (e : Engine) (index : UInt8) (t : Option Transaction) :
    (e.setSlot index t).others index = e.others index := by
  unfold others
  refine List.filterMap_congr fun other here => ?_
  have ne : other ≠ index := by
    rintro rfl
    exact Leases.nodup_indices.not_mem_erase here
  rw [slot_setSlot, if_neg ne]

theorem holdings_fill {e : Engine} {index : UInt8} {t : Transaction}
    (vacant : e.slot index = none) :
    (e.setSlot index (some t)).holdings.Perm ((index, t.buffer) :: e.holdings) := by
  have before := holdings_perm e index
  have after := holdings_perm (e.setSlot index (some t)) index
  rw [vacant] at before
  rw [others_setSlot, slot_setSlot, if_pos rfl] at after
  exact after.trans (before.symm.cons _)

theorem holdings_clear {e : Engine} {index : UInt8} {t : Transaction}
    (slot : e.slot index = some t) :
    e.holdings.Perm ((index, t.buffer) :: (e.setSlot index none).holdings) := by
  have before := holdings_perm e index
  have after := holdings_perm (e.setSlot index none) index
  rw [slot] at before
  rw [others_setSlot, slot_setSlot, if_pos rfl] at after
  exact before.trans (after.symm.cons _)

theorem holdings_progress {e : Engine} {index : UInt8} {t t' : Transaction}
    (slot : e.slot index = some t) (buffer : t'.buffer = t.buffer) :
    (e.setSlot index (some t')).holdings = e.holdings := by
  unfold holdings
  refine List.filterMap_congr fun other _ => ?_
  rw [slot_setSlot]
  split
  · rename_i here
    rw [here, slot, Option.map_some, Option.map_some, buffer]
  · rfl

namespace Stocked

variable {e e' : Engine} {loose : List (UInt8 × Buffer)}

theorem congr (h : e.Stocked loose) (slots : ∀ index, e'.slot index = e.slot index)
    (leases : e'.leases = e.leases) (pool : e'.pool = e.pool) : e'.Stocked loose := by
  constructor
  · rw [leases, holdings_congr slots]
    exact h.leases
  · rw [pool, holdings_congr slots]
    exact h.pool

theorem record (h : e.Stocked loose) (x : JournalEntry) : (e.record x).Stocked loose :=
  h.congr (fun _ => rfl) rfl rfl

theorem progress (h : e.Stocked loose) {index : UInt8} {t t' : Transaction}
    (slot : e.slot index = some t) (buffer : t'.buffer = t.buffer) :
    (e.setSlot index (some t')).Stocked loose := by
  constructor
  · rw [holdings_progress slot buffer]
    exact h.leases
  · rw [holdings_progress slot buffer]
    exact h.pool

theorem vacant (h : e.Stocked loose) {index : UInt8}
    (free : e.leases.isLeased index = false) : e.slot index = none := by
  cases slot : e.slot index with
  | none => rfl
  | some t =>
      have held : index ∈ (loose ++ e.holdings).map Prod.fst := by
        rw [List.map_append]
        exact List.mem_append_right _ (List.mem_map_of_mem (mem_holdings.mpr ⟨t, slot, rfl⟩))
      rw [(h.leases.leased index).mpr held] at free
      cases free

/-! ## Beginning -/

theorem prepare (h : e.Stocked loose) (r : Request) (followUps : List FollowUp) :
    (e.prepare r followUps).2.Stocked loose := by
  simp only [Engine.prepare]
  split
  · exact h
  · split
    · exact h
    · rename_i index leases lease
      have leased := h.leases.lease lease
      have vacant : e.slot index = none := h.vacant (Leases.lease?_eq_some lease).1
      split
      · exact ⟨leased.release, h.pool⟩
      · rename_i b pool take
        have taken := h.pool.take take
        split
        · exact ⟨leased.release, taken.put⟩
        · rename_i length bytes encode
          let b' : Buffer := ({ b with bytes } : Buffer).withLength length
          let t := Transaction.ofRequest r followUps e.nextGeneration index b'
          have filled := (holdings_fill (t := t) vacant).append_left loose
          have middle := filled.trans List.perm_middle
          constructor
          · exact leased.perm (middle.map Prod.fst)
          · exact Pool.Lends.perm (taken.change (c := b') rfl rfl) (middle.map Prod.snd)

theorem schedule (h : e.Stocked loose) (index : UInt8) : (e.schedule index).2.Stocked loose := by
  unfold Engine.schedule
  split
  · exact h
  · rename_i t slot
    split
    · exact h
    · split
      · exact h
      · have queued : ({ e with queue := e.queue ++ [index] } : Engine).Stocked loose :=
          h.congr (fun _ => rfl) rfl rfl
        exact queued.progress slot rfl

theorem submit (h : e.Stocked loose) (r : Request) (followUps : List FollowUp) :
    (e.submit r followUps).2.Stocked loose := by
  have prepared := h.prepare r followUps
  unfold Engine.submit
  generalize e.prepare r followUps = result at prepared ⊢
  obtain ⟨result, e'⟩ := result
  cases result with
  | error cause => exact prepared
  | ok index =>
      have scheduled := prepared.schedule index
      dsimp only at scheduled ⊢
      generalize e'.schedule index = result at scheduled ⊢
      obtain ⟨result, e''⟩ := result
      cases result with
      | error cause => exact scheduled
      | ok _ => exact scheduled

theorem follow (h : e.Stocked loose) (t : Transaction) : (e.follow t).Stocked loose := by
  unfold Engine.follow
  split
  · exact h
  · exact h.record _
  · exact (h.submit _ _).record _

/-! ## Ending -/

theorem detach (h : e.Stocked loose) {index : UInt8} {t : Transaction}
    (slot : e.slot index = some t) (x : JournalEntry) :
    (e.detach index x).Stocked ((index, t.buffer) :: loose) := by
  have cleared := (holdings_clear slot).append_left loose
  have middle := List.perm_middle.symm.trans cleared.symm
  exact ⟨h.leases.perm (middle.map Prod.fst), h.pool.perm (middle.map Prod.snd)⟩

theorem release {index : UInt8} {b : Buffer} (h : e.Stocked ((index, b) :: loose)) :
    (e.release index b).Stocked loose :=
  ⟨h.leases.release, h.pool.put⟩

theorem finish (h : e.Stocked loose) (index : UInt8) (outcome : Outcome) :
    (e.finish index outcome).Stocked loose := by
  cases slot : e.slot index with
  | none =>
      simp only [Engine.finish, slot]
      exact h
  | some t =>
      rw [finish_eq outcome slot]
      exact ((h.detach slot _).follow t).release

theorem cancel (h : e.Stocked loose) (index : UInt8) : (e.cancel index).2.Stocked loose := by
  cases slot : e.slot index with
  | none =>
      simp only [Engine.cancel, slot]
      exact h
  | some t =>
      rw [cancel_eq slot]
      exact (h.detach slot _).release

theorem withdraw (h : e.Stocked loose) (index : UInt8) (generation : Nat) :
    (e.withdraw index generation).2.Stocked loose := by
  unfold Engine.withdraw
  split
  · exact h.cancel index
  · exact h

theorem markSent (h : e.Stocked loose) {now : Nat} {index : UInt8} {t : Transaction}
    (slot : e.slot index = some t) : (e.markSent now index t).Stocked loose := by
  have sent : (e.setSlot index (some (t.markSent now))).Stocked loose := h.progress slot rfl
  exact sent.record _

theorem course (h : e.Stocked loose) (path : Course e e') : e'.Stocked loose := by
  induction path with
  | refl => exact h
  | tail _ action ih =>
      cases action with
      | adjust queue statistics => exact ih.congr (fun _ => rfl) rfl rfl
      | finish index outcome => exact ih.finish index outcome
      | markSent now slot => exact ih.markSent slot
      | sent frame => exact ih.record _

end Stocked

theorem stocked_withParts (config : Config) (id capacity bufferSize : Nat) (start : UInt8) :
    (withParts config (.openWith id capacity bufferSize) (.startingAt start)).Stocked [] := by
  have empty : (withParts config (.openWith id capacity bufferSize)
      (.startingAt start)).holdings = [] := by
    simp [holdings, slot, withParts]
  constructor
  · rw [empty]
    exact Leases.lends_startingAt start
  · rw [empty]
    exact Pool.lends_openWith id capacity bufferSize

/-! ## Between operations -/

def occupied (e : Engine) : Nat := e.slots.countP Option.isSome

theorem toList_slots (e : Engine) : e.slots.toList = Leases.indices.map e.slot := by
  apply List.ext_getElem
  · simp [Leases.length_indices]
  · intro i bound _
    have small : i < 256 := by simpa using bound
    have place : (UInt8.ofNat i).toNat = i := by
      rw [UInt8.toNat_ofNat']
      exact Nat.mod_eq_of_lt small
    simp [Leases.indices, slot, place]

theorem occupied_eq (e : Engine) : e.occupied = e.holdings.length := by
  unfold occupied holdings
  rw [← Vector.countP_toList, toList_slots]
  induction Leases.indices with
  | nil => rfl
  | cons index rest ih =>
      rw [List.map_cons, List.countP_cons, List.filterMap_cons, ih]
      cases e.slot index <;> rfl

namespace Stocked

variable {e : Engine}

theorem isLeased_iff (h : e.Stocked []) (index : UInt8) :
    e.leases.isLeased index = true ↔ (e.slot index).isSome := by
  rw [h.leases.leased, List.nil_append, List.mem_map]
  constructor
  · rintro ⟨⟨_, b⟩, held, rfl⟩
    obtain ⟨t, slot, -⟩ := mem_holdings.mp held
    rw [slot, Option.isSome_some]
  · intro occupied
    obtain ⟨t, slot⟩ := Option.isSome_iff_exists.mp occupied
    exact ⟨(index, t.buffer), mem_holdings.mpr ⟨t, slot, rfl⟩, rfl⟩

theorem inFlight_eq (h : e.Stocked []) : e.inFlight = e.occupied := by
  rw [inFlight, h.leases.counted, List.nil_append, List.length_map, occupied_eq]

theorem available_add (h : e.Stocked []) : e.pool.available + e.inFlight = e.pool.capacity := by
  have total := h.pool.available
  rw [List.nil_append, List.length_map, ← occupied_eq, ← h.inFlight_eq] at total
  exact total

theorem buffer_unique (h : e.Stocked []) {i j : UInt8} {t u : Transaction}
    (left : e.slot i = some t) (right : e.slot j = some u)
    (same : t.buffer.index = u.buffer.index) : i = j := by
  have distinct := h.pool.distinct
  rw [List.nil_append, BufferQueue.indices, List.map_map] at distinct
  have here := mem_holdings.mpr ⟨t, left, rfl⟩
  have there := mem_holdings.mpr ⟨u, right, rfl⟩
  have equal := List.inj_on_of_nodup_map distinct here there same
  exact congrArg Prod.fst equal

theorem buffer_owned (h : e.Stocked []) {index : UInt8} {t : Transaction}
    (slot : e.slot index = some t) : t.buffer.pool = e.pool.id := by
  apply h.pool.owned
  exact List.mem_map.mpr ⟨(index, t.buffer), mem_holdings.mpr ⟨t, slot, rfl⟩, rfl⟩

end Stocked

/-- The engine has its pool to itself and stays open. -/
def Operation.IsOwn : Operation → Prop
  | .close | .share _ => False
  | _ => True

theorem Stocked.perform {e : Engine} (h : e.Stocked []) {op : Operation} (own : op.IsOwn) :
    (e.perform op).Stocked [] := by
  cases op with
  | prepare r followUps => exact h.prepare r followUps
  | schedule index => exact h.schedule index
  | transmit port filter now => exact h.course (course_transmit e port filter now)
  | receive bytes => exact h.course (course_receive e bytes)
  | sweep now => exact h.course (course_sweep e now)
  | cancel index => exact h.cancel index
  | withdraw index generation => exact h.withdraw index generation
  | close => exact own.elim
  | resetStatistics => exact h.congr (fun _ => rfl) rfl rfl
  | share pool => exact own.elim

theorem Stocked.run {e : Engine} (h : e.Stocked []) {ops : List Operation}
    (own : ∀ op ∈ ops, op.IsOwn) : (e.run ops).Stocked [] := by
  induction ops generalizing e with
  | nil => exact h
  | cons op rest ih =>
      obtain ⟨first, others⟩ := List.forall_mem_cons.mp own
      exact ih (h.perform first) others

/-! ## One transaction after the other -/

/-- Whenever a transaction begins, those that had its index before have ended. -/
def Renews (journal : List JournalEntry) : Prop :=
  ∀ before generation index r, before ++ [.prepared generation index r] <+: journal →
    ∀ earlier s, .prepared earlier index s ∈ before → ∃ x ∈ before, x.ends earlier = true

theorem Move.reports {e e' : Engine} {xs : List JournalEntry} (move : Move e xs e') :
    xs = [] ∨ ∃ x, xs = [x] ∧
      ∀ generation index r, x = .prepared generation index r →
        e.leases.isLeased index = false := by
  cases move with
  | enroll lease take encode =>
      refine .inr ⟨_, rfl, fun generation index r same => ?_⟩
      cases same
      exact (Leases.lease?_eq_some lease).1
  | note general =>
      refine .inr ⟨_, rfl, fun generation index r same => ?_⟩
      rw [same] at general
      cases general
  | pack now front slot queued => exact .inr ⟨_, rfl, nofun⟩
  | finish outcome slot kept => exact .inr ⟨_, rfl, nofun⟩
  | cancel slot => exact .inr ⟨_, rfl, nofun⟩
  | waver lease => exact .inl rfl
  | «return» take => exact .inl rfl
  | enqueue slot unsent idle => exact .inl rfl
  | skip front idle => exact .inl rfl
  | rotate front => exact .inl rfl
  | release vacant b => exact .inl rfl
  | count statistics => exact .inl rfl
  | shut => exact .inl rfl
  | share pool => exact .inl rfl

theorem Sound.ended_of_free {e : Engine} (h : e.Sound) {generation : Nat} {index : UInt8}
    {r : Request} (free : e.leases.isLeased index = false)
    (prepared : .prepared generation index r ∈ e.journal) :
    ∃ x ∈ e.journal, x.ends generation = true := by
  have gone : ¬e.Outstanding generation := by
    rintro ⟨other, t, slot, rfl⟩
    obtain ⟨s, known, -⟩ := (h.backed slot).prepared
    obtain ⟨rfl, -⟩ := h.once prepared known
    rw [h.leased slot] at free
    cases free
  have one := h.settled prepared gone
  apply List.countP_pos_iff.mp
  rw [Engine.endings] at one
  omega

theorem Move.renews {e e' : Engine} {xs : List JournalEntry} (move : Move e xs e') (h : e.Sound)
    (renews : Renews e.journal) : Renews e'.journal := by
  obtain ⟨-, journal, -⟩ := move.sound h
  rw [journal]
  rcases move.reports with rfl | ⟨x, rfl, free⟩
  · rw [List.append_nil]
    exact renews
  · intro before generation index r past earlier s known
    rcases List.prefix_concat_iff.mp past with whole | within
    · obtain ⟨rfl, same⟩ := List.append_inj' whole rfl
      exact h.ended_of_free (free _ _ _ (List.singleton_inj.mp same).symm) known
    · exact renews before generation index r within earlier s known

theorem Moves.renews {allow : Engine → JournalEntry → Prop} {e e' : Engine}
    (path : Moves allow e e') (h : e.Sound) (renews : Renews e.journal) : Renews e'.journal := by
  induction path with
  | refl => exact renews
  | tail before last ih =>
      obtain ⟨xs, move, -⟩ := last
      exact move.renews (Moves.sound before h) ih

theorem Sound.run_renews {e : Engine} (h : e.Sound) (ops : List Operation)
    (renews : Renews e.journal) : Renews (e.run ops).journal := by
  induction ops generalizing e with
  | nil => exact renews
  | cons op rest ih =>
      exact ih (h.perform op) ((perform_moves h op).renews h renews)

/-! ## The contract -/

theorem resources_balance (config : Config) (id capacity bufferSize : Nat) (start : UInt8)
    (ops : List Operation) (own : ∀ op ∈ ops, op.IsOwn) :
    let e := (withParts config (.openWith id capacity bufferSize) (.startingAt start)).run ops
    (∀ index, e.leases.isLeased index = true ↔ (e.slot index).isSome) ∧
    (∀ index t, e.slot index = some t → t.index = index) ∧
    e.inFlight = e.occupied ∧ e.inFlight ≤ 256 ∧
    (∀ index t, e.slot index = some t → t.buffer.pool = e.pool.id) ∧
    (∀ i j t u, e.slot i = some t → e.slot j = some u → t.buffer.index = u.buffer.index →
      i = j) ∧
    e.pool.available + e.inFlight = e.pool.capacity ∧
    (∀ index t, e.slot index = some t → ¬(t.queued = true ∧ t.isSent = true)) ∧
    ∀ before generation index r, before ++ [.prepared generation index r] <+: e.journal →
      ∀ earlier s, .prepared earlier index s ∈ before → ∃ x ∈ before, x.ends earlier = true := by
  intro e
  have new := sound_withParts config (.openWith id capacity bufferSize) start
  have sound : e.Sound := new.run ops
  have stocked : e.Stocked [] := (stocked_withParts config id capacity bufferSize start).run own
  refine ⟨stocked.isLeased_iff, fun index t slot => ?_, stocked.inFlight_eq,
    stocked.leases.count_le, fun _ _ => stocked.buffer_owned, fun _ _ _ _ => stocked.buffer_unique,
    stocked.available_add, fun index t slot => ?_, ?_⟩
  · obtain ⟨r, -, carries⟩ := (sound.backed slot).prepared
    exact carries.place
  · rintro ⟨queued, sent⟩
    rw [Transaction.isSent, (sound.waiting slot queued).1] at sent
    cases sent
  · refine new.run_renews ops fun before generation index r past => ?_
    have none := List.prefix_nil.mp past
    simp at none

def probe : Request := ⟨1, .brd, .physical 0 0, [0, 0], 100⟩

/-- More probes than there are buffers. One is cancelled, and another one gets its buffer. -/
def crowd : List Operation :=
  [.prepare probe [], .prepare probe [], .prepare probe [], .cancel 254, .prepare probe []]

theorem resources_balance_crowd :
    let e := (withParts {} (.openWith 0 2 64) (.startingAt 254)).run crowd
    e.inFlight = 2 ∧ e.occupied = 2 ∧ e.pool.available + 2 = e.pool.capacity ∧
      e.isOutstanding 254 = false ∧ e.leases.isLeased 254 = false := by
  have own : ∀ op ∈ crowd, op.IsOwn := by simp [crowd, Operation.IsOwn]
  obtain ⟨leased, -, counted, -, -, -, balance, -⟩ := resources_balance {} 0 2 64 254 crowd own
  have two : ((withParts {} (.openWith 0 2 64) (.startingAt 254)).run crowd).inFlight = 2 := by
    decide +kernel
  have vacant : ((withParts {} (.openWith 0 2 64) (.startingAt 254)).run crowd).isOutstanding
      254 = false := by
    decide +kernel
  rw [two] at counted balance
  refine ⟨two, counted.symm, balance, vacant, ?_⟩
  rw [← Bool.not_eq_true, leased, ← Engine.isOutstanding, vacant]
  exact Bool.false_ne_true

end Fieldbus.Engine
