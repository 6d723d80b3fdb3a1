import Fieldbus.Proofs.Buffer.Uniform
import Fieldbus.Proofs.Engine.Scan
import Fieldbus.Proofs.Engine.Seating

/-!
# Requests that are refused

A request is refused if it is too large for a buffer or for a frame, if all indices are on lease, if
the pool has nothing to give, or if its payload is too long for the length field of a datagram, and
the first of these that applies is its answer. What had been acquired by then is given up again, so
callers find the engine as it was, and the callback of the request never fires.

An engine is found in many states: between two calls and in the middle of one, in a callback, and
after others have used its pool.
-/

namespace Fieldbus

namespace Leases

variable {l leases : Leases} {index : UInt8}

theorem count_returned (lease : l.lease? = some (index, leases)) :
    (leases.release index).2.count = l.count := by
  have held : leases.isLeased index = true := by
    rw [(lease?_eq_some lease).2, beq_self_eq_true, Bool.or_true]
  rw [Leases.release, if_pos held]
  exact (congrArg (· - 1) (count_lease? lease)).trans (Nat.add_sub_cancel _ _)

theorem Tidy.lease?_eq_none_iff (h : l.Tidy) :
    l.lease? = none ↔ l.count = Layout.indexCount := by
  constructor
  · intro refused
    unfold lease? at refused
    split at refused
    · assumption
    · split at refused
      · rename_i none_free
        obtain ⟨out, lends⟩ := h
        have full := candidates_eq_zero.mp none_free
        have all : indices ⊆ out := fun index _ => (lends.leased index).mp (full index)
        have many := (nodup_indices.subperm all).length_le
        rw [length_indices, ← lends.counted] at many
        exact Nat.le_antisymm lends.count_le many
      · cases refused
  · exact fun full => if_pos full

end Leases

namespace Datagram

variable {buffer payload : Bytes} (command : Command) (index : UInt8) (address : Address)

theorem encodeInto_oversized (buffer : Bytes) (long : Layout.maxPayload < payload.length) :
    encodeInto buffer command index address payload =
      .error (.capacity payload.length Layout.maxPayload) := if_pos long

theorem encodeInto_eq (size : payload.length ≤ Layout.maxPayload)
    (room : Layout.datagramHeader + payload.length + Layout.workCounter ≤ buffer.length) :
    ∃ length bytes, encodeInto buffer command index address payload = .ok (length, bytes) ∧
      bytes.length = buffer.length := by
  have fits : (encode command index address payload).length ≤ buffer.length :=
    (length_encode command index address payload).symm ▸ room
  refine ⟨(encode command index address payload).length,
    buffer.overwrite 0 (encode command index address payload), ?_,
    Bytes.length_overwrite (by rw [Nat.zero_add]; exact fits)⟩
  simp only [encodeInto, if_neg (Nat.not_lt.mpr size), Bytes.store, if_neg (Nat.not_lt.mpr fits),
    bind, Except.bind, pure, Except.pure]

end Datagram

namespace Engine

/-! ## The states of an engine -/

/-- What happens to an engine. -/
inductive Happens (e : Engine) : Engine → Prop
  | call (op : Operation) (own : ∀ pool, op ≠ .share pool) : Happens e (e.perform op)
  | others {pool : Pool} (use : e.pool.Used pool) : Happens e { e with pool }
  /-- A call is under way. -/
  | underway {e' : Engine} (path : Course e e') : Happens e e'
  /-- A callback is called. Its transaction has left its slot. -/
  | callback {index : UInt8} {t : Transaction} (outcome : Outcome) (slot : e.slot index = some t) :
      Happens e (e.detach index (.completed t.generation t.id outcome))
  /-- A callback is over. Its transaction gives up its index and its buffer. -/
  | release (index : UInt8) {b : Buffer} (size : b.capacity = e.pool.bufferSize) :
      Happens e (e.release index b)

/-- Whatever has happened in between. -/
def Later : Engine → Engine → Prop := Relation.ReflTransGen Happens

/-- A state that an engine can be found in. -/
def Found (e : Engine) : Prop := ∃ config id capacity bufferSize start,
  Later (withParts config (.openWith id capacity bufferSize) (.startingAt start)) e

def HasBegun (e : Engine) (generation id : Nat) : Prop :=
  ∃ index r, .prepared generation index r ∈ e.journal ∧ r.id = id

/-- What an engine needs to take a request: leases that are counted, and buffers of the size that
the pool promises. What it has in its slots and what it has reported was begun. -/
structure Supplied (size : Nat) (e : Engine) : Prop where
  tidy : e.leases.Tidy
  pool : e.pool.Uniform size
  held : ∀ {index t}, e.slot index = some t → t.buffer.capacity = size
  named : ∀ {index t}, e.slot index = some t → e.HasBegun t.generation t.id
  reported : ∀ {generation id outcome}, .completed generation id outcome ∈ e.journal →
    e.HasBegun generation id

variable {e e' : Engine} {size : Nat}

theorem HasBegun.mono {generation id : Nat} (h : e.HasBegun generation id)
    (sub : e.journal ⊆ e'.journal) : e'.HasBegun generation id := by
  obtain ⟨index, r, prepared, name⟩ := h
  exact ⟨index, r, sub prepared, name⟩

theorem supplied_withParts (config : Config) (id capacity size : Nat) (start : UInt8) :
    (withParts config (.openWith id capacity size) (.startingAt start)).Supplied size := by
  have vacant : ∀ index, (withParts config (.openWith id capacity size)
      (.startingAt start)).slot index = none := fun index => by simp [slot, withParts]
  refine ⟨⟨[], Leases.lends_startingAt start⟩, Pool.uniform_openWith id capacity size,
    fun {index t} slot => ?_, fun {index t} slot => ?_, fun {_ _ _} fired => ?_⟩
  · rw [vacant] at slot
    cases slot
  · rw [vacant] at slot
    cases slot
  · cases fired

namespace Supplied

/-! ## What keeps an engine supplied -/

theorem keep {xs : List JournalEntry} (h : e.Supplied size) (tidy : e'.leases.Tidy)
    (pool : e'.pool.Uniform size)
    (slots : ∀ {index t'}, e'.slot index = some t' → ∃ t, e.slot index = some t ∧
      t'.buffer = t.buffer ∧ t'.generation = t.generation ∧ t'.id = t.id)
    (journal : e'.journal = e.journal ++ xs)
    (reports : ∀ {generation id outcome}, .completed generation id outcome ∈ xs →
      e.HasBegun generation id) : e'.Supplied size := by
  have sub : e.journal ⊆ e'.journal := journal ▸ List.subset_append_left _ _
  refine ⟨tidy, pool, fun {index t'} slot' => ?_, fun {index t'} slot' => ?_,
    fun {generation id outcome} here => ?_⟩
  · obtain ⟨t, slot, buffer, -, -⟩ := slots slot'
    exact buffer ▸ h.held slot
  · obtain ⟨t, slot, -, generation, name⟩ := slots slot'
    rw [generation, name]
    exact (h.named slot).mono sub
  · rw [journal] at here
    rcases List.mem_append.mp here with old | new
    · exact (h.reported old).mono sub
    · exact (reports new).mono sub

theorem supply (h : e.Supplied size) (tidy : e'.leases.Tidy) (pool : e'.pool.Uniform size)
    (slots : e'.slots = e.slots) (journal : e'.journal = e.journal) : e'.Supplied size := by
  have slot : ∀ index, e'.slot index = e.slot index := fun index => by
    unfold Engine.slot
    simp only [slots]
  refine h.keep tidy pool (fun {index t} here => ?_) (journal.trans (List.append_nil _).symm)
    fun {_ _ _} none => absurd none List.not_mem_nil
  exact ⟨t, (slot index).symm.trans here, rfl, rfl, rfl⟩

theorem congr (h : e.Supplied size) (leases : e'.leases = e.leases) (pool : e'.pool = e.pool)
    (slots : e'.slots = e.slots) (journal : e'.journal = e.journal) : e'.Supplied size :=
  h.supply (leases ▸ h.tidy) (pool ▸ h.pool) slots journal

theorem record (h : e.Supplied size) {x : JournalEntry}
    (known : ∀ {generation id outcome}, x = .completed generation id outcome →
      e.HasBegun generation id) : (e.record x).Supplied size := by
  refine h.keep h.tidy h.pool (fun {index t} here => ⟨t, here, rfl, rfl, rfl⟩) rfl
    fun {generation id outcome} here => ?_
  exact known (List.mem_singleton.mp here).symm

theorem note (h : e.Supplied size) {x : JournalEntry}
    (other : ∀ generation id outcome, x ≠ .completed generation id outcome) :
    (e.record x).Supplied size :=
  h.record fun {_ _ _} same => absurd same (other _ _ _)

theorem progress (h : e.Supplied size) {index : UInt8} {t : Transaction}
    (slot : e.slot index = some t) (queued : Bool) (deadline : Option Nat) :
    (e.setSlot index (some { t with queued, deadline })).Supplied size := by
  refine h.keep h.tidy h.pool (fun {other t'} here => ?_) (List.append_nil _).symm
    fun {_ _ _} none => absurd none List.not_mem_nil
  rw [slot_setSlot] at here
  split at here
  · rename_i same
    cases here
    exact ⟨t, same ▸ slot, rfl, rfl, rfl⟩
  · exact ⟨t', here, rfl, rfl, rfl⟩

theorem detach (h : e.Supplied size) {index : UInt8} {x : JournalEntry}
    (known : ∀ {generation id outcome}, x = .completed generation id outcome →
      e.HasBegun generation id) : (e.detach index x).Supplied size := by
  refine h.keep h.tidy h.pool (fun {other t} here => ?_) rfl
    fun {generation id outcome} here => known (List.mem_singleton.mp here).symm
  rw [slot_detach] at here
  split at here
  · cases here
  · exact ⟨t, here, rfl, rfl, rfl⟩

theorem release (h : e.Supplied size) (index : UInt8) {b : Buffer} (capacity : b.capacity = size) :
    (e.release index b).Supplied size :=
  h.supply (h.tidy.release index) (h.pool.put fun _ => capacity) rfl rfl

/-! ## Requests -/

end Supplied

/-- Why a request is refused. -/
def refusal? (e : Engine) (r : Request) : Option Error :=
  let required := Layout.datagramHeader + r.payload.length + Layout.workCounter
  if e.room < required then some (.capacity required e.room)
  else if e.inFlight = Layout.indexCount then some (.exhausted .datagramIndices)
  else if e.pool.closed ∨ e.pool.available = 0 then some (.exhausted .poolBuffers)
  else if Layout.maxPayload < r.payload.length then
    some (.capacity r.payload.length Layout.maxPayload)
  else none

/-- As far as callers can tell, nothing has happened. -/
structure Unmarked (e e' : Engine) : Prop where
  slots : e'.slots = e.slots
  leased : ∀ index, e'.leases.isLeased index = e.leases.isLeased index
  inFlight : e'.inFlight = e.inFlight
  available : e'.pool.available = e.pool.available
  queue : e'.queue = e.queue
  statistics : e'.statistics = e.statistics
  nextGeneration : e'.nextGeneration = e.nextGeneration
  journal : e'.journal = e.journal

theorem Unmarked.refl (e : Engine) : e.Unmarked e :=
  ⟨rfl, fun _ => rfl, rfl, rfl, rfl, rfl, rfl, rfl⟩

/-- A request is refused for the first reason that applies, and what it had acquired is given up
again; or an index that was free and a buffer are its own. -/
theorem Supplied.prepare_cases (h : e.Supplied size) (r : Request) (followUps : List FollowUp) :
    (∃ cause leases pool, e.refusal? r = some cause ∧
      e.prepare r followUps = (.error cause, { e with leases, pool }) ∧
      leases.Tidy ∧ pool.Uniform size ∧ e.Unmarked { e with leases, pool }) ∨
    ∃ index leases b pool, e.refusal? r = none ∧
      e.prepare r followUps = (.ok index, { e with leases, pool }.enroll r
        (.ofRequest r followUps e.nextGeneration index b)) ∧
      e.leases.lease? = some (index, leases) ∧ pool.Uniform size ∧ b.capacity = size := by
  by_cases large : e.room < Layout.datagramHeader + r.payload.length + Layout.workCounter
  · exact .inl ⟨_, e.leases, e.pool, if_pos large, if_pos large, h.tidy, h.pool, .refl e⟩
  have beyond : e.refusal? r = if e.inFlight = Layout.indexCount then _ else _ := if_neg large
  cases lease : e.leases.lease? with
  | none =>
      have full : e.inFlight = Layout.indexCount := h.tidy.lease?_eq_none_iff.mp lease
      refine .inl ⟨_, e.leases, e.pool, beyond.trans (if_pos full), ?_, h.tidy, h.pool, .refl e⟩
      simp only [prepare, if_neg large, lease]
  | some leased =>
      obtain ⟨index, leases⟩ := leased
      have some_free : e.inFlight ≠ Layout.indexCount := fun full => by
        rw [h.tidy.lease?_eq_none_iff.mpr full] at lease
        cases lease
      rw [if_neg some_free] at beyond
      have returned := (h.tidy.lease lease).release index
      have leased := Leases.isLeased_returned lease
      have counted := Leases.count_returned lease
      cases take : e.pool.take? with
      | error cause =>
          obtain rfl := Pool.take?_error take
          have nothing := h.pool.sound.take?_failed_iff.mp ⟨_, take⟩
          refine .inl ⟨_, (leases.release index).2, e.pool, beyond.trans (if_pos nothing), ?_,
            returned, h.pool, ⟨rfl, leased, counted, rfl, rfl, rfl, rfl, rfl⟩⟩
          simp only [prepare, if_neg large, lease, take]
      | ok taken =>
          obtain ⟨b, pool⟩ := taken
          obtain ⟨uniform, capacity⟩ := h.pool.take? take
          have some_idle : ¬(e.pool.closed = true ∨ e.pool.available = 0) := fun nothing => by
            obtain ⟨cause, failed⟩ := h.pool.sound.take?_failed_iff.mpr nothing
            rw [take] at failed
            cases failed
          rw [if_neg some_idle] at beyond
          obtain long | short := Nat.lt_or_ge Layout.maxPayload r.payload.length
          · have oversized := Datagram.encodeInto_oversized r.command index r.address b.bytes long
            refine .inl ⟨_, (leases.release index).2, pool.put b, beyond.trans (if_pos long), ?_,
              returned, uniform.put fun _ => capacity, ⟨rfl, leased, counted,
                (h.pool.sound.available_returned take).1, rfl, rfl, rfl, rfl⟩⟩
            simp only [prepare, if_neg large, lease, take, oversized, Engine.release]
          · have room : Layout.datagramHeader + r.payload.length + Layout.workCounter ≤
                b.bytes.length := by
              refine Nat.le_trans (Nat.not_lt.mp large) ?_
              rw [← Buffer.capacity, capacity, ← h.pool.size]
              exact Nat.min_le_left _ _
            obtain ⟨length, bytes, encoded, same⟩ :=
              Datagram.encodeInto_eq r.command index r.address short room
            refine .inr ⟨index, leases, ({ b with bytes } : Buffer).withLength length, pool,
              beyond.trans (if_neg (Nat.not_lt.mpr short)), ?_, rfl, uniform, same.trans capacity⟩
            simp only [prepare, if_neg large, lease, take, encoded]

namespace Supplied

theorem enroll (h : e.Supplied size) {r : Request} {t : Transaction}
    (buffer : t.buffer.capacity = size) (name : t.id = r.id) : (e.enroll r t).Supplied size := by
  have begun : (e.enroll r t).HasBegun t.generation t.id :=
    ⟨t.index, r, List.mem_append_right _ (List.mem_singleton_self _), name.symm⟩
  have sub : e.journal ⊆ (e.enroll r t).journal := List.subset_append_left _ _
  refine ⟨h.tidy, h.pool, fun {index t'} here => ?_, fun {index t'} here => ?_,
    fun {generation id outcome} here => ?_⟩
  · rw [slot_enroll] at here
    split at here
    · cases here
      exact buffer
    · exact h.held here
  · rw [slot_enroll] at here
    split at here
    · cases here
      exact begun
    · exact (h.named here).mono sub
  · rcases List.mem_append.mp here with old | new
    · exact (h.reported old).mono sub
    · cases List.mem_singleton.mp new

theorem prepare (h : e.Supplied size) (r : Request) (followUps : List FollowUp) :
    (e.prepare r followUps).2.Supplied size := by
  rcases h.prepare_cases r followUps with ⟨cause, leases, pool, -, prepared, tidy, uniform, -⟩ |
    ⟨index, leases, b, pool, -, prepared, lease, uniform, capacity⟩
  · rw [prepared]
    exact h.supply tidy uniform rfl rfl
  · have lent : ({ e with leases, pool } : Engine).Supplied size :=
      h.supply (h.tidy.lease lease) uniform rfl rfl
    rw [prepared]
    exact lent.enroll capacity rfl

theorem schedule (h : e.Supplied size) (index : UInt8) : (e.schedule index).2.Supplied size := by
  unfold Engine.schedule
  split
  · exact h
  · rename_i t slot
    split
    · exact h
    · split
      · exact h
      · have queued : ({ e with queue := e.queue ++ [index] } : Engine).Supplied size :=
          h.congr rfl rfl rfl rfl
        exact queued.progress slot true t.deadline

theorem submit (h : e.Supplied size) (r : Request) (followUps : List FollowUp) :
    (e.submit r followUps).2.Supplied size := by
  have prepared := h.prepare r followUps
  unfold Engine.submit
  generalize e.prepare r followUps = result at prepared ⊢
  obtain ⟨result, e'⟩ := result
  cases result with
  | error cause => exact prepared
  | ok index =>
      have scheduled := prepared.schedule index
      dsimp only at scheduled ⊢
      generalize e'.schedule index = result at scheduled ⊢
      obtain ⟨result, e''⟩ := result
      cases result <;> exact scheduled

theorem follow (h : e.Supplied size) (t : Transaction) : (e.follow t).Supplied size := by
  unfold Engine.follow
  split
  · exact h
  · exact h.note fun _ _ _ => nofun
  · exact (h.submit _ _).note fun _ _ _ => nofun

theorem completed (h : e.Supplied size) {index : UInt8} {t : Transaction} (outcome : Outcome)
    (slot : e.slot index = some t) :
    (e.detach index (.completed t.generation t.id outcome)).Supplied size := by
  refine h.detach fun {generation id outcome} same => ?_
  cases same
  exact h.named slot

theorem finish (h : e.Supplied size) (index : UInt8) (outcome : Outcome) :
    (e.finish index outcome).Supplied size := by
  cases slot : e.slot index with
  | none =>
      simp only [Engine.finish, slot]
      exact h
  | some t =>
      rw [finish_eq outcome slot]
      exact ((h.completed outcome slot).follow t).release index (h.held slot)

theorem cancel (h : e.Supplied size) (index : UInt8) : (e.cancel index).2.Supplied size := by
  cases slot : e.slot index with
  | none =>
      simp only [Engine.cancel, slot]
      exact h
  | some t =>
      have detached : (e.detach index (.cancelled t.generation)).Supplied size :=
        h.detach fun {_ _ _} same => by cases same
      rw [cancel_eq slot]
      exact detached.release index (h.held slot)

theorem course (h : e.Supplied size) (path : Course e e') : e'.Supplied size := by
  induction path with
  | refl => exact h
  | tail _ action ih =>
      cases action with
      | adjust queue statistics => exact ih.congr rfl rfl rfl rfl
      | finish index outcome => exact ih.finish index outcome
      | markSent now slot queued =>
          exact (ih.progress slot false _).note fun _ _ _ => nofun
      | sent frame => exact ih.note fun _ _ _ => nofun

theorem perform (h : e.Supplied size) {op : Operation} (own : ∀ pool, op ≠ .share pool) :
    (e.perform op).Supplied size := by
  cases op with
  | prepare r followUps => exact h.prepare r followUps
  | schedule index => exact h.schedule index
  | transmit port filter now => exact h.course (course_transmit e port filter now)
  | receive bytes => exact h.course (course_receive e bytes)
  | sweep now => exact h.course (course_sweep e now)
  | cancel index => exact h.cancel index
  | withdraw index generation =>
      rw [Engine.perform, Engine.withdraw]
      split
      · exact h.cancel index
      · exact h
  | close =>
      have emptied : ({ e with queue := [] } : Engine).Supplied size := h.congr rfl rfl rfl rfl
      have ended := emptied.course (course_finishAll { e with queue := [] } Leases.indices)
      rw [Engine.perform, close_eq]
      generalize ({ e with queue := [] } : Engine).finishAll Leases.indices = bare at ended ⊢
      exact ended.supply ended.tidy ended.pool.close rfl rfl
  | resetStatistics => exact h.congr rfl rfl rfl rfl
  | share pool => exact absurd rfl (own pool)

theorem happens (h : e.Supplied size) (next : e.Happens e') : e'.Supplied size := by
  cases next with
  | call op own => exact h.perform own
  | others use => exact h.supply h.tidy (h.pool.used use) rfl rfl
  | underway path => exact h.course path
  | callback outcome slot => exact h.completed outcome slot
  | release index capacity => exact h.release index (capacity.trans h.pool.size)

theorem later (h : e.Supplied size) (path : e.Later e') : e'.Supplied size := by
  induction path with
  | refl => exact h
  | tail _ next ih => exact ih.happens next

end Supplied

theorem Found.supplied (h : e.Found) : ∃ size, e.Supplied size := by
  obtain ⟨config, id, capacity, size, start, path⟩ := h
  exact ⟨size, (supplied_withParts config id capacity size start).later path⟩

/-- In every state an engine can be found in, a request is refused for the first reason that
applies. Then nothing has changed as far as callers can tell, and unless another request of its name
is begun no outcome is ever reported under this name. If no reason applies, the request is given an
index that was free. -/
theorem prepare_all_or_nothing (h : e.Found) (r : Request) (followUps : List FollowUp) :
    (∀ cause, e.refusal? r = some cause →
      ∃ e', e.prepare r followUps = (.error cause, e') ∧ e.Unmarked e' ∧
        ∀ e'', e'.Later e'' →
          (∀ generation index s, .prepared generation index s ∈ e''.journal → s.id ≠ r.id) →
          ∀ generation outcome, .completed generation r.id outcome ∉ e''.journal) ∧
    (e.refusal? r = none →
      ∃ index e', e.prepare r followUps = (.ok index, e') ∧
        e.leases.isLeased index = false ∧ e'.leases.isLeased index = true) := by
  obtain ⟨size, supplied⟩ := h.supplied
  have kept := supplied.prepare r followUps
  rcases supplied.prepare_cases r followUps with
    ⟨cause, leases, pool, refused, prepared, -, -, same⟩ |
    ⟨index, leases, b, pool, accepted, prepared, lease, -, -⟩
  · rw [refused]
    rw [prepared] at kept
    refine ⟨fun cause' this => ?_, nofun⟩
    obtain rfl := Option.some.inj this
    refine ⟨_, prepared, same, fun e'' later others generation outcome fired => ?_⟩
    obtain ⟨index, s, begun, name⟩ := (kept.later later).reported fired
    exact others generation index s begun name
  · rw [accepted]
    refine ⟨fun _ => nofun, fun _ => ?_⟩
    obtain ⟨free, grown⟩ := Leases.lease?_eq_some lease
    refine ⟨index, _, prepared, free, ?_⟩
    exact (grown index).trans (by rw [beq_self_eq_true, Bool.or_true])

def roomy : Engine :=
  (withParts { mtu := 2200 } (.openWith 0 2 2200) (.startingAt 7)).perform (.prepare probe [])

def zeroed (n : Nat) : Request := { probe with id := 2, payload := Bytes.zeros n }

/-- A payload that has room everywhere but in the length field. The index and the buffer that were
taken for it are given back. -/
theorem prepare_all_or_nothing_oversized : roomy.Found ∧
    ∃ e', roomy.prepare (zeroed 2048) [] = (.error (.capacity 2048 2047), e') ∧
      roomy.Unmarked e' ∧ e'.inFlight = 1 ∧ e'.pool.available = 1 := by
  have found : roomy.Found := ⟨{ mtu := 2200 }, 0, 2, 2200, 7, .single (.call _ fun _ => nofun)⟩
  have length : (zeroed 2048).payload.length = 2048 := Bytes.length_zeros 2048
  have refused : roomy.refusal? (zeroed 2048) = some (.capacity 2048 2047) := by
    simp only [refusal?, length]
    decide +kernel
  obtain ⟨e', prepared, same, -⟩ :=
    (prepare_all_or_nothing found (zeroed 2048) []).1 _ refused
  refine ⟨found, e', prepared, same, ?_, ?_⟩
  · rw [same.inFlight]
    decide +kernel
  · rw [same.available]
    decide +kernel

end Engine

end Fieldbus
