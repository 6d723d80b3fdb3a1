import Fieldbus.Proofs.Engine.Leases
import Fieldbus.Proofs.Engine.Moves

/-!
# What a completion sets off

A completion may submit a further transaction while it still holds its own index. The newcomer takes
an index that was free, and it waits in the queue when the completion is over.
-/

namespace Fieldbus

inductive JournalEntry.IsSequel : JournalEntry → Prop
  | prepared (generation : Nat) (index : UInt8) (r : Request) :
      IsSequel (.prepared generation index r)
  | followed (id : Nat) (result : Except Error UInt8) : IsSequel (.followed id result)

namespace Engine

/-- What `allow` allows, and what is set off. -/
def Along (allow : Engine → JournalEntry → Prop) (e : Engine) (x : JournalEntry) : Prop :=
  x.IsSequel ∨ allow e x

/-! ## Preparing and scheduling -/

/-- Preparing fails and keeps at most the place where the next search for an index begins, or it
enrolls a transaction. -/
theorem prepare_cases (e : Engine) (r : Request) (followUps : List FollowUp) :
    (∃ cause leases pool, e.prepare r followUps = (.error cause, { e with leases, pool }) ∧
      (∀ index, leases.isLeased index = e.leases.isLeased index) ∧
      Moves (fun _ _ => False) e { e with leases, pool }) ∨
    ∃ index leases pool b, e.leases.lease? = some (index, leases) ∧
      e.prepare r followUps = (.ok index, ({ e with leases, pool }.enroll r
        (.ofRequest r followUps e.nextGeneration index b))) ∧
      Move e [.prepared e.nextGeneration index r] ({ e with leases, pool }.enroll r
        (.ofRequest r followUps e.nextGeneration index b)) := by
  simp only [prepare]
  split
  · exact .inl ⟨_, e.leases, e.pool, rfl, fun _ => rfl, .refl e⟩
  · split
    · exact .inl ⟨_, e.leases, e.pool, rfl, fun _ => rfl, .refl e⟩
    · rename_i index leases lease
      have same := Leases.isLeased_returned lease
      split
      · exact .inl ⟨_, _, _, rfl, same, .silent (.waver lease)⟩
      · rename_i b pool take
        split
        · exact .inl ⟨_, _, _, rfl, same,
            (Moves.silent (.return take)).trans (.silent (.waver lease))⟩
        · rename_i length bytes encode
          exact .inr ⟨index, leases, pool, _, lease, rfl, .enroll lease take encode⟩

theorem prepare_moves (e : Engine) (r : Request) (followUps : List FollowUp) :
    Moves (fun _ x => ∃ generation index, x = .prepared generation index r) e
      (e.prepare r followUps).2 := by
  rcases e.prepare_cases r followUps with
    ⟨_, _, _, prepared, -, path⟩ | ⟨_, _, _, _, -, prepared, move⟩
  · rw [prepared]
    exact path.mono fun _ _ impossible => impossible.elim
  · rw [prepared]
    exact .report move ⟨_, _, rfl⟩

theorem schedule_moves (e : Engine) (index : UInt8) :
    Moves (fun _ _ => False) e (e.schedule index).2 := by
  unfold schedule
  split
  · exact .refl e
  · rename_i t slot
    split
    · exact .refl e
    · rename_i unsent
      split
      · exact .refl e
      · rename_i idle
        exact .silent (.enqueue slot (Bool.not_eq_true _ ▸ unsent) (Bool.not_eq_true _ ▸ idle))

theorem schedule_eq {e : Engine} {index : UInt8} {t : Transaction}
    (slot : e.slot index = some t) (unsent : t.isSent = false) (idle : t.queued = false) :
    e.schedule index =
      (.ok (), { e with queue := e.queue ++ [index] }.setSlot index
        (some { t with queued := true })) := by
  simp only [schedule, slot, unsent, idle, Bool.false_eq_true, if_false]

theorem submit_cases (e : Engine) (r : Request) (followUps : List FollowUp) :
    (∃ cause leases pool, e.submit r followUps = (.error cause, { e with leases, pool }) ∧
      ∀ index, leases.isLeased index = e.leases.isLeased index) ∨
    ∃ index leases pool t, e.leases.lease? = some (index, leases) ∧ t.deadline = none ∧
      t.index = index ∧
      e.submit r followUps = (.ok index,
        { { e with leases, pool }.enroll r t with queue := e.queue ++ [index] }.setSlot index
          (some { t with queued := true })) := by
  rcases e.prepare_cases r followUps with
    ⟨cause, leases, pool, prepared, same, -⟩ | ⟨index, leases, pool, b, lease, prepared, -⟩
  · exact .inl ⟨cause, leases, pool, by rw [submit, prepared], same⟩
  · let t := Transaction.ofRequest r followUps e.nextGeneration index b
    refine .inr ⟨index, leases, pool, t, lease, rfl, rfl, ?_⟩
    have slot : ({ e with leases, pool }.enroll r t).slot index = some t := by
      rw [slot_enroll]
      exact if_pos rfl
    rw [submit, prepared]
    dsimp only
    rw [schedule_eq slot rfl rfl]
    rfl

theorem submit_moves (e : Engine) (r : Request) (followUps : List FollowUp) :
    Moves (fun _ x => x.IsSequel) e (e.submit r followUps).2 := by
  have prepared : Moves (fun _ x => x.IsSequel) e (e.prepare r followUps).2 :=
    (prepare_moves e r followUps).mono fun _ _ ⟨generation, index, same⟩ =>
      same ▸ .prepared generation index r
  unfold submit
  generalize e.prepare r followUps = result at prepared ⊢
  obtain ⟨result, e'⟩ := result
  cases result with
  | error cause => exact prepared
  | ok index =>
      have scheduled := schedule_moves e' index
      dsimp only at prepared ⊢
      generalize e'.schedule index = result at scheduled ⊢
      obtain ⟨result, e''⟩ := result
      have path : Moves (fun _ x => x.IsSequel) e e'' :=
        prepared.trans (scheduled.mono fun _ _ impossible => impossible.elim)
      cases result with
      | error cause => exact path
      | ok _ => exact path

theorem follow_moves (e : Engine) (t : Transaction) :
    Moves (fun _ x => x.IsSequel) e (e.follow t) := by
  unfold follow
  split
  · exact .refl e
  · exact .report (.note rfl) (.followed _ _)
  · exact (submit_moves e _ _).trans (.report (.note rfl) (.followed _ _))

/-! ## Newcomers -/

def Waits (e : Engine) (index : UInt8) : Prop :=
  ∃ t, e.slot index = some t ∧ t.deadline = none ∧ index ∈ e.queue

/-- Between two engines nothing happened to the transactions, except that some began to wait under
indices that were free. -/
structure Joins (e e' : Engine) : Prop where
  slots : ∀ index, e'.slot index = e.slot index ∨
    e.leases.isLeased index = false ∧ e'.Waits index
  queue : e.queue ⊆ e'.queue
  leased : ∀ index, e.leases.isLeased index = true → e'.leases.isLeased index = true
  statistics : e'.statistics = e.statistics

theorem submit_joins (e : Engine) (r : Request) (followUps : List FollowUp) :
    Joins e (e.submit r followUps).2 := by
  rcases e.submit_cases r followUps with
    ⟨cause, leases, pool, submitted, same⟩ | ⟨index, leases, pool, t, lease, unsent, rfl, submitted⟩
  · rw [submitted]
    exact ⟨fun _ => .inl rfl, fun _ here => here, fun index held => (same index).trans held, rfl⟩
  · obtain ⟨free, grown⟩ := Leases.lease?_eq_some lease
    rw [submitted]
    refine ⟨fun other => ?_, List.subset_append_left _ _, fun other held => ?_, rfl⟩
    · by_cases here : other = t.index
      · subst here
        exact .inr ⟨free, { t with queued := true }, by rw [slot_setSlot, if_pos rfl], unsent,
          List.mem_append_right _ (List.mem_singleton_self _)⟩
      · refine .inl ?_
        rw [slot_setSlot, if_neg here]
        exact (slot_enroll _ r t other).trans (if_neg here)
    · show leases.isLeased other = true
      rw [grown, held, Bool.true_or]

theorem follow_joins (e : Engine) (t : Transaction) : Joins e (e.follow t) := by
  unfold follow
  split
  · exact ⟨fun _ => .inl rfl, fun _ here => here, fun _ held => held, rfl⟩
  · exact ⟨fun _ => .inl rfl, fun _ here => here, fun _ held => held, rfl⟩
  · rename_i next others _
    obtain ⟨slots, queue, leased, statistics⟩ := submit_joins e next others
    exact ⟨slots, queue, leased, statistics⟩

theorem journal_follow (e : Engine) (t : Transaction) :
    ∃ xs, (e.follow t).journal = e.journal ++ xs ∧ ∀ x ∈ xs, x.IsSequel := by
  unfold follow
  split
  · exact ⟨[], by simp, by simp⟩
  · exact ⟨_, rfl, by simp [JournalEntry.IsSequel.followed]⟩
  · rename_i next others _
    rcases e.submit_cases next others with
      ⟨cause, leases, pool, submitted, -⟩ | ⟨index, leases, pool, u, -, -, -, submitted⟩
    · rw [submitted]
      exact ⟨_, rfl, by simp [JournalEntry.IsSequel.followed]⟩
    · rw [submitted]
      refine ⟨[.prepared u.generation u.index next, .followed t.id (.ok index)],
        by simp [record, setSlot, enroll], ?_⟩
      simp [JournalEntry.IsSequel.prepared, JournalEntry.IsSequel.followed]

/-! ## Ends -/

variable {e : Engine} {index : UInt8} {t : Transaction}

theorem slot_finish (outcome : Outcome) (slot : e.slot index = some t) (other : UInt8) :
    (e.finish index outcome).slot other = (if other = index then none else e.slot other) ∨
      e.leases.isLeased other = false ∧ (e.finish index outcome).Waits other := by
  rw [finish_eq outcome slot]
  rcases (follow_joins (e.detach index (.completed t.generation t.id outcome)) t).slots other with
    same | ⟨free, waits⟩
  · exact .inl (same.trans (slot_detach e index _ other))
  · exact .inr ⟨free, waits⟩

theorem journal_finish (outcome : Outcome) (slot : e.slot index = some t) :
    ∃ xs, (e.finish index outcome).journal =
        e.journal ++ [.completed t.generation t.id outcome] ++ xs ∧ ∀ x ∈ xs, x.IsSequel := by
  rw [finish_eq outcome slot]
  exact journal_follow (e.detach index (.completed t.generation t.id outcome)) t

/-- While a transaction has its index, no follow-up can take it. -/
theorem slot_finish_self (outcome : Outcome) (slot : e.slot index = some t)
    (leased : e.leases.isLeased index = true) : (e.finish index outcome).slot index = none := by
  rcases slot_finish outcome slot index with same | ⟨free, -⟩
  · rw [same, if_pos rfl]
  · rw [leased] at free
    cases free

theorem finish_moves {allow : Engine → JournalEntry → Prop} {e₀ : Engine} {outcome : Outcome}
    (slot : e.slot index = some t) (leased : e.leases.isLeased index = true)
    (first : Move e₀ [.completed t.generation t.id outcome]
      (e.detach index (.completed t.generation t.id outcome)))
    (ok : allow e₀ (.completed t.generation t.id outcome)) :
    Moves (Along allow) e₀ (e.finish index outcome) := by
  have vacant : ((e.detach index (.completed t.generation t.id outcome)).follow t).slot index =
      none := by
    have gone := slot_finish_self outcome slot leased
    rw [finish_eq outcome slot] at gone
    exact gone
  rw [finish_eq outcome slot]
  have sequel := (follow_moves (e.detach index (.completed t.generation t.id outcome)) t).mono
    fun e x sequel => (.inl sequel : Along allow e x)
  exact ((Moves.report first (.inr ok)).trans sequel).trans (.silent (.release vacant t.buffer))

theorem statistics_finish (e : Engine) (index : UInt8) (outcome : Outcome) :
    (e.finish index outcome).statistics = e.statistics := by
  cases slot : e.slot index with
  | none => simp only [finish, slot]
  | some t =>
      rw [finish_eq outcome slot]
      exact (follow_joins _ t).statistics

/-! ## Ends of all transactions -/

/-- The engine with other indices at the front of its queue. -/
def delay (e : Engine) (indices : List UInt8) : Engine := { e with queue := indices ++ e.queue }

theorem prepare_delay (e : Engine) (indices : List UInt8) (r : Request)
    (followUps : List FollowUp) :
    (e.delay indices).prepare r followUps =
      ((e.prepare r followUps).1, (e.prepare r followUps).2.delay indices) := by
  have room : (e.delay indices).room = e.room := rfl
  simp only [prepare, room]
  by_cases large : Layout.datagramHeader + r.payload.length + Layout.workCounter > e.room
  · simp only [if_pos large]
  · simp only [if_neg large, delay]
    cases lease : e.leases.lease? with
    | none => rfl
    | some leased =>
        cases take : e.pool.take? with
        | error cause => rfl
        | ok taken =>
            dsimp only
            cases encode : Datagram.encodeInto taken.1.bytes r.command leased.1 r.address
              r.payload with
            | error cause => rfl
            | ok encoded => rfl

theorem schedule_delay (e : Engine) (indices : List UInt8) (index : UInt8) :
    (e.delay indices).schedule index =
      ((e.schedule index).1, (e.schedule index).2.delay indices) := by
  have slot' : (e.delay indices).slot index = e.slot index := rfl
  simp only [schedule, slot']
  cases slot : e.slot index with
  | none => rfl
  | some t =>
      dsimp only
      cases t.isSent with
      | true => rfl
      | false =>
          cases t.queued with
          | true => rfl
          | false =>
              simp only [Bool.false_eq_true, if_false, delay, setSlot, List.append_assoc]

theorem submit_delay (e : Engine) (indices : List UInt8) (r : Request)
    (followUps : List FollowUp) :
    (e.delay indices).submit r followUps =
      ((e.submit r followUps).1, (e.submit r followUps).2.delay indices) := by
  simp only [submit, prepare_delay]
  generalize e.prepare r followUps = prepared
  obtain ⟨result, e'⟩ := prepared
  cases result with
  | error cause => rfl
  | ok index =>
      simp only [schedule_delay]
      generalize e'.schedule index = scheduled
      obtain ⟨result, e''⟩ := scheduled
      cases result <;> rfl

theorem follow_delay (e : Engine) (indices : List UInt8) (t : Transaction) :
    (e.delay indices).follow t = (e.follow t).delay indices := by
  unfold follow
  split
  · rfl
  · rfl
  · simp only [submit_delay]
    rfl

theorem finish_delay (e : Engine) (indices : List UInt8) (index : UInt8) (outcome : Outcome) :
    (e.delay indices).finish index outcome = (e.finish index outcome).delay indices := by
  have slot' : (e.delay indices).slot index = e.slot index := rfl
  cases slot : e.slot index with
  | none => simp only [finish, slot', slot]
  | some t =>
      have detached (x : JournalEntry) :
          (e.delay indices).detach index x = (e.detach index x).delay indices := rfl
      rw [finish_eq outcome slot, finish_eq outcome (slot'.trans slot), detached, follow_delay]
      rfl

def finishAll (e : Engine) (places : List UInt8) : Engine :=
  places.foldl (fun e index => e.finish index .timeout) e

theorem finishAll_delay (e : Engine) (indices places : List UInt8) :
    (e.delay indices).finishAll places = (e.finishAll places).delay indices := by
  induction places generalizing e with
  | nil => rfl
  | cons index rest ih =>
      have first := finish_delay e indices index .timeout
      simp only [finishAll, List.foldl_cons] at ih ⊢
      rw [first]
      exact ih _

theorem finish_queue (e : Engine) (index : UInt8) (outcome : Outcome) :
    e.queue ⊆ (e.finish index outcome).queue := by
  cases slot : e.slot index with
  | none =>
      simp only [finish, slot]
      exact fun _ here => here
  | some t =>
      rw [finish_eq outcome slot]
      exact (follow_joins (e.detach index (.completed t.generation t.id outcome)) t).queue

theorem finishAll_queue (e : Engine) (places : List UInt8) :
    e.queue ⊆ (e.finishAll places).queue := by
  induction places generalizing e with
  | nil => exact fun _ here => here
  | cons index rest ih => exact List.Subset.trans (e.finish_queue index .timeout) (ih _)

theorem finish_waits {outcome : Outcome} {other : UInt8}
    (slot : (e.finish index outcome).slot other = some t) :
    other ∈ (e.finish index outcome).queue ∨ other ≠ index ∧ e.slot other = some t := by
  cases ended : e.slot index with
  | none =>
      simp only [finish, ended] at slot
      refine .inr ⟨fun same => ?_, slot⟩
      rw [same, ended] at slot
      cases slot
  | some u =>
      rcases slot_finish outcome ended other with same | ⟨-, -, -, -, here⟩
      · rw [slot] at same
        split at same
        · cases same
        · exact .inr ⟨‹_›, same.symm⟩
      · exact .inl here

theorem finishAll_waits {places : List UInt8} {other : UInt8}
    (slot : (e.finishAll places).slot other = some t) :
    other ∈ (e.finishAll places).queue ∨ other ∉ places ∧ e.slot other = some t := by
  induction places generalizing e with
  | nil => exact .inr ⟨List.not_mem_nil, slot⟩
  | cons index rest ih =>
      rcases ih slot with here | ⟨out, kept⟩
      · exact .inl here
      · rcases finish_waits kept with here | ⟨ne, kept⟩
        · exact .inl (finishAll_queue _ rest here)
        · exact .inr ⟨by simp [ne, out], kept⟩

/-- Indices ahead of the queue can go when the queue has all that is to be sent. -/
theorem drop_moves {allow : Engine → JournalEntry → Prop}
    (waits : ∀ index t, e.slot index = some t → t.queued = true → index ∈ e.queue)
    (indices : List UInt8) : Moves allow (e.delay indices) e := by
  induction indices with
  | nil => exact .refl e
  | cons index rest ih =>
      have dropped : Moves allow (e.delay (index :: rest)) (e.delay rest) :=
        .silent (.skip rfl fun t slot queued =>
          List.mem_append_right rest (waits index t slot queued))
      exact dropped.trans ih

end Engine

end Fieldbus
