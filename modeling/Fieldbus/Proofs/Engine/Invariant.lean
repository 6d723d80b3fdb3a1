import Fieldbus.Proofs.Engine.Leases
import Fieldbus.Proofs.Engine.Moves
import Fieldbus.Proofs.Frame.Datagrams

/-!
# The invariant of an engine

The journal and the slots account for each other. What stands in a slot was prepared for it, and
packed if it has a deadline; and a transaction that was prepared is either in its slot or has ended
exactly once, by an outcome or by being cancelled.
-/

namespace Fieldbus

namespace JournalEntry

/-- The callback of the transaction fires. -/
def completes (generation : Nat) : JournalEntry → Bool
  | .completed g .. => g == generation
  | _ => false

def cancels (generation : Nat) : JournalEntry → Bool
  | .cancelled g => g == generation
  | _ => false

def ends (generation : Nat) (x : JournalEntry) : Bool :=
  x.completes generation || x.cancels generation

def IsNote (x : JournalEntry) : Prop :=
  (∀ generation index r, x ≠ .prepared generation index r) ∧ ∀ generation, x.ends generation = false

theorem generation?_of_ends {generation : Nat} {x : JournalEntry}
    (h : x.ends generation = true) : x.generation? = some generation := by
  cases x <;> simp_all [ends, completes, cancels, generation?]

theorem isNote_of_general {x : JournalEntry} (general : x.generation? = none) : x.IsNote := by
  refine ⟨fun generation index r same => ?_, fun generation => ?_⟩
  · rw [same] at general
    cases general
  · cases x <;> first | rfl | cases general

end JournalEntry

namespace Engine

open JournalEntry (completes cancels ends IsNote)

/-- The number of times that the callback of a transaction has fired. -/
def fired (e : Engine) (generation : Nat) : Nat := e.journal.countP (completes generation)

def cancellations (e : Engine) (generation : Nat) : Nat := e.journal.countP (cancels generation)

def endings (e : Engine) (generation : Nat) : Nat := e.journal.countP (ends generation)

theorem endings_eq (e : Engine) (generation : Nat) :
    e.endings generation = e.fired generation + e.cancellations generation := by
  unfold endings fired cancellations
  induction e.journal with
  | nil => rfl
  | cons x rest ih =>
      rw [List.countP_cons, List.countP_cons, List.countP_cons, ih]
      cases x <;> simp [ends, completes, cancels] <;> omega

/-- The transaction is in a slot. -/
def Outstanding (e : Engine) (generation : Nat) : Prop :=
  ∃ index t, e.slot index = some t ∧ t.generation = generation

end Engine

/-- A transaction is the one that was prepared from a request. -/
structure Transaction.Carries (t : Transaction) (index : UInt8) (r : Request) : Prop where
  place : t.index = index
  command : t.command = r.command
  timeout : t.timeout = r.timeout
  id : t.id = r.id
  encoded : t.encoded = Datagram.encode r.command index r.address r.payload
  size : r.payload.length ≤ Layout.maxPayload

theorem Transaction.Carries.progress {t : Transaction} {index : UInt8} {r : Request}
    (h : t.Carries index r) (queued : Bool) (deadline : Option Nat) :
    ({ t with queued, deadline } : Transaction).Carries index r :=
  ⟨h.place, h.command, h.timeout, h.id, h.encoded, h.size⟩

structure Transaction.Backed (t : Transaction) (index : UInt8) (journal : List JournalEntry) :
    Prop where
  prepared : ∃ r, .prepared t.generation index r ∈ journal ∧ t.Carries index r
  packed : ∀ deadline, t.deadline = some deadline →
    ∃ now, .packed t.generation index now ∈ journal ∧ deadline = now + t.timeout

theorem Transaction.Backed.mono {t : Transaction} {index : UInt8}
    {journal journal' : List JournalEntry} (h : t.Backed index journal)
    (sub : journal ⊆ journal') : t.Backed index journal' := by
  obtain ⟨⟨r, prepared, carries⟩, packed⟩ := h
  refine ⟨⟨r, sub prepared, carries⟩, fun deadline known => ?_⟩
  obtain ⟨now, entry, late⟩ := packed deadline known
  exact ⟨now, sub entry, late⟩

namespace Engine

open JournalEntry (completes cancels ends IsNote)

structure Sound (e : Engine) : Prop where
  backed : ∀ {index t}, e.slot index = some t → t.Backed index e.journal
  leased : ∀ {index t}, e.slot index = some t → e.leases.isLeased index = true
  waiting : ∀ {index t}, e.slot index = some t → t.queued = true →
    t.deadline = none ∧ index ∈ e.queue
  fresh : ∀ x ∈ e.journal, ∀ generation, x.generation? = some generation →
    generation < e.nextGeneration
  once : ∀ {generation i j r s}, .prepared generation i r ∈ e.journal →
    .prepared generation j s ∈ e.journal → i = j ∧ r = s
  pending : ∀ {generation}, e.Outstanding generation → e.endings generation = 0
  settled : ∀ {generation index r}, .prepared generation index r ∈ e.journal →
    ¬e.Outstanding generation → e.endings generation = 1

theorem Sound.index_unique {e : Engine} (h : e.Sound) {i j : UInt8} {t u : Transaction}
    (left : e.slot i = some t) (right : e.slot j = some u)
    (same : t.generation = u.generation) : i = j := by
  obtain ⟨r, prepared, -⟩ := (h.backed left).prepared
  obtain ⟨s, prepared', -⟩ := (h.backed right).prepared
  exact (h.once prepared (same ▸ prepared')).1

theorem Sound.unsent {e : Engine} (h : e.Sound) {index : UInt8} {t : Transaction}
    (slot : e.slot index = some t) (queued : t.queued = true) : t.isSent = false := by
  rw [Transaction.isSent, (h.waiting slot queued).1, Option.isSome_none]

theorem Sound.idle_of_sent {e : Engine} (h : e.Sound) {index : UInt8} {t : Transaction}
    (slot : e.slot index = some t) (sent : t.isSent = true) : t.queued = false := by
  cases queued : t.queued with
  | false => rfl
  | true =>
      rw [h.unsent slot queued] at sent
      cases sent

theorem Sound.generation_lt {e : Engine} (h : e.Sound) {index : UInt8} {t : Transaction}
    (slot : e.slot index = some t) : t.generation < e.nextGeneration := by
  obtain ⟨r, prepared, -⟩ := (h.backed slot).prepared
  exact h.fresh _ prepared _ rfl

theorem Sound.endings_next {e : Engine} (h : e.Sound) : e.endings e.nextGeneration = 0 := by
  refine List.countP_eq_zero.mpr fun x hx ending => ?_
  exact absurd (h.fresh x hx _ (JournalEntry.generation?_of_ends ending)) (Nat.lt_irrefl _)

theorem sound_withParts (config : Config) (pool : Pool) (start : UInt8) :
    (withParts config pool (.startingAt start)).Sound := by
  have vacant : ∀ index, (withParts config pool (.startingAt start)).slot index = none := by
    intro index
    simp [slot, withParts]
  constructor
  case backed => intro index t slot; simp [vacant] at slot
  case leased => intro index t slot; simp [vacant] at slot
  case waiting => intro index t slot; simp [vacant] at slot
  case fresh => intro x hx; cases hx
  case once => intro generation i j r s prepared; cases prepared
  case pending =>
    rintro generation ⟨index, t, slot, -⟩
    simp [vacant] at slot
  case settled => intro generation index r prepared; cases prepared

/-! ## Steps that keep every transaction -/

section Keep

variable {e e' : Engine} {xs : List JournalEntry}

theorem endings_append {generation : Nat} (journal : e'.journal = e.journal ++ xs)
    (none : ∀ x ∈ xs, x.ends generation = false) :
    e'.endings generation = e.endings generation := by
  have zero : xs.countP (ends generation) = 0 :=
    List.countP_eq_zero.mpr fun x hx => by simp [none x hx]
  unfold endings
  rw [journal, List.countP_append, zero, Nat.add_zero]

theorem Sound.keep (h : e.Sound) (journal : e'.journal = e.journal ++ xs)
    (notes : ∀ x ∈ xs, IsNote x)
    (known : ∀ x ∈ xs, ∀ generation, x.generation? = some generation →
      generation < e.nextGeneration)
    (next : e'.nextGeneration = e.nextGeneration)
    (leased : ∀ {index t}, e.slot index = some t → e'.leases.isLeased index = true)
    (slots : ∀ {index t'}, e'.slot index = some t' →
      (∃ t, e.slot index = some t ∧ t.generation = t'.generation) ∧ t'.Backed index e'.journal ∧
        (t'.queued = true → t'.deadline = none ∧ index ∈ e'.queue))
    (kept : ∀ {index t}, e.slot index = some t →
      ∃ t', e'.slot index = some t' ∧ t'.generation = t.generation) : e'.Sound := by
  have outstanding (generation : Nat) : e'.Outstanding generation ↔ e.Outstanding generation := by
    constructor
    · rintro ⟨index, t', slot', rfl⟩
      obtain ⟨⟨t, slot, same⟩, -⟩ := slots slot'
      exact ⟨index, t, slot, same⟩
    · rintro ⟨index, t, slot, rfl⟩
      obtain ⟨t', slot', same⟩ := kept slot
      exact ⟨index, t', slot', same⟩
  have before {generation index r} (prepared : .prepared generation index r ∈ e'.journal) :
      .prepared generation index r ∈ e.journal := by
    rw [journal] at prepared
    rcases List.mem_append.mp prepared with old | new
    · exact old
    · exact ((notes _ new).1 generation index r rfl).elim
  constructor
  case backed =>
    intro index t' slot'
    exact (slots slot').2.1
  case leased =>
    intro index t' slot'
    obtain ⟨⟨t, slot, -⟩, -⟩ := slots slot'
    exact leased slot
  case waiting =>
    intro index t' slot'
    exact (slots slot').2.2
  case fresh =>
    intro x hx generation about
    rw [next]
    rcases List.mem_append.mp (journal ▸ hx) with old | new
    · exact h.fresh x old generation about
    · exact known x new generation about
  case once =>
    intro generation i j r s left right
    exact h.once (before left) (before right)
  case pending =>
    intro generation out
    rw [endings_append journal fun x hx => (notes x hx).2 generation]
    exact h.pending ((outstanding generation).mp out)
  case settled =>
    intro generation index r prepared out
    rw [endings_append journal fun x hx => (notes x hx).2 generation]
    exact h.settled (before prepared) fun held => out ((outstanding generation).mpr held)

theorem Sound.relax (h : e.Sound) (slots : e'.slots = e.slots) (journal : e'.journal = e.journal)
    (next : e'.nextGeneration = e.nextGeneration)
    (leased : ∀ {index t}, e.slot index = some t → e'.leases.isLeased index = true)
    (queue : ∀ {index t}, e.slot index = some t → t.queued = true → index ∈ e.queue →
      index ∈ e'.queue) : e'.Sound := by
  have slot (index : UInt8) : e'.slot index = e.slot index := by
    unfold Engine.slot
    simp only [slots]
  have stays : e'.journal = e.journal ++ [] := by rw [journal, List.append_nil]
  refine h.keep stays (by simp) (by simp) next leased (fun {index t'} slot' => ?_)
    (fun {index t} here => ?_)
  · rw [slot] at slot'
    refine ⟨⟨t', slot', rfl⟩, journal ▸ h.backed slot', fun queued => ?_⟩
    obtain ⟨unsent, here⟩ := h.waiting slot' queued
    exact ⟨unsent, queue slot' queued here⟩
  · exact ⟨t, (slot index).trans here, rfl⟩

end Keep

/-! ## Steps that begin or end a transaction -/

section Turnover

variable {e e' : Engine} {index : UInt8} {t : Transaction} {x : JournalEntry}

theorem Sound.vacate (h : e.Sound) (slot : e.slot index = some t)
    (slots : ∀ other, e'.slot other = if other = index then none else e.slot other)
    (journal : e'.journal = e.journal ++ [x])
    (last : ∀ generation, x.ends generation = (t.generation == generation))
    (next : e'.nextGeneration = e.nextGeneration)
    (leases : e'.leases = e.leases)
    (queue : ∀ other ∈ e.queue, other ≠ index → other ∈ e'.queue) : e'.Sound := by
  have ending : x.generation? = some t.generation :=
    JournalEntry.generation?_of_ends (by rw [last, beq_self_eq_true])
  have elsewhere {other u} (slot' : e'.slot other = some u) :
      other ≠ index ∧ e.slot other = some u := by
    rw [slots] at slot'
    split at slot'
    · cases slot'
    · exact ⟨‹_›, slot'⟩
  have before {generation i r} (prepared : .prepared generation i r ∈ e'.journal) :
      .prepared generation i r ∈ e.journal := by
    rw [journal] at prepared
    rcases List.mem_append.mp prepared with old | new
    · exact old
    · have ends := last t.generation
      rw [← List.mem_singleton.mp new] at ends
      simp [JournalEntry.ends, completes, cancels] at ends
  have sub : e.journal ⊆ e'.journal := journal ▸ List.subset_append_left _ _
  have endings (generation : Nat) : e'.endings generation =
      e.endings generation + if t.generation = generation then 1 else 0 := by
    unfold Engine.endings
    rw [journal, List.countP_append, List.countP_singleton, last]
    simp
  constructor
  case backed =>
    intro other u slot'
    exact (h.backed (elsewhere slot').2).mono sub
  case leased =>
    intro other u slot'
    exact leases ▸ h.leased (elsewhere slot').2
  case waiting =>
    intro other u slot' queued
    obtain ⟨ne, there⟩ := elsewhere slot'
    obtain ⟨unsent, here⟩ := h.waiting there queued
    exact ⟨unsent, queue other here ne⟩
  case fresh =>
    intro y hy generation about
    rw [next]
    rcases List.mem_append.mp (journal ▸ hy) with old | new
    · exact h.fresh y old generation about
    · rw [List.mem_singleton.mp new, ending, Option.some.injEq] at about
      exact about ▸ h.generation_lt slot
  case once =>
    intro generation i j r s left right
    exact h.once (before left) (before right)
  case pending =>
    rintro generation ⟨other, u, slot', rfl⟩
    obtain ⟨ne, there⟩ := elsewhere slot'
    have differs : t.generation ≠ u.generation := fun same =>
      ne (h.index_unique there slot same.symm)
    rw [endings, if_neg differs, h.pending ⟨other, u, there, rfl⟩]
  case settled =>
    intro generation i r prepared out
    rw [endings]
    by_cases same : t.generation = generation
    · rw [if_pos same, h.pending ⟨index, t, slot, same⟩]
    · rw [if_neg same, Nat.add_zero]
      refine h.settled (before prepared) ?_
      rintro ⟨other, u, there, rfl⟩
      have ne : other ≠ index := by
        rintro rfl
        exact same (by rw [slot, Option.some.injEq] at there; rw [there])
      exact out ⟨other, u, by rw [slots, if_neg ne, there], rfl⟩

theorem Sound.begin (h : e.Sound) {r : Request} (free : e.leases.isLeased index = false)
    (slots : ∀ other, e'.slot other = if other = index then some t else e.slot other)
    (generation : t.generation = e.nextGeneration)
    (journal : e'.journal = e.journal ++ [.prepared t.generation index r])
    (next : e'.nextGeneration = e.nextGeneration + 1)
    (leases : ∀ other, e'.leases.isLeased other = (e.leases.isLeased other || other == index))
    (queue : e'.queue = e.queue) (carries : t.Carries index r) (unsent : t.deadline = none)
    (idle : t.queued = false) : e'.Sound := by
  have vacant : e.slot index = none := by
    cases slot : e.slot index with
    | none => rfl
    | some u => simp [h.leased slot] at free
  have elsewhere {other u} (slot' : e'.slot other = some u) :
      other = index ∧ u = t ∨ other ≠ index ∧ e.slot other = some u := by
    rw [slots] at slot'
    split at slot'
    · exact .inl ⟨‹_›, (Option.some.inj slot').symm⟩
    · exact .inr ⟨‹_›, slot'⟩
  have sub : e.journal ⊆ e'.journal := journal ▸ List.subset_append_left _ _
  have before {g i s} (prepared : .prepared g i s ∈ e'.journal) :
      .prepared g i s ∈ e.journal ∧ g < e.nextGeneration ∨
        g = e.nextGeneration ∧ i = index ∧ s = r := by
    rw [journal] at prepared
    rcases List.mem_append.mp prepared with old | new
    · exact .inl ⟨old, h.fresh _ old g rfl⟩
    · have same := List.mem_singleton.mp new
      simp only [JournalEntry.prepared.injEq] at same
      exact .inr ⟨same.1.trans generation, same.2⟩
  have endings (g : Nat) : e'.endings g = e.endings g :=
    endings_append journal fun x hx => List.mem_singleton.mp hx ▸ rfl
  constructor
  case backed =>
    intro other u slot'
    rcases elsewhere slot' with ⟨rfl, rfl⟩ | ⟨-, there⟩
    · refine ⟨⟨r, journal ▸ ?_, carries⟩, fun deadline known => ?_⟩
      · simp
      · simp [unsent] at known
    · exact (h.backed there).mono sub
  case leased =>
    intro other u slot'
    rw [leases]
    rcases elsewhere slot' with ⟨rfl, rfl⟩ | ⟨-, there⟩
    · simp
    · simp [h.leased there]
  case waiting =>
    intro other u slot' queued
    rcases elsewhere slot' with ⟨rfl, rfl⟩ | ⟨-, there⟩
    · simp [idle] at queued
    · exact queue ▸ h.waiting there queued
  case fresh =>
    intro y hy g about
    rw [next]
    rcases List.mem_append.mp (journal ▸ hy) with old | new
    · exact Nat.lt_succ_of_lt (h.fresh y old g about)
    · rw [List.mem_singleton.mp new, JournalEntry.generation?, Option.some.injEq] at about
      omega
  case once =>
    intro g i j s s' left right
    rcases before left with ⟨left, -⟩ | ⟨rfl, rfl, rfl⟩
    · rcases before right with ⟨right, -⟩ | ⟨rfl, -⟩
      · exact h.once left right
      · exact absurd (h.fresh _ left _ rfl) (Nat.lt_irrefl _)
    · rcases before right with ⟨-, old⟩ | ⟨-, rfl, rfl⟩
      · exact absurd old (Nat.lt_irrefl _)
      · exact ⟨rfl, rfl⟩
  case pending =>
    rintro g ⟨other, u, slot', rfl⟩
    rw [endings]
    rcases elsewhere slot' with ⟨rfl, rfl⟩ | ⟨-, there⟩
    · exact generation ▸ h.endings_next
    · exact h.pending ⟨other, u, there, rfl⟩
  case settled =>
    intro g i s prepared out
    rw [endings]
    rcases before prepared with ⟨old, -⟩ | ⟨rfl, rfl, rfl⟩
    · refine h.settled old ?_
      rintro ⟨other, u, there, same⟩
      have ne : other ≠ index := by
        rintro rfl
        simp [vacant] at there
      exact out ⟨other, u, by rw [slots, if_neg ne, there], same⟩
    · exact (out ⟨i, t, by rw [slots, if_pos rfl], generation⟩).elim

end Turnover

/-! ## Moves -/

theorem carries_ofRequest {r : Request} {index : UInt8} {b : Buffer} {length : Nat} {bytes : Bytes}
    (encode : Datagram.encodeInto b.bytes r.command index r.address r.payload =
      .ok (length, bytes)) (followUps : List FollowUp) (generation : Nat) :
    (Transaction.ofRequest r followUps generation index
      ({ b with bytes }.withLength length)).Carries index r := by
  obtain ⟨size, -, bound, taken⟩ := Datagram.encodeInto_eq_ok encode
  refine ⟨rfl, rfl, rfl, rfl, ?_, size⟩
  show bytes.take (min length bytes.length) = _
  rw [Nat.min_eq_left bound, taken]

theorem Sound.detach {e : Engine} (h : e.Sound) {index : UInt8} {t : Transaction}
    {x : JournalEntry} (slot : e.slot index = some t)
    (last : ∀ generation, x.ends generation = (t.generation == generation))
    {queue : List UInt8} (kept : ∀ other ∈ e.queue, other ≠ index → other ∈ queue) :
    ({ e with queue }.detach index x).Sound :=
  h.vacate slot (slot_detach _ index x) rfl last rfl rfl kept

theorem Sound.update {e e' : Engine} (h : e.Sound) {index : UInt8} {t t' : Transaction}
    {xs : List JournalEntry} (slot : e.slot index = some t)
    (slots : ∀ other, e'.slot other = if other = index then some t' else e.slot other)
    (same : t'.generation = t.generation) (backed : t'.Backed index e'.journal)
    (waits : t'.queued = true → t'.deadline = none ∧ index ∈ e'.queue)
    (journal : e'.journal = e.journal ++ xs) (notes : ∀ x ∈ xs, IsNote x)
    (known : ∀ x ∈ xs, ∀ generation, x.generation? = some generation →
      generation < e.nextGeneration)
    (next : e'.nextGeneration = e.nextGeneration) (leases : e'.leases = e.leases)
    (kept : ∀ other ∈ e.queue, other ≠ index → other ∈ e'.queue) : e'.Sound := by
  have sub : e.journal ⊆ e'.journal := journal ▸ List.subset_append_left _ _
  refine h.keep journal notes known next (fun there => leases ▸ h.leased there)
    (fun {other u} slot' => ?_) (fun {other u} there => ?_)
  · rw [slots] at slot'
    split at slot'
    · rename_i here
      rw [Option.some.injEq] at slot'
      subst here slot'
      exact ⟨⟨t, slot, same.symm⟩, backed, waits⟩
    · rename_i ne
      refine ⟨⟨u, slot', rfl⟩, (h.backed slot').mono sub, fun queued => ?_⟩
      obtain ⟨unsent, here⟩ := h.waiting slot' queued
      exact ⟨unsent, kept other here ne⟩
  · by_cases here : other = index
    · subst here
      rw [slot, Option.some.injEq] at there
      exact ⟨t', by rw [slots, if_pos rfl], by rw [same, there]⟩
    · exact ⟨u, by rw [slots, if_neg here, there], rfl⟩

theorem Move.sound {e e' : Engine} {xs : List JournalEntry} (move : Move e xs e')
    (h : e.Sound) : e'.Sound ∧ e'.journal = e.journal ++ xs ∧ e'.config = e.config := by
  cases move with
  | @enroll r followUps index leases b pool length bytes lease take encode =>
      obtain ⟨free, grown⟩ := Leases.lease?_eq_some lease
      exact ⟨h.begin free (slot_enroll _ r _) rfl rfl rfl grown rfl
        (carries_ofRequest encode followUps _) rfl rfl, rfl, rfl⟩
  | @waver index leases lease =>
      exact ⟨h.relax rfl rfl rfl
        (fun slot => (Leases.isLeased_returned lease _).trans (h.leased slot))
        fun _ _ here => here, (List.append_nil _).symm, rfl⟩
  | «return» take =>
      exact ⟨h.relax rfl rfl rfl h.leased fun _ _ here => here, (List.append_nil _).symm, rfl⟩
  | @enqueue index t slot unsent idle =>
      refine ⟨?_, (List.append_nil _).symm, rfl⟩
      have bare : t.deadline = none := by
        simpa only [Transaction.isSent, Option.isSome_eq_false_iff, Option.isNone_iff_eq_none]
          using unsent
      obtain ⟨⟨r, prepared, carries⟩, packed⟩ := h.backed slot
      exact h.update slot (fun other => slot_setSlot _ index other _) rfl
        ⟨⟨r, prepared, carries.progress true t.deadline⟩, packed⟩
        (fun _ => ⟨bare, List.mem_append_right _ (List.mem_singleton_self _)⟩)
        (List.append_nil _).symm (by simp) (by simp) rfl rfl
        fun other here _ => List.mem_append_left _ here
  | @skip index queue front idle =>
      refine ⟨h.relax rfl rfl rfl h.leased fun {other t} slot queued here => ?_,
        (List.append_nil _).symm, rfl⟩
      rcases List.mem_cons.mp (front ▸ here) with rfl | behind
      · exact idle t slot queued
      · exact behind
  | @rotate index queue front =>
      refine ⟨h.relax rfl rfl rfl h.leased fun {other t} slot queued here => ?_,
        (List.append_nil _).symm, rfl⟩
      rw [front] at here
      show other ∈ queue ++ [index]
      simpa [or_comm] using here
  | @pack index queue t now front slot queued =>
      refine ⟨?_, rfl, rfl⟩
      obtain ⟨⟨r, prepared, carries⟩, -⟩ := h.backed slot
      refine h.update slot (fun other => slot_setSlot _ index other _) rfl
        ⟨⟨r, List.mem_append_left _ prepared, carries.progress false _⟩, fun deadline known => ?_⟩
        (fun queued => by cases queued) rfl (fun x hx => ?_) (fun x hx generation about => ?_)
        rfl rfl fun other here ne => ?_
      · exact ⟨now, List.mem_append_right _ (List.mem_singleton_self _),
          (Option.some.inj known).symm⟩
      · rw [List.mem_singleton.mp hx]
        exact ⟨nofun, fun _ => rfl⟩
      · rw [List.mem_singleton.mp hx, JournalEntry.generation?, Option.some.injEq] at about
        exact about ▸ h.generation_lt slot
      · exact (List.mem_cons.mp (front ▸ here)).resolve_left ne
  | finish outcome slot kept =>
      exact ⟨h.detach slot (fun _ => by simp [ends, completes, cancels]) kept, rfl, rfl⟩
  | cancel slot =>
      exact ⟨h.detach slot (fun _ => by simp [ends, completes, cancels]) fun _ here _ => here,
        rfl, rfl⟩
  | @release index vacant b =>
      refine ⟨h.relax rfl rfl rfl (fun {other t} slot => ?_) fun _ _ here => here,
        (List.append_nil _).symm, rfl⟩
      have ne : other ≠ index := by
        rintro rfl
        simp [vacant] at slot
      show (e.leases.release index).2.isLeased other = true
      rw [Leases.isLeased_release, h.leased slot, bne_iff_ne.mpr ne, Bool.and_true]
  | @note x general =>
      refine ⟨?_, rfl, rfl⟩
      refine h.keep rfl (fun x hx => ?_) (fun x hx generation about => ?_) rfl h.leased
        (fun {index t} slot => ?_) fun {index t} slot => ⟨t, slot, rfl⟩
      · rw [List.mem_singleton.mp hx]
        exact JournalEntry.isNote_of_general general
      · rw [List.mem_singleton.mp hx, general] at about
        cases about
      · exact ⟨⟨t, slot, rfl⟩, (h.backed slot).mono (List.subset_append_left _ _), h.waiting slot⟩
  | count statistics =>
      exact ⟨h.relax rfl rfl rfl h.leased fun _ _ here => here, (List.append_nil _).symm, rfl⟩
  | shut =>
      exact ⟨h.relax rfl rfl rfl h.leased fun _ _ here => here, (List.append_nil _).symm, rfl⟩
  | share pool =>
      exact ⟨h.relax rfl rfl rfl h.leased fun _ _ here => here, (List.append_nil _).symm, rfl⟩

/-! ## Paths -/

/-- What a path does. Whatever it reports was allowed at a point of the path. -/
theorem Moves.trace {allow : Engine → JournalEntry → Prop} {e e' : Engine}
    (path : Moves allow e e') (h : e.Sound) :
    e'.Sound ∧ e'.config = e.config ∧ ∃ xs, e'.journal = e.journal ++ xs ∧
      ∀ x ∈ xs, ∃ mid : Engine, ∃ ys ⊆ xs, mid.Sound ∧ mid.journal = e.journal ++ ys ∧
        allow mid x := by
  induction path with
  | refl => exact ⟨h, rfl, [], (List.append_nil _).symm, by simp⟩
  | @tail mid e' before last ih =>
      obtain ⟨sound, config, xs, journal, reported⟩ := ih
      obtain ⟨ys, move, allowed⟩ := last
      obtain ⟨sound', journal', config'⟩ := move.sound sound
      refine ⟨sound', config'.trans config, xs ++ ys, ?_, fun x hx => ?_⟩
      · rw [journal', journal, List.append_assoc]
      · rcases List.mem_append.mp hx with earlier | now
        · obtain ⟨point, zs, sub, held⟩ := reported x earlier
          exact ⟨point, zs, List.subset_append_of_subset_left _ sub, held⟩
        · exact ⟨mid, xs, List.subset_append_left _ _, sound, journal, allowed x now⟩

theorem Moves.sound {allow : Engine → JournalEntry → Prop} {e e' : Engine}
    (path : Moves allow e e') (h : e.Sound) : e'.Sound := (path.trace h).1

end Engine

end Fieldbus
