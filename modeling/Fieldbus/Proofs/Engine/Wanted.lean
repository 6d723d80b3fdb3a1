import Mathlib.Data.List.Induction
import Fieldbus.Proofs.Engine.Actions
import Fieldbus.Proofs.Engine.Runs

/-!
# What is packed is wanted

The queue may name an index whose transaction is gone, or name it twice. What counts is whether the
transaction in the slot waits. It waits only if someone asked for it to be sent, by a call or by
what a completion set off, and it stops waiting when it is packed.
-/

namespace Fieldbus

def JournalEntry.packs (generation : Nat) : JournalEntry → Bool
  | .packed g .. => g == generation
  | _ => false

namespace Engine

open JournalEntry (completes cancels ends packs)

/-- Of whatever is packed in the course of `xs`, `allow` holds with the journal up to then. -/
def EachPacked (allow : List JournalEntry → Nat → UInt8 → Nat → Prop)
    (journal xs : List JournalEntry) : Prop :=
  ∀ ys zs generation index now, xs = ys ++ .packed generation index now :: zs →
    allow (journal ++ ys) generation index now

def Quiet (xs : List JournalEntry) : Prop :=
  ∀ generation index now, .packed generation index now ∉ xs

namespace EachPacked

variable {allow allow' : List JournalEntry → Nat → UInt8 → Nat → Prop}
  {journal xs xs' : List JournalEntry}

theorem quiet (none : Quiet xs) : EachPacked allow journal xs := by
  rintro ys zs generation index now rfl
  exact absurd (by simp) (none generation index now)

theorem single {generation : Nat} {index : UInt8} {now : Nat}
    (ok : allow journal generation index now) :
    EachPacked allow journal [.packed generation index now] := by
  intro ys zs g i n split
  cases ys with
  | nil =>
      simp only [List.nil_append, List.cons.injEq, JournalEntry.packed.injEq] at split
      obtain ⟨⟨rfl, rfl, rfl⟩, -⟩ := split
      simpa using ok
  | cons y ys => simp at split

theorem append (h : EachPacked allow journal xs) (h' : EachPacked allow (journal ++ xs) xs') :
    EachPacked allow journal (xs ++ xs') := by
  intro ys zs generation index now split
  rcases List.append_eq_append_iff.mp split with ⟨mid, rfl, later⟩ | ⟨mid, rfl, later⟩
  · have := h' mid zs generation index now later
    rwa [List.append_assoc] at this
  · cases mid with
    | nil =>
        have := h' [] zs generation index now later.symm
        simpa using this
    | cons x mid =>
        simp only [List.cons_append, List.cons.injEq] at later
        obtain ⟨rfl, -⟩ := later
        exact h ys mid generation index now rfl

theorem imp (h : EachPacked allow journal xs)
    (sub : ∀ ys generation index now, .packed generation index now ∈ xs → ys <+: xs →
      allow (journal ++ ys) generation index now → allow' (journal ++ ys) generation index now) :
    EachPacked allow' journal xs := by
  rintro ys zs generation index now rfl
  exact sub ys generation index now (by simp) (List.prefix_append ys _)
    (h ys zs generation index now rfl)

end EachPacked

/-! ## Not packed before -/

/-- The transaction was prepared, has not ended and is in no frame yet. -/
structure Fresh (journal : List JournalEntry) (generation : Nat) (index : UInt8) : Prop where
  prepared : ∃ r, .prepared generation index r ∈ journal
  unended : journal.countP (ends generation) = 0
  unpacked : journal.countP (packs generation) = 0

def Unpacked (e : Engine) : Prop :=
  ∀ index t, e.slot index = some t → t.deadline = none →
    e.journal.countP (packs t.generation) = 0

variable {e e' : Engine} {xs : List JournalEntry}

theorem Unpacked.keep (u : e.Unpacked) (journal : e'.journal = e.journal ++ xs)
    (foreign : ∀ {index t}, e'.slot index = some t → t.deadline = none →
      xs.countP (packs t.generation) = 0)
    (slots : ∀ {index t'}, e'.slot index = some t' → t'.deadline = none →
      ∃ t, e.slot index = some t ∧ t.deadline = none ∧ t.generation = t'.generation) :
    e'.Unpacked := by
  intro index t' slot' unsent
  obtain ⟨t, slot, waiting, same⟩ := slots slot' unsent
  rw [journal, List.countP_append, foreign slot' unsent, ← same, u index t slot waiting]

theorem Unpacked.detach (u : e.Unpacked) {index : UInt8} {x : JournalEntry}
    (other : ∀ generation, x.packs generation = false) : (e.detach index x).Unpacked := by
  refine u.keep rfl (fun _ _ => by simp [other]) fun {i t'} slot' unsent => ?_
  rw [slot_detach] at slot'
  split at slot'
  · cases slot'
  · exact ⟨t', slot', unsent, rfl⟩

theorem Unpacked.quiet (u : e.Unpacked) (slots : ∀ index, e'.slot index = e.slot index)
    (journal : e'.journal = e.journal ++ xs)
    (other : ∀ x ∈ xs, ∀ generation, x.packs generation = false) : e'.Unpacked := by
  refine u.keep journal (fun {index t} _ _ => ?_) fun {index t'} slot' unsent => ?_
  · simpa using fun x hx => other x hx t.generation
  · exact ⟨t', (slots index).symm.trans slot', unsent, rfl⟩

theorem Sound.fresh_waiting (h : e.Sound) (u : e.Unpacked) {index : UInt8} {t : Transaction}
    (slot : e.slot index = some t) (queued : t.queued = true) :
    Fresh e.journal t.generation index := by
  obtain ⟨r, prepared, -⟩ := (h.backed slot).prepared
  exact ⟨⟨r, prepared⟩, h.pending ⟨index, t, slot, rfl⟩, u index t slot (h.waiting slot queued).1⟩

theorem Sound.unpacked_next (h : e.Sound) : e.journal.countP (packs e.nextGeneration) = 0 := by
  refine List.countP_eq_zero.mpr fun x hx packs => ?_
  have about : x.generation? = some e.nextGeneration := by
    cases x <;> simp_all [JournalEntry.packs, JournalEntry.generation?]
  exact absurd (h.fresh x hx _ about) (Nat.lt_irrefl _)

theorem Move.unpacked (move : Move e xs e') (h : e.Sound) (u : e.Unpacked) : e'.Unpacked := by
  cases move with
  | @enroll r followUps index leases b pool length bytes lease take encode =>
      intro other t slot unsent
      rw [slot_enroll] at slot
      have journal : ({ e with leases, pool }.enroll r
          (.ofRequest r followUps e.nextGeneration index
            ({ b with bytes }.withLength length))).journal =
            e.journal ++ [.prepared e.nextGeneration index r] := rfl
      rw [journal, List.countP_append]
      split at slot
      · cases slot
        simpa [packs, Transaction.ofRequest] using h.unpacked_next
      · simpa [packs] using u other t slot unsent
  | waver => exact u.quiet (fun _ => rfl) (List.append_nil _).symm (by simp)
  | «return» => exact u.quiet (fun _ => rfl) (List.append_nil _).symm (by simp)
  | @enqueue index t slot unsent idle =>
      refine u.keep (List.append_nil _).symm (by simp) fun {other t'} slot' waiting => ?_
      rw [slot_setSlot] at slot'
      split at slot'
      · rename_i here
        cases slot'
        exact ⟨t, here ▸ slot, waiting, rfl⟩
      · exact ⟨t', slot', waiting, rfl⟩
  | skip => exact u.quiet (fun _ => rfl) (List.append_nil _).symm (by simp)
  | rotate => exact u.quiet (fun _ => rfl) (List.append_nil _).symm (by simp)
  | @pack index queue t now front slot queued =>
      -- The transaction now has a deadline, and the entry is about no other.
      have elsewhere {other t'} (slot' : ({ e with queue }.markSent now index t).slot other =
          some t') (unsent : t'.deadline = none) : other ≠ index ∧ e.slot other = some t' := by
        rw [markSent] at slot'
        have slot'' : (if other = index then some (t.markSent now) else e.slot other) = some t' :=
          (slot_setSlot _ index other _).symm.trans slot'
        split at slot''
        · cases slot''
          cases unsent
        · exact ⟨‹_›, slot''⟩
      refine u.keep rfl (fun {other t'} slot' unsent => ?_) fun {other t'} slot' unsent => ?_
      · obtain ⟨ne, there⟩ := elsewhere slot' unsent
        have differs : t.generation ≠ t'.generation := fun same =>
          ne (h.index_unique there slot same.symm)
        simp [packs, differs]
      · exact ⟨t', (elsewhere slot' unsent).2, unsent, rfl⟩
  | finish outcome slot kept => exact u.detach fun _ => rfl
  | cancel slot => exact u.detach fun _ => rfl
  | release => exact u.quiet (fun _ => rfl) (List.append_nil _).symm (by simp)
  | @note x general =>
      refine u.quiet (fun _ => rfl) rfl fun y hy generation => ?_
      rw [List.mem_singleton.mp hy]
      cases x <;> first | rfl | cases general
  | count => exact u.quiet (fun _ => rfl) (List.append_nil _).symm (by simp)
  | shut => exact u.quiet (fun _ => rfl) (List.append_nil _).symm (by simp)
  | share => exact u.quiet (fun _ => rfl) (List.append_nil _).symm (by simp)

theorem Move.packed_fresh (move : Move e xs e') (h : e.Sound) (u : e.Unpacked) :
    EachPacked (fun journal generation index _ => Fresh journal generation index) e.journal xs := by
  cases move with
  | pack now front slot queued => exact .single (h.fresh_waiting u slot queued)
  | @note x general =>
      refine .quiet fun generation index now hx => ?_
      rw [← List.mem_singleton.mp hx] at general
      cases general
  | _ => exact .quiet (by simp [Quiet])

theorem Moves.packed_fresh {allow : Engine → JournalEntry → Prop} (path : Moves allow e e')
    (h : e.Sound) (u : e.Unpacked) : e'.Unpacked ∧ ∃ xs, e'.journal = e.journal ++ xs ∧
      EachPacked (fun journal generation index _ => Fresh journal generation index)
        e.journal xs := by
  induction path with
  | refl => exact ⟨u, [], (List.append_nil _).symm, .quiet (by simp [Quiet])⟩
  | @tail mid e' before last ih =>
      obtain ⟨unpacked, xs, journal, each⟩ := ih
      obtain ⟨ys, move, -⟩ := last
      have sound : mid.Sound := Moves.sound before h
      refine ⟨move.unpacked sound unpacked, xs ++ ys, ?_, each.append ?_⟩
      · rw [(move.sound sound).2.1, journal, List.append_assoc]
      · rw [← journal]
        exact move.packed_fresh sound unpacked

/-! ## Who asked for it -/

/-- A completion set the transaction off, and it was asked for at once. -/
def Hired (journal : List JournalEntry) (generation : Nat) (index : UInt8) : Prop :=
  ∃ r id, [.prepared generation index r, .followed id (.ok index)] <:+: journal

theorem Hired.mono {journal journal' : List JournalEntry} {generation : Nat} {index : UInt8}
    (h : Hired journal generation index) (sub : journal <+: journal') :
    Hired journal' generation index := by
  obtain ⟨r, id, here⟩ := h
  exact ⟨r, id, here.trans sub.isInfix⟩

def Queued (e : Engine) (generation : Nat) (index : UInt8) : Prop :=
  ∃ t, e.slot index = some t ∧ t.queued = true ∧ t.generation = generation

/-- Between two engines nobody asked for a transaction, unless a completion set it off, and what
was packed had been asked for. -/
structure Grows (e e' : Engine) : Prop where
  queued : ∀ {generation index}, e'.Queued generation index →
    e.Queued generation index ∨ Hired e'.journal generation index
  packed : ∃ xs, e'.journal = e.journal ++ xs ∧
    EachPacked (fun journal generation index _ =>
      e.Queued generation index ∨ Hired journal generation index) e.journal xs

namespace Grows

variable {e'' : Engine}

theorem quiet (xs : List JournalEntry)
    (queued : ∀ {generation index}, e'.Queued generation index → e.Queued generation index)
    (journal : e'.journal = e.journal ++ xs) (silent : Quiet xs) : Grows e e' :=
  ⟨fun waits => .inl (queued waits), xs, journal, .quiet silent⟩

theorem still (slots : ∀ index, e'.slot index = e.slot index) (journal : e'.journal = e.journal) :
    Grows e e' := by
  refine quiet [] (fun {generation index} waits => ?_) (by simp [journal]) (by simp [Quiet])
  obtain ⟨t, slot, waits⟩ := waits
  exact ⟨t, (slots index).symm.trans slot, waits⟩

theorem refl (e : Engine) : Grows e e := still (fun _ => rfl) rfl

theorem trans (h : Grows e e') (h' : Grows e' e'') : Grows e e'' := by
  obtain ⟨xs, journal, packed⟩ := h.packed
  obtain ⟨xs', journal', packed'⟩ := h'.packed
  refine ⟨fun {generation index} waits => ?_, xs ++ xs', ?_, packed.append ?_⟩
  · rcases h'.queued waits with waits | hired
    · rcases h.queued waits with waits | hired
      · exact .inl waits
      · exact .inr (hired.mono ⟨xs', journal'.symm⟩)
    · exact .inr hired
  · rw [journal', journal, List.append_assoc]
  · rw [← journal]
    refine packed'.imp fun ys generation index now _ _ allowed => ?_
    rcases allowed with waits | hired
    · exact (h.queued waits).imp_right fun hired => hired.mono (List.prefix_append _ _)
    · exact .inr hired

theorem note (e : Engine) {x : JournalEntry} (other : ∀ generation, x.packs generation = false) :
    Grows e (e.record x) := by
  refine quiet [x] (fun waits => waits) rfl fun generation index now here => ?_
  rw [List.mem_singleton] at here
  have := other generation
  simp [← here, packs] at this

theorem detach (e : Engine) (index : UInt8) {x : JournalEntry}
    (other : ∀ generation, x.packs generation = false) : Grows e (e.detach index x) := by
  have vacated : Grows e (e.setSlot index none) := by
    refine quiet [] (fun {generation i} waits => ?_) (List.append_nil _).symm
      (by simp [Quiet])
    obtain ⟨t, slot, waits⟩ := waits
    rw [slot_setSlot] at slot
    split at slot
    · cases slot
    · exact ⟨t, slot, waits⟩
  exact vacated.trans (note _ other)

theorem prepare (e : Engine) (r : Request) (followUps : List FollowUp) :
    Grows e (e.prepare r followUps).2 := by
  rcases e.prepare_cases r followUps with
    ⟨cause, leases, pool, prepared, -⟩ | ⟨index, leases, pool, b, -, prepared, -⟩
  · rw [prepared]
    exact still (fun _ => rfl) rfl
  · rw [prepared]
    refine quiet [.prepared e.nextGeneration index r] (fun {generation i} waits => ?_) rfl
      (by simp [Quiet])
    obtain ⟨t, slot, queued, same⟩ := waits
    rw [slot_enroll] at slot
    split at slot
    · cases slot
      cases queued
    · exact ⟨t, slot, queued, same⟩

theorem follow (e : Engine) (t : Transaction) : Grows e (e.follow t) := by
  unfold Engine.follow
  split
  · exact refl e
  · exact note e fun _ => rfl
  · rename_i next others _
    rcases e.submit_cases next others with
      ⟨cause, leases, pool, submitted, -⟩ | ⟨index, leases, pool, u, -, unsent, rfl, submitted⟩
    · rw [submitted]
      have kept : Grows e { e with leases, pool } := still (fun _ => rfl) rfl
      exact kept.trans (note _ fun _ => rfl)
    · rw [submitted]
      refine ⟨fun {generation i} waits => ?_, [.prepared u.generation u.index next,
        .followed t.id (.ok u.index)], by simp [record, setSlot, enroll], .quiet (by simp [Quiet])⟩
      obtain ⟨v, slot, queued, rfl⟩ := waits
      have slot' : (if i = u.index then some { u with queued := true }
          else ({ e with leases, pool }.enroll next u).slot i) = some v :=
        (slot_setSlot _ u.index i _).symm.trans slot
      split at slot'
      · rename_i here
        cases slot'
        subst here
        refine .inr ⟨next, t.id, e.journal, [], ?_⟩
        simp [record, setSlot, enroll]
      · rename_i ne
        rw [slot_enroll, if_neg ne] at slot'
        exact .inl ⟨v, slot', queued, rfl⟩

theorem finish (e : Engine) (index : UInt8) (outcome : Outcome) :
    Grows e (e.finish index outcome) := by
  cases slot : e.slot index with
  | none =>
      simp only [Engine.finish, slot]
      exact refl e
  | some t =>
      rw [finish_eq outcome slot]
      have ended := detach e index (x := .completed t.generation t.id outcome) fun _ => rfl
      exact (ended.trans (follow _ t)).trans (still (fun _ => rfl) rfl)

theorem cancel (e : Engine) (index : UInt8) : Grows e (e.cancel index).2 := by
  cases slot : e.slot index with
  | none =>
      simp only [Engine.cancel, slot]
      exact refl e
  | some t =>
      rw [cancel_eq slot]
      have ended := detach e index (x := .cancelled t.generation) fun _ => rfl
      exact ended.trans (still (fun _ => rfl) rfl)

theorem withdraw (e : Engine) (index : UInt8) (generation : Nat) :
    Grows e (e.withdraw index generation).2 := by
  unfold Engine.withdraw
  split
  · exact cancel e index
  · exact refl e

theorem markSent {index : UInt8} {t : Transaction} (now : Nat) (slot : e.slot index = some t)
    (queued : t.queued = true) : Grows e (e.markSent now index t) := by
  refine ⟨fun {generation i} waits => ?_, [.packed t.generation index now], rfl,
    .single (.inl ⟨t, slot, queued, rfl⟩)⟩
  obtain ⟨u, slot', waits⟩ := waits
  have slot'' : (if i = index then some (t.markSent now) else e.slot i) = some u :=
    (slot_setSlot e index i _).symm.trans slot'
  split at slot''
  · cases slot''
    cases waits.1
  · exact .inl ⟨u, slot'', waits⟩

theorem course (path : Course e e') : Grows e e' := by
  induction path with
  | refl => exact refl e
  | tail _ action ih =>
      refine ih.trans ?_
      cases action with
      | adjust queue statistics => exact still (fun _ => rfl) rfl
      | finish index outcome => exact finish _ index outcome
      | markSent now slot queued => exact markSent now slot queued
      | sent frame => exact note _ fun _ => rfl

theorem perform (e : Engine) {op : Operation} (other : ∀ index, op ≠ .schedule index) :
    Grows e (e.perform op) := by
  cases op with
  | prepare r followUps => exact prepare e r followUps
  | schedule index => exact absurd rfl (other index)
  | transmit port filter now => exact course (course_transmit e port filter now)
  | receive bytes => exact course (course_receive e bytes)
  | sweep now => exact course (course_sweep e now)
  | cancel index => exact cancel e index
  | withdraw index generation => exact withdraw e index generation
  | close =>
      have emptied : Grows e { e with queue := [] } := still (fun _ => rfl) rfl
      have ended := course (course_finishAll { e with queue := [] } Leases.indices)
      rw [Engine.perform, close_eq]
      generalize ({ e with queue := [] } : Engine).finishAll Leases.indices = bare at ended ⊢
      exact (emptied.trans ended).trans (still (fun _ => rfl) rfl)
  | resetStatistics => exact still (fun _ => rfl) rfl
  | share pool => exact still (fun _ => rfl) rfl

end Grows

/-! ## Runs -/

/-- In a run from `start` a call asked for the transaction while it had the index. -/
def Called (start : Engine) (ops : List Operation) (generation : Nat) (index : UInt8) : Prop :=
  ∃ earlier later, ops = earlier ++ .schedule index :: later ∧
    (start.run earlier).generation? index = some generation ∧
    ((start.run earlier).schedule index).1 = .ok ()

/-- The transaction is outstanding, it was asked for, and it is in no frame yet. -/
structure Wanted (start : Engine) (ops : List Operation) (journal : List JournalEntry)
    (generation : Nat) (index : UInt8) : Prop extends Fresh journal generation index where
  asked : Called start ops generation index ∨ Hired journal generation index

def Operation.PacksAt (now : Nat) : Operation → Prop
  | @transmit _ _ _ _ _ _ time => time = now
  | _ => False

/-- A transaction was packed by an operation after the operations `earlier`. -/
structure PackedBy (start : Engine) (earlier : List Operation) (op : Operation)
    (before : List JournalEntry) (generation : Nat) (index : UInt8) (now : Nat) : Prop where
  time : op.PacksAt now
  begun : (start.run earlier).journal <+: before
  done : before ++ [.packed generation index now] <+: (start.run (earlier ++ [op])).journal
  wanted : Wanted start earlier before generation index

theorem run_concat (e : Engine) (ops : List Operation) (op : Operation) :
    e.run (ops ++ [op]) = (e.run ops).perform op := by
  simp [run]

theorem Called.concat {start : Engine} {ops : List Operation} {generation : Nat} {index : UInt8}
    (h : Called start ops generation index) (op : Operation) :
    Called start (ops ++ [op]) generation index := by
  obtain ⟨earlier, later, rfl, held⟩ := h
  exact ⟨earlier, later ++ [op], by simp, held⟩

theorem schedule_queued {index i : UInt8} {generation : Nat}
    (waits : (e.schedule index).2.Queued generation i) :
    e.Queued generation i ∨
      i = index ∧ e.generation? index = some generation ∧ (e.schedule index).1 = .ok () := by
  unfold schedule at waits ⊢
  cases slot : e.slot index with
  | none =>
      rw [slot] at waits
      exact .inl waits
  | some t =>
      simp only [slot] at waits ⊢
      split at waits
      · exact .inl waits
      · split at waits
        · exact .inl waits
        · rename_i unsent idle
          obtain ⟨u, slot', waits⟩ := waits
          have slot'' : (if i = index then some { t with queued := true } else e.slot i) = some u :=
            (slot_setSlot _ index i _).symm.trans slot'
          split at slot''
          · rename_i here
            cases slot''
            refine .inr ⟨here, ?_, ?_⟩
            · rw [generation?, slot, Option.map_some, ← waits.2]
            · simp [unsent, idle]
          · exact .inl ⟨u, slot'', waits⟩

theorem journal_schedule (e : Engine) (index : UInt8) :
    (e.schedule index).2.journal = e.journal := by
  unfold schedule
  split
  · rfl
  · split
    · rfl
    · split <;> rfl

theorem perform_packs (h : e.Sound) {op : Operation} {generation : Nat} {index : UInt8} {now : Nat}
    (journal : (e.perform op).journal = e.journal ++ xs)
    (here : .packed generation index now ∈ xs) : op.PacksAt now := by
  obtain ⟨-, -, ys, journal', reported⟩ := (perform_moves h op).trace h
  rw [journal] at journal'
  obtain ⟨_, _, _, _, _, allowed⟩ := reported _ (List.append_cancel_left journal' ▸ here)
  rcases allowed with sequel | permitted
  · cases sequel
  · cases op with
    | prepare r followUps =>
        obtain ⟨_, _, same⟩ := permitted
        cases same
    | schedule index => exact permitted.elim
    | transmit port filter time =>
        cases permitted
        rfl
    | receive bytes =>
        obtain ⟨_, _, _, _, _, same⟩ := permitted
        cases same
    | sweep time =>
        obtain ⟨_, _, _, _, same⟩ := permitted
        cases same
    | cancel index =>
        obtain ⟨_, same⟩ := permitted
        cases same
    | withdraw index generation =>
        obtain ⟨_, same⟩ := permitted
        cases same
    | close =>
        obtain ⟨_, _, _, same⟩ := permitted
        cases same
    | resetStatistics => exact permitted.elim
    | share pool => exact permitted.elim

structure Accounted (start : Engine) (ops : List Operation) : Prop where
  sound : (start.run ops).Sound
  unpacked : (start.run ops).Unpacked
  asked : ∀ generation index, (start.run ops).Queued generation index →
    Called start ops generation index ∨ Hired (start.run ops).journal generation index
  packed : EachPacked (fun before generation index now =>
    ∃ earlier op later, ops = earlier ++ op :: later ∧
      PackedBy start earlier op before generation index now) [] (start.run ops).journal

theorem Accounted.perform {start : Engine} {ops : List Operation} (h : Accounted start ops)
    (op : Operation) : Accounted start (ops ++ [op]) := by
  have moves := perform_moves h.sound op
  obtain ⟨unpacked, xs, journal, fresh⟩ := moves.packed_fresh h.sound h.unpacked
  -- Being asked for goes back to the operations so far, unless this one is the call.
  have asked : (∀ generation index, ((start.run ops).perform op).Queued generation index →
      Called start (ops ++ [op]) generation index ∨
        Hired ((start.run ops).perform op).journal generation index) ∧
      EachPacked (fun before generation index _ => Called start ops generation index ∨
        Hired before generation index) (start.run ops).journal xs := by
    by_cases calls : ∃ index, op = .schedule index
    · obtain ⟨index, rfl⟩ := calls
      have silent : xs = [] := by
        rw [Engine.perform, journal_schedule] at journal
        simpa using journal
      refine ⟨fun generation i waits => ?_, silent ▸ .quiet (by simp [Quiet])⟩
      rcases schedule_queued waits with waits | ⟨rfl, held, ok⟩
      · rw [Engine.perform, journal_schedule]
        exact (h.asked generation i waits).imp_left fun called => called.concat _
      · exact .inl ⟨ops, [], rfl, held, ok⟩
    · have other (index : UInt8) : op ≠ .schedule index := fun same => calls ⟨index, same⟩
      have grows := Grows.perform (start.run ops) other
      obtain ⟨ys, journal', packed⟩ := grows.packed
      have same : ys = xs := List.append_cancel_left (journal'.symm.trans journal)
      subst same
      refine ⟨fun generation i waits => ?_, packed.imp fun before generation i _ _ _ allowed => ?_⟩
      · rcases grows.queued waits with waits | hired
        · rcases h.asked generation i waits with called | hired
          · exact .inl (called.concat op)
          · exact .inr (hired.mono ⟨ys, journal.symm⟩)
        · exact .inr hired
      · rcases allowed with waits | hired
        · exact (h.asked generation i waits).imp_right fun hired =>
            hired.mono (List.prefix_append _ _)
        · exact .inr hired
  refine ⟨?_, ?_, ?_, ?_⟩
  · rw [run_concat]
    exact moves.sound h.sound
  · rw [run_concat]
    exact unpacked
  · rw [run_concat]
    exact asked.1
  · rw [run_concat, journal]
    refine EachPacked.append (h.packed.imp ?_) ?_
    · rintro ys generation index now - - ⟨earlier, first, later, rfl, packed⟩
      exact ⟨earlier, first, later ++ [op], by simp, packed⟩
    · intro ys zs generation index now split
      have here : .packed generation index now ∈ xs := by simp [split]
      refine ⟨ops, op, [], rfl, perform_packs h.sound journal here, List.prefix_append _ _, ?_,
        fresh ys zs generation index now split, asked.2 ys zs generation index now split⟩
      rw [run_concat, journal, split]
      exact ⟨zs, by simp⟩

theorem accounted_withParts (config : Config) (pool : Pool) (start : UInt8)
    (ops : List Operation) : Accounted (withParts config pool (.startingAt start)) ops := by
  have vacant : ∀ index, (withParts config pool (.startingAt start)).slot index = none := by
    intro index
    simp [slot, withParts]
  induction ops using List.reverseRecOn with
  | nil =>
      refine ⟨sound_withParts config pool start, fun index t slot => ?_, fun generation index => ?_,
        .quiet (by simp [Quiet, run, withParts])⟩
      · simp [run, vacant] at slot
      · rintro ⟨t, slot, -⟩
        simp [run, vacant] at slot
  | append_singleton ops op ih => exact ih.perform op

end Engine

end Fieldbus
