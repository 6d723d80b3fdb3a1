import Fieldbus.Proofs.Engine.RoundTrip
import Fieldbus.Proofs.Engine.Watching

/-!
# What a call makes of what waits

A call may end at any point where the port gives way. By then each transaction that waited before
has met one of three fates: it was packed, it was refused for want of room, or it waits on. That is
kept by every index that packing takes, so it does not matter where the call ends.
-/

namespace Fieldbus

def JournalEntry.disposes (generation : Nat) (x : JournalEntry) : Bool :=
  x.packs generation || x.ends generation

namespace Engine

open JournalEntry (completes cancels ends packs disposes)

/-! ## Disposals -/

def disposals (e : Engine) (generation : Nat) : List JournalEntry :=
  e.journal.filter (disposes generation)

variable {e₀ e e' : Engine} {xs : List JournalEntry} {x : JournalEntry} {generation now : Nat}
  {index : UInt8} {t : Transaction}

theorem disposes_packed (g : Nat) (index : UInt8) :
    (JournalEntry.packed g index now).disposes generation = (g == generation) := by
  simp [disposes, packs, ends, completes, cancels]

theorem disposes_completed (g id : Nat) (outcome : Outcome) :
    (JournalEntry.completed g id outcome).disposes generation = (g == generation) := by
  simp [disposes, packs, ends, completes, cancels]

theorem disposes_sequel (h : x.IsSequel) : x.disposes generation = false := by
  cases h <;> rfl

theorem filter_disposes_eq_nil (other : ∀ x ∈ xs, x.disposes generation = false) :
    xs.filter (disposes generation) = [] :=
  List.filter_eq_nil_iff.mpr fun x hx => Bool.eq_false_iff.mp (other x hx)

theorem disposals_append (journal : e'.journal = e.journal ++ xs) (generation : Nat) :
    e'.disposals generation = e.disposals generation ++ xs.filter (disposes generation) := by
  rw [disposals, journal, List.filter_append, disposals]

theorem disposals_idle (journal : e'.journal = e.journal ++ xs)
    (other : ∀ x ∈ xs, x.disposes generation = false) :
    e'.disposals generation = e.disposals generation := by
  rw [disposals_append journal, filter_disposes_eq_nil other, List.append_nil]

theorem Sound.disposals_waiting (h : e.Sound) (u : e.Unpacked) (slot : e.slot index = some t)
    (queued : t.queued = true) : e.disposals t.generation = [] := by
  have fresh := h.fresh_waiting u slot queued
  rw [disposals, List.filter_eq_nil_iff]
  intro x hx disposed
  rcases Bool.or_eq_true_iff.mp disposed with packed | ended
  · exact List.countP_eq_zero.mp fresh.unpacked x hx packed
  · exact List.countP_eq_zero.mp fresh.unended x hx ended

theorem Sound.not_outstanding (h : e.Sound) {id : Nat} {outcome : Outcome}
    (done : e.disposals generation = [.completed generation id outcome]) :
    ¬e.Outstanding generation := by
  intro out
  have here : .completed generation id outcome ∈ e.disposals generation :=
    done ▸ List.mem_singleton_self _
  refine List.countP_eq_zero.mp (h.pending out) _ (List.mem_filter.mp here).1 ?_
  simp [ends, completes]

/-! ## One index -/

/-- How the transactions of `e₀` stand in the course of a call. -/
structure Treats (now : Nat) (e₀ e : Engine) : Prop where
  waiting : ∀ {index t}, e₀.slot index = some t → t.queued = true →
    e.slot index = some (t.markSent now) ∧
        e.disposals t.generation = [.packed t.generation index now] ∨
      e.disposals t.generation = [.completed t.generation t.id .timeout] ∨
      e.slot index = some t ∧ e.disposals t.generation = []
  idle : ∀ {index t}, e₀.slot index = some t → t.queued = false →
    e.slot index = some t ∧ e.disposals t.generation = e₀.disposals t.generation

theorem Treats.refl (h : e.Sound) (u : e.Unpacked) (now : Nat) : Treats now e e where
  waiting slot queued := .inr (.inr ⟨slot, h.disposals_waiting u slot queued⟩)
  idle slot _ := ⟨slot, rfl⟩

theorem Treats.pass (h : Treats now e₀ e) (slots : ∀ index, e'.slot index = e.slot index)
    (journal : e'.journal = e.journal ++ xs)
    (other : ∀ x ∈ xs, ∀ generation, x.disposes generation = false) : Treats now e₀ e' := by
  have same (generation : Nat) : e'.disposals generation = e.disposals generation :=
    disposals_idle journal fun x hx => other x hx generation
  constructor
  case waiting =>
    intro index t slot queued
    rw [slots, same]
    exact h.waiting slot queued
  case idle =>
    intro index t slot idle
    rw [slots, same]
    exact h.idle slot idle

theorem Treats.still (h : Treats now e₀ e) (slots : ∀ index, e'.slot index = e.slot index)
    (journal : e'.journal = e.journal) : Treats now e₀ e' :=
  h.pass slots (journal.trans (List.append_nil _).symm) (by simp)

/-- A transaction that waits is dealt with, and all others stay as they are. -/
theorem Treats.settle (h : Treats now e₀ e) (sound : (e.reclaim (some index)).Sound)
    (slot : e.slot index = some t) (queued : t.queued = true)
    (slots : ∀ other u, other ≠ index → e.slot other = some u → e'.slot other = some u)
    (journal : e'.journal = e.journal ++ x :: xs) (sequel : ∀ y ∈ xs, y.IsSequel)
    (settled : x = .packed t.generation index now ∧ e'.slot index = some (t.markSent now) ∨
      x = .completed t.generation t.id .timeout) : Treats now e₀ e' := by
  have about (g : Nat) : x.disposes g = (t.generation == g) := by
    rcases settled with ⟨rfl, -⟩ | rfl
    · exact disposes_packed _ _
    · exact disposes_completed _ _ _
  have elsewhere {g : Nat} (ne : t.generation ≠ g) : e'.disposals g = e.disposals g := by
    refine disposals_idle journal fun y hy => ?_
    rcases List.mem_cons.mp hy with rfl | later
    · rw [about, beq_eq_false_iff_ne]
      exact ne
    · exact disposes_sequel (sequel y later)
  have apart {other : UInt8} {u : Transaction} (ne : other ≠ index)
      (there : e.slot other = some u) :
      e'.slot other = some u ∧ e'.disposals u.generation = e.disposals u.generation :=
    ⟨slots other u ne there, elsewhere fun same => ne (sound.index_unique there slot same.symm)⟩
  constructor
  case waiting =>
    intro other u slot₀ queued₀
    -- What was packed or refused before does not wait now, so its index or generation differs.
    rcases h.waiting slot₀ queued₀ with ⟨sent, done⟩ | done | ⟨kept, none⟩
    · have ne : other ≠ index := by
        rintro rfl
        rw [slot, Option.some.injEq] at sent
        rw [sent] at queued
        cases queued
      obtain ⟨sent', same⟩ := apart ne sent
      exact .inl ⟨sent', same.trans done⟩
    · have ne : t.generation ≠ u.generation := fun same =>
        sound.not_outstanding (e := e.reclaim (some index)) done ⟨index, t, slot, same⟩
      exact .inr (.inl ((elsewhere ne).trans done))
    · by_cases here : other = index
      · subst here
        obtain rfl : t = u := Option.some.inj (slot.symm.trans kept)
        have quiet : xs.filter (disposes t.generation) = [] :=
          filter_disposes_eq_nil fun y hy => disposes_sequel (sequel y hy)
        have done : e'.disposals t.generation = [x] := by
          rw [disposals_append journal, none, List.nil_append,
            List.filter_cons_of_pos (by rw [about, beq_self_eq_true]), quiet]
        rcases settled with ⟨rfl, sent⟩ | rfl
        · exact .inl ⟨sent, done⟩
        · exact .inr (.inl done)
      · obtain ⟨kept', same⟩ := apart here kept
        exact .inr (.inr ⟨kept', same.trans none⟩)
  case idle =>
    intro other u slot₀ idle
    obtain ⟨there, same⟩ := h.idle slot₀ idle
    have ne : other ≠ index := by
      rintro rfl
      rw [slot, Option.some.injEq] at there
      rw [there, idle] at queued
      cases queued
    obtain ⟨there', same'⟩ := apart ne there
    exact ⟨there', same'.trans same⟩

theorem Treats.markSent (h : Treats now e₀ e) (sound : (e.reclaim (some index)).Sound)
    (slot : e.slot index = some t) (queued : t.queued = true) :
    Treats now e₀ (e.markSent now index t) := by
  have slots (other : UInt8) : (e.markSent now index t).slot other =
      if other = index then some (t.markSent now) else e.slot other :=
    slot_setSlot e index other _
  refine h.settle sound slot queued (fun other u ne there => ?_) rfl (by simp)
    (.inl ⟨rfl, by rw [slots, if_pos rfl]⟩)
  rw [slots, if_neg ne, there]

theorem Treats.refuse (h : Treats now e₀ e) (sound : (e.reclaim (some index)).Sound)
    (slot : e.slot index = some t) (queued : t.queued = true) :
    Treats now e₀ (e.refuse index) := by
  obtain ⟨xs, journal, sequel⟩ := journal_finish .timeout slot
  rw [List.append_assoc] at journal
  refine h.settle sound slot queued (fun other u ne there => ?_) journal sequel (.inr rfl)
  rcases slot_finish .timeout slot other with same | ⟨free, -⟩
  · exact same.trans ((if_neg ne).trans there)
  · have held : e.leases.isLeased other = true := sound.leased there
    rw [held] at free
    cases free

/-! ## One call -/

theorem PackStep.treats {p p' : Packing} (step : PackStep now p p') (sound : p.whole.Sound)
    (h : Treats now e₀ p.engine) : Treats now e₀ p'.engine := by
  have taken {index : UInt8} {e : Engine} (front : p.engine.dequeue p.carry = some (index, e)) :
      Treats now e₀ e ∧ (e.reclaim (some index)).Sound := by
    rw [Packing.whole, dequeue_eq_some front] at sound
    have same := dequeue_queue front
    exact ⟨h.still (fun _ => by rw [same]; rfl) (by rw [same]), sound⟩
  cases step with
  | skip front => exact (taken front).1
  | refuse front slot queued => exact (taken front).1.refuse (taken front).2 slot queued
  | place front slot queued => exact (taken front).1.markSent (taken front).2 slot queued

theorem pack_treats (fuel : Nat) {p : Packing} (sound : p.whole.Sound)
    (h : Treats now e₀ p.engine) : Treats now e₀ (pack now fuel p).2.engine := by
  obtain ⟨p', path, ending⟩ := pack_path now fuel p
  have led : p'.whole.Sound ∧ Treats now e₀ p'.engine := by
    clear ending
    induction path with
    | refl => exact ⟨sound, h⟩
    | tail _ step ih =>
        exact ⟨(step.moves ih.1 fun _ => rfl).1.sound ih.1, step.treats ih.1 ih.2⟩
  have still {index : UInt8} {e : Engine} (front : p'.engine.dequeue p'.carry = some (index, e)) :
      Treats now e₀ e := by
    have same := dequeue_queue front
    exact led.2.still (fun _ => by rw [same]; rfl) (by rw [same])
  generalize pack now fuel p = result at ending ⊢
  cases ending with
  | spent => exact led.2
  | drained => exact led.2
  | full front => exact still front
  | failed front => exact (still front).still (fun _ => rfl) rfl

namespace Transmission

variable {π φ : Type} [FramePort π] [FrameFilter φ] {s s' : Transmission π φ}

theorem Sent.treats {e e' : Engine} (sent : Sent e e') (h : Treats now e₀ e) :
    Treats now e₀ e' := by
  cases sent with
  | counted => exact h.still (fun _ => rfl) rfl
  | taken frame statistics =>
      refine h.pass (fun _ => rfl) rfl fun x hx generation => ?_
      rw [List.mem_singleton.mp hx]
      rfl

theorem step_treats (sound : s.whole.Sound) (h : Treats now e₀ s.engine) :
    Treats now e₀ (s.step now).2.engine := by
  have stepped := step_stepped s now
  generalize (s.step now).2.engine = e, (s.step now).2.carry = carry at stepped ⊢
  cases stepped with
  | counted => exact h.still (fun _ => rfl) rfl
  | @filled port port' buffer frame p e free lent created packed sent =>
      have treated := pack_treats (s.engine.workload + 1)
        (p := ⟨s.engine, frame, s.carry, 0⟩) sound h
      rw [packed] at treated
      exact sent.treats treated

theorem Leads.sound (led : Leads now s s') (sound : s.whole.Sound) : s'.whole.Sound := by
  induction led with
  | refl => exact sound
  | @tail mid last _ step ih =>
      have moved := (step_moves mid ih (.refl : Leads now mid mid)).sound ih
      rw [step] at moved
      exact moved

theorem Leads.treats (led : Leads now s s') (sound : s.whole.Sound) (h : Treats now e₀ s.engine) :
    Treats now e₀ s'.engine := by
  induction led with
  | refl => exact h
  | tail before step ih =>
      have stepped := step_treats (Leads.sound before sound) ih
      rw [step] at stepped
      exact stepped

/-- A call ends with the step that says so, or after as many frames as it may send. -/
theorem run_path (now fuel : Nat) (s : Transmission π φ) :
    ∃ s', Leads now s s' ∧ (run now fuel s = s'.stop (.ok s'.frames) ∨
      ∃ result last, s'.step now = (some result, last) ∧ run now fuel s = last.stop result) := by
  induction fuel generalizing s with
  | zero => exact ⟨s, .refl, .inl rfl⟩
  | succ fuel ih =>
      rw [run]
      cases stepped : s.step now with
      | mk ending next =>
          cases ending with
          | some result => exact ⟨s, .refl, .inr ⟨result, next, stepped, rfl⟩⟩
          | none =>
              obtain ⟨s', led, ended⟩ := ih next
              exact ⟨s', led.head stepped, ended⟩

theorem run_treats (fuel : Nat) (sound : s.whole.Sound) (h : Treats now e₀ s.engine) :
    Treats now e₀ (run now fuel s).engine := by
  obtain ⟨s', led, spent | ⟨result, last, stepped, ended⟩⟩ := run_path now fuel s
  · rw [spent]
    exact (led.treats sound h).still (fun _ => rfl) rfl
  · have treats := step_treats (led.sound sound) (led.treats sound h)
    rw [stepped] at treats
    rw [ended]
    exact treats.still (fun _ => rfl) rfl

end Transmission

/-! ## Fates -/

theorem Reachable.unpacked (h : e.Reachable) : e.Unpacked := by
  obtain ⟨config, pool, start, ops, rfl⟩ := h
  exact (accounted_withParts config pool start ops).unpacked

theorem Reachable.perform (h : e.Reachable) (op : Operation) : (e.perform op).Reachable := by
  obtain ⟨config, pool, start, ops, rfl⟩ := h
  exact ⟨config, pool, start, ops ++ [op], (run_concat _ ops op).symm⟩

theorem Reachable.transmit {π φ : Type} [FramePort π] [FrameFilter φ] (h : e.Reachable) (port : π)
    (filter : φ) (now : Nat) : (e.transmit port filter now).engine.Reachable :=
  h.perform (.transmit port filter now)

namespace Transmission

variable {π φ : Type} [FramePort π] [FrameFilter φ] {s₀ : Transmission π φ}

inductive Fate where
  | packed
  | refused
  | kept
  deriving DecidableEq, Repr

def Fate.report (now : Nat) (index : UInt8) (t : Transaction) : Fate → List JournalEntry
  | .packed => [.packed t.generation index now]
  | .refused => [.completed t.generation t.id .timeout]
  | .kept => []

/-- What a call that began with `s₀` has left of a transaction that waited under an index. -/
inductive Leftover (now : Nat) (s₀ : Transmission π φ) (e : Engine) (index : UInt8)
    (t : Transaction) : Fate → Prop
  | packed (sent : e.slot index = some (t.markSent now)) : Leftover now s₀ e index t .packed
  | refused {s : Transmission π φ} {room : Nat} (gone : ¬e.Outstanding t.generation)
      (led : Leads now s₀ s) (offers : s.Offers room) (large : room < t.encoded.length) :
      Leftover now s₀ e index t .refused
  | kept (slot : e.slot index = some t) (queued : t.queued = true) (place : index ∈ e.queue) :
      Leftover now s₀ e index t .kept

structure Meets (now : Nat) (s₀ : Transmission π φ) (e : Engine) (index : UInt8)
    (t : Transaction) (fate : Fate) : Prop where
  report : e.disposals t.generation = fate.report now index t
  left : Leftover now s₀ e index t fate

theorem Meets.unique {fate fate' : Fate} (h : Meets now s₀ e index t fate)
    (h' : Meets now s₀ e index t fate') : fate = fate' := by
  have same := h.report.symm.trans h'.report
  cases fate <;> cases fate' <;> first | rfl | cases same

end Transmission

variable {π φ : Type} [FramePort π] [FrameFilter φ]

theorem Sound.refused (h : e.Sound) (port : π) (filter : φ) (slot : e.slot index = some t)
    {id : Nat} (done : .completed t.generation id .timeout ∈
      (e.transmit port filter now).engine.journal) :
    ∃ s room, Transmission.Leads now (.opening e port filter) s ∧ s.Offers room ∧
      room < t.encoded.length := by
  obtain ⟨r, prepared, carries⟩ := (h.backed slot).prepared
  have sound := h.perform (.transmit port filter now)
  obtain ⟨xs, journal, causes⟩ := h.cause (.transmit port filter now)
  have known := (h.journal_perform (.transmit port filter now)).subset prepared
  have new : .completed t.generation id .timeout ∈ xs := by
    have here : _ ∈ (e.perform (.transmit port filter now)).journal := done
    rw [journal] at here
    refine (List.mem_append.mp here).resolve_left fun old => ?_
    refine List.countP_eq_zero.mp (h.pending ⟨index, t, slot, rfl⟩) _ old ?_
    simp [ends, completes]
  obtain ⟨i, r', prepared', -, cause⟩ := causes _ _ _ new
  obtain ⟨-, rfl⟩ := sound.once prepared' known
  cases cause with
  | @unfit _ _ _ _ _ _ _ room s led offers large =>
      refine ⟨s, room, led, offers, ?_⟩
      rw [carries.encoded, Datagram.length_encode]
      exact large

theorem Reachable.disposes (h : e.Reachable) (port : π) (filter : φ) (now : Nat) :
    let e' := (e.transmit port filter now).engine
    (∀ index t, e.slot index = some t → t.queued = true →
      ∃! fate, Transmission.Meets now (.opening e port filter) e' index t fate) ∧
    ∀ index t, e.slot index = some t → t.queued = false →
      e'.slot index = some t ∧ e'.disposals t.generation = e.disposals t.generation := by
  intro e'
  have sound' : e'.Sound := (h.transmit port filter now).sound
  have treats : Treats now e e' := Transmission.run_treats _ (s := .opening e port filter)
    h.sound (.refl h.sound h.unpacked now)
  refine ⟨fun index t slot queued => ?_, fun _ _ => treats.idle⟩
  have met : ∃ fate, Transmission.Meets now (.opening e port filter) e' index t fate := by
    rcases treats.waiting slot queued with ⟨sent, once⟩ | once | ⟨kept, none⟩
    · exact ⟨.packed, once, .packed sent⟩
    · have here : .completed t.generation t.id .timeout ∈ e'.disposals t.generation :=
        once ▸ List.mem_singleton_self _
      obtain ⟨s, room, led, offers, large⟩ :=
        h.sound.refused port filter slot (List.mem_filter.mp here).1
      exact ⟨.refused, once, .refused (sound'.not_outstanding once) led offers large⟩
    · exact ⟨.kept, none, .kept kept queued (sound'.waiting kept queued).2⟩
  obtain ⟨fate, meets⟩ := met
  exact ⟨fate, meets, fun _ other => other.unique meets⟩

end Engine

end Fieldbus
