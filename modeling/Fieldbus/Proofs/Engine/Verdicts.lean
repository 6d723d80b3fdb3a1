import Fieldbus.Proofs.Engine.Completion
import Fieldbus.Proofs.Engine.Hearing

/-!
# Verdicts

Answers and the clock end transactions, each for itself. A verdict says with which outcome a
transaction ends, if it does. What one part of a cycle leaves to the next is a matter of verdicts
one after the other: the first one that ends a transaction counts.
-/

namespace Fieldbus

/-- The answer to a sent transaction: the first of the datagrams that has its index and its
command. -/
def Transaction.reply? (t : Transaction) (index : UInt8) (ds : List Datagram) : Option Outcome :=
  (ds.find? fun d => d.header.index == index && t.awaits d).map fun d =>
    .response d.workCounter d.payload

def Transaction.lapse? (t : Transaction) (now : Nat) : Option Outcome :=
  if t.isExpired now then some .timeout else none

theorem Transaction.reply?_append (t : Transaction) (index : UInt8) (ds ds' : List Datagram) :
    t.reply? index (ds ++ ds') = (t.reply? index ds).or (t.reply? index ds') := by
  simp only [reply?, List.find?_append]
  cases ds.find? _ <;> rfl

theorem Chain.take_failed {c rest : Chain} {cause : Error}
    (step : c.step? = some (.error cause, rest)) (fuel : Nat) : rest.take fuel = [] := by
  have ended : rest.next = none := by
    unfold Chain.step? at step
    split at step
    · cases step
    · split at step <;> cases step
      rfl
  cases fuel <;> simp [Chain.take, Chain.step?, ended]

namespace Engine

open JournalEntry (completes ends)

/-- Between two engines the transactions with a verdict have ended, and the others are in their
slots. What has begun in between is not sent. -/
structure Decides (verdict : UInt8 → Transaction → Option Outcome) (e e' : Engine) : Prop where
  sound : e'.Sound
  journal : e.journal <+: e'.journal
  kept : ∀ {index t}, e.slot index = some t → verdict index t = none → e'.slot index = some t
  ended : ∀ {index t outcome}, e.slot index = some t → verdict index t = some outcome →
    e'.journal.filter (completes t.generation) = [.completed t.generation t.id outcome]
  sent : ∀ {index u}, e'.slot index = some u → u.isSent = true →
    e.slot index = some u ∧ verdict index u = none

variable {verdict verdict' : UInt8 → Transaction → Option Outcome} {e e' e'' : Engine}
  {index : UInt8} {t : Transaction}

/-! ## What has fired stays so -/

theorem Sound.filter_outstanding (h : e.Sound) (slot : e.slot index = some t) :
    e.journal.filter (completes t.generation) = [] := by
  have none := h.pending ⟨index, t, slot, rfl⟩
  rw [endings_eq] at none
  exact List.filter_eq_nil_iff.mpr (List.countP_eq_zero.mp (Nat.eq_zero_of_add_eq_zero_right none))

theorem Sound.filter_stays (h' : e'.Sound) (longer : e.journal <+: e'.journal)
    {generation : Nat} {r : Request} {x : JournalEntry}
    (prepared : .prepared generation index r ∈ e.journal)
    (once : e.journal.filter (completes generation) = [x]) :
    e'.journal.filter (completes generation) = [x] := by
  obtain ⟨xs, journal⟩ := longer
  have known : .prepared generation index r ∈ e'.journal :=
    journal ▸ List.mem_append_left xs prepared
  have atMost := (h'.fired_iff known).1
  rw [fired, List.countP_eq_length_filter, ← journal, List.filter_append, once,
    List.length_append, List.length_singleton] at atMost
  rw [← journal, List.filter_append, once, List.eq_nil_of_length_eq_zero (l := xs.filter _)
    (by omega), List.append_nil]

/-! ## One verdict after the other -/

theorem Decides.refl (sound : e.Sound) : Decides (fun _ _ => none) e e where
  sound
  journal := List.prefix_rfl
  kept slot _ := slot
  ended _ impossible := by cases impossible
  sent slot _ := ⟨slot, rfl⟩

theorem Decides.congr (h : Decides verdict e e')
    (same : ∀ index t, e.slot index = some t → verdict index t = verdict' index t) :
    Decides verdict' e e' where
  sound := h.sound
  journal := h.journal
  kept slot none := h.kept slot ((same _ _ slot).trans none)
  ended slot some := h.ended slot ((same _ _ slot).trans some)
  sent slot sent := by
    obtain ⟨there, none⟩ := h.sent slot sent
    exact ⟨there, (same _ _ there).symm.trans none⟩

theorem Decides.trans (sound : e.Sound) (h : Decides verdict e e')
    (h' : Decides verdict' e' e'') :
    Decides (fun index t => (verdict index t).or (verdict' index t)) e e'' where
  sound := h'.sound
  journal := h.journal.trans h'.journal
  kept {index t} slot none := by
    obtain ⟨first, second⟩ := Option.or_eq_none_iff.mp none
    exact h'.kept (h.kept slot first) second
  ended {index t outcome} slot decided := by
    cases first : verdict index t with
    | none =>
        rw [first, Option.none_or] at decided
        exact h'.ended (h.kept slot first) decided
    | some other =>
        rw [first, Option.some_or, Option.some.injEq] at decided
        subst decided
        obtain ⟨r, prepared, -⟩ := (sound.backed slot).prepared
        exact h'.sound.filter_stays h'.journal (h.journal.subset prepared)
          (h.ended slot first)
  sent {index u} slot sent := by
    obtain ⟨there, second⟩ := h'.sent slot sent
    obtain ⟨before, first⟩ := h.sent there sent
    exact ⟨before, Option.or_eq_none_iff.mpr ⟨first, second⟩⟩

theorem Decides.tally (h : Decides verdict e e')
    (change : TrafficStatistics → TrafficStatistics) : Decides verdict e (e'.tally change) :=
  ⟨h.sound.relax rfl rfl rfl h.sound.leased fun _ _ here => here, h.journal, h.kept, h.ended,
    h.sent⟩

theorem Sound.finish_decides (h : e.Sound) (slot : e.slot index = some t) (outcome : Outcome) :
    Decides (fun i _ => if i = index then some outcome else none) e (e.finish index outcome) := by
  obtain ⟨xs, journal, sequel⟩ := journal_finish outcome slot
  have path : Moves (Along fun _ _ => True) e (e.finish index outcome) :=
    h.finish_moves slot trivial
  constructor
  case sound => exact path.sound h
  case journal =>
    rw [journal, List.append_assoc]
    exact List.prefix_append _ _
  case kept =>
    intro other u there none
    have ne : other ≠ index := fun same => by simp [same] at none
    rcases slot_finish outcome slot other with same | ⟨free, -⟩
    · rw [same, if_neg ne, there]
    · rw [h.leased there] at free
      cases free
  case ended =>
    intro other u outcome' there decided
    split at decided
    · rename_i here
      subst here
      cases decided
      obtain rfl : t = u := Option.some.inj (slot.symm.trans there)
      have quiet : xs.filter (completes t.generation) = [] := by
        refine List.filter_eq_nil_iff.mpr fun x hx completed => ?_
        cases sequel x hx <;> cases completed
      rw [journal, List.filter_append, List.filter_append, h.filter_outstanding slot, quiet]
      simp [completes]
    · cases decided
  case sent =>
    intro other u there sent
    rcases slot_finish outcome slot other with same | ⟨-, w, waits, unsent, -⟩
    · rw [there] at same
      split at same
      · cases same
      · rename_i ne
        exact ⟨same.symm, if_neg ne⟩
    · rw [there, Option.some.injEq] at waits
      rw [waits, Transaction.isSent, unsent] at sent
      cases sent

/-! ## Answers -/

theorem answer_decides (h : e.Sound) (d : Datagram) :
    Decides (fun index t => t.reply? index [d]) e (e.answer d).2 := by
  have quiet (idle : ∀ t, e.slot d.header.index = some t → t.awaits d = false) :
      Decides (fun index t => t.reply? index [d]) e e := by
    refine (Decides.refl h).congr fun index t slot => ?_
    by_cases here : d.header.index = index
    · simp [Transaction.reply?, idle t (here ▸ slot)]
    · simp [Transaction.reply?, here]
  unfold answer
  cases slot : e.slot d.header.index with
  | none => exact quiet fun t there => by simp [slot] at there
  | some t =>
      cases awaits : t.awaits d with
      | false =>
          simp only [awaits]
          refine quiet fun u there => ?_
          rw [slot, Option.some.injEq] at there
          exact there ▸ awaits
      | true =>
          simp only [awaits]
          refine (h.finish_decides slot _).congr fun index u there => ?_
          by_cases here : index = d.header.index
          · subst here
            obtain rfl : t = u := Option.some.inj (slot.symm.trans there)
            simp [Transaction.reply?, awaits]
          · simp [Transaction.reply?, here, Ne.symm here]

def answerEach (e : Engine) (ds : List Datagram) : Engine :=
  ds.foldl (fun e d => (e.answer d).2) e

theorem answerEach_decides (h : e.Sound) (ds : List Datagram) :
    Decides (fun index t => t.reply? index ds) e (e.answerEach ds) := by
  induction ds generalizing e with
  | nil => exact .refl h
  | cons d ds ih =>
      have first := answer_decides h d
      refine (first.trans h (ih first.sound)).congr fun index t _ => ?_
      exact (t.reply?_append index [d] ds).symm

theorem answerAll_take (fuel : Nat) (c : Chain) (e : Engine) :
    (e.answerAll (c.take fuel)).2 = e.answerEach ((c.take fuel).filterMap Except.toOption) := by
  induction fuel generalizing c e with
  | zero => rfl
  | succ fuel ih =>
      rw [Chain.take]
      cases step : c.step? with
      | none => rfl
      | some found =>
          obtain ⟨item, rest⟩ := found
          cases item with
          | ok d => exact ih rest (e.answer d).2
          | error cause =>
              simp only [Chain.take_failed step fuel]
              rfl

theorem answerAll_chain (c : Chain) (e : Engine) :
    (e.answerAll c.toList).2 = e.answerEach (c.toList.filterMap Except.toOption) :=
  answerAll_take _ c e

theorem receive_decides (h : e.Sound) (bytes : Bytes) :
    Decides (fun index t => t.reply? index (Frame.decoded bytes)) e (e.receive bytes).2 := by
  unfold receive Frame.decoded
  cases Frame.parse? bytes with
  | error cause =>
      dsimp only
      exact (Decides.refl h).tally _
  | ok frame =>
      dsimp only
      have counted :=
        (Decides.refl h).tally fun s => { s with framesReceived := s.framesReceived + 1 }
      have answered :=
        answerEach_decides counted.sound (frame.chain.toList.filterMap Except.toOption)
      rw [← answerAll_chain] at answered
      have both := (counted.trans h answered).congr fun _ _ _ => Option.none_or
      generalize (Engine.tally e _).answerAll frame.chain.toList = result at both ⊢
      exact both.tally _

theorem receiveAll_decides (h : e.Sound) (frames : List Bytes) :
    Decides (fun index t => t.reply? index (frames.flatMap Frame.decoded)) e
      (e.receiveAll frames) := by
  induction frames generalizing e with
  | nil => exact .refl h
  | cons bytes rest ih =>
      have first := receive_decides h bytes
      refine (first.trans h (ih first.sound)).congr fun index t _ => ?_
      rw [List.flatMap_cons]
      exact (t.reply?_append index _ _).symm

/-! ## Time -/

theorem expire_decides (h : e.Sound) (now : Nat) (index : UInt8) :
    Decides (fun i t => if i = index then t.lapse? now else none) e (e.expire now index).2 := by
  have quiet (idle : ∀ t, e.slot index = some t → t.isExpired now = false) :
      Decides (fun i t => if i = index then t.lapse? now else none) e e := by
    refine (Decides.refl h).congr fun i t slot => ?_
    by_cases here : i = index
    · simp [Transaction.lapse?, here, idle t (here ▸ slot)]
    · simp [here]
  unfold expire
  cases slot : e.slot index with
  | none => exact quiet fun t there => by simp [slot] at there
  | some t =>
      cases expired : t.isExpired now with
      | false =>
          simp only [expired]
          refine quiet fun u there => ?_
          rw [slot, Option.some.injEq] at there
          exact there ▸ expired
      | true =>
          simp only [expired]
          refine (h.finish_decides slot .timeout).congr fun i u there => ?_
          by_cases here : i = index
          · subst here
            obtain rfl : t = u := Option.some.inj (slot.symm.trans there)
            simp [Transaction.lapse?, expired]
          · simp [here]

theorem expireAll_decides (h : e.Sound) (now : Nat) (places : List UInt8) :
    Decides (fun i t => if i ∈ places then t.lapse? now else none) e
      (e.expireAll now places).2 := by
  induction places generalizing e with
  | nil => exact (Decides.refl h).congr fun _ _ _ => by simp
  | cons index rest ih =>
      have first := expire_decides h now index
      refine (first.trans h (ih first.sound)).congr fun i t _ => ?_
      by_cases here : i = index
      · cases t.lapse? now <;> simp [here]
      · simp [here]

theorem sweep_decides (h : e.Sound) (now : Nat) :
    Decides (fun _ t => t.lapse? now) e (e.sweep now).2 := by
  have listed {index : UInt8} {t : Transaction} (slot : e.slot index = some t) :
      index ∈ e.leases.leased :=
    List.mem_filter.mpr ⟨Leases.mem_indices index, h.leased slot⟩
  have ended : Decides (fun _ t => t.lapse? now) e (e.expireAll now e.leases.leased).2 :=
    (expireAll_decides h now e.leases.leased).congr fun _ _ slot => if_pos (listed slot)
  unfold sweep
  generalize e.expireAll now e.leases.leased = result at ended ⊢
  dsimp only
  exact ended.tally _

/-! ## Closing -/

theorem finishAll_decides (h : e.Sound) (places : List UInt8) :
    Decides (fun i _ => if i ∈ places then some .timeout else none) e (e.finishAll places) := by
  induction places generalizing e with
  | nil => exact (Decides.refl h).congr fun _ _ _ => by simp
  | cons index rest ih =>
      have first : Decides (fun i _ => if i = index then some .timeout else none) e
          (e.finish index .timeout) := by
        cases slot : e.slot index with
        | none =>
            simp only [finish, slot]
            refine (Decides.refl h).congr fun i t there => (if_neg ?_).symm
            rintro rfl
            rw [slot] at there
            cases there
        | some t => exact h.finish_decides slot .timeout
      refine (first.trans h (ih first.sound)).congr fun i t _ => ?_
      by_cases here : i = index
      · simp [here]
      · simp [here]

theorem statistics_finishAll (e : Engine) (places : List UInt8) :
    (e.finishAll places).statistics = e.statistics := by
  induction places generalizing e with
  | nil => rfl
  | cons index rest ih => exact (ih _).trans (statistics_finish e index .timeout)

theorem close_finishAll (e : Engine) :
    (∀ index, e.close.2.slot index = (e.finishAll Leases.indices).slot index) ∧
      e.close.2.journal = (e.finishAll Leases.indices).journal ∧
      e.close.2.statistics = e.statistics := by
  let bare : Engine := { e with queue := [] }
  have whole : bare.delay e.queue = e := by simp only [bare, delay, List.append_nil]
  have delayed : e.finishAll Leases.indices = (bare.finishAll Leases.indices).delay e.queue := by
    rw [← finishAll_delay, whole]
  have counted := statistics_finishAll bare Leases.indices
  rw [delayed, close_eq]
  generalize bare.finishAll Leases.indices = ended at counted ⊢
  exact ⟨fun _ => rfl, rfl, counted⟩

theorem close_decides (h : e.Sound) : Decides (fun _ _ => some .timeout) e e.close.2 := by
  obtain ⟨slots, journal, -⟩ := close_finishAll e
  have ended : Decides (fun _ _ => some .timeout) e (e.finishAll Leases.indices) :=
    (finishAll_decides h Leases.indices).congr fun i _ _ => if_pos (Leases.mem_indices i)
  have sound : e.close.2.Sound := (close_moves h).sound h
  generalize e.finishAll Leases.indices = all at slots journal ended
  generalize e.close.2 = closed at slots journal sound ⊢
  constructor
  case sound => exact sound
  case journal => exact journal ▸ ended.journal
  case kept => exact fun {_ _} _ impossible => by cases impossible
  case ended => exact journal ▸ ended.ended
  case sent => exact fun {_ _} slot sent => ended.sent ((slots _).symm.trans slot) sent

end Engine

end Fieldbus
