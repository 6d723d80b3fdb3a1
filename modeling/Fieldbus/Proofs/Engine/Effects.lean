import Fieldbus.Engine.Receive
import Fieldbus.Proofs.Engine.FollowUps
import Fieldbus.Proofs.Engine.Invariant

/-!
# The moves of the operations

What an operation reports when it ends a transaction says which one, and why. What such an end sets
off is reported in between.
-/

namespace Fieldbus.Engine

variable {e : Engine}

theorem cancel_moves (e : Engine) (index : UInt8) :
    Moves (fun _ x => ∃ generation, x = .cancelled generation) e (e.cancel index).2 := by
  cases slot : e.slot index with
  | none =>
      simp only [cancel, slot]
      exact .refl e
  | some t =>
      rw [cancel_eq slot]
      have vacant : (e.detach index (.cancelled t.generation)).slot index = none :=
        (slot_detach e index _ index).trans (if_pos rfl)
      exact (Moves.report (.cancel slot) ⟨t.generation, rfl⟩).trans (.silent (.release vacant _))

theorem withdraw_moves (e : Engine) (index : UInt8) (generation : Nat) :
    Moves (fun _ x => ∃ generation, x = .cancelled generation) e
      (e.withdraw index generation).2 := by
  unfold withdraw
  split
  · exact cancel_moves e index
  · exact .refl e

theorem Sound.finish_moves {allow : Engine → JournalEntry → Prop} {index : UInt8}
    {t : Transaction} {outcome : Outcome} (h : e.Sound) (slot : e.slot index = some t)
    (ok : allow e (.completed t.generation t.id outcome)) :
    Moves (Along allow) e (e.finish index outcome) :=
  Engine.finish_moves slot (h.leased slot) (.finish outcome slot fun _ here _ => here) ok

/-! ## Answers -/

def Answered (ds : List Datagram) (e : Engine) (x : JournalEntry) : Prop :=
  ∃ d ∈ ds, ∃ t, e.slot d.header.index = some t ∧ t.awaits d ∧
    x = .completed t.generation t.id (.response d.workCounter d.payload)

theorem Answered.mono {ds ds' : List Datagram} {e : Engine} {x : JournalEntry}
    (h : Answered ds e x) (sub : ds ⊆ ds') : Answered ds' e x := by
  obtain ⟨d, hd, answered⟩ := h
  exact ⟨d, sub hd, answered⟩

theorem answer_moves (h : e.Sound) (d : Datagram) :
    Moves (Along (Answered [d])) e (e.answer d).2 := by
  unfold answer
  cases slot : e.slot d.header.index with
  | none => exact .refl e
  | some t =>
      cases awaits : t.awaits d with
      | false =>
          simp only [awaits]
          exact .refl e
      | true =>
          simp only [awaits]
          exact h.finish_moves slot ⟨d, List.mem_singleton_self d, t, slot, awaits, rfl⟩

theorem answerAll_moves (h : e.Sound) (items : List (Except Error Datagram)) :
    Moves (Along (Answered (items.filterMap Except.toOption))) e (e.answerAll items).2 := by
  induction items generalizing e with
  | nil => exact .refl e
  | cons item rest ih =>
      cases item with
      | error cause => exact .refl e
      | ok d =>
          have first : Moves (Along (Answered (d :: rest.filterMap Except.toOption))) e
              (e.answer d).2 :=
            (answer_moves h d).mono fun _ _ allowed => allowed.imp_right fun answered =>
              answered.mono (List.cons_subset_cons d (List.nil_subset _))
          have others := (ih (first.sound h)).mono fun _ _ allowed =>
            allowed.imp_right fun answered => answered.mono (List.subset_cons_self d _)
          exact first.trans others

theorem receive_moves (h : e.Sound) (bytes : Bytes) :
    Moves (Along (Answered (Frame.decoded bytes))) e (e.receive bytes).2 := by
  unfold receive Frame.decoded
  cases Frame.parse? bytes with
  | error cause => exact .silent (.count _)
  | ok frame =>
      let counted := e.tally fun s => { s with framesReceived := s.framesReceived + 1 }
      have first : Moves (Along (Answered (frame.chain.toList.filterMap Except.toOption))) e
          counted := .silent (.count _)
      have answers := answerAll_moves (first.sound h) frame.chain.toList
      exact (first.trans answers).trans (.silent (.count _))

/-! ## Ends for want of time -/

def Overdue (now : Nat) (e : Engine) (x : JournalEntry) : Prop :=
  ∃ index t, e.slot index = some t ∧ t.isExpired now ∧
    x = .completed t.generation t.id .timeout

theorem expire_moves (h : e.Sound) (now : Nat) (index : UInt8) :
    Moves (Along (Overdue now)) e (e.expire now index).2 := by
  unfold expire
  cases slot : e.slot index with
  | none => exact .refl e
  | some t =>
      cases expired : t.isExpired now with
      | false =>
          simp only [expired]
          exact .refl e
      | true =>
          simp only [expired]
          exact h.finish_moves slot ⟨index, t, slot, expired, rfl⟩

theorem expireAll_moves (h : e.Sound) (now : Nat) (places : List UInt8) :
    Moves (Along (Overdue now)) e (e.expireAll now places).2 := by
  induction places generalizing e with
  | nil => exact .refl e
  | cons index rest ih =>
      have first := expire_moves h now index
      exact first.trans (ih (first.sound h))

theorem sweep_moves (h : e.Sound) (now : Nat) :
    Moves (Along (Overdue now)) e (e.sweep now).2 :=
  (expireAll_moves h now e.leases.leased).trans (.silent (.count _))

def Ended (e : Engine) (x : JournalEntry) : Prop :=
  ∃ index t, e.slot index = some t ∧ x = .completed t.generation t.id .timeout

theorem finishAll_moves (h : e.Sound) (places : List UInt8) :
    Moves (Along Ended) e (e.finishAll places) := by
  induction places generalizing e with
  | nil => exact .refl e
  | cons index rest ih =>
      have first : Moves (Along Ended) e (e.finish index .timeout) := by
        cases slot : e.slot index with
        | none =>
            simp only [finish, slot]
            exact .refl e
        | some t => exact h.finish_moves slot ⟨index, t, slot, rfl⟩
      exact first.trans (ih (first.sound h))

theorem close_eq (e : Engine) : e.close.2 =
    { ({ e with queue := [] } : Engine).finishAll Leases.indices with
      pool := (({ e with queue := [] } : Engine).finishAll Leases.indices).pool.close.2 } := by
  simp only [close, finishAll]

/-- Forgetting the queue first or last is the same. All that waits in the end was submitted in the
course of closing. -/
theorem close_moves (h : e.Sound) : Moves (Along Ended) e e.close.2 := by
  let bare : Engine := { e with queue := [] }
  have whole : bare.delay e.queue = e := by simp only [bare, delay, List.append_nil]
  have closed : e.close.2 = { bare.finishAll Leases.indices with
      pool := (bare.finishAll Leases.indices).pool.close.2 } := close_eq e
  have waits : ∀ index t, (bare.finishAll Leases.indices).slot index = some t →
      t.queued = true → index ∈ (bare.finishAll Leases.indices).queue := by
    intro index t slot _
    rcases finishAll_waits slot with here | ⟨out, -⟩
    · exact here
    · exact absurd (Leases.mem_indices index) out
  rw [closed]
  generalize Leases.indices = places at waits ⊢
  have ended := finishAll_moves h places
  have delayed : e.finishAll places = (bare.finishAll places).delay e.queue := by
    rw [← finishAll_delay, whole]
  rw [delayed] at ended
  exact (ended.trans (drop_moves waits e.queue)).trans (.silent .shut)

end Fieldbus.Engine
