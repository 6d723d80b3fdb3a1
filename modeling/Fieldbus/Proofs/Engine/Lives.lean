import Fieldbus.Proofs.Engine.Census
import Fieldbus.Proofs.Engine.Disposal
import Fieldbus.Proofs.Engine.Verdicts

/-!
# The life of a transaction

A transaction stays in its slot as it is, until it is asked for under its index, packed because it
waits, dropped by a call that names it, or completed for a reason of its own. What else its index
was used for, and how often the queue has it, makes no difference to it.
-/

namespace Fieldbus.Engine

open JournalEntry (completes cancels ends disposes)

variable {e e' : Engine} {op : Operation} {index : UInt8} {t : Transaction}

/-- What an operation makes of a transaction that stays in its slot. -/
inductive Progress (op : Operation) (index : UInt8) (t : Transaction) : Transaction → Prop
  | same : Progress op index t t
  | asked (call : op = .schedule index) (unsent : t.isSent = false) :
      Progress op index t { t with queued := true }
  | sent {now : Nat} (time : op.PacksAt now) (waits : t.queued = true) :
      Progress op index t (t.markSent now)

inductive Leaving (e : Engine) (op : Operation) (index : UInt8) (t : Transaction) : Prop
  | dropped (call : op = .cancel index ∨ op = .withdraw index t.generation)
  | completed {r : Request} {outcome : Outcome}
      (prepared : .prepared t.generation index r ∈ e.journal)
      (cause : Cause e t.generation index r op outcome)
      (once : (e.perform op).journal.filter (completes t.generation) =
        [.completed t.generation t.id outcome])

inductive Fares (e : Engine) (op : Operation) (index : UInt8) (t : Transaction) : Prop
  | stays {t' : Transaction} (slot : (e.perform op).slot index = some t')
      (progress : Progress op index t t')
  | leaves (gone : ¬(e.perform op).Outstanding t.generation) (leaving : Leaving e op index t)

/-! ## Leaving -/

theorem filter_completes (e : Engine) (generation : Nat) :
    e.journal.filter (completes generation) =
      (e.disposals generation).filter (completes generation) := by
  have sub (x : JournalEntry) : (completes generation x && disposes generation x) =
      completes generation x := by
    cases x with
    | completed g id outcome => simp [disposes_completed, completes]
    | _ => rfl
  rw [disposals, List.filter_filter]
  simp only [sub]

theorem Sound.fares_completed (h : e.Sound) (slot : e.slot index = some t) {outcome : Outcome}
    (once : (e.perform op).journal.filter (completes t.generation) =
      [.completed t.generation t.id outcome]) : Fares e op index t := by
  obtain ⟨r, prepared, -⟩ := (h.backed slot).prepared
  obtain ⟨xs, journal, causes⟩ := h.cause op
  have sound := h.perform op
  have here : .completed t.generation t.id outcome ∈ (e.perform op).journal := by
    have one : .completed t.generation t.id outcome ∈
        (e.perform op).journal.filter (completes t.generation) :=
      once ▸ List.mem_singleton_self _
    exact (List.mem_filter.mp one).1
  have new : .completed t.generation t.id outcome ∈ xs := by
    rw [journal] at here
    refine (List.mem_append.mp here).resolve_left fun old => ?_
    have past : .completed t.generation t.id outcome ∈
        e.journal.filter (completes t.generation) :=
      List.mem_filter.mpr ⟨old, beq_self_eq_true t.generation⟩
    rw [h.filter_outstanding slot] at past
    cases past
  obtain ⟨index', r', prepared', -, cause⟩ := causes _ _ _ new
  have known := (h.journal_perform op).subset prepared
  obtain ⟨rfl, rfl⟩ := sound.once known prepared'
  refine .leaves (fun out => ?_) (.completed prepared cause once)
  have none := List.countP_eq_zero.mp (sound.pending out) _ here
  exact none (by simp [ends, completes])

theorem Sound.fares_decided (h : e.Sound) (slot : e.slot index = some t)
    {verdict : UInt8 → Transaction → Option Outcome}
    (decides : Decides verdict e (e.perform op)) : Fares e op index t := by
  cases decided : verdict index t with
  | none => exact .stays (decides.kept slot decided) .same
  | some outcome => exact h.fares_completed slot (decides.ended slot decided)

theorem Sound.fares_dropped (h : e.Sound)
    (call : op = .cancel index ∨ op = .withdraw index t.generation)
    (journal : (e.perform op).journal = e.journal ++ [.cancelled t.generation]) :
    Fares e op index t := by
  refine .leaves (fun out => ?_) (.dropped call)
  have here : .cancelled t.generation ∈ (e.perform op).journal :=
    journal ▸ List.mem_append_right _ (List.mem_singleton_self _)
  have none := List.countP_eq_zero.mp ((h.perform op).pending out) _ here
  exact none (by simp [ends, cancels])

/-! ## Staying -/

theorem Sound.slot_prepare (h : e.Sound) (slot : e.slot index = some t) (r : Request)
    (followUps : List FollowUp) : (e.prepare r followUps).2.slot index = some t := by
  rcases e.prepare_cases r followUps with
    ⟨_, leases, pool, failed, -⟩ | ⟨fresh, leases, pool, b, lease, prepared, -⟩
  · rw [failed]
    exact slot
  · rw [prepared, slot_enroll]
    split
    · rename_i here
      have vacant : e.slot fresh = none := Leased.vacant h.leased lease
      have same : index = fresh := here
      rw [← same, slot] at vacant
      cases vacant
    · exact slot

theorem slot_cancel {other : UInt8} (ne : other ≠ index) (e : Engine) :
    (e.cancel index).2.slot other = e.slot other := by
  cases slot : e.slot index with
  | none => simp only [cancel, slot]
  | some t =>
      rw [cancel_eq slot]
      exact (slot_detach e index (.cancelled t.generation) other).trans (if_neg ne)

theorem fares_scheduled (slot : e.slot index = some t) (other : UInt8) :
    Fares e (.schedule other) index t := by
  have kept (same : (e.perform (.schedule other)).slot index = e.slot index) :
      Fares e (.schedule other) index t := .stays (same.trans slot) .same
  cases there : e.slot other with
  | none =>
      refine kept ?_
      simp only [Engine.perform, schedule, there]
  | some u =>
      cases unsent : u.isSent with
      | true =>
          refine kept ?_
          simp only [Engine.perform, schedule, there, unsent, if_true]
      | false =>
          cases idle : u.queued with
          | true =>
              refine kept ?_
              simp only [Engine.perform, schedule, there, unsent, idle, if_true,
                Bool.false_eq_true, if_false]
          | false =>
              have slots := slot_setSlot { e with queue := e.queue ++ [other] } other index
                (some { u with queued := true })
              have scheduled := congrArg Prod.snd (schedule_eq there unsent idle)
              by_cases here : index = other
              · subst here
                obtain rfl : u = t := Option.some.inj (there.symm.trans slot)
                have waits : (e.perform (.schedule index)).slot index =
                    some { u with queued := true } := by
                  rw [Engine.perform, scheduled, slots, if_pos rfl]
                exact .stays waits (.asked rfl unsent)
              · refine kept ?_
                rw [Engine.perform, scheduled, slots, if_neg here]
                rfl

theorem Reachable.fares_transmitted {π φ : Type} [FramePort π] [FrameFilter φ] (h : e.Reachable)
    (slot : e.slot index = some t) (port : π) (filter : φ) (now : Nat) :
    Fares e (.transmit port filter now) index t := by
  obtain ⟨waiting, idle⟩ := h.disposes port filter now
  cases queued : t.queued with
  | false => exact .stays (idle index t slot queued).1 .same
  | true =>
      obtain ⟨fate, ⟨report, left⟩, -⟩ := waiting index t slot queued
      cases left with
      | packed sent => exact .stays sent (.sent rfl queued)
      | kept slot' queued' place => exact .stays slot' .same
      | refused gone led offers large =>
          have once : (e.perform (.transmit port filter now)).journal.filter
              (completes t.generation) = [.completed t.generation t.id .timeout] := by
            rw [Engine.perform, filter_completes, report]
            simp [Transmission.Fate.report, completes]
          exact h.sound.fares_completed slot once

/-! ## Any operation -/

theorem Reachable.fares (h : e.Reachable) (slot : e.slot index = some t) (op : Operation) :
    Fares e op index t := by
  have sound := h.sound
  cases op with
  | prepare r followUps => exact .stays (sound.slot_prepare slot r followUps) .same
  | schedule other => exact fares_scheduled slot other
  | transmit port filter now => exact h.fares_transmitted slot port filter now
  | receive bytes => exact sound.fares_decided slot (receive_decides sound bytes)
  | sweep now => exact sound.fares_decided slot (sweep_decides sound now)
  | close => exact sound.fares_decided slot (close_decides sound)
  | resetStatistics => exact .stays slot .same
  | share pool => exact .stays slot .same
  | cancel other =>
      by_cases here : index = other
      · subst here
        refine sound.fares_dropped (.inl rfl) ?_
        rcases cancel_cases e index with ⟨failed, -⟩ | ⟨u, slot', -, journal⟩
        · simp [cancel, slot] at failed
        · obtain rfl : t = u := Option.some.inj (slot.symm.trans slot')
          exact journal
      · exact .stays ((slot_cancel here e).trans slot) .same
  | withdraw other generation =>
      by_cases held : e.generation? other = some generation
      · have done : e.withdraw other generation = e.cancel other := if_pos held
        by_cases here : index = other
        · subst here
          have same : t.generation = generation := by simpa [generation?, slot] using held
          subst same
          refine sound.fares_dropped (.inr rfl) ?_
          rcases cancel_cases e index with ⟨failed, -⟩ | ⟨u, slot', -, journal⟩
          · simp [cancel, slot] at failed
          · obtain rfl : t = u := Option.some.inj (slot.symm.trans slot')
            rw [Engine.perform, done]
            exact journal
        · refine .stays ?_ .same
          rw [Engine.perform, done, slot_cancel here, slot]
      · have kept : e.withdraw other generation = (false, e) := if_neg held
        refine .stays ?_ .same
        rw [Engine.perform, kept, slot]

end Fieldbus.Engine
