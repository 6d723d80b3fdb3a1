import Fieldbus.Proofs.Engine.Sending

/-!
# What operations are made of

Sweeping, receiving and sending are courses of a few actions on the engine. A property that each
action keeps holds after all of them, whatever the port and the filter do.
-/

namespace Fieldbus.Engine

inductive Action : Engine → Engine → Prop
  | adjust {e : Engine} (queue : List UInt8) (statistics : TrafficStatistics) :
      Action e { e with queue, statistics }
  | finish {e : Engine} (index : UInt8) (outcome : Outcome) : Action e (e.finish index outcome)
  | markSent {e : Engine} {index : UInt8} {t : Transaction} (now : Nat)
      (slot : e.slot index = some t) (queued : t.queued = true) :
      Action e (e.markSent now index t)
  | sent {e : Engine} (frame : Bytes) : Action e (e.record (.sent frame))

def Course : Engine → Engine → Prop := Relation.ReflTransGen Action

namespace Course

variable {e e' e'' : Engine}

theorem refl (e : Engine) : Course e e := Relation.ReflTransGen.refl

theorem trans (h : Course e e') (h' : Course e' e'') : Course e e'' :=
  Relation.ReflTransGen.trans h h'

theorem single (h : Action e e') : Course e e' := Relation.ReflTransGen.single h

end Course

/-! ## Ends and answers -/

theorem course_expireAll (e : Engine) (now : Nat) (places : List UInt8) :
    Course e (e.expireAll now places).2 := by
  induction places generalizing e with
  | nil => exact .refl e
  | cons index rest ih =>
      have first : Course e (e.expire now index).2 := by
        unfold expire
        split
        · exact .refl e
        · split
          · exact .single (.finish index .timeout)
          · exact .refl e
      exact first.trans (ih _)

theorem course_sweep (e : Engine) (now : Nat) : Course e (e.sweep now).2 :=
  (course_expireAll e now e.leases.leased).trans (.single (.adjust _ _))

theorem course_finishAll (e : Engine) (places : List UInt8) : Course e (e.finishAll places) := by
  induction places generalizing e with
  | nil => exact .refl e
  | cons index rest ih => exact (Course.single (.finish index .timeout)).trans (ih _)

theorem course_answerAll (e : Engine) (items : List (Except Error Datagram)) :
    Course e (e.answerAll items).2 := by
  induction items generalizing e with
  | nil => exact .refl e
  | cons item rest ih =>
      cases item with
      | error cause => exact .refl e
      | ok d =>
          have first : Course e (e.answer d).2 := by
            unfold answer
            split
            · exact .refl e
            · split
              · exact .single (.finish _ _)
              · exact .refl e
          exact first.trans (ih _)

theorem course_receive (e : Engine) (bytes : Bytes) : Course e (e.receive bytes).2 := by
  simp only [receive]
  split
  · exact .single (.adjust _ _)
  · rename_i frame _
    have counted : Course e (e.tally fun s => { s with framesReceived := s.framesReceived + 1 }) :=
      .single (.adjust _ _)
    exact (counted.trans (course_answerAll _ frame.chain.toList)).trans (.single (.adjust _ _))

/-! ## Sending -/

theorem dequeue_queue {e e' : Engine} {carry : Option UInt8} {index : UInt8}
    (h : e.dequeue carry = some (index, e')) : e' = { e with queue := e'.queue } := by
  cases carry with
  | some front =>
      simp only [dequeue, Option.some.injEq, Prod.mk.injEq] at h
      exact h.2 ▸ rfl
  | none =>
      cases queue : e.queue with
      | nil => simp [dequeue, queue] at h
      | cons front rest =>
          simp only [dequeue, queue, Option.some.injEq, Prod.mk.injEq] at h
          exact h.2 ▸ rfl

theorem course_dequeue {e e' : Engine} {carry : Option UInt8} {index : UInt8}
    (h : e.dequeue carry = some (index, e')) : Course e e' := by
  rw [dequeue_queue h]
  exact .single (.adjust _ e.statistics)

theorem PackStep.course {now : Nat} {p p' : Packing} (step : PackStep now p p') :
    Course p.engine p'.engine := by
  cases step with
  | skip taken => exact course_dequeue taken
  | @refuse index e t taken =>
      have refused : Course e (e.refuse index) :=
        (Course.single (.finish index .timeout)).trans (.single (.adjust _ _))
      exact (course_dequeue taken).trans refused
  | place taken slot queued =>
      exact (course_dequeue taken).trans (.single (.markSent now slot queued))

theorem PackEnd.course {p : Packing} {result : Except Error Unit × Packing}
    (ending : PackEnd p result) : Course p.engine result.2.engine := by
  cases ending with
  | spent => exact .refl _
  | drained => exact .refl _
  | full taken => exact course_dequeue taken
  | failed taken => exact (course_dequeue taken).trans (.single (.adjust _ _))

theorem course_pack (now fuel : Nat) (p : Packing) :
    Course p.engine (pack now fuel p).2.engine := by
  obtain ⟨p', path, ending⟩ := pack_path now fuel p
  have led : Course p.engine p'.engine := by
    clear ending
    induction path with
    | refl => exact .refl _
    | tail _ step ih => exact ih.trans step.course
  exact led.trans ending.course

namespace Transmission

variable {π φ : Type} [FramePort π] [FrameFilter φ]

theorem Sent.course {e e' : Engine} (sent : Sent e e') : Course e e' := by
  cases sent with
  | counted => exact .single (.adjust _ _)
  | taken => exact (Course.single (.sent _)).trans (.single (.adjust _ _))

theorem course_step (s : Transmission π φ) (now : Nat) :
    Course s.engine (s.step now).2.engine := by
  have stepped := step_stepped s now
  generalize (s.step now).2.engine = e, (s.step now).2.carry = carry at stepped ⊢
  cases stepped with
  | counted => exact .single (.adjust _ _)
  | @filled port port' buffer frame p e free lent created packed sent =>
      have path := course_pack now (s.engine.workload + 1) ⟨s.engine, frame, s.carry, 0⟩
      rw [packed] at path
      exact path.trans sent.course

theorem course_run (s : Transmission π φ) (now fuel : Nat) :
    Course s.engine (s.run now fuel).engine := by
  induction fuel generalizing s with
  | zero => exact .single (.adjust _ _)
  | succ fuel ih =>
      have stepped := course_step s now
      rw [run]
      generalize s.step now = result at stepped ⊢
      obtain ⟨ending, s'⟩ := result
      cases ending with
      | some ending => exact stepped.trans (.single (.adjust _ _))
      | none => exact stepped.trans (ih s')

end Transmission

theorem course_transmit {π φ : Type} [FramePort π] [FrameFilter φ] (e : Engine) (port : π)
    (filter : φ) (now : Nat) : Course e (e.transmit port filter now).engine :=
  Transmission.course_run (.opening e port filter) now _

end Fieldbus.Engine
