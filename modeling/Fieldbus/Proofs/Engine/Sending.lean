import Fieldbus.Proofs.Engine.Effects
import Fieldbus.Proofs.Frame.Builder

/-!
# The moves of sending

A carried index stands outside the queue while a frame is filled. With every carried index put back
to the front, each step of packing is one move of the queue's front: it is dropped, packed, refused
or sent to the back.
-/

namespace Fieldbus.Engine

/-- The engine with a carried index back at the front of its queue. -/
def reclaim (e : Engine) (carry : Option UInt8) : Engine :=
  { e with queue := carry.toList ++ e.queue }

theorem dequeue_eq_none {e : Engine} {carry : Option UInt8} (h : e.dequeue carry = none) :
    carry = none ∧ e.queue = [] := by
  cases carry with
  | some index => cases h
  | none =>
      cases queue : e.queue with
      | nil => exact ⟨rfl, rfl⟩
      | cons index rest => simp [dequeue, queue] at h

theorem dequeue_eq_some {e e' : Engine} {carry : Option UInt8} {index : UInt8}
    (h : e.dequeue carry = some (index, e')) :
    e.reclaim carry = { e' with queue := index :: e'.queue } := by
  cases carry with
  | some front =>
      simp only [dequeue, Option.some.injEq, Prod.mk.injEq] at h
      obtain ⟨rfl, rfl⟩ := h
      rfl
  | none =>
      cases queue : e.queue with
      | nil => simp [dequeue, queue] at h
      | cons front rest =>
          simp only [dequeue, queue, Option.some.injEq, Prod.mk.injEq] at h
          obtain ⟨rfl, rfl⟩ := h
          simp only [reclaim, Option.toList_none, List.nil_append, queue]

/-! ## Packing -/

inductive PackStep (now : Nat) : Packing → Packing → Prop
  | skip {p : Packing} {index : UInt8} {e : Engine}
      (taken : p.engine.dequeue p.carry = some (index, e))
      (idle : ∀ t, e.slot index = some t → t.queued = false) :
      PackStep now p { p with engine := e, carry := none }
  | refuse {p : Packing} {index : UInt8} {e : Engine} {t : Transaction}
      (taken : p.engine.dequeue p.carry = some (index, e)) (slot : e.slot index = some t)
      (queued : t.queued = true) (large : p.frame.remaining < t.encoded.length)
      (bare : p.frame.isEmpty = true) :
      PackStep now p { p with engine := e.refuse index, carry := none }
  | place {p : Packing} {index : UInt8} {e : Engine} {t : Transaction} {frame : FrameBuilder}
      (taken : p.engine.dequeue p.carry = some (index, e)) (slot : e.slot index = some t)
      (queued : t.queued = true) (appended : p.frame.append t.encoded = .ok frame) :
      PackStep now p ⟨e.markSent now index t, frame, none, p.packed + 1⟩

inductive PackEnd (p : Packing) : Except Error Unit × Packing → Prop
  /-- Enough indices were taken. -/
  | spent : PackEnd p (.ok (), p)
  | drained (nothing : p.engine.dequeue p.carry = none) :
      PackEnd p (.ok (), { p with carry := none })
  | full {index : UInt8} {e : Engine} (taken : p.engine.dequeue p.carry = some (index, e)) :
      PackEnd p (.ok (), { p with engine := e, carry := some index })
  | failed {index : UInt8} {e : Engine} {t : Transaction} {cause : Error}
      (taken : p.engine.dequeue p.carry = some (index, e)) (slot : e.slot index = some t)
      (room : t.encoded.length ≤ p.frame.remaining)
      (appended : p.frame.append t.encoded = .error cause) :
      PackEnd p (.error cause, { p with engine := e.requeue (some index), carry := none })

theorem pack_path (now fuel : Nat) (p : Packing) :
    ∃ p', Relation.ReflTransGen (PackStep now) p p' ∧ PackEnd p' (pack now fuel p) := by
  induction fuel generalizing p with
  | zero => exact ⟨p, .refl, .spent⟩
  | succ fuel ih =>
      have onward {p' : Packing} (first : PackStep now p p') :
          ∃ p'', Relation.ReflTransGen (PackStep now) p p'' ∧ PackEnd p'' (pack now fuel p') := by
        obtain ⟨p'', path, ending⟩ := ih p'
        exact ⟨p'', path.head first, ending⟩
      rw [pack]
      cases taken : p.engine.dequeue p.carry with
      | none => exact ⟨p, .refl, .drained taken⟩
      | some front =>
          obtain ⟨index, e⟩ := front
          dsimp only
          split
          · rename_i vacant
            exact onward (.skip taken fun t slot => by simp [vacant] at slot)
          · rename_i t slot
            split
            · rename_i queued
              split
              · rename_i large
                split
                · rename_i bare
                  exact onward (.refuse taken slot queued large bare)
                · exact ⟨p, .refl, .full taken⟩
              · rename_i room
                split
                · rename_i cause appended
                  exact ⟨p, .refl, .failed taken slot (Nat.not_lt.mp room) appended⟩
                · rename_i frame appended
                  exact onward (.place taken slot queued appended)
            · rename_i idle
              refine onward (.skip taken fun t' slot' => ?_)
              rw [slot, Option.some.injEq] at slot'
              simpa [slot'] using idle

/-- What filling a frame with so much room reports. -/
inductive Packed (now room : Nat) (e : Engine) : JournalEntry → Prop
  | packed (generation : Nat) (index : UInt8) : Packed now room e (.packed generation index now)
  | unfit {index : UInt8} {t : Transaction} (slot : e.slot index = some t) (queued : t.queued)
      (large : room < t.encoded.length) :
      Packed now room e (.completed t.generation t.id .timeout)

def Packing.whole (p : Packing) : Engine := p.engine.reclaim p.carry

/-- As long as the frame is empty it is the one that packing began with. -/
theorem PackStep.moves {now room : Nat} {p p' : Packing} (step : PackStep now p p')
    (h : p.whole.Sound) (empty : p.frame.isEmpty = true → p.frame.remaining = room) :
    Moves (Along (Packed now room)) p.whole p'.whole ∧
      (p'.frame.isEmpty = true → p'.frame.remaining = room) := by
  unfold Packing.whole at h ⊢
  cases step with
  | @skip index e taken idle =>
      rw [dequeue_eq_some taken]
      exact ⟨.silent (.skip rfl fun t slot queued => by simp [idle t slot] at queued), empty⟩
  | @refuse index e t taken slot queued large bare =>
      rw [dequeue_eq_some taken] at h ⊢
      have ended : Move { e with queue := index :: e.queue }
          [.completed t.generation t.id .timeout]
          (e.detach index (.completed t.generation t.id .timeout)) :=
        @Move.finish { e with queue := index :: e.queue } index t .timeout slot e.queue
          fun other here ne => (List.mem_cons.mp here).resolve_left ne
      have unfit : Moves (Along (Packed now room)) { e with queue := index :: e.queue }
          (e.finish index .timeout) :=
        finish_moves slot (h.leased slot) ended
          (.unfit slot queued (by rw [← empty bare]; exact large))
      exact ⟨unfit.trans (.silent (.count _)), empty⟩
  | @place index e t frame taken slot queued appended =>
      rw [dequeue_eq_some taken]
      refine ⟨.report (.pack now rfl slot queued) (.inr (.packed _ _)), fun bare => ?_⟩
      obtain ⟨header, -, -, -, rfl⟩ := FrameBuilder.append_eq_ok appended
      simp [FrameBuilder.isEmpty, FrameBuilder.count_place] at bare

theorem PackEnd.moves {allow : Engine → JournalEntry → Prop} {p : Packing}
    {result : Except Error Unit × Packing} (ending : PackEnd p result) :
    Moves allow p.whole result.2.whole := by
  unfold Packing.whole
  cases ending with
  | spent => exact .refl _
  | drained nothing =>
      obtain ⟨carry, -⟩ := dequeue_eq_none nothing
      rw [carry]
      exact .refl _
  | full taken =>
      rw [dequeue_eq_some taken]
      exact .refl _
  | failed taken =>
      rw [dequeue_eq_some taken]
      exact .silent (.rotate rfl)

theorem pack_moves {now room : Nat} (fuel : Nat) (p : Packing) (h : p.whole.Sound)
    (empty : p.frame.isEmpty = true → p.frame.remaining = room) :
    Moves (Along (Packed now room)) p.whole (pack now fuel p).2.whole := by
  obtain ⟨p', path, ending⟩ := pack_path now fuel p
  have led : Moves (Along (Packed now room)) p.whole p'.whole ∧
      (p'.frame.isEmpty = true → p'.frame.remaining = room) := by
    clear ending
    induction path with
    | refl => exact ⟨.refl _, empty⟩
    | tail _ step ih =>
        obtain ⟨moves, empty'⟩ := step.moves (ih.1.sound h) ih.2
        exact ⟨ih.1.trans moves, empty'⟩
  exact led.1.trans ending.moves

/-! ## Frames one after the other -/

namespace Transmission

variable {π φ : Type} [FramePort π]

/-- The port is free and lends a buffer that leaves so much room for datagrams. -/
def Offers (s : Transmission π φ) (room : Nat) : Prop :=
  ∃ port buffer port', FramePort.sendFinished s.port = (true, port) ∧
    FramePort.transmitBuffer port = (.ok buffer, port') ∧
    room = min (min (FramePort.mtu port) s.engine.config.mtu - Layout.frameHeader)
      (buffer.length - Frame.headerLength)

variable [FrameFilter φ]

/-- The call comes from one point to another. -/
def Leads (now : Nat) : Transmission π φ → Transmission π φ → Prop :=
  Relation.ReflTransGen fun s s' => s.step now = (none, s')

inductive Sent (e : Engine) : Engine → Prop
  | counted (statistics : TrafficStatistics) : Sent e { e with statistics }
  | taken (frame : Bytes) (statistics : TrafficStatistics) :
      Sent e { e.record (.sent frame) with statistics }

/-- What a step makes of the engine and the carried index. If it does more than count, it has packed
a frame in the buffer that the port lent. -/
inductive Stepped (now : Nat) (s : Transmission π φ) : Engine → Option UInt8 → Prop
  | counted (statistics : TrafficStatistics) : Stepped now s { s.engine with statistics } s.carry
  | filled {port port' : π} {buffer : Bytes} {frame : FrameBuilder} {p : Packing} {e : Engine}
      (free : FramePort.sendFinished s.port = (true, port))
      (lent : FramePort.transmitBuffer port = (.ok buffer, port'))
      (created : FrameBuilder.create? buffer (min (FramePort.mtu port) s.engine.config.mtu)
        s.engine.config.destination s.engine.config.source = .ok frame)
      (packed : (pack now (s.engine.workload + 1) ⟨s.engine, frame, s.carry, 0⟩).2 = p)
      (sent : Sent p.engine e) : Stepped now s e p.carry

inductive Reports (now : Nat) (s₀ : Transmission π φ) (e : Engine) : JournalEntry → Prop
  | packed (generation : Nat) (index : UInt8) : Reports now s₀ e (.packed generation index now)
  | sent (frame : Bytes) : Reports now s₀ e (.sent frame)
  | unfit {s : Transmission π φ} {room : Nat} {index : UInt8} {t : Transaction}
      (led : Leads now s₀ s) (offers : s.Offers room) (slot : e.slot index = some t)
      (queued : t.queued) (large : room < t.encoded.length) :
      Reports now s₀ e (.completed t.generation t.id .timeout)

variable {now : Nat} {s₀ : Transmission π φ}

def whole (s : Transmission π φ) : Engine := s.engine.reclaim s.carry

theorem send_sent (s : Transmission π φ) (frame : FrameBuilder) (packed : Nat) :
    (s.send frame packed).2.carry = s.carry ∧ Sent s.engine (s.send frame packed).2.engine := by
  simp only [send]
  split
  · split
    · exact ⟨rfl, .counted _⟩
    · exact ⟨rfl, .taken _ _⟩
  · exact ⟨rfl, .counted s.engine.statistics⟩

theorem fill_sent (s : Transmission π φ) (now : Nat) (frame : FrameBuilder) :
    let p := (pack now (s.engine.workload + 1) ⟨s.engine, frame, s.carry, 0⟩).2
    (s.fill now frame).2.carry = p.carry ∧ Sent p.engine (s.fill now frame).2.engine := by
  simp only [fill]
  generalize pack now _ _ = ended
  obtain ⟨result, p⟩ := ended
  have kept : Sent p.engine p.engine := .counted p.engine.statistics
  cases result with
  | error cause => exact ⟨rfl, kept⟩
  | ok _ =>
      dsimp only
      split
      · exact ⟨rfl, kept⟩
      · have sent := send_sent { s with engine := p.engine, carry := p.carry } p.frame p.packed
        generalize @send π φ _ _ _ p.frame p.packed = sending at sent ⊢
        obtain ⟨result, s'⟩ := sending
        cases result <;> exact sent

theorem step_stepped (s : Transmission π φ) (now : Nat) :
    Stepped now s (s.step now).2.engine (s.step now).2.carry := by
  have still : Stepped now s s.engine s.carry := .counted s.engine.statistics
  simp only [step]
  split
  · exact still
  · split
    · exact still
    · rename_i port free
      split
      · exact .counted _
      · rename_i buffer port' lent
        split
        · exact still
        · rename_i frame created
          obtain ⟨carry, sent⟩ := fill_sent { s with port := port' } now frame
          rw [carry]
          exact .filled free lent created rfl sent

theorem Sent.moves {e e' : Engine} (sent : Sent e e') (carry : Option UInt8) :
    Moves (Along (Reports now s₀)) (e.reclaim carry) (e'.reclaim carry) := by
  cases sent with
  | counted => exact .silent (.count _)
  | taken => exact (Moves.report (.note rfl) (.inr (.sent _))).trans (.silent (.count _))

theorem step_moves (s : Transmission π φ) (h : s.whole.Sound) (led : Leads now s₀ s) :
    Moves (Along (Reports now s₀)) s.whole (s.step now).2.whole := by
  have stepped := step_stepped s now
  rw [whole, whole]
  generalize (s.step now).2.engine = e, (s.step now).2.carry = carry at stepped ⊢
  cases stepped with
  | counted => exact .silent (.count _)
  | @filled port port' buffer frame p e free lent created packed sent =>
      obtain ⟨holds, mtu, size, -, -⟩ := FrameBuilder.create?_holds created
      have moved := @pack_moves now frame.remaining (s.engine.workload + 1)
        ⟨s.engine, frame, s.carry, 0⟩ h fun _ => rfl
      rw [packed] at moved
      refine (moved.mono fun e x allowed => allowed.imp_right fun packed => ?_).trans (sent.moves _)
      cases packed with
      | packed generation index => exact .packed generation index
      | unfit slot queued large =>
          refine .unfit led ⟨port, buffer, port', free, lent, rfl⟩ slot queued ?_
          rw [holds.remaining, mtu, size] at large
          exact large

theorem stop_moves (s : Transmission π φ) (result : Except Error Nat) :
    Moves (Along (Reports now s₀)) s.whole (s.stop result).engine := by
  unfold stop whole reclaim requeue
  cases s.carry with
  | none =>
      simp only [Option.toList_none, List.nil_append, List.append_nil]
      exact .refl _
  | some index => exact .silent (.rotate rfl)

theorem run_moves (fuel : Nat) (s : Transmission π φ) (h : s.whole.Sound) (led : Leads now s₀ s) :
    Moves (Along (Reports now s₀)) s.whole (run now fuel s).engine := by
  induction fuel generalizing s with
  | zero => exact stop_moves s _
  | succ fuel ih =>
      have stepped := step_moves s h led
      rw [run]
      cases result : s.step now with
      | mk ending s' =>
          rw [result] at stepped
          cases ending with
          | some ending => exact stepped.trans (stop_moves s' ending)
          | none => exact stepped.trans (ih s' (stepped.sound h) (led.tail result))

end Transmission

theorem transmit_moves {π φ : Type} [FramePort π] [FrameFilter φ] {e : Engine} (h : e.Sound)
    (port : π) (filter : φ) (now : Nat) :
    Moves (Along (Transmission.Reports now (.opening e port filter))) e
      (e.transmit port filter now).engine :=
  Transmission.run_moves (e.workload + 1) (.opening e port filter) h Relation.ReflTransGen.refl

end Fieldbus.Engine
