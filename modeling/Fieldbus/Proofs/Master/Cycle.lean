import Fieldbus.Master
import Fieldbus.Proofs.Engine.Disposal
import Fieldbus.Proofs.Engine.Verdicts

/-!
# Cycles of a master

A cycle sends, takes frames in and sweeps. Whatever the device makes of the first two, each sent
transaction that was answered or whose time ran out has ended when the cycle is over. A lawful
device has no more frames to take in than its backlog, so the receiving loop ends by itself.
-/

namespace Fieldbus

namespace Engine

theorem Reachable.submit {e : Engine} (h : e.Reachable) (r : Request) (followUps : List FollowUp) :
    (e.submit r followUps).2.Reachable := by
  have prepared : (e.prepare r followUps).2.Reachable := h.perform (.prepare r followUps)
  unfold Engine.submit
  generalize e.prepare r followUps = result at prepared ⊢
  obtain ⟨result, e'⟩ := result
  cases result with
  | error cause => exact prepared
  | ok index =>
      have scheduled : (e'.schedule index).2.Reachable := prepared.perform (.schedule index)
      dsimp only
      generalize e'.schedule index = result at scheduled ⊢
      obtain ⟨result, e''⟩ := result
      cases result <;> exact scheduled

theorem Reachable.receiveAll {e : Engine} (h : e.Reachable) (frames : List Bytes) :
    (e.receiveAll frames).Reachable := by
  induction frames generalizing e with
  | nil => exact h
  | cons bytes rest ih => exact ih (h.perform (.receive bytes))

end Engine

namespace Master

open Engine (Transmission)
open JournalEntry (completes)

variable {π φ : Type} [FramePort π] [FrameFilter φ]

/-! ## Taking frames in -/

/-- The frames that at most `fuel` tries pass on to the engine, and the fault that ends them, unless
it only means that nothing has arrived. -/
def intake : Nat → π → φ → List Bytes × Option Fault
  | 0, _, _ => ([], none)
  | fuel + 1, port, filter =>
      match FramePort.receive Layout.ethernetFrame port with
      | (.error fault, _) => ([], if fault.kind = .wouldBlock then none else some fault)
      | (.ok frame, port) =>
          let ((passed, filtered), filter) := FrameFilter.onReceive frame filter
          let taken := if passed then [refit frame filtered] else []
          if FramePort.isBlocking port then (taken, none)
          else
            let (others, fault) := intake fuel port filter
            (taken ++ others, fault)

def verdict : Option Fault → Except Error Unit
  | none => .ok ()
  | some fault => .error (.device fault)

theorem receiveWithin_intake (fuel : Nat) (m : Master π φ) :
    (m.receiveWithin fuel).1 = verdict (intake fuel m.port m.filter).2 ∧
      (m.receiveWithin fuel).2.engine =
        m.engine.receiveAll (intake fuel m.port m.filter).1 := by
  induction fuel generalizing m with
  | zero => exact ⟨rfl, rfl⟩
  | succ fuel ih =>
      simp only [receiveWithin, intake]
      generalize FramePort.receive Layout.ethernetFrame m.port = received
      obtain ⟨result, port⟩ := received
      cases result with
      | error fault =>
          dsimp only
          split <;> exact ⟨rfl, rfl⟩
      | ok frame =>
          dsimp only
          generalize FrameFilter.onReceive frame m.filter = seen
          obtain ⟨⟨passed, filtered⟩, filter⟩ := seen
          dsimp only
          have first : (if passed then (m.engine.receive (refit frame filtered)).2 else m.engine) =
              m.engine.receiveAll (if passed then [refit frame filtered] else []) := by
            cases passed <;> rfl
          rw [first]
          generalize (if passed then [refit frame filtered] else []) = taken
          cases FramePort.isBlocking port with
          | true => exact ⟨rfl, rfl⟩
          | false =>
              obtain ⟨result, engine⟩ :=
                ih { m with port, filter, engine := m.engine.receiveAll taken }
              exact ⟨result, engine.trans List.foldl_append.symm⟩

section Lawful

variable [LawfulFramePort π] {fuel fuel' : Nat}

/-- The receiving loop ends by itself: tries beyond the backlog of a lawful device change neither
what it leaves nor what it takes in. -/
theorem receiveWithin_congr {m : Master π φ} (enough : FramePort.backlog m.port < fuel)
    (enough' : FramePort.backlog m.port < fuel') :
    m.receiveWithin fuel = m.receiveWithin fuel' ∧
      intake fuel m.port m.filter = intake fuel' m.port m.filter := by
  induction fuel generalizing m fuel' with
  | zero => exact absurd enough (Nat.not_lt_zero _)
  | succ fuel ih =>
      cases fuel' with
      | zero => exact absurd enough' (Nat.not_lt_zero _)
      | succ fuel' =>
          simp only [receiveWithin, intake]
          cases received : FramePort.receive Layout.ethernetFrame m.port with
          | mk result port =>
              cases result with
              | error fault => exact ⟨rfl, rfl⟩
              | ok frame =>
                  dsimp only
                  generalize FrameFilter.onReceive frame m.filter = seen
                  obtain ⟨⟨passed, filtered⟩, filter⟩ := seen
                  dsimp only
                  generalize (if passed then (m.engine.receive (refit frame filtered)).2
                    else m.engine) = engine
                  cases blocking : FramePort.isBlocking port with
                  | true => exact ⟨rfl, rfl⟩
                  | false =>
                      have fewer := LawfulFramePort.backlog_receive received blocking
                      have left := Nat.lt_of_lt_of_le fewer (Nat.le_of_lt_succ enough)
                      have left' := Nat.lt_of_lt_of_le fewer (Nat.le_of_lt_succ enough')
                      obtain ⟨same, taken⟩ := @ih fuel' { m with port, filter, engine } left left'
                      exact ⟨same, by rw [taken]⟩

theorem receiveWithin_eq_receiveAll {m : Master π φ} (enough : FramePort.backlog m.port < fuel) :
    m.receiveWithin fuel = m.receiveAll :=
  (receiveWithin_congr enough (Nat.lt_succ_self _)).1

end Lawful

/-! ## Reachable masters -/

/-- A master without slaves after calls of its own and of its engine. Anything may happen to the
port, the filter and the clock in between. -/
inductive Reachable : Master π φ → Prop
  | create (config : Config) (port : π) (poolId : Nat) (start : UInt8) (filter : φ) :
      Reachable (.create config port (.create config poolId start) filter)
  | schedule {m : Master π φ} (h : m.Reachable) (r : Request) (timeout : Option Nat)
      (followUps : List FollowUp) : Reachable (m.schedule r timeout followUps).2
  | operate {m : Master π φ} (h : m.Reachable) (op : Engine.Operation) :
      Reachable { m with engine := m.engine.perform op }
  | poll {m : Master π φ} (h : m.Reachable) (time : Nat) : Reachable (m.pollAt time).2
  | touch {m : Master π φ} (h : m.Reachable) (port : π) (filter : φ) (clock : Clock)
      (stopRequested : Bool) : Reachable { m with port, filter, clock, stopRequested }

variable {m : Master π φ}

/-- The master after the sending part of a cycle at `time`. -/
def sent (m : Master π φ) (time : Nat) : Master π φ :=
  let sending := m.engine.transmit m.port m.filter time
  { m with engine := sending.engine, port := sending.port, filter := sending.filter }

/-- What the receiving part of a cycle at `time` takes in. -/
def arrivals (m : Master π φ) (time : Nat) : List Bytes × Option Fault :=
  intake (FramePort.backlog (m.sent time).port + 1) (m.sent time).port (m.sent time).filter

def heard (m : Master π φ) (time : Nat) : List Datagram :=
  (m.arrivals time).1.flatMap Frame.decoded

theorem arrivals_eq [LawfulFramePort π] {m : Master π φ} {time fuel : Nat}
    (enough : FramePort.backlog (m.sent time).port < fuel) :
    m.arrivals time = intake fuel (m.sent time).port (m.sent time).filter :=
  (receiveWithin_congr (Nat.lt_succ_self _) enough).2

theorem engine_pollAt (m : Master π φ) (time : Nat) :
    (m.pollAt time).2.engine =
      (((m.sent time).engine.receiveAll (m.arrivals time).1).sweep time).2 := by
  rw [arrivals, ← (receiveWithin_intake _ (m.sent time)).2, pollAt]
  cases (m.engine.transmit m.port m.filter time).result <;> rfl

theorem result_pollAt (m : Master π φ) (time : Nat) :
    (m.pollAt time).1 = match (m.engine.transmit m.port m.filter time).result with
      | .error cause => .error cause
      | .ok _ => verdict (m.arrivals time).2 := by
  rw [arrivals, ← (receiveWithin_intake _ (m.sent time)).1, pollAt]
  cases (m.engine.transmit m.port m.filter time).result <;> rfl

theorem Reachable.engine (h : m.Reachable) : m.engine.Reachable := by
  induction h with
  | create config port poolId start filter => exact ⟨config, _, start, [], rfl⟩
  | schedule _ r timeout followUps ih => exact ih.submit _ followUps
  | operate _ op ih => exact ih.perform op
  | @poll m _ time ih =>
      rw [engine_pollAt]
      have sent : (m.sent time).engine.Reachable := ih.transmit m.port m.filter time
      exact (sent.receiveAll _).perform (.sweep time)
  | touch _ port filter clock stopRequested ih => exact ih

/-! ## What a cycle settles -/

/-- What receiving and sweeping do to what was there after sending. -/
theorem Reachable.decides (h : m.Reachable) (time : Nat) :
    Engine.Decides (fun index t => (t.reply? index (m.heard time)).or (t.lapse? time))
      (m.sent time).engine (m.pollAt time).2.engine := by
  have sound : (m.sent time).engine.Sound := (h.engine.transmit m.port m.filter time).sound
  have received := Engine.receiveAll_decides sound (m.arrivals time).1
  rw [engine_pollAt]
  exact received.trans sound (Engine.sweep_decides received.sound time)

theorem Reachable.in_time (h : m.Reachable) (time : Nat) {index : UInt8} {t : Transaction}
    {deadline : Nat} (slot : (m.pollAt time).2.engine.slot index = some t)
    (due : t.deadline = some deadline) : time < deadline := by
  obtain ⟨-, undecided⟩ := (h.decides time).sent slot (by simp [Transaction.isSent, due])
  have early := (Option.or_eq_none_iff.mp undecided).2
  simpa [Transaction.lapse?, Transaction.isExpired, due] using early

theorem Reachable.ends_overdue (h : m.Reachable) (time : Nat) :
    ∃ xs, (m.pollAt time).2.engine.journal = m.engine.journal ++ xs ∧
      ∀ index t, (m.sent time).engine.slot index = some t → t.isExpired time = true →
        xs.filter (completes t.generation) =
          [.completed t.generation t.id ((t.reply? index (m.heard time)).getD .timeout)] := by
  have decides := h.decides time
  have sent : (m.sent time).engine.Sound := (h.engine.transmit m.port m.filter time).sound
  obtain ⟨ys, before⟩ := h.engine.sound.journal_perform (.transmit m.port m.filter time)
  obtain ⟨zs, after⟩ := decides.journal
  have begun : (m.sent time).engine.journal = m.engine.journal ++ ys := before.symm
  refine ⟨ys ++ zs, by rw [← after, begun, List.append_assoc], ?_⟩
  intro index t slot expired
  have quiet := sent.filter_outstanding slot
  have decided : (t.reply? index (m.heard time)).or (t.lapse? time) =
      some ((t.reply? index (m.heard time)).getD .timeout) := by
    cases t.reply? index (m.heard time) <;> simp [Transaction.lapse?, expired]
  have once := decides.ended slot decided
  rw [begun, List.filter_append, List.append_eq_nil_iff] at quiet
  rw [← after, begun, List.filter_append, List.filter_append, quiet.1, quiet.2] at once
  rw [List.filter_append, quiet.2]
  exact once

theorem Reachable.stays (h : m.Reachable) (time : Nat) {index : UInt8} {t : Transaction}
    (slot : m.engine.slot index = some t) :
    (t.queued = true ∧ ∃ s room, Transmission.Leads time (.opening m.engine m.port m.filter) s ∧
      s.Offers room ∧ room < t.encoded.length) ∨
    ∃ t', (m.sent time).engine.slot index = some t' ∧ (t' = t ∨ t' = t.markSent time) ∧
      (t'.reply? index (m.heard time) = none → t'.isExpired time = false →
        (m.pollAt time).2.engine.slot index = some t') := by
  have decides := h.decides time
  obtain ⟨waiting, idle⟩ := h.engine.disposes m.port m.filter time
  have undecided {t' : Transaction} (unanswered : t'.reply? index (m.heard time) = none)
      (early : t'.isExpired time = false) :
      (t'.reply? index (m.heard time)).or (t'.lapse? time) = none := by
    simp [unanswered, Transaction.lapse?, early]
  cases queued : t.queued with
  | false =>
      have kept := (idle index t slot queued).1
      exact .inr ⟨t, kept, .inl rfl, fun unanswered early =>
        decides.kept kept (undecided unanswered early)⟩
  | true =>
      obtain ⟨fate, meets, -⟩ := waiting index t slot queued
      cases meets.left with
      | packed marked =>
          exact .inr ⟨t.markSent time, marked, .inr rfl, fun unanswered early =>
            decides.kept marked (undecided unanswered early)⟩
      | refused _ led offers large => exact .inl ⟨rfl, _, _, led, offers, large⟩
      | kept still =>
          exact .inr ⟨t, still, .inl rfl, fun unanswered early =>
            decides.kept still (undecided unanswered early)⟩

/-- In each cycle, whether or not the device fails, what was answered or is overdue ends, once, and
only that and what no frame can carry. The first failure is the one that is reported. -/
theorem poll_settles (h : m.Reachable) (time : Nat) :
    (∀ index t deadline, (m.pollAt time).2.engine.slot index = some t →
      t.deadline = some deadline → time < deadline) ∧
    (∃ xs, (m.pollAt time).2.engine.journal = m.engine.journal ++ xs ∧
      ∀ index t, (m.sent time).engine.slot index = some t → t.isExpired time = true →
        xs.filter (completes t.generation) =
          [.completed t.generation t.id ((t.reply? index (m.heard time)).getD .timeout)]) ∧
    (∀ index t, m.engine.slot index = some t →
      (t.queued = true ∧ ∃ s room, Transmission.Leads time (.opening m.engine m.port m.filter) s ∧
        s.Offers room ∧ room < t.encoded.length) ∨
      ∃ t', (m.sent time).engine.slot index = some t' ∧ (t' = t ∨ t' = t.markSent time) ∧
        (t'.reply? index (m.heard time) = none → t'.isExpired time = false →
          (m.pollAt time).2.engine.slot index = some t')) ∧
    (m.pollAt time).1 = match (m.engine.transmit m.port m.filter time).result with
      | .error cause => .error cause
      | .ok _ => verdict (m.arrivals time).2 :=
  ⟨fun _ _ _ slot due => h.in_time time slot due, h.ends_overdue time,
    fun _ _ slot => h.stays time slot, result_pollAt m time⟩

/-- The device was gone when two errands were packed. Since then an answer to the first came in. -/
def outage : Master Loopback PassThrough :=
  let config : Config := { poolSize := 2, bufferSize := 64 }
  let port : Loopback :=
    { near := { transmitBuffer := Bytes.zeros 64 }, far := { attached := false } }
  let m := Master.create config port (Engine.create config 0 7) PassThrough.mk
  let m := (m.schedule Engine.errand (some 100) []).2
  let m := (m.schedule Engine.errand (some 100) []).2
  let m := (m.pollAt 5).2
  { m with port := { m.port with near := { m.port.near with inbox := [Engine.reply] } } }

theorem reachable_outage : outage.Reachable := by
  have begun := Reachable.create { poolSize := 2, bufferSize := 64 }
    ({ near := { transmitBuffer := Bytes.zeros 64 }, far := { attached := false } } : Loopback) 0 7
    PassThrough.mk
  exact (((begun.schedule _ _ _).schedule _ _ _).poll 5).touch _ _ _ _

theorem poll_settles_outage :
    ∃ xs, (outage.pollAt 200).2.engine.journal = outage.engine.journal ++ xs ∧
      xs.filter (completes 1) = [.completed 1 1 (.response 3 [17, 34])] ∧
      xs.filter (completes 2) = [.completed 2 1 .timeout] ∧
      (outage.pollAt 200).1 = .error (.device Loopback.peerClosed) := by
  have first : ((outage.sent 200).engine.slot 7).map (fun t =>
      (t.generation, t.id, t.isExpired 200, t.reply? 7 (outage.heard 200))) =
        some (1, 1, true, some (.response 3 [17, 34])) := by decide +kernel
  have second : ((outage.sent 200).engine.slot 8).map (fun t =>
      (t.generation, t.id, t.isExpired 200, t.reply? 8 (outage.heard 200))) =
        some (2, 1, true, none) := by decide +kernel
  have quiet : (outage.engine.transmit outage.port outage.filter 200).result.toOption = some 0 := by
    decide +kernel
  have broken : (outage.arrivals 200).2 = some Loopback.peerClosed := by decide +kernel
  obtain ⟨-, ⟨xs, journal, settled⟩, -, result⟩ := poll_settles reachable_outage 200
  obtain ⟨t, slot, known⟩ := Option.map_eq_some_iff.mp first
  obtain ⟨u, slot', known'⟩ := Option.map_eq_some_iff.mp second
  simp only [Prod.mk.injEq] at known known'
  refine ⟨xs, journal, ?_, ?_, ?_⟩
  · simpa [known.1, known.2.1, known.2.2.2] using settled 7 t slot known.2.2.1
  · simpa [known'.1, known'.2.1, known'.2.2.2] using settled 8 u slot' known'.2.2.1
  · rw [result, broken]
    split
    · rename_i failed
      simp [failed, Except.toOption] at quiet
    · rfl

end Master

end Fieldbus
