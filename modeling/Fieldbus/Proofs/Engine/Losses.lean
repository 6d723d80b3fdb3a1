import Mathlib.Algebra.Order.Field.Basic
import Mathlib.Algebra.Order.Field.Rat
import Fieldbus.Proofs.Engine.Turnover
import Fieldbus.Simulation.Filter

/-!
# Timeouts and sent datagrams

A datagram is counted as sent when its frame is taken by the port, but its time runs from when it is
packed, and a datagram that no frame can carry times out without being packed. So the counters say
how many of the sent datagrams timed out only as far as no frame was lost and no datagram refused.
-/

namespace Fieldbus.Engine

variable {e : Engine}

def Operation.KeepsCounters : Operation → Prop
  | .resetStatistics => False
  | _ => True

/-- The sent transactions that a call drops or ends without counting them. -/
def abandons (e : Engine) : Operation → Nat
  | .close => e.flying
  | op => e.drops Transaction.isSent op

/-- After closing nothing waits for an answer. What callbacks have submitted is not sent. -/
theorem Sound.flying_close (h : e.Sound) : e.close.2.flying = 0 := by
  refine census_eq_zero fun index t slot => ?_
  cases sent : t.isSent with
  | false => rfl
  | true => cases ((close_decides h).sent slot sent).2

theorem Reachable.losses (h : e.Reachable) {op : Operation} (kept : op.KeepsCounters) :
    (e.perform op).settled + (e.perform op).flying + e.statistics.datagramsSent +
        e.abandons op =
      e.settled + e.flying + (e.perform op).statistics.datagramsSent +
        (e.loses op + e.refuses op) := by
  cases op with
  | close =>
      have statistics := (close_finishAll e).2.2
      have landed := h.sound.flying_close
      have settled : e.close.2.settled = e.settled := by rw [settled, settled, statistics]
      show e.close.2.settled + e.close.2.flying + e.statistics.datagramsSent + e.flying =
        e.settled + e.flying + e.close.2.statistics.datagramsSent + (0 + 0)
      rw [settled, statistics, landed]
      omega
  | resetStatistics => exact kept.elim
  | _ =>
      refine (h.sound.turns ?_).flying
      trivial

/-! ## The contract -/

theorem div_le_one_iff_nat (part whole : Nat) :
    (part : ℚ) / whole ≤ 1 ↔ whole = 0 ∨ part ≤ whole := by
  rcases Nat.eq_zero_or_pos whole with rfl | some
  · simp
  · have positive : (0 : ℚ) < whole := Nat.cast_pos.mpr some
    rw [div_le_one positive, Nat.cast_le]
    exact ⟨.inr, fun either => either.resolve_left (Nat.ne_of_gt some)⟩

theorem timeouts_le_sent_iff (config : Config) (pool : Pool) (start : UInt8)
    (ops : List Operation) (kept : ∀ op ∈ ops, op.KeepsCounters) :
    let new := withParts config pool (.startingAt start)
    let e := new.run ops
    let lost := total (fun e op => e.loses op + e.refuses op) new ops
    let abandoned := total abandons new ops
    e.statistics.datagramsMatched + e.statistics.datagramTimeouts + e.flying + abandoned =
        e.statistics.datagramsSent + lost ∧
      (e.statistics.datagramTimeouts ≤ e.statistics.datagramsSent ↔
        lost ≤ e.statistics.datagramsMatched + e.flying + abandoned) ∧
      ((e.statistics.datagramTimeouts : ℚ) / e.statistics.datagramsSent ≤ 1 ↔
        e.statistics.datagramsSent = 0 ∨
          lost ≤ e.statistics.datagramsMatched + e.flying + abandoned) := by
  intro new e lost abandoned
  have fresh : new.Reachable := ⟨config, pool, start, [], rfl⟩
  have idle : new.settled + new.flying + new.statistics.datagramsSent = 0 := by
    have none : new.flying = 0 := by
      refine census_eq_zero fun index t slot => ?_
      simp [new, Engine.slot, withParts] at slot
    rw [none]
    rfl
  have balance : e.settled + e.flying + new.statistics.datagramsSent + abandoned =
      new.settled + new.flying + e.statistics.datagramsSent + lost :=
    Reachable.run_total (fun e => e.settled + e.flying) (fun e => e.statistics.datagramsSent)
      (fun reachable _ kept => reachable.losses kept) fresh kept
  have bound : e.statistics.datagramTimeouts ≤ e.statistics.datagramsSent ↔
      lost ≤ e.statistics.datagramsMatched + e.flying + abandoned := by
    unfold settled at balance idle
    omega
  refine ⟨?_, bound, ?_⟩
  · unfold settled at balance idle
    omega
  · rw [div_le_one_iff_nat, bound]

/-- Two probes, the first of which is sent. The frame of the second is dropped. -/
def suppressed : List Operation :=
  [.prepare errand [], .schedule 7,
    .transmit ({ near := { transmitBuffer := Bytes.zeros 64 } } : Loopback) PassThrough.mk 5,
    .prepare errand [], .schedule 8,
    .transmit ({ near := { transmitBuffer := Bytes.zeros 64 } } : Loopback)
      ({ dropSend := 1 } : Simulation.PatchFilter) 6,
    .sweep 200]

/-- More datagrams time out than were sent. -/
theorem exists_more_timeouts : ∃ ops : List Operation, (∀ op ∈ ops, op.KeepsCounters) ∧
    (workshop.run ops).statistics.datagramsSent <
      (workshop.run ops).statistics.datagramTimeouts := by
  refine ⟨suppressed, by simp [suppressed, Operation.KeepsCounters], ?_⟩
  have sent : (workshop.run suppressed).statistics.datagramsSent = 1 := by decide +kernel
  have timeouts : (workshop.run suppressed).statistics.datagramTimeouts = 2 := by decide +kernel
  rw [sent, timeouts]
  exact Nat.one_lt_two

theorem timeouts_le_sent_iff_suppressed :
    let e := workshop.run suppressed
    let lost := total (fun e op => e.loses op + e.refuses op) workshop suppressed
    (∀ op ∈ suppressed, op.KeepsCounters) ∧ lost = 1 ∧ e.flying = 0 ∧
      total abandons workshop suppressed = 0 ∧
      ¬e.statistics.datagramTimeouts ≤ e.statistics.datagramsSent := by
  intro e lost
  have kept : ∀ op ∈ suppressed, op.KeepsCounters := by
    simp [suppressed, Operation.KeepsCounters]
  obtain ⟨-, bound, -⟩ := timeouts_le_sent_iff {} (Pool.openWith 0 2 64) 7 suppressed kept
  have one : lost = 1 := by decide +kernel
  have landed : e.flying = 0 := by decide +kernel
  have none : total abandons workshop suppressed = 0 := by decide +kernel
  have unmatched : e.statistics.datagramsMatched = 0 := by decide +kernel
  simp only [e, lost, workshop] at one landed none unmatched ⊢
  refine ⟨kept, one, landed, none, ?_⟩
  rw [bound]
  omega

end Fieldbus.Engine
