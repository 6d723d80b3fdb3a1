import Fieldbus.Proofs.Engine.Turnover

/-!
# The accounts of a run

The counters are kept apart from the slots, and still they agree: a transaction that has begun is
counted as matched or as timed out, or a call has dropped it, or it is in its slot. Datagrams that
came in are counted as matched or as stale.
-/

namespace Fieldbus.Engine

variable {e e' : Engine}

/-! ## What begins -/

def Hires (e e' : Engine) : Prop :=
  e'.logged .begun + e.logged .accepted = e.logged .begun + e'.logged .accepted

namespace Hires

theorem refl (e : Engine) : Hires e e := rfl

theorem trans {e'' : Engine} (h : Hires e e') (h' : Hires e' e'') : Hires e e'' := by
  unfold Hires at h h' ⊢
  omega

theorem append (xs : List JournalEntry) (journal : e'.journal = e.journal ++ xs)
    (same : (xs.countP fun x => x.kind = .begun) = xs.countP fun x => x.kind = .accepted) :
    Hires e e' := by
  have logged := logged_append journal
  unfold Hires
  rw [logged, logged, same]
  omega

theorem still (journal : e'.journal = e.journal) : Hires e e' :=
  append [] (journal.trans (List.append_nil _).symm) rfl

theorem follow (e : Engine) (t : Transaction) : Hires e (e.follow t) := by
  unfold Engine.follow
  split
  · exact refl e
  · exact append [.followed t.id (.error _)] rfl rfl
  · rename_i next others _
    rcases e.submit_cases next others with
      ⟨cause, leases, pool, submitted, -⟩ | ⟨index, leases, pool, u, -, -, -, submitted⟩
    · rw [submitted]
      exact append [.followed t.id (.error cause)] rfl rfl
    · rw [submitted]
      refine append [.prepared u.generation u.index next, .followed t.id (.ok index)] ?_ rfl
      simp [record, setSlot, enroll]

theorem finish (e : Engine) (index : UInt8) (outcome : Outcome) :
    Hires e (e.finish index outcome) := by
  cases slot : e.slot index with
  | none =>
      simp only [Engine.finish, slot]
      exact refl e
  | some t =>
      rw [finish_eq outcome slot]
      have ended : Hires e (e.detach index (.completed t.generation t.id outcome)) :=
        append [.completed t.generation t.id outcome] rfl rfl
      exact (ended.trans (follow _ t)).trans (still rfl)

theorem course (path : Course e e') : Hires e e' := by
  induction path with
  | refl => exact refl e
  | tail _ action ih =>
      refine ih.trans ?_
      cases action with
      | adjust queue statistics => exact still rfl
      | finish index outcome => exact finish _ index outcome
      | @markSent index t now slot queued =>
          exact append [.packed t.generation index now] rfl rfl
      | sent frame => exact append [.sent frame] rfl rfl

end Hires

/-- The transactions that a call begins, apart from what callbacks submit. -/
def begins (e : Engine) : Operation → Nat
  | .prepare r followUps => (e.prepare r followUps).1.isOk.toNat
  | _ => 0

theorem perform_begun (e : Engine) (op : Operation) :
    (e.perform op).logged .begun + e.logged .accepted =
      e.logged .begun + (e.perform op).logged .accepted + e.begins op := by
  have kept (h : Hires e (e.perform op)) (none : e.begins op = 0) :
      (e.perform op).logged .begun + e.logged .accepted =
        e.logged .begun + (e.perform op).logged .accepted + e.begins op := by
    rw [none]
    exact h
  cases op with
  | prepare r followUps =>
      rcases e.prepare_cases r followUps with
        ⟨cause, leases, pool, failed, -⟩ | ⟨index, leases, pool, b, -, prepared, -⟩
      · refine kept (.still ?_) ?_
        · rw [perform, failed]
        · rw [begins, failed]
          rfl
      · have journal : (e.perform (.prepare r followUps)).journal =
            e.journal ++ [.prepared e.nextGeneration index r] := by
          rw [perform, prepared]
          rfl
        have one : e.begins (.prepare r followUps) = 1 := by
          rw [begins, prepared]
          rfl
        have logged := logged_append journal
        rw [logged, logged, one]
        simp only [List.countP_singleton, JournalEntry.kind, reduceCtorEq, decide_false,
          decide_true, Bool.false_eq_true, if_false, if_true]
        omega
  | schedule index => exact kept (.still (journal_schedule e index)) rfl
  | transmit port filter now => exact kept (.course (course_transmit e port filter now)) rfl
  | receive bytes => exact kept (.course (course_receive e bytes)) rfl
  | sweep now => exact kept (.course (course_sweep e now)) rfl
  | cancel index =>
      rcases cancel_cases e index with ⟨-, same⟩ | ⟨t, -, -, journal⟩
      · exact kept (.still (congrArg journal same)) rfl
      · exact kept (.append _ journal rfl) rfl
  | withdraw index generation =>
      rcases withdraw_cases e index generation with ⟨-, same⟩ | ⟨t, -, -, -, journal⟩
      · exact kept (.still (congrArg Engine.journal same)) rfl
      · exact kept (.append _ journal rfl) rfl
  | close =>
      have ended := Hires.course (course_finishAll { e with queue := [] } Leases.indices)
      refine kept ?_ rfl
      rw [perform, close_eq]
      generalize ({ e with queue := [] } : Engine).finishAll Leases.indices = bare at ended ⊢
      exact ended.trans (.still rfl)
  | resetStatistics => exact kept (.still rfl) rfl
  | share pool => exact kept (.still rfl) rfl

/-! ## What is dropped -/

def calledOff (e : Engine) : Operation → Nat
  | .cancel index => (e.cancel index).1.toNat
  | .withdraw index generation => (e.withdraw index generation).1.toNat
  | _ => 0

theorem Sound.perform_cancelled (h : e.Sound) (op : Operation) :
    (e.perform op).logged .cancelled = e.logged .cancelled + e.calledOff op := by
  have quiet (other : ∀ index generation, op ≠ .cancel index ∧ op ≠ .withdraw index generation) :
      (e.perform op).logged .cancelled = e.logged .cancelled := by
    obtain ⟨xs, journal⟩ := h.journal_perform op
    rw [logged_append journal.symm, Nat.add_eq_left, List.countP_eq_zero]
    intro x hx same
    cases x with
    | cancelled generation =>
        obtain ⟨index, -, ⟨rfl, -⟩ | ⟨rfl, -⟩⟩ := h.cancelled journal.symm hx
        · exact (other index generation).1 rfl
        · exact (other index generation).2 rfl
    | followed id result => cases result <;> cases same
    | _ => cases same
  have taken {generation : Nat} {answer : Bool} (done : answer = true)
      (journal : (e.perform op).journal = e.journal ++ [.cancelled generation]) :
      (e.perform op).logged .cancelled = e.logged .cancelled + answer.toNat := by
    rw [logged_append journal, done]
    rfl
  cases op with
  | cancel index =>
      rcases cancel_cases e index with ⟨failed, same⟩ | ⟨t, -, done, journal⟩
      · rw [calledOff, failed, Engine.perform, same]
        rfl
      · exact taken done journal
  | withdraw index generation =>
      rcases withdraw_cases e index generation with ⟨failed, same⟩ | ⟨t, -, -, done, journal⟩
      · rw [calledOff, failed, Engine.perform, same]
        rfl
      · exact taken done journal
  | _ =>
      refine quiet fun index generation => ⟨fun same => ?_, fun same => ?_⟩
      all_goals cases same

/-! ## What comes in -/

/-- What an operation adds to the counters of what came in. -/
structure Receives (e : Engine) (op : Operation) : Prop where
  frames : (e.perform op).statistics.framesReceived = e.statistics.framesReceived +
    op.intake.countP fun bytes => (Frame.parse? bytes).isOk
  datagrams : (e.perform op).statistics.datagramsMatched +
      (e.perform op).statistics.staleDatagrams =
    e.statistics.datagramsMatched + e.statistics.staleDatagrams +
      (op.intake.flatMap Frame.decoded).length

theorem Posts.receives {op : Operation} {refused landed packed sent : Nat}
    (posts : Posts refused landed packed sent e (e.perform op)) (none : op.intake = []) :
    Receives e op := by
  constructor
  · rw [posts.received, none]
    rfl
  · rw [posts.matched, posts.stale, none]
    rfl

theorem Sheds.receives {op : Operation} {dropped : (Transaction → Bool) → Nat}
    (sheds : Sheds dropped e (e.perform op)) (none : op.intake = []) : Receives e op := by
  constructor <;> rw [sheds.statistics, none] <;> rfl

theorem Sound.receives (h : e.Sound) {op : Operation} (counted : op.IsCounted) :
    Receives e op := by
  cases op with
  | prepare r followUps =>
      have posts : Posts 0 0 0 0 e (e.perform (.prepare r followUps)) :=
        Posts.prepare h.leased r followUps
      exact posts.receives rfl
  | schedule index =>
      have posts : Posts 0 0 0 0 e (e.perform (.schedule index)) := Posts.schedule e index
      exact posts.receives rfl
  | share pool =>
      have posts : Posts 0 0 0 0 e (e.perform (.share pool)) := .still rfl rfl rfl (Nat.le_refl _)
      exact posts.receives rfl
  | transmit port filter now =>
      obtain ⟨refused, sent, posts⟩ := h.transmit_posts port filter now
      have turned : Posts refused 0 _ sent e (e.perform (.transmit port filter now)) := posts
      exact turned.receives rfl
  | receive bytes =>
      cases parsed : Frame.parse? bytes with
      | error cause =>
          have foreign := receive_foreign parsed e
          constructor
          · rw [Engine.perform, foreign, Operation.intake, List.countP_singleton, parsed]
            rfl
          · rw [Engine.perform, foreign, Operation.intake, List.flatMap_singleton, Frame.decoded,
              parsed]
            rfl
      | ok frame =>
          obtain ⟨matched, stale, e', posts, read, received⟩ := h.receive_posts parsed
          have frames : e'.statistics.framesReceived = e.statistics.framesReceived + 1 :=
            posts.received
          have hits : e'.statistics.datagramsMatched = e.statistics.datagramsMatched :=
            posts.matched
          have misses : e'.statistics.staleDatagrams = e.statistics.staleDatagrams := posts.stale
          constructor
          · rw [Engine.perform, received, Operation.intake, List.countP_singleton, parsed]
            exact frames
          · rw [Engine.perform, received, Operation.intake, List.flatMap_singleton, ← read]
            show e'.statistics.datagramsMatched + matched +
              (e'.statistics.staleDatagrams + stale) = _
            omega
  | sweep now =>
      have posts := h.expireAll_posts now e.leases.leased
      have datagrams : (e.perform (.sweep now)).statistics.datagramsMatched +
          (e.perform (.sweep now)).statistics.staleDatagrams =
            e.statistics.datagramsMatched + e.statistics.staleDatagrams :=
        congrArg₂ (· + ·) posts.matched posts.stale
      exact ⟨posts.received, datagrams⟩
  | cancel index =>
      have shed : Sheds _ e (e.perform (.cancel index)) := cancel_sheds e index
      exact shed.receives rfl
  | withdraw index generation =>
      have shed : Sheds _ e (e.perform (.withdraw index generation)) :=
        withdraw_sheds e index generation
      exact shed.receives rfl
  | close => exact counted.elim
  | resetStatistics => exact counted.elim

theorem Sound.run_receives (h : e.Sound) {ops : List Operation}
    (counted : ∀ op ∈ ops, op.IsCounted) :
    (e.run ops).statistics.framesReceived = e.statistics.framesReceived +
        ((ops.flatMap Operation.intake).countP fun bytes => (Frame.parse? bytes).isOk) ∧
      (e.run ops).statistics.datagramsMatched + (e.run ops).statistics.staleDatagrams =
        e.statistics.datagramsMatched + e.statistics.staleDatagrams +
          ((ops.flatMap Operation.intake).flatMap Frame.decoded).length := by
  induction ops generalizing e with
  | nil => exact ⟨rfl, rfl⟩
  | cons op rest ih =>
      obtain ⟨first, others⟩ := List.forall_mem_cons.mp counted
      obtain ⟨frames, datagrams⟩ := h.receives first
      obtain ⟨frames', datagrams'⟩ := ih (h.perform op) others
      rw [run_cons, List.flatMap_cons, List.countP_append, List.flatMap_append, List.length_append]
      constructor <;> omega

/-! ## The contract -/

theorem transactions_accounted (config : Config) (pool : Pool) (start : UInt8)
    (ops : List Operation) (counted : ∀ op ∈ ops, op.IsCounted) :
    let new := withParts config pool (.startingAt start)
    let e := new.run ops
    let frames := ops.flatMap Operation.intake
    total begins new ops + e.logged .accepted =
        e.statistics.datagramsMatched + e.statistics.datagramTimeouts + total calledOff new ops +
          e.inFlight ∧
      e.statistics.framesReceived = (frames.countP fun bytes => (Frame.parse? bytes).isOk) ∧
      e.statistics.datagramsMatched + e.statistics.staleDatagrams =
        (frames.flatMap Frame.decoded).length ∧
      (∀ bytes frame, Frame.parse? bytes = .ok frame → ∃ matched,
        (e.receive bytes).1 = .ok matched ∧
          (e.receive bytes).2.statistics.datagramsMatched =
            e.statistics.datagramsMatched + matched) ∧
      ∀ now, (e.sweep now).2.statistics.datagramTimeouts =
        e.statistics.datagramTimeouts + (e.sweep now).1 := by
  intro new e frames
  have fresh : new.Reachable := ⟨config, pool, start, [], rfl⟩
  have sound : e.Sound := fresh.sound.run ops
  have balance : e.settled + e.inFlight + new.logged .accepted + total calledOff new ops =
      new.settled + new.inFlight + e.logged .accepted + total begins new ops := by
    refine Reachable.run_total (fun e => e.settled + e.inFlight) (fun e => e.logged .accepted)
      (fun {e} reachable op counted => ?_) fresh counted
    -- Each operation moves as many transactions as it counts.
    have next := reachable.perform op
    have before := reachable.balanced
    have after := next.balanced
    have begun := perform_begun e op
    have cancelled := reachable.sound.perform_cancelled op
    have completed := (reachable.sound.turns counted).completed
    rw [Balanced, ← reachable.seated.inFlight_eq reachable.sound] at before
    rw [Balanced, ← next.seated.inFlight_eq next.sound] at after
    omega
  have bare : new.logged .accepted = 0 := rfl
  have idle : new.settled + new.inFlight = 0 := rfl
  obtain ⟨received, datagrams⟩ := fresh.sound.run_receives counted
  refine ⟨?_, ?_, ?_, fun bytes frame parsed => ?_, fun now => ?_⟩
  · rw [bare, idle] at balance
    unfold settled at balance
    omega
  · exact received.trans (Nat.zero_add _)
  · exact datagrams.trans (Nat.zero_add _)
  · obtain ⟨matched, stale, e', posts, -, taken⟩ := sound.receive_posts parsed
    refine ⟨matched, by rw [taken], ?_⟩
    rw [taken]
    exact congrArg (· + matched) posts.matched
  · have posts := sound.expireAll_posts now e.leases.leased
    exact congrArg (· + (e.sweep now).1) posts.timeouts

/-- Three errands, and one more that the answer to the first sets off. One is answered, one is
cancelled, one times out, and one waits for its turn. -/
def errands : List Operation :=
  [.prepare errand [.submit errand], .schedule 7, .prepare errand [], .prepare errand [],
    .transmit ({ near := { transmitBuffer := Bytes.zeros 64 } } : Loopback) PassThrough.mk 5,
    .receive reply,
    .transmit ({ near := { transmitBuffer := Bytes.zeros 64 } } : Loopback) PassThrough.mk 6,
    .cancel 8, .receive reply, .sweep 200]

theorem transactions_accounted_errands :
    let new := withParts {} (Pool.openWith 0 4 64) (.startingAt 7)
    let e := new.run errands
    (∀ op ∈ errands, op.IsCounted) ∧ total begins new errands = 3 ∧ e.logged .accepted = 1 ∧
      e.statistics.datagramsMatched = 1 ∧ e.statistics.datagramTimeouts = 1 ∧
      total calledOff new errands = 1 ∧ e.inFlight = 1 ∧ e.statistics.staleDatagrams = 1 := by
  intro new e
  have counted : ∀ op ∈ errands, op.IsCounted := by simp [errands, Operation.IsCounted]
  obtain ⟨balance, -, datagrams, -⟩ :=
    transactions_accounted {} (Pool.openWith 0 4 64) 7 errands counted
  have begun : total begins new errands = 3 := by decide +kernel
  have accepted : e.logged .accepted = 1 := by decide +kernel
  have matched : e.statistics.datagramsMatched = 1 := by decide +kernel
  have timeouts : e.statistics.datagramTimeouts = 1 := by decide +kernel
  have dropped : total calledOff new errands = 1 := by decide +kernel
  have decoded : ((errands.flatMap Operation.intake).flatMap Frame.decoded).length = 2 := by
    decide +kernel
  -- The rest follows from the balance.
  simp only [new, e] at begun accepted matched timeouts dropped ⊢
  exact ⟨counted, begun, accepted, matched, timeouts, dropped, by omega, by omega⟩

end Fieldbus.Engine
