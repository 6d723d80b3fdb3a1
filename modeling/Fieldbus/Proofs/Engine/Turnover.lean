import Fieldbus.Proofs.Engine.Disposal
import Fieldbus.Proofs.Engine.Posting
import Fieldbus.Proofs.Engine.Seating
import Fieldbus.Proofs.Engine.Verdicts

/-!
# What one operation does to the counters

Operations complete transactions, refuse them, drop them, or lose their datagrams. For each of them
the counters, the slots and the queue change by amounts that fit together, and the amounts are
summed up over a run.
-/

namespace Fieldbus.Engine

variable {e e' : Engine} {index : UInt8}

/-! ## Sums over a run -/

/-- The sum over a run of what each operation counts for where it is performed. -/
def total (count : Engine → Operation → Nat) : Engine → List Operation → Nat
  | _, [] => 0
  | e, op :: later => count e op + total count (e.perform op) later

/-- What holds of each operation, debits and credits, adds up over a run. -/
theorem Reachable.run_total {allow : Operation → Prop} (gain loss : Engine → Nat)
    {credit debit : Engine → Operation → Nat}
    (step : ∀ {e : Engine}, e.Reachable → ∀ {op}, allow op →
      gain (e.perform op) + loss e + debit e op = gain e + loss (e.perform op) + credit e op)
    (h : e.Reachable) {ops : List Operation} (ok : ∀ op ∈ ops, allow op) :
    gain (e.run ops) + loss e + total debit e ops =
      gain e + loss (e.run ops) + total credit e ops := by
  induction ops generalizing e with
  | nil => rfl
  | cons op rest ih =>
      obtain ⟨first, others⟩ := List.forall_mem_cons.mp ok
      have now := step h first
      have later := ih (h.perform op) others
      rw [run_cons, total, total]
      omega

theorem Reachable.seated (h : e.Reachable) : e.Seated [] := by
  obtain ⟨config, pool, start, ops, rfl⟩ := h
  exact (seated_withParts config pool start).run ops

theorem Reachable.balanced (h : e.Reachable) : e.Balanced := by
  obtain ⟨config, pool, start, ops, rfl⟩ := h
  exact (sound_withParts config pool start).run_balanced (balanced_withParts config pool start) ops

/-! ## Dropping -/

/-- The transactions with a property that a call drops. -/
def drops (p : Transaction → Bool) (e : Engine) : Operation → Nat
  | .cancel index => ((e.slot index).any p).toNat
  | .withdraw index generation =>
      ((e.slot index).any fun t => t.generation == generation && p t).toNat
  | _ => 0

/-- Dropping a transaction changes no counter, and leaves its index in the queue. -/
structure Sheds (dropped : (Transaction → Bool) → Nat) (e e' : Engine) : Prop where
  statistics : e'.statistics = e.statistics
  queue : e'.queue = e.queue
  completed : e'.logged .completed = e.logged .completed
  census : ∀ p, e'.census p + dropped p = e.census p

theorem cancel_sheds (e : Engine) (index : UInt8) :
    Sheds (fun p => ((e.slot index).any p).toNat) e (e.cancel index).2 := by
  cases slot : e.slot index with
  | none =>
      simp only [cancel, slot]
      exact ⟨rfl, rfl, rfl, fun _ => rfl⟩
  | some t =>
      rw [cancel_eq slot]
      exact ⟨rfl, rfl, logged_record (e.setSlot index none) (.cancelled t.generation) .completed,
        census_detach slot (.cancelled t.generation)⟩

theorem withdraw_sheds (e : Engine) (index : UInt8) (generation : Nat) :
    Sheds (fun p => ((e.slot index).any fun t => t.generation == generation && p t).toNat) e
      (e.withdraw index generation).2 := by
  unfold withdraw
  split
  · rename_i held
    obtain ⟨statistics, queue, completed, census⟩ := cancel_sheds e index
    refine ⟨statistics, queue, completed, fun p => ?_⟩
    rw [← census p]
    congr 2
    cases slot : e.slot index with
    | none => rfl
    | some t =>
        have same : t.generation = generation := by simpa [generation?, slot] using held
        simp [same]
  · rename_i away
    refine ⟨rfl, rfl, rfl, fun p => ?_⟩
    cases slot : e.slot index with
    | none => rfl
    | some t =>
        have other : t.generation ≠ generation := by simpa [generation?, slot] using away
        simp [other]

/-! ## Receiving and sweeping -/

def Operation.intake : Operation → List Bytes
  | .receive bytes => [bytes]
  | _ => []

theorem answerAll_length (fuel : Nat) (c : Chain) (e : Engine) :
    (e.answerAll (c.take fuel)).1.1 + (e.answerAll (c.take fuel)).1.2 =
      ((c.take fuel).filterMap Except.toOption).length := by
  induction fuel generalizing c e with
  | zero => rfl
  | succ fuel ih =>
      rw [Chain.take]
      cases step : c.step? with
      | none => rfl
      | some found =>
          obtain ⟨item, rest⟩ := found
          cases item with
          | error cause =>
              simp only [Chain.take_failed step fuel]
              rfl
          | ok d =>
              have others := ih rest (e.answer d).2
              have one (found : Bool) : found.toNat + (!found).toNat = 1 := by
                cases found <;> rfl
              have first := one (e.answer d).1
              simp only [answerAll, List.filterMap_cons, Except.toOption, List.length_cons]
              generalize (e.answer d).2.answerAll (rest.take fuel) = result at others ⊢
              obtain ⟨⟨matched, stale⟩, after⟩ := result
              dsimp only at others ⊢
              omega

theorem Sound.receive_posts (h : e.Sound) {bytes : Bytes} {frame : Frame}
    (parsed : Frame.parse? bytes = .ok frame) :
    ∃ matched stale e', Posts 0 matched 0 0
        (e.tally fun s => { s with framesReceived := s.framesReceived + 1 }) e' ∧
      matched + stale = (Frame.decoded bytes).length ∧
      e.receive bytes = (.ok matched, e'.tally fun s => { s with
        datagramsMatched := s.datagramsMatched + matched
        staleDatagrams := s.staleDatagrams + stale }) := by
  let counted := e.tally fun s => { s with framesReceived := s.framesReceived + 1 }
  have sound : counted.Sound := h.relax rfl rfl rfl h.leased fun _ _ here => here
  have read := answerAll_length (frame.chain.region.length + 1) frame.chain counted
  refine ⟨(counted.answerAll frame.chain.toList).1.1, (counted.answerAll frame.chain.toList).1.2,
    (counted.answerAll frame.chain.toList).2, sound.answerAll_posts frame.chain.toList, ?_, ?_⟩
  · rw [Frame.decoded, parsed]
    exact read
  · simp only [receive, parsed]
    rfl

theorem receive_foreign {bytes : Bytes} {cause : Error}
    (foreign : Frame.parse? bytes = .error cause) (e : Engine) :
    e.receive bytes =
      (.error cause, e.tally fun s => { s with foreignFrames := s.foreignFrames + 1 }) := by
  simp only [receive, foreign]

/-- The transactions that the counters know to have ended. -/
def settled (e : Engine) : Nat :=
  e.statistics.datagramsMatched + e.statistics.datagramTimeouts

structure Lands (landed : Nat) (e e' : Engine) : Prop where
  settled : e'.settled = e.settled + landed
  sent : e'.statistics.datagramsSent = e.statistics.datagramsSent
  completed : e'.logged .completed = e.logged .completed + landed
  flying : e'.flying + landed = e.flying
  backlog : e'.queue.length + e.waitingCount ≤ e.queue.length + e'.waitingCount

theorem Sound.receive_lands (h : e.Sound) {bytes : Bytes} {frame : Frame}
    (parsed : Frame.parse? bytes = .ok frame) :
    ∃ matched, (e.receive bytes).1 = .ok matched ∧ Lands matched e (e.receive bytes).2 := by
  obtain ⟨matched, stale, e', posts, -, received⟩ := h.receive_posts parsed
  refine ⟨matched, by rw [received], ?_⟩
  rw [received]
  constructor
  case settled =>
    have hits : e'.statistics.datagramsMatched = e.statistics.datagramsMatched := posts.matched
    have timeouts : e'.statistics.datagramTimeouts = e.statistics.datagramTimeouts :=
      posts.timeouts
    show e'.statistics.datagramsMatched + matched + e'.statistics.datagramTimeouts =
      e.statistics.datagramsMatched + e.statistics.datagramTimeouts + matched
    rw [hits, timeouts, Nat.add_right_comm]
  case sent => exact posts.counted
  case completed => exact posts.completed
  case flying => exact posts.flying
  case backlog => exact posts.backlog

theorem Sound.sweep_lands (h : e.Sound) (now : Nat) :
    Lands (e.sweep now).1 e (e.sweep now).2 := by
  have posts := h.expireAll_posts now e.leases.leased
  constructor
  case settled =>
    have hits := posts.matched
    have timeouts := posts.timeouts
    show (e.expireAll now e.leases.leased).2.statistics.datagramsMatched +
        ((e.expireAll now e.leases.leased).2.statistics.datagramTimeouts + _) = _
    rw [hits, timeouts, Nat.add_zero, ← Nat.add_assoc]
    rfl
  case sent => exact posts.counted
  case completed => exact posts.completed
  case flying => exact posts.flying
  case backlog => exact posts.backlog

/-! ## One operation -/

/-- The waiting transactions that a call refuses for want of room. -/
def refuses (e : Engine) : Operation → Nat
  | @Operation.transmit _ _ _ _ port filter now =>
      (e.transmit port filter now).engine.logged .completed - e.logged .completed
  | _ => 0

/-- The datagrams that a call packs into frames that are not sent. -/
def loses (e : Engine) : Operation → Nat
  | @Operation.transmit _ _ _ _ port filter now => e.forfeits port filter now
  | _ => 0

structure Turns (e : Engine) (op : Operation) : Prop where
  completed : (e.perform op).logged .completed + e.settled =
    e.logged .completed + (e.perform op).settled
  flying : (e.perform op).settled + (e.perform op).flying + e.statistics.datagramsSent +
      e.drops Transaction.isSent op =
    e.settled + e.flying + (e.perform op).statistics.datagramsSent +
      (e.loses op + e.refuses op)
  backlog : (e.perform op).queue.length + e.waitingCount ≤
    e.queue.length + (e.perform op).waitingCount + e.drops Transaction.queued op

namespace Turns

variable {op : Operation}

theorem of_posts {refused sent : Nat}
    (posts : Posts refused 0 (sent + e.loses op) sent e (e.perform op))
    (refusals : e.refuses op = refused) (none : ∀ p, e.drops p op = 0) : Turns e op := by
  obtain ⟨-, matched, -, timeouts, counted, completed, -, flying, backlog⟩ := posts
  constructor
  case completed =>
    unfold settled
    omega
  case flying =>
    rw [none, refusals]
    unfold settled
    omega
  case backlog =>
    rw [none]
    exact backlog

theorem of_quiet (posts : Posts 0 0 0 0 e (e.perform op))
    (plain : e.loses op = 0 ∧ e.refuses op = 0) (none : ∀ p, e.drops p op = 0) : Turns e op := by
  have turned : Posts 0 0 (0 + e.loses op) 0 e (e.perform op) := by
    rw [plain.1]
    exact posts
  exact of_posts turned plain.2 none

theorem of_lands {landed : Nat} (lands : Lands landed e (e.perform op))
    (plain : e.loses op = 0 ∧ e.refuses op = 0) (none : ∀ p, e.drops p op = 0) : Turns e op := by
  obtain ⟨settled, sent, completed, flying, backlog⟩ := lands
  constructor
  case completed => rw [settled, completed, Nat.add_right_comm, Nat.add_assoc]
  case flying =>
    rw [none, plain.1, plain.2, settled, sent]
    omega
  case backlog =>
    rw [none]
    exact backlog

theorem of_sheds (sheds : Sheds (fun p => e.drops p op) e (e.perform op))
    (plain : e.loses op = 0 ∧ e.refuses op = 0) : Turns e op := by
  obtain ⟨statistics, queue, completed, census⟩ := sheds
  have flying : (e.perform op).flying + e.drops Transaction.isSent op = e.flying := census _
  have waiting : (e.perform op).waitingCount + e.drops Transaction.queued op =
    e.waitingCount := census _
  constructor
  case completed => rw [settled, settled, statistics, completed]
  case flying =>
    rw [settled, settled, statistics, plain.1, plain.2]
    omega
  case backlog =>
    rw [queue]
    omega

end Turns

def Operation.IsCounted : Operation → Prop
  | .close | .resetStatistics => False
  | _ => True

theorem Sound.turns (h : e.Sound) {op : Operation} (counted : op.IsCounted) : Turns e op := by
  cases op with
  | prepare r followUps =>
      exact .of_quiet (Posts.prepare h.leased r followUps) ⟨rfl, rfl⟩ fun _ => rfl
  | schedule index => exact .of_quiet (Posts.schedule e index) ⟨rfl, rfl⟩ fun _ => rfl
  | share pool =>
      have shared : Posts 0 0 0 0 e { e with pool } := .still rfl rfl rfl (Nat.le_refl _)
      exact .of_quiet shared ⟨rfl, rfl⟩ fun _ => rfl
  | transmit port filter now =>
      obtain ⟨refused, sent, posts⟩ := h.transmit_posts port filter now
      have growth := posts.completed
      have turned : Posts refused 0 (sent + e.loses (.transmit port filter now)) sent e
          (e.perform (.transmit port filter now)) := posts
      refine .of_posts turned ?_ fun _ => rfl
      rw [refuses]
      omega
  | receive bytes =>
      cases parsed : Frame.parse? bytes with
      | error cause =>
          have foreign : Lands 0 e (e.perform (.receive bytes)) := by
            rw [Engine.perform, receive_foreign parsed e]
            exact ⟨rfl, rfl, rfl, rfl, Nat.le_refl _⟩
          exact .of_lands foreign ⟨rfl, rfl⟩ fun _ => rfl
      | ok frame =>
          obtain ⟨matched, -, lands⟩ := h.receive_lands parsed
          exact .of_lands lands ⟨rfl, rfl⟩ fun _ => rfl
  | sweep now => exact .of_lands (h.sweep_lands now) ⟨rfl, rfl⟩ fun _ => rfl
  | cancel index => exact .of_sheds (cancel_sheds e index) ⟨rfl, rfl⟩
  | withdraw index generation => exact .of_sheds (withdraw_sheds e index generation) ⟨rfl, rfl⟩
  | close => exact counted.elim
  | resetStatistics => exact counted.elim

end Fieldbus.Engine
