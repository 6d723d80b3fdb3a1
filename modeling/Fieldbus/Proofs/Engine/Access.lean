import Fieldbus.Engine.Access
import Fieldbus.Proofs.Engine.Withdrawal
import Fieldbus.Simulation.Bus

/-!
# Accesses are exact and leave nothing behind

An access begins one transaction, waits while the engine runs for everyone, and takes the outcome
or withdraws the transaction. Its index may have gone to others in the meantime, but its generation
has not, so the outcome is that of its own transaction and of no other. Whichever way the access
ends, its transaction has ended once and gives up what it had.
-/

namespace Fieldbus

open JournalEntry (completes cancels ends packs)

def Outcome.answer : Outcome → Except Error (UInt16 × Bytes)
  | .response workCounter payload => .ok (workCounter, payload)
  | .timeout => .error .timeout

namespace Engine

variable {e : Engine} {index : UInt8} {generation id : Nat} {r : Request} {outcome : Outcome}

/-! ## Outcomes -/

theorem Sound.carries (h : e.Sound) (prepared : .prepared generation index r ∈ e.journal)
    {place : UInt8} {t : Transaction} (slot : e.slot place = some t)
    (same : t.generation = generation) : place = index ∧ t.Carries index r := by
  obtain ⟨s, known, carries⟩ := (h.backed slot).prepared
  obtain ⟨rfl, rfl⟩ := h.once (same ▸ known) prepared
  exact ⟨rfl, carries⟩

theorem Sound.filter_completes_eq (h : e.Sound)
    (prepared : .prepared generation index r ∈ e.journal)
    (completed : .completed generation id outcome ∈ e.journal) :
    e.journal.filter (completes generation) = [.completed generation id outcome] := by
  have here : .completed generation id outcome ∈ e.journal.filter (completes generation) :=
    List.mem_filter.mpr ⟨completed, beq_self_eq_true generation⟩
  have atMost := (h.fired_iff prepared).1
  rw [fired, List.countP_eq_length_filter] at atMost
  obtain ⟨x, one⟩ := List.length_eq_one_iff.mp
    (Nat.le_antisymm atMost (List.length_pos_of_mem here))
  rw [one, List.mem_singleton] at here
  rw [one, here]

theorem outcome?_eq_none_iff : e.outcome? generation = none ↔ e.fired generation = 0 := by
  rw [outcome?, List.findSome?_eq_none_iff, fired, List.countP_eq_zero]
  refine forall₂_congr fun x _ => ?_
  cases x <;> simp [outcomeOf?, completes]

theorem mem_of_outcome? (known : e.outcome? generation = some outcome) :
    ∃ id, .completed generation id outcome ∈ e.journal := by
  obtain ⟨x, here, about⟩ := List.exists_of_findSome?_eq_some known
  cases x with
  | completed g id o =>
      simp only [outcomeOf?] at about
      split at about
      · rename_i same
        cases about
        exact ⟨id, same ▸ here⟩
      · cases about
  | _ => cases about

/-- Whoever finds no outcome and cannot withdraw learns that somebody else has dropped the
transaction. -/
theorem Sound.cancelled_of_silent (h : e.Sound)
    (prepared : .prepared generation index r ∈ e.journal) (silent : e.fired generation = 0)
    (away : ¬e.Outstanding generation) : .cancelled generation ∈ e.journal := by
  have one := h.settled prepared away
  rw [endings_eq, silent, Nat.zero_add] at one
  obtain ⟨x, here, cancels⟩ := List.countP_pos_iff.mp (one ▸ Nat.one_pos)
  cases x with
  | cancelled g => exact eq_of_beq cancels ▸ here
  | _ => cases cancels

theorem Sound.run_cause (h : e.Sound) (prepared : .prepared generation index r ∈ e.journal)
    (ops : List Operation) (completed : .completed generation id outcome ∈ (e.run ops).journal)
    (new : .completed generation id outcome ∉ e.journal) :
    id = r.id ∧ ∃ before op after, ops = before ++ op :: after ∧
      Cause (e.run before) generation index r op outcome := by
  induction ops generalizing e with
  | nil => exact absurd completed new
  | cons op rest ih =>
      have sound := h.perform op
      have known := (h.journal_perform op).subset prepared
      by_cases now : .completed generation id outcome ∈ (e.perform op).journal
      · obtain ⟨xs, journal, causes⟩ := h.cause op
        have reported := (List.mem_append.mp (journal ▸ now)).resolve_left new
        obtain ⟨place, s, prepared', named, cause⟩ := causes _ _ _ reported
        obtain ⟨rfl, rfl⟩ := sound.once known prepared'
        exact ⟨named, [], op, rest, rfl, cause⟩
      · obtain ⟨named, before, op', after, rfl, cause⟩ := ih sound known completed now
        exact ⟨named, op :: before, op', after, rfl, cause⟩

/-! ## Beginning -/

/-- No transaction has begun. All that may have changed is where the next search for an index
begins and the order in which the pool lends its buffers. -/
structure Unbegun (e e' : Engine) : Prop where
  slots : e'.slots = e.slots
  queue : e'.queue = e.queue
  journal : e'.journal = e.journal
  statistics : e'.statistics = e.statistics
  nextGeneration : e'.nextGeneration = e.nextGeneration
  leased : ∀ index, e'.leases.isLeased index = e.leases.isLeased index
  stocked : e.Stocked [] → e'.Stocked []

structure Begun (a : Access) (timeout : Nat) (e : Engine) (index : UInt8) (e' : Engine) :
    Prop where
  journal : e'.journal = e.journal ++ [.prepared e.nextGeneration index (a.request timeout)]
  placed : ∃ t, e'.slot index = some t ∧ t.generation = e.nextGeneration ∧ t.queued = true ∧
    t.encoded = Datagram.encode a.command index a.address a.payload
  others : ∀ other, other ≠ index → e'.slot other = e.slot other
  queue : e'.queue = e.queue ++ [index]
  statistics : e'.statistics = e.statistics

def submitted (e : Engine) (a : Access) (timeout : Nat) (index : UInt8) : Engine :=
  e.run [.prepare (a.request timeout) [], .schedule index]

theorem begin_cases (h : e.Sound) (a : Access) (timeout : Nat) :
    (∃ cause, (e.prepare (a.request timeout) []).1 = .error cause ∧
      (e.begin a timeout).1 = .error cause ∧ Unbegun e (e.begin a timeout).2) ∨
    ∃ index, (e.prepare (a.request timeout) []).1 = .ok index ∧
      e.begin a timeout = (.ok ⟨index, e.nextGeneration⟩, e.submitted a timeout index) ∧
      Begun a timeout e index (e.submitted a timeout index) := by
  rcases e.prepare_cases (a.request timeout) [] with
    ⟨cause, leases, pool, prepared, same, -⟩ | ⟨index, leases, pool, b, -, prepared, -⟩
  · have failed : e.begin a timeout = (.error cause, { e with leases, pool }) := by
      rw [begin, prepared]
    refine .inl ⟨cause, congrArg Prod.fst prepared, congrArg Prod.fst failed, ?_⟩
    rw [failed]
    refine ⟨rfl, rfl, rfl, rfl, rfl, same, fun stocked => ?_⟩
    have kept := stocked.prepare (a.request timeout) []
    rwa [prepared] at kept
  · let t := Transaction.ofRequest (a.request timeout) [] e.nextGeneration index b
    let e₁ := { e with leases, pool }.enroll (a.request timeout) t
    have slot : e₁.slot index = some t := (slot_enroll _ _ t index).trans (if_pos rfl)
    have scheduled := schedule_eq slot rfl rfl
    have done : e.submitted a timeout index = (e₁.schedule index).2 := by
      rw [submitted, run_cons, perform, prepared]
      rfl
    have slots (other : UInt8) := slot_setSlot { e₁ with queue := e₁.queue ++ [index] } index other
      (some { t with queued := true })
    refine .inr ⟨index, congrArg Prod.fst prepared, ?_, ?_⟩
    · rw [begin, prepared, done]
      dsimp only
      rw [generation?_eq slot, scheduled]
      rfl
    · have sound : (e.submitted a timeout index).Sound :=
        h.run [.prepare (a.request timeout) [], .schedule index]
      have journal : (e.submitted a timeout index).journal =
          e.journal ++ [.prepared e.nextGeneration index (a.request timeout)] := by
        rw [done, scheduled]
        rfl
      have known : .prepared e.nextGeneration index (a.request timeout) ∈
          (e.submitted a timeout index).journal :=
        journal ▸ List.mem_append_right _ (List.mem_singleton_self _)
      have here : (e.submitted a timeout index).slot index = some { t with queued := true } := by
        rw [done, scheduled, slots, if_pos rfl]
      refine ⟨journal, ⟨_, here, rfl, rfl, (sound.carries known here rfl).2.encoded⟩,
        fun other ne => ?_, ?_, ?_⟩
      · rw [done, scheduled, slots, if_neg ne]
        exact (slot_enroll _ _ t other).trans (if_neg ne)
      · rw [done, scheduled]
        rfl
      · rw [done, scheduled]
        rfl

/-! ## Ending -/

/-- Nothing more comes of a transaction. If its index is on lease, another transaction has it. -/
structure Over (generation : Nat) (e : Engine) : Prop where
  away : ¬e.Outstanding generation
  ended : e.endings generation = 1
  leased : ∀ index, e.leases.isLeased index = true →
    ∃ t, e.slot index = some t ∧ t.generation ≠ generation
  later : ∀ ops, ¬(e.run ops).Outstanding generation ∧
    (e.run ops).fired generation = e.fired generation ∧
    (e.run ops).journal.countP (packs generation) = e.journal.countP (packs generation)

theorem Reachable.finished (h : e.Reachable) (prepared : .prepared generation index r ∈ e.journal)
    (away : ¬e.Outstanding generation) : Over generation e := by
  have ended := h.sound.settled prepared away
  refine ⟨away, ended, fun place leased => ?_, fun ops => ?_⟩
  · obtain ⟨t, slot⟩ :=
      Option.isSome_iff_exists.mp ((h.seated.isLeased_iff h.sound place).mp leased)
    exact ⟨t, slot, fun same => away ⟨place, t, slot, same⟩⟩
  · have sound := h.sound.run ops
    have known := h.sound.mem_run ops prepared
    obtain ⟨xs, journal⟩ := h.sound.journal_run ops
    have longer (p : JournalEntry → Bool) : e.journal.countP p ≤ (e.run ops).journal.countP p := by
      rw [← journal, List.countP_append]
      exact Nat.le_add_right _ _
    have still : e.endings generation ≤ (e.run ops).endings generation := longer (ends generation)
    have out : ¬(e.run ops).Outstanding generation := fun out => by
      have none := sound.pending out
      omega
    refine ⟨out, ?_, h.packings_run (ended ▸ Nat.one_ne_zero) ops⟩
    have ended' := sound.settled known out
    have fires : e.fired generation ≤ (e.run ops).fired generation := longer (completes generation)
    have drops : e.cancellations generation ≤ (e.run ops).cancellations generation :=
      longer (cancels generation)
    rw [endings_eq] at ended ended'
    omega

/-- How an access ends that has begun with `e` and waited while `ops` ran: with an answer to its
transaction, or because time ran out for the transaction, somebody else dropped it, or nothing came
and the access withdraws it. -/
inductive Ends (p : PendingAccess) (r : Request) (e : Engine) (ops : List Operation) :
    Except Error (UInt16 × Bytes) → Engine → Prop
  | answered {before after : List Operation} {bytes : Bytes} {workCounter : UInt16}
      {payload : Bytes} (split : ops = before ++ .receive bytes :: after)
      (cause : Cause (e.run before) p.generation p.index r (.receive bytes)
        (.response workCounter payload))
      (once : (e.run ops).journal.filter (completes p.generation) =
        [.completed p.generation r.id (.response workCounter payload)]) :
      Ends p r e ops (.ok (workCounter, payload)) (e.run ops)
  | expired {before after : List Operation} {op : Operation}
      (split : ops = before ++ op :: after)
      (cause : Cause (e.run before) p.generation p.index r op .timeout)
      (once : (e.run ops).journal.filter (completes p.generation) =
        [.completed p.generation r.id .timeout]) :
      Ends p r e ops (.error .timeout) (e.run ops)
  | dropped (cancelled : .cancelled p.generation ∈ (e.run ops).journal) :
      Ends p r e ops (.error .timeout) (e.run ops)
  | withdrawn (undecided : (e.run ops).fired p.generation = 0)
      (withdrawn : Withdrawn (e.run ops) p.index p.generation
        ((e.run ops).withdraw p.index p.generation).2) :
      Ends p r e ops (.error .timeout) ((e.run ops).withdraw p.index p.generation).2

variable {p : PendingAccess}

theorem Reachable.collect_ends (h : e.Reachable)
    (prepared : .prepared p.generation p.index r ∈ e.journal)
    (unended : e.endings p.generation = 0) (ops : List Operation) :
    Ends p r e ops ((e.run ops).collect p).1 ((e.run ops).collect p).2 := by
  have onward : (e.run ops).Reachable := h.run ops
  have known := h.sound.mem_run ops prepared
  unfold collect
  cases decided : (e.run ops).outcome? p.generation with
  | none =>
      have silent := outcome?_eq_none_iff.mp decided
      by_cases held : (e.run ops).generation? p.index = some p.generation
      · exact .withdrawn silent (onward.withdrawn ((withdraw_iff _ _ _).mpr held))
      · have away : ¬(e.run ops).Outstanding p.generation := by
          rintro ⟨place, t, slot, same⟩
          obtain ⟨rfl, -⟩ := onward.sound.carries known slot same
          exact held (same ▸ generation?_eq slot)
        have kept : (e.run ops).withdraw p.index p.generation = (false, e.run ops) := if_neg held
        rw [kept]
        exact .dropped (onward.sound.cancelled_of_silent known silent away)
  | some outcome =>
      obtain ⟨id, completed⟩ := mem_of_outcome? decided
      have new : .completed p.generation id outcome ∉ e.journal := fun old =>
        List.countP_eq_zero.mp unended _ old (by simp [ends, completes])
      obtain ⟨rfl, before, op, after, split, cause⟩ :=
        h.sound.run_cause prepared ops completed new
      have once := onward.sound.filter_completes_eq known completed
      cases outcome with
      | timeout => exact .expired split cause once
      | response workCounter payload =>
          have received : ∃ bytes, op = .receive bytes := by
            cases cause
            exact ⟨_, rfl⟩
          obtain ⟨bytes, rfl⟩ := received
          exact .answered split cause once

theorem Ends.ran {ops : List Operation} {answer : Except Error (UInt16 × Bytes)} {e' : Engine}
    (ended : Ends p r e ops answer e') : ∃ last, e' = e.run (ops ++ last) := by
  cases ended with
  | withdrawn =>
      have ran := run_append e ops [.withdraw p.index p.generation]
      exact ⟨[.withdraw p.index p.generation], ran.symm⟩
  | _ => exact ⟨[], (congrArg e.run (List.append_nil ops)).symm⟩

theorem Ends.away {ops : List Operation} {answer : Except Error (UInt16 × Bytes)} {e' : Engine}
    (ended : Ends p r e ops answer e') (h : e.Reachable) : ¬e'.Outstanding p.generation := by
  have sound := h.sound.run ops
  have completed {id : Nat} {outcome : Outcome}
      (once : (e.run ops).journal.filter (completes p.generation) =
        [.completed p.generation id outcome]) : ¬(e.run ops).Outstanding p.generation := by
    rintro ⟨index, t, slot, same⟩
    have none := sound.filter_outstanding slot
    rw [same, once] at none
    cases none
  cases ended with
  | answered split cause once => exact completed once
  | expired split cause once => exact completed once
  | dropped cancelled =>
      intro out
      exact List.countP_eq_zero.mp (sound.pending out) _ cancelled (by simp [ends, cancels])
  | withdrawn undecided withdrawn =>
      obtain ⟨t, slot, same, -⟩ := withdrawn.held
      have done := (withdraw_iff (e.run ops) p.index p.generation).mpr
        (same ▸ generation?_eq slot)
      exact ((h.run ops).gone done []).away

theorem Ends.stocked {ops : List Operation} {answer : Except Error (UInt16 × Bytes)} {e' : Engine}
    (ended : Ends p r e ops answer e') (stocked : e.Stocked []) (own : ∀ op ∈ ops, op.IsOwn) :
    e'.Stocked [] := by
  have waited := stocked.run own
  cases ended with
  | withdrawn => exact waited.withdraw p.index p.generation
  | _ => exact waited

/-- It makes no difference whether the caller looks for the outcome or tries to withdraw first: an
outcome that comes after the caller has stopped waiting is taken all the same. -/
theorem Sound.collect_late (h : e.Sound) (p : PendingAccess) :
    e.collect p =
      if (e.withdraw p.index p.generation).1 then
        (.error .timeout, (e.withdraw p.index p.generation).2)
      else
        (((e.outcome? p.generation).map Outcome.answer).getD (.error .timeout), e) := by
  unfold collect
  cases decided : e.outcome? p.generation with
  | none =>
      cases done : (e.withdraw p.index p.generation).1 with
      | false => rw [withdraw_of_false done]; rfl
      | true => rfl
  | some outcome =>
      have fired : e.fired p.generation ≠ 0 := fun silent => by
        rw [outcome?_eq_none_iff.mpr silent] at decided
        cases decided
      have kept : (e.withdraw p.index p.generation).1 = false := by
        rw [← Bool.not_eq_true, withdraw_iff, h.generation?_iff, endings_eq]
        omega
      rw [kept]
      cases outcome <;> rfl

/-! ## Accesses -/

/-- What an access is to the engine that carries it. -/
inductive Accessed (a : Access) (timeout : Nat) (e : Engine) :
    Except Error (UInt16 × Bytes) → Engine → Prop
  | refused {cause : Error} {e' : Engine}
      (failed : (e.prepare (a.request timeout) []).1 = .error cause) (unbegun : Unbegun e e') :
      Accessed a timeout e (.error cause) e'
  | carried {index : UInt8} {ops : List Operation} {answer : Except Error (UInt16 × Bytes)}
      {e' : Engine} (prepared : (e.prepare (a.request timeout) []).1 = .ok index)
      (begun : Begun a timeout e index (e.submitted a timeout index))
      (carries : ∀ before after, ops = before ++ after → ∀ place t,
        ((e.submitted a timeout index).run before).slot place = some t →
        t.generation = e.nextGeneration → place = index ∧ t.Carries index (a.request timeout))
      (ended : Ends ⟨index, e.nextGeneration⟩ (a.request timeout) (e.submitted a timeout index) ops
        answer e')
      (finished : Over e.nextGeneration e')
      (stocked : e.Stocked [] → (∀ op ∈ ops, op.IsOwn) →
        e'.Stocked [] ∧ e'.pool.available + e'.inFlight = e'.pool.capacity) :
      Accessed a timeout e answer e'

theorem Reachable.accessed (h : e.Reachable) {a : Access} {timeout : Nat}
    (done : (e.prepare (a.request timeout) []).1 = .ok index)
    (begun : Begun a timeout e index (e.submitted a timeout index)) (ops : List Operation) :
    let waited := (e.submitted a timeout index).run ops
    Accessed a timeout e (waited.collect ⟨index, e.nextGeneration⟩).1
      (waited.collect ⟨index, e.nextGeneration⟩).2 := by
  have next : (e.submitted a timeout index).Reachable :=
    h.run [.prepare (a.request timeout) [], .schedule index]
  have prepared : .prepared e.nextGeneration index (a.request timeout) ∈
      (e.submitted a timeout index).journal :=
    begun.journal ▸ List.mem_append_right _ (List.mem_singleton_self _)
  obtain ⟨t, slot, same, -, -⟩ := begun.placed
  have unended := next.sound.pending ⟨index, t, slot, same⟩
  have ended := next.collect_ends (p := ⟨index, e.nextGeneration⟩) prepared unended ops
  obtain ⟨last, ran⟩ := ended.ran
  have reachable := next.run (ops ++ last)
  have known := next.sound.mem_run (ops ++ last) prepared
  rw [← ran] at reachable known
  refine .carried done begun (fun before after _ place u there named => ?_) ended
    (reachable.finished known (ended.away next)) fun stocked own => ?_
  · exact (next.sound.run before).carries (next.sound.mem_run before prepared) there named
  · have submits : ∀ op ∈ ([.prepare (a.request timeout) [], .schedule index] : List Operation),
        op.IsOwn := by simp [Operation.IsOwn]
    have begun' : (e.submitted a timeout index).Stocked [] := stocked.run submits
    have kept := ended.stocked begun' own
    exact ⟨kept, kept.available_add⟩

end Engine

/-! ## Carriers -/

namespace Carrier

open Engine

variable {σ : Type} {c : Carrier σ} {s : σ}

/-- A carrier has one engine, and while an access waits it does what can be done with an engine. -/
structure Lawful (c : Carrier σ) : Prop where
  engine_setEngine : ∀ e s, c.engine (c.setEngine e s) = e
  operates : ∀ p s, ∃ ops, c.engine (c.run p s) = (c.engine s).run ops

theorem Lawful.accessed (lawful : c.Lawful) (h : (c.engine s).Reachable) (a : Access) :
    Accessed a c.timeout (c.engine s) (c.carry a s).1 (c.engine (c.carry a s).2) := by
  unfold carry
  rcases begin_cases h.sound a c.timeout with
    ⟨cause, prepared, failed, unbegun⟩ | ⟨index, prepared, done, begun⟩
  · generalize (c.engine s).begin a c.timeout = result at failed unbegun ⊢
    obtain ⟨result, e'⟩ := result
    obtain rfl : result = .error cause := failed
    dsimp only at unbegun ⊢
    rw [lawful.engine_setEngine]
    exact .refused prepared unbegun
  · rw [done]
    dsimp only
    let p : PendingAccess := ⟨index, (c.engine s).nextGeneration⟩
    obtain ⟨ops, ran⟩ :=
      lawful.operates p (c.setEngine ((c.engine s).submitted a c.timeout index) s)
    rw [lawful.engine_setEngine] at ran
    rw [ran, lawful.engine_setEngine]
    exact h.accessed prepared begun ops

theorem slotState_eq (c : Carrier σ) (slave : SlaveConfig) (sm : SyncManager) (s : σ) :
    c.slotState slave sm s =
      ((c.carry (.status slave sm) s).1.bind fun (workCounter, payload) =>
          if workCounter = 0 then .error .timeout else .ok (.ofStatus (payload.headD 0)),
        (c.carry (.status slave sm) s).2) := by
  unfold slotState
  generalize c.carry (.status slave sm) s = result
  obtain ⟨cause | ⟨workCounter, payload⟩, s'⟩ := result
  · rfl
  · dsimp only [Except.bind]
    split <;> rfl

theorem read_eq (c : Carrier σ) (slave : SlaveConfig) (bytes : Bytes) (s : σ) :
    let (answer, s') := c.carry (.read slave bytes.length) s
    let payload := answer.toOption.elim [] Prod.snd
    c.read slave bytes s = ((answer.map Prod.fst,
      payload.take bytes.length ++ Bytes.zeros (bytes.length - payload.length)), s') := by
  unfold read
  generalize c.carry (.read slave bytes.length) s = result
  obtain ⟨cause | ⟨workCounter, payload⟩, s'⟩ := result
  · simp [Except.map, Except.toOption]
  · have behind :
        bytes.length - min bytes.length payload.length = bytes.length - payload.length := by
      omega
    simp [Except.map, Except.toOption, Bytes.overwrite_zero, Bytes.zeros, behind]

end Carrier

namespace Simulation.Bus

open Engine

/-! ## The bus -/

theorem engine_exchange (b : Bus) (frame : Bytes) :
    ∃ op, (b.exchange frame).engine = b.engine.perform op := by
  unfold exchange
  split
  · exact ⟨.sweep b.timeout, rfl⟩
  · exact ⟨.receive (b.slave.answerFrame frame).1, rfl⟩

theorem engine_exchanges (b : Bus) (frames : List Bytes) :
    ∃ ops, (frames.foldl exchange b).engine = b.engine.run ops := by
  induction frames generalizing b with
  | nil => exact ⟨[], rfl⟩
  | cons frame rest ih =>
      obtain ⟨op, first⟩ := b.engine_exchange frame
      obtain ⟨ops, others⟩ := ih (b.exchange frame)
      exact ⟨op :: ops, by rw [List.foldl_cons, others, first, run_cons]⟩

theorem lawful_carrier (b : Bus) : b.carrier.Lawful := by
  refine ⟨fun _ _ => rfl, fun p b => ?_⟩
  show ∃ ops, (Bus.run p b).engine = b.engine.run ops
  unfold Bus.run
  split
  · exact ⟨[], rfl⟩
  · obtain ⟨ops, exchanged⟩ := engine_exchanges
      { b with
        engine := (b.engine.transmit b.port PassThrough.mk 0).engine
        port := (b.engine.transmit b.port PassThrough.mk 0).port.flip.takeFrames.2.flip }
      (b.engine.transmit b.port PassThrough.mk 0).port.flip.takeFrames.1
    exact ⟨.transmit b.port PassThrough.mk 0 :: ops, exchanged⟩

end Simulation.Bus

namespace Carrier

open Engine Simulation

variable {σ : Type} {c : Carrier σ} {s : σ}

/-! ## The contract -/

/-- Each way to reach a slot is one access with a datagram of its own, and what the caller gets is
the answer to that datagram. -/
theorem accesses_exact (lawful : c.Lawful) (reachable : (c.engine s).Reachable)
    (slave : SlaveConfig) :
    let e := c.engine s
    (∀ sm : SyncManager, ∃ answer,
      Accessed ⟨.fprd, .physical slave.fixedAddress (0x0805 + 8 * sm.number.toUInt16), [0]⟩
        c.timeout e answer (c.engine (c.slotState slave sm s).2) ∧
      (c.slotState slave sm s).1 = answer.bind fun (workCounter, payload) =>
        if workCounter = 0 then .error .timeout else .ok (.ofStatus (payload.headD 0))) ∧
    (∀ data, ∃ answer,
      Accessed ⟨.fpwr, .physical slave.fixedAddress slave.writeSlot.address, data⟩
        c.timeout e answer (c.engine (c.write slave data s).2) ∧
      (c.write slave data s).1 = answer.map Prod.fst) ∧
    ∀ bytes, ∃ answer,
      Accessed ⟨.fprd, .physical slave.fixedAddress slave.readSlot.address,
          List.replicate bytes.length 0⟩
        c.timeout e answer (c.engine (c.read slave bytes s).2) ∧
      let payload := answer.toOption.elim [] Prod.snd
      (c.read slave bytes s).1 = (answer.map Prod.fst,
        payload.take bytes.length ++ List.replicate (bytes.length - payload.length) 0) := by
  intro e
  refine ⟨fun sm => ?_, fun data => ?_, fun bytes => ?_⟩
  · rw [slotState_eq]
    exact ⟨_, lawful.accessed reachable (.status slave sm), rfl⟩
  · exact ⟨_, lawful.accessed reachable (.write slave data), rfl⟩
  · rw [read_eq]
    exact ⟨_, lawful.accessed reachable (.read slave bytes.length), rfl⟩

def terminal : SlaveConfig := { position := 0, fixedAddress := 0x1001, supported := .all }

def line : Bus := .create (.withParts {} (.openWith 0 2 64) (.startingAt 7)) 1500 terminal 100

/-- Two zeros are read from a new terminal. -/
theorem accesses_exact_line :
    (line.carrier.read terminal [5, 5] line).1.1.toOption = some 1 ∧
      (line.carrier.read terminal [5, 5] line).1.2 = [0, 0] ∧
      ∃ answer, (answer.map Prod.fst).toOption = some 1 ∧
        Accessed ⟨.fprd, .physical terminal.fixedAddress terminal.readSlot.address, [0, 0]⟩
          line.carrier.timeout (line.carrier.engine line) answer
          (line.carrier.engine (line.carrier.read terminal [5, 5] line).2) := by
  have done : (line.carrier.read terminal [5, 5] line).1.1.toOption = some 1 := by decide +kernel
  have zeros : (line.carrier.read terminal [5, 5] line).1.2 = [0, 0] := by decide +kernel
  have reachable : line.engine.Reachable := ⟨{}, .openWith 0 2 64, 7, [], rfl⟩
  obtain ⟨-, -, reads⟩ := accesses_exact (s := line) line.lawful_carrier reachable terminal
  obtain ⟨answer, accessed, result⟩ := reads [5, 5]
  have counted : (line.carrier.read terminal [5, 5] line).1.1 = answer.map Prod.fst :=
    congrArg Prod.fst result
  exact ⟨done, zeros, answer, counted ▸ done, accessed⟩

end Carrier

end Fieldbus
