import Fieldbus.Proofs.Engine.Line
import Fieldbus.Proofs.Engine.Stranding

/-!
# The order of packing

While a call packs frames, the index that ends a frame keeps its place before the queue. When the
call stops, that index is put back at the end of the queue. So transactions are packed in the order
in which they last joined the line: who was never put back is packed before all that joined later.
-/

namespace Fieldbus.Engine

open scoped List
open JournalEntry (prepared? packed?)

variable {joined back : List Nat} {e : Engine} {index : UInt8} {t : Transaction} {now : Nat}

/-! ## Packing -/

theorem Continues.refuse (slot : e.slot index = some t) :
    Continues (e.delay [index]) (e.refuse index) := by
  have finished : Continues (e.delay [index]) (e.finish index .timeout) :=
    ⟨fun h => h.finish slot (by simp) (List.nodup_cons.mp h.distinct).1 .timeout⟩
  exact finished.trans (.count _ _)

theorem Continues.markSent (now : Nat) (slot : e.slot index = some t) (queued : t.queued = true) :
    Continues (e.delay [index]) (e.markSent now index t) := by
  refine .of_pass (fun {joined back} h => ?_) ?_
  · have packed : Move (e.delay [index]) [.packed t.generation index now]
        (e.markSent now index t) := @Move.pack (e.delay [index]) index e.queue t now rfl slot queued
    have queue : (e.delay [index]).queue = [index] ++ (e.markSent now index t).queue := rfl
    have slots (other : UInt8) : (e.markSent now index t).slot other =
        if other = index then some (t.markSent now) else e.slot other :=
      slot_setSlot e index other _
    have order : (e.markSent now index t).packOrder =
        (e.delay [index]).packOrder ++ [t.generation] := by
      simp [packOrder, Engine.markSent, setSlot, Engine.record, delay, packed?]
    refine h.shrink (packed.sound h.sound).1 queue (fun other => ?_) rfl order ?_
    · rw [slots]
      split
      · rename_i here
        refine .inr ⟨here ▸ (List.nodup_cons.mp h.distinct).1, fun u sent unsent => ?_⟩
        cases sent
        cases unsent
      · exact .inl rfl
    · have there : (e.delay [index]).generation? index = some t.generation := generation?_eq slot
      rw [List.filterMap_cons_some there]
      exact List.Sublist.refl _
  · simp [entrants, Engine.markSent, setSlot, Engine.record, delay, prepared?]

theorem PackStep.continues {p p' : Packing} (step : PackStep now p p') :
    Continues p.whole p'.whole := by
  cases step with
  | @skip index e taken idle =>
      -- No index is stale in an orderly queue.
      refine ⟨fun {joined back} h => ?_⟩
      rw [Packing.whole, dequeue_eq_some taken] at h
      obtain ⟨t, slot, queued⟩ := h.live index List.mem_cons_self
      rw [idle t slot] at queued
      cases queued
  | @refuse index e t taken slot =>
      have front : p.whole = e.delay [index] := dequeue_eq_some taken
      rw [front]
      exact .refuse slot
  | @place index e t frame taken slot queued =>
      have front : p.whole = e.delay [index] := dequeue_eq_some taken
      rw [front]
      exact .markSent now slot queued

theorem PackEnd.whole_eq {p : Packing} {result : Except Error Unit × Packing}
    (ending : PackEnd p result) (h : p.whole.Sound) : result.2.whole = p.whole := by
  unfold Packing.whole
  cases ending with
  | spent => rfl
  | drained nothing => rw [(dequeue_eq_none nothing).1]
  | full taken =>
      rw [dequeue_eq_some taken]
      rfl
  | failed taken slot room appended =>
      obtain ⟨frame, accepted⟩ := append_front h taken slot room
      rw [appended] at accepted
      cases accepted

theorem pack_continues (now fuel : Nat) (p : Packing) :
    Continues p.whole (pack now fuel p).2.whole := by
  obtain ⟨p', path, ending⟩ := pack_path now fuel p
  have led : Continues p.whole p'.whole := by
    clear ending
    induction path with
    | refl => exact .refl _
    | tail _ step ih => exact ih.trans step.continues
  refine ⟨fun h => ?_⟩
  obtain ⟨new, entrants, orderly⟩ := led.orderly h
  rw [ending.whole_eq orderly.sound]
  exact ⟨new, entrants, orderly⟩

/-! ## Frames one after the other -/

namespace Transmission

variable {π φ : Type} [FramePort π] [FrameFilter φ]

theorem Sent.continues {e e' : Engine} (sent : Sent e e') (carry : Option UInt8) :
    Continues (e.reclaim carry) (e'.reclaim carry) := by
  cases sent with
  | counted => exact .count _ _
  | taken => exact (Continues.record (e.reclaim carry) rfl).trans (.count _ _)

theorem step_continues (s : Transmission π φ) (now : Nat) :
    Continues s.whole (s.step now).2.whole := by
  have stepped := step_stepped s now
  rw [whole, whole]
  generalize (s.step now).2.engine = e, (s.step now).2.carry = carry at stepped ⊢
  cases stepped with
  | counted => exact .count _ _
  | @filled port port' buffer frame p e free lent created packed sent =>
      have path := pack_continues now (s.engine.workload + 1) ⟨s.engine, frame, s.carry, 0⟩
      rw [packed] at path
      exact path.trans (sent.continues p.carry)

def halt (now : Nat) : Nat → Transmission π φ → Transmission π φ
  | 0, s => s
  | fuel + 1, s =>
      match s.step now with
      | (some _, s) => s
      | (none, s) => halt now fuel s

theorem halt_continues (now fuel : Nat) (s : Transmission π φ) :
    Continues s.whole (halt now fuel s).whole := by
  induction fuel generalizing s with
  | zero => exact .refl _
  | succ fuel ih =>
      have stepped := step_continues s now
      rw [halt]
      generalize s.step now = result at stepped ⊢
      obtain ⟨ending, s'⟩ := result
      cases ending with
      | some ending => exact stepped
      | none => exact stepped.trans (ih s')

theorem run_engine (now fuel : Nat) (s : Transmission π φ) :
    (run now fuel s).engine = (halt now fuel s).engine.requeue (halt now fuel s).carry := by
  induction fuel generalizing s with
  | zero => rfl
  | succ fuel ih =>
      rw [run, halt]
      cases s.step now with
      | mk ending s' =>
          cases ending with
          | some ending => rfl
          | none => exact ih s'

end Transmission

def Transmission.carried {π φ : Type} (s : Transmission π φ) : List Nat :=
  s.carry.toList.filterMap s.engine.generation?

theorem Orderly.requeue {π φ : Type} {s : Transmission π φ} (h : Orderly joined back s.whole) :
    Orderly (joined ++ s.carried) (back ++ s.carried) (s.engine.requeue s.carry) := by
  obtain ⟨e, carry, port, filter, frames⟩ := s
  cases carry with
  | none =>
      have same : e.requeue none = e := by simp [Engine.requeue]
      have none : Transmission.carried ⟨e, none, port, filter, frames⟩ = [] := rfl
      rw [none, same, List.append_nil, List.append_nil]
      exact h
  | some index =>
      have whole : Transmission.whole ⟨e, some index, port, filter, frames⟩ = e.delay [index] := rfl
      rw [whole] at h
      obtain ⟨t, slot, queued⟩ := h.live index List.mem_cons_self
      have there : e.generation? index = some t.generation := generation?_eq slot
      have carried : Transmission.carried ⟨e, some index, port, filter, frames⟩ =
          [t.generation] := List.filterMap_cons_some there
      rw [carried]
      exact h.rotate slot

/-! ## Runs -/

/-- Nothing is called off. -/
def Operation.Keeps : Operation → Prop
  | .cancel _ | .withdraw .. | .close => False
  | _ => True

/-- Who joins the line for the first time: who is scheduled, and who is submitted when another
completes. -/
def admitted (e : Engine) : Operation → List Nat
  | .prepare .. => []
  | .schedule index => e.called index
  | op => (e.perform op).entrants.drop e.entrants.length

def putBack (e : Engine) : Operation → List Nat
  | @Operation.transmit _ _ _ _ port filter now =>
      (Transmission.halt now (e.workload + 1) (.opening e port filter)).carried
  | _ => []

/-- Who joins the line in a run, in turn. -/
def joinings (e : Engine) : List Operation → List Nat
  | [] => []
  | op :: later => e.admitted op ++ e.putBack op ++ (e.perform op).joinings later

def returns (e : Engine) : List Operation → List Nat
  | [] => []
  | op :: later => e.putBack op ++ (e.perform op).returns later

theorem Continues.admits {e' : Engine} (path : Continues e e') (h : Orderly joined back e) :
    Orderly (joined ++ e'.entrants.drop e.entrants.length) back e' := by
  obtain ⟨new, entrants, orderly⟩ := path.orderly h
  rwa [entrants, List.drop_left]

theorem Orderly.transmit {π φ : Type} [FramePort π] [FrameFilter φ] (h : Orderly joined back e)
    (port : π) (filter : φ) (now : Nat) :
    Orderly (joined ++ e.admitted (.transmit port filter now) ++
        e.putBack (.transmit port filter now))
      (back ++ e.putBack (.transmit port filter now)) (e.transmit port filter now).engine := by
  have halted := (Transmission.halt_continues now (e.workload + 1)
    (.opening e port filter)).admits h
  have stopped := Transmission.run_engine now (e.workload + 1) (.opening e port filter)
  have admitted : e.admitted (.transmit port filter now) =
      (Transmission.halt now (e.workload + 1) (.opening e port filter)).whole.entrants.drop
        e.entrants.length := congrArg (fun e' => e'.entrants.drop e.entrants.length) stopped
  rw [admitted, Engine.transmit, stopped]
  exact halted.requeue

theorem Orderly.perform (h : Orderly joined back e) {op : Operation} (keeps : op.Keeps) :
    Orderly (joined ++ e.admitted op ++ e.putBack op) (back ++ e.putBack op) (e.perform op) := by
  have sound : (e.perform op).Sound := h.sound.perform op
  have quiet {op : Operation} (nobody : e.putBack op = [])
      (rest : Orderly (joined ++ e.admitted op) back (e.perform op)) :
      Orderly (joined ++ e.admitted op ++ e.putBack op) (back ++ e.putBack op) (e.perform op) := by
    rw [nobody, List.append_nil, List.append_nil]
    exact rest
  cases op with
  | prepare r followUps =>
      refine quiet rfl ?_
      rw [admitted, List.append_nil]
      exact h.prepare r followUps
  | schedule index => exact quiet rfl (h.schedule index)
  | transmit port filter now => exact h.transmit port filter now
  | receive bytes => exact quiet rfl ((Continues.receive e bytes).admits h)
  | sweep now => exact quiet rfl ((Continues.sweep e now).admits h)
  | cancel | withdraw | close => cases keeps
  | resetStatistics => exact quiet rfl ((Continues.count e {}).admits h)
  | share pool =>
      have same : Continues e { e with pool } :=
        .of_pass (fun h' => h'.pass sound rfl (fun _ => rfl) rfl rfl) rfl
      exact quiet rfl (same.admits h)

theorem Orderly.run {ops : List Operation} (h : Orderly joined back e)
    (kept : ∀ op ∈ ops, op.Keeps) :
    Orderly (joined ++ e.joinings ops) (back ++ e.returns ops) (e.run ops) := by
  induction ops generalizing e joined back with
  | nil =>
      rw [joinings, returns, List.append_nil, List.append_nil]
      exact h
  | cons op later ih =>
      have rest := ih (h.perform (kept op List.mem_cons_self)) fun next here =>
        kept next (List.mem_cons_of_mem op here)
      rw [joinings, returns, run_cons]
      simpa only [List.append_assoc] using rest

theorem orderly_withParts (config : Config) (pool : Pool) (start : UInt8) :
    Orderly [] [] (withParts config pool (.startingAt start)) where
  sound := sound_withParts config pool start
  live index here := by cases here
  distinct := List.nodup_nil
  order := ⟨[], rfl, List.Sublist.refl _⟩
  idle _ _ _ := List.not_mem_nil
  known g here := by cases here
  once g := Nat.zero_le _

/-- In a run that calls nothing off, one transaction is packed before another if and only if it was
the first of them to join the line for the last time. If it was never put back, it is packed before
all that joined after it. -/
theorem packed_in_joining_order (config : Config) (pool : Pool) (start : UInt8)
    (ops : List Operation) (kept : ∀ op ∈ ops, op.Keeps) :
    let begun := withParts config pool (.startingAt start)
    let e := begun.run ops
    e.packOrder <+ (begun.joinings ops).dedup ∧
    ∀ a ∈ e.packOrder, ∀ b ∈ e.packOrder, a ≠ b →
      ([a, b] <+ e.packOrder ↔
        ∃ before after, begun.joinings ops = before ++ a :: after ∧ a ∉ after ∧ b ∈ after) ∧
      (a ∉ begun.returns ops → [a, b] <+ begun.joinings ops → [a, b] <+ e.packOrder) := by
  intro begun e
  have orderly := (orderly_withParts config pool start).run kept
  rw [List.nil_append, List.nil_append] at orderly
  obtain ⟨gone, order, packs⟩ := orderly.order
  have part : e.packOrder <+ (begun.joinings ops).dedup :=
    packs.trans (order ▸ List.sublist_append_left gone _)
  refine ⟨part, fun a ha b hb ne => ?_⟩
  have last : [a, b] <+ e.packOrder ↔
      ∃ before after, begun.joinings ops = before ++ a :: after ∧ a ∉ after ∧ b ∈ after :=
    (Turns.pair_sublist_iff part (List.nodup_dedup _) ha hb ne).trans Turns.pair_sublist_dedup
  refine ⟨last, fun stayed first => last.mpr ?_⟩
  have once := orderly.once a
  rw [List.count_eq_zero.mpr stayed] at once
  exact Turns.split_of_pair once first

def office : Engine := withParts {} (Pool.openWith 0 3 64) (.startingAt 7)

def waiting : List Operation :=
  [.prepare errand [], .schedule 7, .prepare errand [], .schedule 8, .prepare errand [],
    .schedule 9]

/-- A call that cannot send its first frame, and one that can. -/
def interrupted : List Operation :=
  waiting ++ [.transmit severed PassThrough.mk 5, .transmit narrow PassThrough.mk 6]

theorem packed_in_joining_order_interrupted :
    (∀ op ∈ interrupted, op.Keeps) ∧ (office.run interrupted).packOrder = [1, 3, 2] ∧
      office.returns interrupted = [2] ∧
      (∃ before after,
        office.joinings interrupted = before ++ 3 :: after ∧ 3 ∉ after ∧ 2 ∈ after) ∧
      [1, 2] <+ (office.run interrupted).packOrder := by
  have kept : ∀ op ∈ interrupted, op.Keeps := by simp [interrupted, waiting, Operation.Keeps]
  have packed : (office.run interrupted).packOrder = [1, 3, 2] := by decide +kernel
  have returned : office.returns interrupted = [2] := by decide +kernel
  have joined : [1, 2] <+ office.joinings interrupted := by decide +kernel
  obtain ⟨-, pairs⟩ := packed_in_joining_order {} (Pool.openWith 0 3 64) 7 interrupted kept
  have one : 1 ∈ (office.run interrupted).packOrder := by simp [packed]
  have two : 2 ∈ (office.run interrupted).packOrder := by simp [packed]
  have three : 3 ∈ (office.run interrupted).packOrder := by simp [packed]
  have overtaken : [3, 2] <+ (office.run interrupted).packOrder := by rw [packed]; decide
  refine ⟨kept, packed, returned, (pairs 3 three 2 two (by decide)).1.mp overtaken, ?_⟩
  refine (pairs 1 one 2 two (by decide)).2 (fun here => ?_) joined
  have absent : 1 ∉ office.returns interrupted := by simp [returned]
  exact absent here

/-- The second of three was scheduled before the third, and is packed after it. -/
theorem exists_overtaken :
    (∀ op ∈ interrupted, op.Keeps) ∧ waiting <+: interrupted ∧
      (office.run waiting).line = [1, 2, 3] ∧ 2 ∈ (office.run interrupted).packOrder ∧
      3 ∈ (office.run interrupted).packOrder ∧ ¬[2, 3] <+ (office.run interrupted).packOrder := by
  have packed : (office.run interrupted).packOrder = [1, 3, 2] := by decide +kernel
  rw [packed]
  refine ⟨by simp [interrupted, waiting, Operation.Keeps], List.prefix_append .., ?_, ?_⟩
  · decide +kernel
  · decide

end Fieldbus.Engine
