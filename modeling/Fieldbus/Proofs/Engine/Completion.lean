import Fieldbus.Port.Loopback
import Fieldbus.Proofs.Engine.Runs

/-!
# Every transaction completes once

The callback of a transaction fires at most once, and it has fired exactly when the transaction is
neither outstanding nor cancelled. It fires for a reason: an answer to the transaction came in after
it was packed, its time ran out, no frame of the port can hold it, or the engine was closed.
-/

namespace Fieldbus.Engine

/-! ## What has fired -/

theorem Sound.fired_iff {e : Engine} (h : e.Sound) {generation : Nat} {index : UInt8} {r : Request}
    (prepared : .prepared generation index r ∈ e.journal) :
    e.fired generation ≤ 1 ∧
      (e.fired generation = 1 ↔ ¬e.Outstanding generation ∧ e.cancellations generation = 0) := by
  have split := e.endings_eq generation
  by_cases out : e.Outstanding generation
  · have none := h.pending out
    refine ⟨by omega, fun fired => by omega, fun settled => absurd out settled.1⟩
  · have one := h.settled prepared out
    refine ⟨by omega, fun fired => ⟨out, by omega⟩, fun settled => by omega⟩

theorem Sound.fired_of_cancelled {e : Engine} (h : e.Sound) {generation : Nat} {index : UInt8}
    {r : Request} (prepared : .prepared generation index r ∈ e.journal)
    (cancelled : .cancelled generation ∈ e.journal) : e.fired generation = 0 := by
  have counted : 0 < e.cancellations generation :=
    List.countP_pos_iff.mpr ⟨_, cancelled, beq_self_eq_true generation⟩
  have known := h.fired_iff prepared
  omega

theorem cancel_cases (e : Engine) (index : UInt8) :
    (e.cancel index).1 = false ∧ (e.cancel index).2 = e ∨
      ∃ t, e.slot index = some t ∧ (e.cancel index).1 = true ∧
        (e.cancel index).2.journal = e.journal ++ [.cancelled t.generation] := by
  cases slot : e.slot index with
  | none => exact .inl (by simp [cancel, slot])
  | some t => exact .inr ⟨t, rfl, by rw [cancel_eq slot], by rw [cancel_eq slot]; rfl⟩

theorem withdraw_cases (e : Engine) (index : UInt8) (generation : Nat) :
    (e.withdraw index generation).1 = false ∧ (e.withdraw index generation).2 = e ∨
      ∃ t, e.slot index = some t ∧ t.generation = generation ∧
        (e.withdraw index generation).1 = true ∧
        (e.withdraw index generation).2.journal = e.journal ++ [.cancelled generation] := by
  unfold withdraw
  split
  · rename_i held
    rcases cancel_cases e index with kept | ⟨t, slot, done, journal⟩
    · exact .inl kept
    · have same : t.generation = generation := by simpa [generation?, slot] using held
      exact .inr ⟨t, slot, same, done, same ▸ journal⟩
  · exact .inl ⟨rfl, rfl⟩

theorem Sound.never_fires {e e' : Engine} (h : e.Sound) (h' : e'.Sound) {index : UInt8}
    {t : Transaction} (slot : e.slot index = some t)
    (journal : e'.journal = e.journal ++ [.cancelled t.generation]) (later : List Operation) :
    (e'.run later).fired t.generation = 0 := by
  obtain ⟨r, prepared, -⟩ := (h.backed slot).prepared
  have known : .prepared t.generation index r ∈ e'.journal :=
    journal ▸ List.mem_append_left _ prepared
  have gone : .cancelled t.generation ∈ e'.journal :=
    journal ▸ List.mem_append_right _ (List.mem_singleton_self _)
  exact (h'.run later).fired_of_cancelled (h'.mem_run later known) (h'.mem_run later gone)

theorem Sound.fired_after_cancel {e : Engine} (h : e.Sound) {index : UInt8}
    (done : (e.cancel index).1 = true) :
    ∃ t, e.slot index = some t ∧ .cancelled t.generation ∈ (e.cancel index).2.journal ∧
      ∀ later, ((e.cancel index).2.run later).fired t.generation = 0 := by
  rcases cancel_cases e index with ⟨failed, -⟩ | ⟨t, slot, -, journal⟩
  · rw [failed] at done
    cases done
  · exact ⟨t, slot, journal ▸ List.mem_append_right _ (List.mem_singleton_self _),
      h.never_fires (h.perform (.cancel index)) slot journal⟩

theorem Sound.fired_after_withdraw {e : Engine} (h : e.Sound) {index : UInt8} {generation : Nat}
    (done : (e.withdraw index generation).1 = true) :
    e.generation? index = some generation ∧
      .cancelled generation ∈ (e.withdraw index generation).2.journal ∧
      ∀ later, ((e.withdraw index generation).2.run later).fired generation = 0 := by
  rcases withdraw_cases e index generation with ⟨failed, -⟩ | ⟨t, slot, rfl, -, journal⟩
  · rw [failed] at done
    cases done
  · exact ⟨by rw [generation?, slot]; rfl,
      journal ▸ List.mem_append_right _ (List.mem_singleton_self _),
      h.never_fires (h.perform (.withdraw index t.generation)) slot journal⟩

theorem ne_of_reported {e e' : Engine} {xs : List JournalEntry} {x : JournalEntry}
    (journal : e'.journal = e.journal ++ xs) (hx : x ∈ xs) : e' ≠ e := by
  rintro rfl
  have none : xs = [] := by simpa using journal
  rw [none] at hx
  cases hx

theorem eq_of_reported {e e' : Engine} {xs : List JournalEntry} {x y : JournalEntry}
    (journal : e'.journal = e.journal ++ xs) (hx : x ∈ xs)
    (taken : e'.journal = e.journal ++ [y]) : x = y := by
  have one : xs = [y] := List.append_cancel_left (journal.symm.trans taken)
  exact List.mem_singleton.mp (one ▸ hx)

theorem Sound.cancelled {e : Engine} (h : e.Sound) {op : Operation} {xs : List JournalEntry}
    (journal : (e.perform op).journal = e.journal ++ xs) {generation : Nat}
    (hx : .cancelled generation ∈ xs) :
    ∃ index, e.generation? index = some generation ∧
      (op = .cancel index ∧ (e.cancel index).1 = true ∨
        op = .withdraw index generation ∧ (e.withdraw index generation).1 = true) := by
  obtain ⟨-, -, ys, journal', reported⟩ := (perform_moves h op).trace h
  obtain rfl : ys = xs := List.append_cancel_left (journal'.symm.trans journal)
  obtain ⟨mid, -, -, -, -, sequel | permitted⟩ := reported _ hx
  · cases sequel
  cases op with
  | prepare r followUps => obtain ⟨_, _, same⟩ := permitted; cases same
  | schedule index => cases permitted
  | resetStatistics => cases permitted
  | share pool => cases permitted
  | transmit port filter now => cases permitted
  | receive bytes => obtain ⟨_, _, _, _, _, same⟩ := permitted; cases same
  | sweep now => obtain ⟨_, _, _, _, same⟩ := permitted; cases same
  | close => obtain ⟨_, _, _, same⟩ := permitted; cases same
  | cancel index =>
      rcases cancel_cases e index with ⟨-, kept⟩ | ⟨t, slot, done, taken⟩
      · exact absurd kept (ne_of_reported journal hx)
      · cases eq_of_reported journal hx taken
        exact ⟨index, by rw [generation?, slot]; rfl, .inl ⟨rfl, done⟩⟩
  | withdraw index g =>
      rcases withdraw_cases e index g with ⟨-, kept⟩ | ⟨t, slot, rfl, done, taken⟩
      · exact absurd kept (ne_of_reported journal hx)
      · cases eq_of_reported journal hx taken
        exact ⟨index, by rw [generation?, slot]; rfl, .inr ⟨rfl, done⟩⟩

/-! ## Why it fires -/

/-- Why an operation on `e` ends a transaction of `e` with an outcome. -/
inductive Cause (e : Engine) (generation : Nat) (index : UInt8) (r : Request) :
    Operation → Outcome → Prop
  | answered {bytes : Bytes} {frame : Frame} {d : Datagram} {sent : Nat}
      (parsed : Frame.parse? bytes = .ok frame) (carried : .ok d ∈ frame.chain.toList)
      (place : d.header.index = index) (command : d.header.command = r.command)
      (packed : .packed generation index sent ∈ e.journal) :
      Cause e generation index r (.receive bytes) (.response d.workCounter d.payload)
  | late {now sent : Nat} (packed : .packed generation index sent ∈ e.journal)
      (late : sent + r.timeout ≤ now) : Cause e generation index r (.sweep now) .timeout
  | unfit {π φ : Type} [FramePort π] [FrameFilter φ] {port : π} {filter : φ} {now room : Nat}
      {s : Transmission π φ} (led : Transmission.Leads now (.opening e port filter) s)
      (offers : s.Offers room)
      (large : room < Layout.datagramHeader + r.payload.length + Layout.workCounter) :
      Cause e generation index r (.transmit port filter now) .timeout
  | closed : Cause e generation index r .close .timeout

theorem Sound.cause {e : Engine} (h : e.Sound) (op : Operation) :
    ∃ xs, (e.perform op).journal = e.journal ++ xs ∧
      ∀ generation id outcome, .completed generation id outcome ∈ xs →
        ∃ index r, .prepared generation index r ∈ (e.perform op).journal ∧ id = r.id ∧
          Cause e generation index r op outcome := by
  obtain ⟨-, -, xs, journal, reported⟩ := (perform_moves h op).trace h
  refine ⟨xs, journal, fun generation id outcome completed => ?_⟩
  obtain ⟨mid, ys, sub, sound, past, sequel | permitted⟩ := reported _ completed
  · cases sequel
  have known {y : JournalEntry} (hy : y ∈ mid.journal) : y ∈ (e.perform op).journal := by
    rw [past] at hy
    rw [journal]
    exact (List.mem_append.mp hy).elim (List.mem_append_left _)
      fun new => List.mem_append_right _ (sub new)
  -- What the operation does not report was there before it.
  have before {g : Nat} {index : UInt8} {now : Nat} (hy : .packed g index now ∈ mid.journal)
      (foreign : ∀ point, ¬op.Permits e point (.packed g index now)) :
      .packed g index now ∈ e.journal := by
    rw [past] at hy
    rcases List.mem_append.mp hy with old | new
    · exact old
    · obtain ⟨point, -, -, -, -, sequel | allowed⟩ := reported _ (sub new)
      · cases sequel
      · exact (foreign point allowed).elim
  cases op with
  | prepare r followUps => obtain ⟨_, _, same⟩ := permitted; cases same
  | schedule index => cases permitted
  | resetStatistics => cases permitted
  | share pool => cases permitted
  | cancel index => obtain ⟨_, same⟩ := permitted; cases same
  | withdraw index g => obtain ⟨_, same⟩ := permitted; cases same
  | transmit port filter now =>
      cases permitted with
      | @unfit s room index t led offers slot queued large =>
          obtain ⟨⟨r, prepared, carries⟩, -⟩ := sound.backed slot
          refine ⟨index, r, known prepared, carries.id, .unfit led offers ?_⟩
          rw [← Datagram.length_encode r.command index r.address, ← carries.encoded]
          exact large
  | receive bytes =>
      obtain ⟨d, carried, t, slot, awaits, same⟩ := permitted
      cases same
      obtain ⟨frame, parsed, item⟩ := Frame.mem_decoded carried
      obtain ⟨⟨r, prepared, carries⟩, packed⟩ := sound.backed slot
      obtain ⟨sent, command⟩ := Bool.and_eq_true_iff.mp awaits
      obtain ⟨deadline, due⟩ := Option.isSome_iff_exists.mp sent
      obtain ⟨time, entry, -⟩ := packed deadline due
      refine ⟨d.header.index, r, known prepared, carries.id,
        .answered parsed item rfl ?_ (before entry fun point => ?_)⟩
      · rw [← carries.command, eq_of_beq command]
      · rintro ⟨_, _, _, _, _, same⟩
        cases same
  | sweep now =>
      obtain ⟨index, t, slot, expired, same⟩ := permitted
      cases same
      obtain ⟨⟨r, prepared, carries⟩, packed⟩ := sound.backed slot
      cases due : t.deadline with
      | none => simp [Transaction.isExpired, due] at expired
      | some deadline =>
          obtain ⟨time, entry, late⟩ := packed deadline due
          refine ⟨index, r, known prepared, carries.id,
            .late (before entry fun point => ?_) ?_⟩
          · rintro ⟨_, _, _, _, same⟩
            cases same
          · rw [← carries.timeout, ← late]
            simpa [Transaction.isExpired, due] using expired
  | close =>
      obtain ⟨index, t, slot, same⟩ := permitted
      cases same
      obtain ⟨⟨r, prepared, carries⟩, -⟩ := sound.backed slot
      exact ⟨index, r, known prepared, carries.id, .closed⟩

/-! ## The contract -/

theorem Sound.prepared {e : Engine} (h : e.Sound) {r : Request} {followUps : List FollowUp}
    {index : UInt8} (done : (e.prepare r followUps).1 = .ok index) :
    (e.prepare r followUps).2.journal = e.journal ++ [.prepared e.nextGeneration index r] ∧
      ∀ i s, .prepared e.nextGeneration i s ∉ e.journal := by
  rcases e.prepare_cases r followUps with
    ⟨_, _, _, failed, -⟩ | ⟨_, _, _, _, -, prepared, move⟩
  · rw [failed] at done
    cases done
  · rw [prepared] at done ⊢
    cases done
    refine ⟨(move.sound h).2.1, fun i s known => ?_⟩
    exact Nat.lt_irrefl _ (h.fresh _ known _ rfl)

theorem completes_once (config : Config) (pool : Pool) (start : UInt8) (ops : List Operation) :
    let e := (withParts config pool (.startingAt start)).run ops
    (∀ r followUps index, (e.prepare r followUps).1 = .ok index →
      (e.prepare r followUps).2.journal = e.journal ++ [.prepared e.nextGeneration index r] ∧
        ∀ i s, .prepared e.nextGeneration i s ∉ e.journal) ∧
    (∀ generation index r, .prepared generation index r ∈ e.journal →
      e.fired generation ≤ 1 ∧
        (e.fired generation = 1 ↔ ¬e.Outstanding generation ∧ e.cancellations generation = 0)) ∧
    (∀ index, (e.cancel index).1 = true →
      ∃ t, e.slot index = some t ∧ .cancelled t.generation ∈ (e.cancel index).2.journal ∧
        ∀ later, ((e.cancel index).2.run later).fired t.generation = 0) ∧
    (∀ index generation, (e.withdraw index generation).1 = true →
      e.generation? index = some generation ∧
        .cancelled generation ∈ (e.withdraw index generation).2.journal ∧
        ∀ later, ((e.withdraw index generation).2.run later).fired generation = 0) ∧
    ∀ op, ∃ xs, (e.perform op).journal = e.journal ++ xs ∧
      (∀ generation, .cancelled generation ∈ xs → ∃ index, e.generation? index = some generation ∧
        (op = .cancel index ∧ (e.cancel index).1 = true ∨
          op = .withdraw index generation ∧ (e.withdraw index generation).1 = true)) ∧
      ∀ generation id outcome, .completed generation id outcome ∈ xs →
        ∃ index r, .prepared generation index r ∈ (e.perform op).journal ∧ id = r.id ∧
          Cause e generation index r op outcome := by
  intro e
  have sound : e.Sound := (sound_withParts config pool start).run ops
  refine ⟨fun _ _ _ => sound.prepared, fun _ _ _ => sound.fired_iff,
    fun _ => sound.fired_after_cancel, fun _ _ => sound.fired_after_withdraw, fun op => ?_⟩
  obtain ⟨xs, journal, caused⟩ := sound.cause op
  exact ⟨xs, journal, fun _ => sound.cancelled journal, caused⟩

def errand : Request := ⟨1, .brd, .physical 0 0, [0, 0], 100⟩

def reply : Bytes :=
  Frame.image { destination := .broadcast, source := .broadcast }
    [(DatagramHeader.request .brd 7 (.physical 3 0) 2).encode ++ [17, 34] ++ Bytes.encodeWord 3]

def workshop : Engine := withParts {} (Pool.openWith 0 2 64) (.startingAt 7)

/-- Two errands, of which one is sent and answered. -/
def visit : List Operation :=
  [.prepare errand [], .schedule 7, .prepare errand [],
    .transmit ({ near := { transmitBuffer := Bytes.zeros 64 } } : Loopback) PassThrough.mk 5,
    .receive reply]

theorem completes_once_answered :
    (workshop.run visit).fired 1 = 1 ∧ ¬(workshop.run visit).Outstanding 1 ∧
      ((workshop.run visit).cancel 8).1 = true ∧
      ∃ t, (workshop.run visit).slot 8 = some t ∧
        ∀ later, (((workshop.run visit).cancel 8).2.run later).fired t.generation = 0 := by
  have fired : (workshop.run visit).fired 1 = 1 := by decide +kernel
  have begun : (workshop.prepare errand []).1.toOption = some 7 := by decide +kernel
  have cancelled : ((workshop.run visit).cancel 8).1 = true := by decide +kernel
  have done : (workshop.prepare errand []).1 = .ok 7 := by
    cases result : (workshop.prepare errand []).1 with
    | error cause => simp [result, Except.toOption] at begun
    | ok index =>
        rw [result, Except.toOption, Option.some.injEq] at begun
        rw [begun]
  -- The errand is on record from its beginning on.
  have sound : workshop.Sound := sound_withParts {} (Pool.openWith 0 2 64) 7
  have first := (sound.prepared done).1
  have known : .prepared workshop.nextGeneration 7 errand ∈ (workshop.run visit).journal := by
    rw [visit, run_cons]
    refine (sound.perform (.prepare errand [])).mem_run _ ?_
    rw [perform, first]
    exact List.mem_append_right _ (List.mem_singleton_self _)
  have contract := completes_once {} (Pool.openWith 0 2 64) 7 visit
  obtain ⟨t, slot, -, never⟩ := contract.2.2.1 8 cancelled
  exact ⟨fired, ((contract.2.1 _ 7 errand known).2.mp fired).1, cancelled, t, slot, never⟩

end Fieldbus.Engine
