import Fieldbus.Proofs.Engine.Disposal

/-!
# An aborted call strands nothing

A call fails only with what the port reports, or because the headers of a frame have no room in what
it offers. What a call leaves in the queue the next one sends, if the port is up to it.
-/

namespace Fieldbus.Engine

open JournalEntry (packs)

namespace Transmission

variable {π φ : Type} [FramePort π] [FrameFilter φ] {s : Transmission π φ} {now : Nat}
  {cause : Error}

/-! ## Failures -/

/-- The port is free, but in what it lends the headers of a frame have no room. -/
def Cramped (s : Transmission π φ) : Prop :=
  ∃ port buffer port', FramePort.sendFinished s.port = (true, port) ∧
    FramePort.transmitBuffer port = (.ok buffer, port') ∧
    (buffer.length < Frame.headerLength ∨
      min (FramePort.mtu port) s.engine.config.mtu < Layout.frameHeader)

theorem send_error {frame : FrameBuilder} {packed : Nat}
    (failed : (s.send frame packed).1 = .error cause) : ∃ fault, cause = .device fault := by
  simp only [send] at failed
  split at failed
  · split at failed
    · cases failed
      exact ⟨_, rfl⟩
    · cases failed
  · cases failed

theorem fill_error (sound : s.whole.Sound) {frame : FrameBuilder} {ethernet : EthernetHeader}
    (holds : frame.Holds ethernet []) (failed : (s.fill now frame).1 = some (.error cause)) :
    ∃ fault, cause = .device fault := by
  have begun : Loaded now ethernet s.engine [] ⟨s.engine, frame, s.carry, 0⟩ :=
    ⟨sound, holds, List.prefix_rfl, by simp, by simp⟩
  obtain ⟨p, -, packed, -⟩ := pack_loaded (s.engine.workload + 1) begun
  simp only [fill, packed] at failed
  split at failed
  · cases failed
  · have sent := @send_error π φ _ _ { s with engine := p.engine, carry := p.carry } cause p.frame
      p.packed
    generalize @send π φ _ _ _ p.frame p.packed = sending at sent failed
    obtain ⟨result, s'⟩ := sending
    cases result with
    | error cause' =>
        cases failed
        exact sent rfl
    | ok _ => cases failed

theorem step_error (sound : s.whole.Sound) (failed : (s.step now).1 = some (.error cause)) :
    (∃ fault, cause = .device fault) ∨
      (∃ required available, cause = .capacity required available) ∧ s.Cramped := by
  simp only [step] at failed
  split at failed
  · cases failed
  · split at failed
    · cases failed
    · rename_i port free
      split at failed
      · cases failed
        exact .inl ⟨_, rfl⟩
      · rename_i buffer port' lent
        split at failed
        · rename_i cause' refused
          cases failed
          refine .inr ?_
          rcases FrameBuilder.create?_cases buffer _ s.engine.config.destination
              s.engine.config.source with ⟨small, required, available, capacity⟩ | ⟨-, b, created⟩
          · rw [refused, Except.error.injEq] at capacity
            exact ⟨⟨required, available, capacity⟩, port, buffer, port', free, lent, small⟩
          · rw [refused] at created
            cases created
        · rename_i frame created
          exact .inl (fill_error (s := { s with port := port' }) sound
            (FrameBuilder.create?_holds created).1 failed)

theorem run_error {fuel : Nat} (sound : s.whole.Sound)
    (failed : (run now fuel s).result = .error cause) :
    (∃ fault, cause = .device fault) ∨
      (∃ required available, cause = .capacity required available) ∧
        ∃ s', Leads now s s' ∧ s'.Cramped := by
  obtain ⟨s', led, spent | ⟨result, last, stepped, ended⟩⟩ := run_path now fuel s
  · rw [spent] at failed
    cases failed
  · rw [ended] at failed
    have same : result = .error cause := failed
    have last : (s'.step now).1 = some (.error cause) := by rw [stepped, same]
    rcases step_error (led.sound sound) last with fault | ⟨capacity, cramped⟩
    · exact .inl fault
    · exact .inr ⟨capacity, s', led, cramped⟩

end Transmission

/-! ## Ports that are up to it -/

section Ports

variable {π : Type} [FramePort π]

/-- The port takes a frame in the place of the buffer that it lent, and a frame may be dropped. -/
def Takes (ready : π → Prop) (size : Nat) (port : π) : Prop :=
  ∀ bytes : Bytes, bytes.length = size → ready (FramePort.load bytes port) ∧
    ∀ n ≤ size, ∃ port', FramePort.send n (FramePort.load bytes port) = (.ok (), port') ∧
      ready port'

/-- A port, in the states that are `ready`, is always free and never fails, and a frame has room for
`limit` bytes of datagrams. -/
def Obliging (ready : π → Prop) (mtu limit : Nat) : Prop :=
  ∀ port, ready port → ∃ free buffer lent, FramePort.sendFinished port = (true, free) ∧
    FramePort.transmitBuffer free = (.ok buffer, lent) ∧
    Frame.headerLength + limit ≤ buffer.length ∧
    Layout.frameHeader + limit ≤ min (FramePort.mtu free) mtu ∧ Takes ready buffer.length lent

theorem obliging_loopback {mtu limit size : Nat} (payloads : Layout.frameHeader + limit ≤ mtu)
    (room : Frame.headerLength + limit ≤ size) :
    Obliging (fun l : Loopback => l.near.transmitBuffer.length = size ∧ l.far.attached = true ∧
      mtu ≤ l.mtu) mtu limit := by
  rintro l ⟨size', attached, wide⟩
  refine ⟨l, l.near.transmitBuffer, l, rfl, rfl, size' ▸ room, ?_, fun bytes same => ?_⟩
  · show _ ≤ min l.mtu mtu
    rw [Nat.min_eq_right wide]
    exact payloads
  · have fits {n : Nat} (short : n ≤ l.near.transmitBuffer.length) : ¬n > bytes.length := by omega
    have sent {n : Nat} (short : n ≤ l.near.transmitBuffer.length) :
        FramePort.send n (FramePort.load bytes l) = (.ok (), { l with
          near := { l.near with transmitBuffer := bytes }
          far := { l.far with inbox := l.far.inbox ++ [bytes.take n] } }) := by
      show Loopback.send n { l with near := { l.near with transmitBuffer := bytes } } = _
      simp only [Loopback.send, Loopback.sendFrame, if_neg (fits short), if_pos attached]
    exact ⟨⟨same.trans size', attached, wide⟩, fun n short =>
      ⟨_, sent short, same.trans size', attached, wide⟩⟩

end Ports

namespace Transmission

variable {π φ : Type} [FramePort π] [FrameFilter φ] {s : Transmission π φ} {ready : π → Prop}
  {e₀ : Engine} {now limit : Nat}

structure Proceeds (e₀ : Engine) (now : Nat) (s : Transmission π φ) : Prop where
  took : ∃ ts, Took e₀ s.engine now ts
  config : s.engine.config = e₀.config

def Advances (ready : π → Prop) (e₀ : Engine) (now : Nat) (s s' : Transmission π φ) :
    Option (Except Error Nat) → Prop
  | none => Proceeds e₀ now s' ∧ ready s'.port ∧ s'.whole.queue.length < s.whole.queue.length
  | some result => (∃ count, result = .ok count) ∧ Proceeds e₀ now s' ∧ s'.whole.queue = []

theorem send_taken {frame : FrameBuilder} (takes : Takes ready frame.buffer.length s.port)
    (fits : frame.length ≤ frame.buffer.length) (packed : Nat) :
    ∃ s', s.send frame packed = (.ok (), s') ∧ ready s'.port ∧ s'.carry = s.carry ∧
      s'.engine.queue = s.engine.queue ∧ s'.engine.config = s.engine.config ∧
      ∀ index, s'.engine.slot index = s.engine.slot index := by
  rcases verdict : FrameFilter.onSend frame.frame s.filter with ⟨⟨passed, filtered⟩, filter⟩
  have whole : frame.frame.length = frame.length := by
    rw [FrameBuilder.frame, List.length_take, Nat.min_eq_left fits]
  have refitted : (refit frame.frame filtered).length = frame.length := by
    rw [refit, Bytes.length_overwrite, whole]
    rw [Nat.zero_add, List.length_take]
    exact Nat.min_le_left _ _
  have same : (frame.buffer.overwrite 0 (refit frame.frame filtered)).length =
      frame.buffer.length := Bytes.length_overwrite (by omega)
  obtain ⟨dropped, sends⟩ := takes _ same
  obtain ⟨port, sent, ready'⟩ := sends frame.length fits
  simp only [send, verdict]
  cases passed with
  | false => exact ⟨_, rfl, dropped, rfl, rfl, rfl, fun _ => rfl⟩
  | true =>
      rw [if_pos rfl, sent]
      exact ⟨_, rfl, ready', rfl, rfl, rfl, fun _ => rfl⟩

theorem Proceeds.fill (h : Proceeds e₀ now s) (sound : e₀.Sound) {frame : FrameBuilder}
    {ethernet : EthernetHeader} (holds : frame.Holds ethernet [])
    (fits : e₀.Fits (Frame.room frame.mtu frame.buffer.length))
    (takes : Takes ready frame.buffer.length s.port) :
    Advances ready e₀ now s (s.fill now frame).2 (s.fill now frame).1 := by
  obtain ⟨⟨ts, took⟩, config⟩ := h
  have start : Filling e₀ now frame.mtu frame.buffer.length ethernet s.engine.frames ts []
      ⟨s.engine, frame, s.carry, 0⟩ :=
    ⟨by rwa [List.append_nil], holds, rfl, rfl, Nat.zero_le _, rfl, config⟩
  have items : Packing.items ⟨s.engine, frame, s.carry, 0⟩ = s.whole.queue.length :=
    List.length_append.symm
  have enough : Packing.items ⟨s.engine, frame, s.carry, 0⟩ ≤ s.engine.workload + 1 := by
    have one : s.carry.toList.length ≤ 1 := by cases s.carry <;> simp
    simp only [Packing.items, workload]
    omega
  obtain ⟨p, batch, packed, filled, -, rest, bare, fewer⟩ :=
    pack_fills sound fits _ start enough (Nat.le_refl _)
  rw [List.nil_append] at filled bare fewer
  have took' : ∃ ts, Took e₀ p.engine now ts := ⟨_, filled.took⟩
  simp only [Transmission.fill, packed]
  by_cases empty : p.frame.isEmpty = true
  · rw [if_pos empty]
    rw [filled.holds.isEmpty, List.isEmpty_iff, List.map_eq_nil_iff] at empty
    refine ⟨⟨_, rfl⟩, ⟨took', filled.config⟩, ?_⟩
    simp only [whole, reclaim, bare empty, rest (bare empty), Option.toList_none, List.nil_append]
  · rw [if_neg empty]
    -- A frame that is sent or dropped took some index, so less is left.
    have some_packed : 0 < batch.length := by
      rw [filled.holds.isEmpty] at empty
      simpa [List.length_pos_iff] using empty
    have taken := @send_taken π φ _ _ { s with engine := p.engine, carry := p.carry } ready p.frame
      (by rw [filled.capacity]; exact takes) filled.holds.fits p.packed
    obtain ⟨s', sent, ready', carry, queue, config', slots⟩ := taken
    obtain ⟨ts', took'⟩ := took'
    rw [sent]
    dsimp only
    refine ⟨⟨⟨ts', took'.congr slots⟩, config'.trans filled.config⟩, ready', ?_⟩
    have left : s'.whole.queue.length = p.items := by
      simp only [whole, reclaim, carry, queue, List.length_append, Packing.items]
    simp only [List.length_nil, Nat.add_zero] at fewer
    omega

theorem Proceeds.step (h : Proceeds e₀ now s) (sound : e₀.Sound)
    (obliging : Obliging ready e₀.config.mtu limit) (idle : ready s.port)
    (fits : e₀.Fits limit) : Advances ready e₀ now s (s.step now).2 (s.step now).1 := by
  obtain ⟨port, buffer, port', free, lent, size, payloads, takes⟩ := obliging s.port idle
  have config := h.config
  unfold Transmission.step
  split
  · rename_i done
    rw [isDone, Bool.and_eq_true, Option.isNone_iff_eq_none, List.isEmpty_iff] at done
    refine ⟨⟨_, rfl⟩, h, ?_⟩
    simp only [whole, reclaim, done, Option.toList_none, List.nil_append]
  · simp only [free, lent, config]
    rcases FrameBuilder.create?_cases buffer (min (FramePort.mtu port) e₀.config.mtu)
        e₀.config.destination e₀.config.source with ⟨small, -⟩ | ⟨-, frame, created⟩
    · omega
    · obtain ⟨holds, mtu, capacity, -, -⟩ := FrameBuilder.create?_holds created
      have room : limit ≤ Frame.room frame.mtu frame.buffer.length := by
        rw [mtu, capacity, Frame.room]
        omega
      rw [created]
      refine Proceeds.fill (s := { s with port := port' }) ⟨h.took, h.config⟩ sound holds
        (fun slot queued => Nat.le_trans (fits slot queued) room) ?_
      rw [capacity]
      exact takes

theorem Proceeds.run {fuel : Nat} (h : Proceeds e₀ now s) (sound : e₀.Sound)
    (obliging : Obliging ready e₀.config.mtu limit) (idle : ready s.port) (fits : e₀.Fits limit)
    (enough : s.whole.queue.length < fuel) :
    (∃ count, (Transmission.run now fuel s).result = .ok count) ∧
      (Transmission.run now fuel s).engine.queue = [] ∧
      ∃ ts, Took e₀ (Transmission.run now fuel s).engine now ts := by
  induction fuel generalizing s with
  | zero => cases enough
  | succ fuel ih =>
      have stepped := h.step sound obliging idle fits
      rw [Transmission.run]
      generalize s.step now = taken at stepped ⊢
      obtain ⟨ending, s'⟩ := taken
      dsimp only at stepped ⊢
      cases ending with
      | none =>
          obtain ⟨h', idle', fewer⟩ := stepped
          exact ih h' idle' (by omega)
      | some result =>
          obtain ⟨ok, ⟨⟨ts, took⟩, -⟩, nothing⟩ := stepped
          obtain ⟨carry, queue⟩ := List.append_eq_nil_iff.mp nothing
          refine ⟨ok, ?_, ts, took.congr fun _ => rfl⟩
          simp only [stop, requeue, carry, queue, List.append_nil]

end Transmission

theorem Sound.drains {π φ : Type} [FramePort π] [FrameFilter φ] {ready : π → Prop} {e : Engine}
    {port : π} {limit : Nat} (h : e.Sound) (obliging : Obliging ready e.config.mtu limit)
    (idle : ready port) (fits : e.Fits limit) (filter : φ) (now : Nat) :
    (∃ count, (e.transmit port filter now).result = .ok count) ∧
      (e.transmit port filter now).engine.queue = [] ∧
      ∀ index t, e.slot index = some t → t.queued = true →
        (e.transmit port filter now).engine.slot index = some (t.markSent now) := by
  have begun : Transmission.Proceeds e now (.opening e port filter) := ⟨⟨[], .refl e now⟩, rfl⟩
  have enough : (Transmission.opening e port filter).whole.queue.length < e.workload + 1 :=
    Nat.lt_succ_of_le (Nat.le_add_right _ _)
  obtain ⟨ok, empty, ts, took⟩ := begun.run h obliging idle fits enough
  refine ⟨ok, empty, fun index t slot queued => ?_⟩
  obtain ⟨r, -, carries⟩ := (h.backed slot).prepared
  have nothing : ∀ index t, (e.transmit port filter now).engine.slot index = some t →
      t.queued = false := by
    intro index t slot
    refine Bool.eq_false_iff.mpr fun queued => ?_
    have waits := (((transmit_moves h port filter now).sound h).waiting slot queued).2
    have empty' : (e.transmit port filter now).engine.queue = [] := empty
    rw [empty'] at waits
    cases waits
  have place := carries.place
  subst place
  exact (took.taken t ((took.mem_iff nothing).mpr ⟨slot, queued⟩)).2.2

/-! ## The contract -/

/-- Wherever a call ends, a transaction that waited was packed, was refused because a frame had no
room for it, or waits on in the queue, and the next call over a port that is up to it packs it. -/
theorem transmit_strands_nothing {π φ : Type} [FramePort π] [FrameFilter φ] {e : Engine}
    (reachable : e.Reachable) (port : π) (filter : φ) (now : Nat) :
    let s₀ := Transmission.opening e port filter
    let e' := (e.transmit port filter now).engine
    (∀ index t, e.slot index = some t → t.queued = true →
      ∃! fate, Transmission.Meets now s₀ e' index t fate) ∧
    (∀ index t, e.slot index = some t → t.queued = false →
      e'.slot index = some t ∧ e'.disposals t.generation = e.disposals t.generation) ∧
    (∀ cause, (e.transmit port filter now).result = .error cause →
      (∃ fault, cause = .device fault) ∨
        (∃ required available, cause = .capacity required available) ∧
          ∃ s, Transmission.Leads now s₀ s ∧ s.Cramped) ∧
    ∀ (π' φ' : Type) [FramePort π'] [FrameFilter φ'] (ready : π' → Prop) (limit : Nat) (port' : π')
      (filter' : φ') (now' : Nat), Obliging ready e.config.mtu limit → ready port' →
      (∀ index t, e'.slot index = some t → t.queued = true → t.encoded.length ≤ limit) →
      let next := e'.transmit port' filter' now'
      (∃ count, next.result = .ok count) ∧ next.engine.queue = [] ∧
        ∀ index t, e'.slot index = some t → t.queued = true →
          next.engine.slot index = some (t.markSent now') ∧
            next.engine.disposals t.generation = [.packed t.generation index now'] := by
  intro s₀ e'
  have disposed := reachable.disposes port filter now
  have reachable' : e'.Reachable := reachable.transmit port filter now
  have config : e'.config = e.config :=
    ((transmit_moves reachable.sound port filter now).trace reachable.sound).2.1
  refine ⟨disposed.1, disposed.2, fun cause failed => ?_, ?_⟩
  · exact Transmission.run_error (s := s₀) reachable.sound failed
  · intro π' φ' _ _ ready limit port' filter' now' obliging idle fits next
    rw [← config] at obliging
    obtain ⟨ok, empty, sent⟩ := reachable'.sound.drains obliging idle
      (fun {index t} => fits index t) filter' now'
    refine ⟨ok, empty, fun index t slot queued => ⟨sent index t slot queued, ?_⟩⟩
    obtain ⟨fate, meets, -⟩ := (reachable'.disposes port' filter' now').1 index t slot queued
    obtain ⟨report, left⟩ := meets
    have marked := sent index t slot queued
    cases left with
    | packed => exact report
    | refused gone => exact (gone ⟨index, t.markSent now', marked, rfl⟩).elim
    | kept kept =>
        rw [marked, Option.some.injEq] at kept
        rw [← kept] at queued
        cases queued

/-- Of four requests the first is too long for `severed`, and the last is not asked for. -/
def crowded : Engine :=
  (withParts {} (Pool.openWith 0 4 64) (.startingAt 7)).run
    [.prepare ⟨1, .brd, .physical 0 0, Bytes.zeros 20, 100⟩ [], .schedule 7, .prepare errand [],
      .schedule 8, .prepare errand [], .schedule 9, .prepare errand []]

def severed : Loopback :=
  { near := { transmitBuffer := Bytes.zeros 40 }, far := { attached := false } }

theorem transmit_strands_nothing_severed :
    let s₀ := Transmission.opening crowded severed PassThrough.mk
    let e' := (crowded.transmit severed PassThrough.mk 5).engine
    (∃ t, crowded.slot 7 = some t ∧ Transmission.Meets 5 s₀ e' 7 t .refused) ∧
    (∃ t, crowded.slot 8 = some t ∧ Transmission.Meets 5 s₀ e' 8 t .packed) ∧
    (∃ t, crowded.slot 9 = some t ∧ Transmission.Meets 5 s₀ e' 9 t .kept) ∧
    (∃ t, crowded.slot 10 = some t ∧ e'.slot 10 = some t) ∧
    (e'.transmit narrow PassThrough.mk 6).engine.queue = [] ∧
      (e'.transmit narrow PassThrough.mk 6).engine.disposals 3 = [.packed 3 9 6] := by
  intro s₀ e'
  have reachable : crowded.Reachable := ⟨{}, Pool.openWith 0 4 64, 7, _, rfl⟩
  obtain ⟨fates, others, -, following⟩ :=
    transmit_strands_nothing reachable severed PassThrough.mk 5
  have first : (e'.disposals 1).map (packs 1) = [false] := by decide +kernel
  have second : (e'.disposals 2).map (packs 2) = [true] := by decide +kernel
  have third : (e'.disposals 3).map (packs 3) = [] := by decide +kernel
  have left : (e'.slot 9).map (fun t => (t.generation, t.queued)) = some (3, true) := by
    decide +kernel
  have short : ∀ s ∈ e'.slots.toList, ∀ t ∈ s, t.queued = true → t.encoded.length ≤ 24 := by
    decide +kernel
  have engine : (crowded.transmit severed PassThrough.mk 5).engine = e' := rfl
  rw [engine] at fates others following
  clear_value e'
  have stands {e : Engine} {index : UInt8} {generation : Nat} {queued : Bool}
      (known : (e.slot index).map (fun t => (t.generation, t.queued)) = some (generation, queued)) :
      ∃ t, e.slot index = some t ∧ t.generation = generation ∧ t.queued = queued := by
    obtain ⟨t, slot, same⟩ := Option.map_eq_some_iff.mp known
    exact ⟨t, slot, (Prod.mk.inj same).1, (Prod.mk.inj same).2⟩
  have met {index : UInt8} {generation : Nat} {packed : List Bool}
      (known : (crowded.slot index).map (fun t => (t.generation, t.queued)) =
        some (generation, true))
      (disposed : (e'.disposals generation).map (packs generation) = packed) :
      ∃ t fate, crowded.slot index = some t ∧ Transmission.Meets 5 s₀ e' index t fate ∧
        (fate.report 5 index t).map (packs t.generation) = packed := by
    obtain ⟨t, slot, rfl, queued⟩ := stands known
    obtain ⟨fate, meets, -⟩ := fates index t slot queued
    exact ⟨t, fate, slot, meets, meets.report ▸ disposed⟩
  refine ⟨?_, ?_, ?_, ?_, ?_⟩
  · obtain ⟨t, fate, slot, meets, same⟩ := @met 7 1 _ (by decide +kernel) first
    cases fate <;> simp [Transmission.Fate.report, packs] at same
    exact ⟨t, slot, meets⟩
  · obtain ⟨t, fate, slot, meets, same⟩ := @met 8 2 _ (by decide +kernel) second
    cases fate <;> simp [Transmission.Fate.report, packs] at same
    exact ⟨t, slot, meets⟩
  · obtain ⟨t, fate, slot, meets, same⟩ := @met 9 3 _ (by decide +kernel) third
    cases fate <;> simp [Transmission.Fate.report] at same
    exact ⟨t, slot, meets⟩
  · obtain ⟨t, slot, -, idle⟩ := @stands crowded 10 4 false (by decide +kernel)
    exact ⟨t, slot, (others 10 t slot idle).1⟩
  · have fits : ∀ index t, e'.slot index = some t → t.queued = true →
        t.encoded.length ≤ 24 := by
      intro index t slot
      refine short _ ?_ t slot
      rw [Vector.mem_toList_iff]
      exact Vector.getElem_mem _
    have obliging := @obliging_loopback crowded.config.mtu 24 40 (by decide +kernel) (by decide)
    obtain ⟨-, empty, packed⟩ :=
      following Loopback PassThrough _ 24 narrow PassThrough.mk 6 obliging
        ⟨rfl, rfl, by decide +kernel⟩ fits
    obtain ⟨t, slot, generation, queued⟩ := stands left
    exact ⟨empty, generation ▸ (packed 9 t slot queued).2⟩

end Fieldbus.Engine
