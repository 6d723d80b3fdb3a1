import Fieldbus.Proofs.Frame.Acceptance

/-!
# The bounds of a builder

A builder never leaves its buffer or the payload size: whatever is called, its frame has the
headers, ends inside both, and holds its last datagram whole. A call changes no byte behind the
frame that it leaves.
-/

namespace Fieldbus

namespace Bytes

/-- As many bytes, and the same from `n` on. -/
def SameFrom (n : Nat) (bytes bytes' : Bytes) : Prop :=
  bytes.length = bytes'.length ∧ bytes.drop n = bytes'.drop n

variable {bytes bytes' bytes'' patch : Bytes} {n m offset : Nat}

theorem SameFrom.refl (n : Nat) (bytes : Bytes) : SameFrom n bytes bytes := ⟨rfl, rfl⟩

theorem SameFrom.trans (h : SameFrom n bytes bytes') (h' : SameFrom n bytes' bytes'') :
    SameFrom n bytes bytes'' := ⟨h.1.trans h'.1, h.2.trans h'.2⟩

theorem SameFrom.mono (h : SameFrom n bytes bytes') (le : n ≤ m) : SameFrom m bytes bytes' := by
  have split : m = n + (m - n) := by omega
  refine ⟨h.1, ?_⟩
  rw [split, ← List.drop_drop, h.2, List.drop_drop]

theorem sameFrom_overwrite (inside : offset + patch.length ≤ n) (room : n ≤ bytes.length) :
    SameFrom n (bytes.overwrite offset patch) bytes := by
  refine ⟨length_overwrite (Nat.le_trans inside room), ?_⟩
  have front : (bytes.take offset ++ patch).length = offset + patch.length := by
    rw [List.length_append, List.length_take_of_le (by omega)]
  have split : n = (bytes.take offset ++ patch).length + (n - (offset + patch.length)) := by
    omega
  rw [overwrite, split, ← List.drop_drop, List.drop_left, List.drop_drop, front]

theorem take_append_overwrite (bytes patch : Bytes) (start : Nat) :
    bytes.take start ++ overwrite (bytes.drop start) 0 patch = bytes.overwrite start patch := by
  rw [overwrite_zero, List.drop_drop, overwrite, List.append_assoc]

end Bytes

namespace FrameBuilder

open DatagramHeader (setMore length_setMore eight_le)
open Fieldbus.Frame
open Bytes (SameFrom sameFrom_overwrite)

variable {b : FrameBuilder} {d : Bytes} {n size offset : Nat}

/-! ## What a call changes in the buffer -/

theorem drop_setMore (more : Bool) (bytes : Bytes) (behind : 8 ≤ n) :
    (setMore more bytes).drop n = bytes.drop n := by
  by_cases long : 8 ≤ bytes.length
  · obtain ⟨b₀, b₁, b₂, b₃, b₄, b₅, l₀, l₁, rest, rfl⟩ := eight_le long
    obtain ⟨n, rfl⟩ := Nat.exists_eq_add_of_le' behind
    rfl
  · have all : ∀ bytes' : Bytes, bytes'.length = bytes.length → bytes'.drop n = [] :=
      fun bytes' same => List.drop_eq_nil_of_le (by omega)
    rw [all _ (length_setMore more bytes), all _ rfl]

theorem sameFrom_setMoreAt (more : Bool) (inside : offset + 8 ≤ n) (room : n ≤ b.buffer.length) :
    SameFrom n (b.setMoreAt offset more).buffer b.buffer := by
  have front : (b.buffer.take offset).length = offset := List.length_take_of_le (by omega)
  have split : n = (b.buffer.take offset).length + (n - offset) := by omega
  refine ⟨?_, ?_⟩
  · rw [setMoreAt, List.length_append, length_setMore, ← List.length_append, List.take_append_drop]
  · rw [setMoreAt, split, ← List.drop_drop, List.drop_left, drop_setMore more _ (by omega),
      List.drop_drop, front]

def LastBefore (b : FrameBuilder) (n : Nat) : Prop := ∀ start ∈ b.last, start + 8 ≤ n

theorem sameFrom_chain (last : b.LastBefore n) (room : n ≤ b.buffer.length) :
    SameFrom n b.chain.buffer b.buffer := by
  unfold chain
  split
  · exact .refl n _
  · rename_i previous here
    exact sameFrom_setMoreAt true (last previous here) room

theorem sameFrom_link (headers : headerLength ≤ n) (last : b.LastBefore n)
    (inside : b.length + 8 ≤ n) (room : n ≤ b.buffer.length) :
    SameFrom n (b.link size).buffer b.buffer := by
  have chained := sameFrom_chain last room
  have linked := sameFrom_setMoreAt (b := b.chain) false inside (chained.1.symm ▸ room)
  rw [link_eq]
  refine .trans (sameFrom_overwrite ?_ ?_) (linked.trans chained)
  · rw [Bytes.length_encodeWord]
    exact headers
  · exact (linked.trans chained).1.symm ▸ room

theorem place_fields (b : FrameBuilder) (d : Bytes) :
    (b.place d).length = b.length + d.length ∧ (b.place d).last = some b.length ∧
      (b.place d).mtu = b.mtu := by
  rw [FrameBuilder.place, link_eq]
  exact ⟨rfl, rfl, rfl⟩

/-! ## Bounds -/

/-- The frame has its headers and ends inside the buffer and the payload size, and the datagram
that it has taken last lies inside it. -/
structure Bounded (b : FrameBuilder) : Prop where
  headers : headerLength ≤ b.length
  inside : b.length ≤ b.buffer.length
  within : b.length - Layout.ethernetHeader ≤ b.mtu
  last : ∀ start ∈ b.last,
    headerLength ≤ start ∧ start + (Layout.datagramHeader + Layout.workCounter) ≤ b.length

theorem bounded_of_create? {buffer : Bytes} {mtu : Nat} {destination source : MacAddress}
    (created : create? buffer mtu destination source = .ok b) :
    b.Bounded ∧ b.mtu = mtu ∧ b.buffer.length = buffer.length := by
  obtain ⟨holds, payloads, size, long, wide⟩ := create?_holds created
  have length : b.length = headerLength := holds.length
  have last : b.last = none := holds.last
  refine ⟨⟨Nat.le_of_eq length.symm, ?_, ?_, ?_⟩, payloads, size⟩
  · rwa [length, size]
  · rwa [length, payloads]
  · simp [last]

theorem Bounded.lastBefore (h : b.Bounded) : b.LastBefore b.length := by
  intro start here
  have inside := (h.last start here).2
  simp only [Layout.datagramHeader, Layout.workCounter] at inside
  omega

theorem Bounded.remaining_le (h : b.Bounded) :
    b.length + b.remaining ≤ b.buffer.length ∧
      b.length - Layout.ethernetHeader + b.remaining ≤ b.mtu := by
  have inside := h.inside
  have within := h.within
  simp only [remaining]
  omega

theorem Bounded.sameFrom_place (h : b.Bounded) (long : 8 ≤ d.length)
    (room : d.length ≤ b.remaining) :
    SameFrom (b.length + d.length) (b.place d).buffer b.buffer := by
  have fits := h.remaining_le.1
  have written : SameFrom (b.length + d.length) (b.buffer.overwrite b.length d) b.buffer :=
    sameFrom_overwrite (Nat.le_refl _) (by omega)
  let wider := { b with buffer := b.buffer.overwrite b.length d }
  refine .trans (sameFrom_link (b := wider) ?_ ?_ ?_ ?_) written
  · exact Nat.le_trans h.headers (Nat.le_add_right _ _)
  · exact fun start here => Nat.le_trans (h.lastBefore start here) (Nat.le_add_right _ _)
  · exact Nat.add_le_add_left long _
  · rw [written.1]
    omega

theorem Bounded.place (h : b.Bounded)
    (long : Layout.datagramHeader + Layout.workCounter ≤ d.length) (room : d.length ≤ b.remaining) :
    (b.place d).Bounded := by
  obtain ⟨length, last, mtu⟩ := b.place_fields d
  obtain ⟨inside, within⟩ := h.remaining_le
  have headers := h.headers
  have eight : 8 ≤ d.length := Nat.le_trans (by decide) long
  refine ⟨?_, ?_, ?_, ?_⟩
  · omega
  · rw [(h.sameFrom_place eight room).1, length]
    omega
  · rw [length, mtu]
    omega
  · intro start here
    rw [last, Option.mem_some_iff] at here
    omega

theorem Bounded.sameFrom_setWorkCounter (h : b.Bounded) (counter : UInt16) :
    SameFrom b.length (b.setWorkCounter counter).buffer b.buffer := by
  unfold setWorkCounter
  split
  · exact .refl _ _
  · have headers := h.headers
    refine sameFrom_overwrite ?_ h.inside
    rw [Bytes.length_encodeWord]
    simp only [headerLength, Layout.ethernetHeader, Layout.frameHeader, Layout.workCounter]
      at headers ⊢
    omega

theorem setWorkCounter_fields (b : FrameBuilder) (counter : UInt16) :
    (b.setWorkCounter counter).length = b.length ∧ (b.setWorkCounter counter).last = b.last ∧
      (b.setWorkCounter counter).mtu = b.mtu := by
  unfold setWorkCounter
  split <;> exact ⟨rfl, rfl, rfl⟩

theorem Bounded.setWorkCounter (h : b.Bounded) (counter : UInt16) :
    (b.setWorkCounter counter).Bounded := by
  obtain ⟨length, last, mtu⟩ := b.setWorkCounter_fields counter
  refine ⟨?_, ?_, ?_, ?_⟩
  · rw [length]
    exact h.headers
  · rw [(h.sameFrom_setWorkCounter counter).1, length]
    exact h.inside
  · rw [length, mtu]
    exact h.within
  · rw [length, last]
    exact h.last

/-! ## Any call -/

/-- A call fails, places a datagram that has room, or sets the work counter. -/
theorem attempt_cases (b : FrameBuilder) (op : Operation) :
    (∃ cause, b.attempt op = .error cause ∧ op.entry? b.remaining = none) ∨
    (∃ e, b.attempt op = .ok (b.place e.bytes) ∧ op.entry? b.remaining = some e ∧
      Layout.datagramHeader + Layout.workCounter ≤ e.bytes.length ∧
        e.bytes.length ≤ b.remaining) ∨
    (∃ counter, op = .setWorkCounter counter ∧ b.attempt op = .ok (b.setWorkCounter counter)) := by
  cases entry : op.entry? b.remaining with
  | some e =>
      obtain ⟨accepted, spelled, room⟩ := b.attempt_eq_ok entry
      exact .inr (.inl ⟨e, accepted, rfl, spelled.twelve_le, room⟩)
  | none =>
      by_cases adds : ∀ counter, op ≠ .setWorkCounter counter
      · obtain ⟨cause, failed⟩ := b.attempt_eq_error entry adds
        exact .inl ⟨cause, failed, rfl⟩
      · simp only [Classical.not_forall, Decidable.not_not] at adds
        obtain ⟨counter, rfl⟩ := adds
        exact .inr (.inr ⟨counter, rfl, rfl⟩)

theorem perform_of_ok {b b' : FrameBuilder} {op : Operation} (done : b.attempt op = .ok b') :
    b.perform op = b' := by
  rw [perform, done]
  rfl

theorem perform_of_error {op : Operation} {cause : Error} (failed : b.attempt op = .error cause) :
    b.perform op = b := by
  rw [perform, failed]
  rfl

/-- With `free` bytes left, an operation is accepted and takes `size` of them. -/
def Operation.Takes (free size : Nat) : Operation → Prop
  | .add _ _ _ payload => payload.length ≤ Layout.maxPayload ∧
      size = Layout.datagramHeader + payload.length + Layout.workCounter ∧ size ≤ free
  | .append bytes => ∃ d, Datagram.parse? bytes 0 = .ok d ∧
      size = d.header.datagramLength ∧ size ≤ free
  | .setWorkCounter _ => size = 0

theorem exists_attempt_iff (b : FrameBuilder) (op : Operation) :
    (∃ b', b.attempt op = .ok b') ↔ ∃ size, op.Takes b.remaining size := by
  cases op with
  | add command index address payload =>
      have placed := b.exists_add_iff command index address payload
      constructor
      · rintro ⟨b', accepted⟩
        cases outcome : b.add command index address payload with
        | error cause =>
            rw [attempt_add_error outcome] at accepted
            cases accepted
        | ok placed' =>
            obtain ⟨size, room⟩ := placed.mp ⟨placed', outcome⟩
            exact ⟨_, size, rfl, room⟩
      · rintro ⟨size, short, rfl, room⟩
        obtain ⟨placed', accepted⟩ := placed.mpr ⟨short, room⟩
        exact ⟨_, attempt_add_ok accepted⟩
  | append bytes =>
      refine (b.exists_append_iff bytes).trans ⟨?_, ?_⟩
      · rintro ⟨d, parsed, room⟩
        exact ⟨_, d, parsed, rfl, room⟩
      · rintro ⟨size, d, parsed, rfl, room⟩
        exact ⟨d, parsed, room⟩
  | setWorkCounter counter => exact ⟨fun _ => ⟨0, rfl⟩, fun _ => ⟨_, rfl⟩⟩

theorem length_of_takes {b b' : FrameBuilder} {op : Operation}
    (done : b.attempt op = .ok b') (takes : op.Takes b.remaining size) :
    b'.length = b.length + size := by
  cases op with
  | add command index address payload =>
      obtain ⟨short, rfl, room⟩ := takes
      have placed := attempt_add_ok (b.add_eq command index address short room)
      rw [done, Except.ok.injEq] at placed
      rw [placed, (b.place_fields _).1, Datagram.length_encode]
  | append bytes =>
      obtain ⟨d, parsed, rfl, room⟩ := takes
      obtain ⟨decode, whole, -⟩ := Datagram.spelled_of_parse? parsed
      have placed := (b.append_eq decode whole).trans (if_neg (Nat.not_lt.mpr room))
      rw [attempt, placed, Except.ok.injEq] at done
      rw [← done, (b.place_fields _).1, List.length_take_of_le whole]
  | setWorkCounter counter =>
      rw [attempt, Except.ok.injEq] at done
      obtain rfl := takes
      rw [← done, (b.setWorkCounter_fields counter).1, Nat.add_zero]

theorem Bounded.perform (h : b.Bounded) (op : Operation) :
    (b.perform op).Bounded ∧ (b.perform op).mtu = b.mtu ∧
      SameFrom (b.perform op).length (b.perform op).buffer b.buffer := by
  rcases b.attempt_cases op with ⟨cause, failed, -⟩ | ⟨e, placed, -, long, room⟩ |
    ⟨counter, rfl, set⟩
  · rw [perform_of_error failed]
    exact ⟨h, rfl, .refl _ _⟩
  · obtain ⟨length, -, mtu⟩ := b.place_fields e.bytes
    rw [perform_of_ok placed]
    refine ⟨h.place long room, mtu, ?_⟩
    rw [length]
    exact h.sameFrom_place (Nat.le_trans (by decide) long) room
  · obtain ⟨length, -, mtu⟩ := b.setWorkCounter_fields counter
    rw [perform_of_ok set]
    refine ⟨h.setWorkCounter counter, mtu, ?_⟩
    rw [length]
    exact h.sameFrom_setWorkCounter counter

theorem length_le_perform (b : FrameBuilder) (op : Operation) :
    b.length ≤ (b.perform op).length := by
  rcases b.attempt_cases op with ⟨cause, failed, -⟩ | ⟨e, placed, -⟩ | ⟨counter, rfl, set⟩
  · exact Nat.le_of_eq (congrArg FrameBuilder.length (perform_of_error failed)).symm
  · rw [perform_of_ok placed, (b.place_fields e.bytes).1]
    exact Nat.le_add_right _ _
  · rw [perform_of_ok set]
    exact Nat.le_of_eq (b.setWorkCounter_fields counter).1.symm

theorem length_le_run (b : FrameBuilder) (ops : List Operation) :
    b.length ≤ (b.run ops).length := by
  induction ops generalizing b with
  | nil => exact Nat.le_refl _
  | cons op ops ih => exact Nat.le_trans (b.length_le_perform op) (ih (b.perform op))

/-- What a call makes of a builder. -/
structure Clean (b : FrameBuilder) (op : Operation) (outcome : Except Error Unit)
    (b' : FrameBuilder) : Prop where
  accepted : outcome = .ok () ↔ ∃ size, op.Takes b.remaining size
  failed : ∀ cause, outcome = .error cause → b' = b
  grown : ∀ size, op.Takes b.remaining size → b'.length = b.length + size
  behind : SameFrom b'.length b'.buffer b.buffer

theorem Bounded.clean (h : b.Bounded) (op : Operation) :
    b.Clean op ((b.attempt op).map fun _ => ()) (b.perform op) := by
  have accepted := b.exists_attempt_iff op
  refine ⟨?_, ?_, ?_, (h.perform op).2.2⟩
  · rw [← accepted]
    cases b.attempt op <;> simp [Except.map]
  · intro cause failed
    cases outcome : b.attempt op with
    | error cause' => exact perform_of_error outcome
    | ok b' =>
        rw [outcome] at failed
        cases failed
  · intro size takes
    obtain ⟨b', done⟩ := accepted.mpr ⟨size, takes⟩
    rw [perform_of_ok done]
    exact length_of_takes done takes

theorem Bounded.run (h : b.Bounded) (ops : List Operation) :
    (b.run ops).Bounded ∧ (b.run ops).mtu = b.mtu ∧
      SameFrom (b.run ops).length (b.run ops).buffer b.buffer := by
  induction ops generalizing b with
  | nil => exact ⟨h, rfl, .refl _ _⟩
  | cons op ops ih =>
      obtain ⟨bounded, mtu, same⟩ := h.perform op
      obtain ⟨bounded', mtu', same'⟩ := ih bounded
      exact ⟨bounded', mtu'.trans mtu,
        same'.trans (same.mono ((b.perform op).length_le_run ops))⟩

end FrameBuilder

end Fieldbus
