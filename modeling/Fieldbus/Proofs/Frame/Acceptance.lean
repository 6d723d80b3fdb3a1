import Fieldbus.Proofs.Frame.Assembly

/-!
# What a builder accepts

A request is accepted if its payload is no longer than the length field of a datagram can say and
the whole datagram is no larger than the room that is left; an encoded datagram is accepted if it
can be read and has room. Whether a payload fits is answered from the room alone, with the size
added up in a word, so the answer can be yes for a payload that is too long. It is right for every
payload whose size is a word as long as fewer than 2060 bytes are left.
-/

namespace Fieldbus.FrameBuilder

variable (b : FrameBuilder)

theorem exists_add_iff (command : Command) (index : UInt8) (address : Address) (payload : Bytes) :
    (∃ placed, b.add command index address payload = .ok placed) ↔
      payload.length ≤ Layout.maxPayload ∧
        Layout.datagramHeader + payload.length + Layout.workCounter ≤ b.remaining := by
  constructor
  · rintro ⟨placed, accepted⟩
    refine Decidable.byContradiction fun refused => ?_
    obtain ⟨cause, failed⟩ := b.add_refused command index address refused
    rw [failed] at accepted
    cases accepted
  · rintro ⟨size, room⟩
    exact ⟨_, b.add_eq command index address size room⟩

theorem add_full (command : Command) (index : UInt8) (address : Address) {payload : Bytes}
    (full : b.remaining < Layout.datagramHeader + payload.length + Layout.workCounter) :
    b.add command index address payload = .error
      (.capacity (Layout.datagramHeader + payload.length + Layout.workCounter) b.remaining) := by
  simp only [add, reserve, if_pos full, bind, Except.bind]

theorem add_oversized (command : Command) (index : UInt8) (address : Address) {payload : Bytes}
    (room : Layout.datagramHeader + payload.length + Layout.workCounter ≤ b.remaining)
    (size : Layout.maxPayload < payload.length) :
    b.add command index address payload =
      .error (.capacity payload.length Layout.maxPayload) := by
  simp [add, reserve, if_neg (Nat.not_lt.mpr room), Datagram.encodeInto, if_pos size, bind,
    Except.bind]

theorem exists_append_iff (bytes : Bytes) :
    (∃ b', b.append bytes = .ok b') ↔
      ∃ d, Datagram.parse? bytes 0 = .ok d ∧ d.header.datagramLength ≤ b.remaining := by
  constructor
  · rintro ⟨b', accepted⟩
    obtain ⟨header, decode, whole, room, -⟩ := append_eq_ok accepted
    obtain ⟨d, parsed⟩ := Datagram.exists_parse? decode whole
    have same := (Datagram.spelled_of_parse? parsed).1
    rw [decode, Except.ok.injEq] at same
    exact ⟨d, parsed, same ▸ room⟩
  · rintro ⟨d, parsed, room⟩
    obtain ⟨decode, whole, -⟩ := Datagram.spelled_of_parse? parsed
    exact ⟨_, (b.append_eq decode whole).trans (if_neg (Nat.not_lt.mpr room))⟩

variable {b}

theorem attempt_add_ok {command : Command} {index : UInt8} {address : Address} {payload : Bytes}
    {placed : Nat × FrameBuilder} (done : b.add command index address payload = .ok placed) :
    b.attempt (.add command index address payload) = .ok placed.2 := by
  rw [attempt, done, Except.map]

theorem attempt_add_error {command : Command} {index : UInt8} {address : Address}
    {payload : Bytes} {cause : Error}
    (failed : b.add command index address payload = .error cause) :
    b.attempt (.add command index address payload) = .error cause := by
  rw [attempt, failed, Except.map]

variable (b)

/-! ## Asking beforehand -/

theorem fits_iff (n : Nat) : b.fits n = true ↔
    (Layout.datagramHeader + n + Layout.workCounter) % Layout.wordCount ≤ b.remaining := by
  rw [fits, decide_eq_true_iff]

theorem fits_iff_of_lt {n : Nat}
    (word : Layout.datagramHeader + n + Layout.workCounter < Layout.wordCount) :
    b.fits n = true ↔ Layout.datagramHeader + n + Layout.workCounter ≤ b.remaining := by
  rw [fits_iff, Nat.mod_eq_of_lt word]

theorem size_lt_wordCount {n : Nat} (size : n ≤ Layout.maxPayload) :
    Layout.datagramHeader + n + Layout.workCounter < Layout.wordCount := by
  simp only [Layout.maxPayload, Layout.datagramHeader, Layout.workCounter, Layout.wordCount,
    UInt64.size] at size ⊢
  omega

theorem fits_iff_add (command : Command) (index : UInt8) (address : Address) (payload : Bytes) :
    (b.fits payload.length = true ↔
        ∃ placed, b.add command index address payload = .ok placed) ↔
      payload.length ≤ Layout.maxPayload ∨
        b.remaining <
          (Layout.datagramHeader + payload.length + Layout.workCounter) % Layout.wordCount := by
  rw [exists_add_iff]
  by_cases size : payload.length ≤ Layout.maxPayload
  · rw [b.fits_iff_of_lt (size_lt_wordCount size)]
    simp only [size, true_and, true_or]
  · rw [fits_iff]
    simp only [size, false_and, iff_false, false_or, Nat.not_le]

/-- Whether a payload fits is answered rightly if the payload is not too long, or if the answer is
no. With fewer than 2060 bytes left the answer is right for every payload whose size is a word; with
more it is wrong for some payload. -/
theorem fits_exact_iff :
    (∀ command index address (payload : Bytes),
      (b.fits payload.length = true ↔
          ∃ placed, b.add command index address payload = .ok placed) ↔
        payload.length ≤ Layout.maxPayload ∨
          b.remaining <
            (Layout.datagramHeader + payload.length + Layout.workCounter) % Layout.wordCount) ∧
    ((∀ command index address (payload : Bytes),
      Layout.datagramHeader + payload.length + Layout.workCounter < Layout.wordCount →
        (b.fits payload.length = true ↔
          ∃ placed, b.add command index address payload = .ok placed)) ↔
      b.remaining < 2060) := by
  refine ⟨b.fits_iff_add, fun exact => ?_, fun room command index address payload word => ?_⟩
  · -- A payload one byte too long is refused.
    have longest : (Bytes.zeros 2048).length = 2048 := Bytes.length_zeros 2048
    have right := exact .nop 0 (.physical 0 0) (Bytes.zeros 2048) (by rw [longest]; decide)
    rw [fits_iff_add, longest] at right
    exact right.resolve_left (by decide)
  · rw [fits_iff_add, Nat.mod_eq_of_lt word]
    simp only [Layout.maxPayload, Layout.datagramHeader, Layout.workCounter]
    omega

/-- A new builder tells that a payload fits which is then refused for its length. -/
theorem exists_misjudged : ∃ b, create? (Bytes.zeros 2200) 2200 .broadcast .zero = .ok b ∧
    ∀ command index address (payload : Bytes), payload.length = 2048 →
      b.fits payload.length = true ∧
        b.add command index address payload = .error (.capacity 2048 2047) := by
  have long : Frame.headerLength ≤ (Bytes.zeros 2200).length := by
    rw [Bytes.length_zeros]
    decide
  have wide : Layout.frameHeader ≤ 2200 := by decide
  obtain ⟨b, created⟩ := exists_create? .broadcast .zero long wide
  obtain ⟨holds, payloads, size, -⟩ := create?_holds created
  have room : b.remaining = 2184 := by
    rw [holds.remaining, payloads, size, Bytes.length_zeros]
    rfl
  refine ⟨b, created, fun command index address payload length => ?_⟩
  refine ⟨?_, ?_⟩
  · rw [fits_iff, room, length]
    decide
  · rw [b.add_oversized command index address (by rw [room, length]; decide)
      (by rw [length]; decide), length]
    rfl

end Fieldbus.FrameBuilder
