import Fieldbus.Proofs.Frame.Assembly

/-!
# What the length field can say

A builder takes datagrams as long as the payload and the buffer have room, but the length field of
a frame has eleven bits. What a frame has beyond the length that is left of it there is taken for
padding, so the frame is read whole only if it has no more than 2047 bytes of datagrams.
-/

namespace Fieldbus

namespace Chain

theorem stop_le_of_parse? {region : Bytes} {offset : Nat} {d : Datagram}
    (h : Datagram.parse? region offset = .ok d) : d.stop ≤ region.length := by
  unfold Datagram.parse? at h
  split at h
  · cases h
  · rename_i inside
    cases decode : DatagramHeader.decode? (region.drop offset) with
    | error cause => simp [decode, bind, Except.bind] at h
    | ok header =>
        simp only [decode, bind, Except.bind] at h
        split at h
        · cases h
        · rename_i whole
          split at h
          · simp only [pure, Except.pure, Except.ok.injEq] at h
            subst h
            rw [List.length_drop] at whole
            simp only [Datagram.stop]
            omega
          · cases h

theorem stop_le_of_mem {fuel : Nat} {c : Chain} {d : Datagram} (h : .ok d ∈ take fuel c) :
    d.stop ≤ c.region.length := by
  induction fuel generalizing c with
  | zero => cases h
  | succ fuel ih =>
      rw [take] at h
      cases step : c.step? with
      | none => simp [step] at h
      | some found =>
          obtain ⟨item, rest⟩ := found
          have same : rest.region = c.region ∧ (item = .ok d → d.stop ≤ c.region.length) := by
            unfold step? at step
            split at step
            · cases step
            · split at step <;> cases step
              · exact ⟨rfl, fun here => by cases here⟩
              · rename_i parsed
                refine ⟨rfl, fun here => ?_⟩
                cases here
                exact stop_le_of_parse? parsed
          simp only [step, List.mem_cons] at h
          rcases h with first | later
          · exact same.2 first.symm
          · exact same.1 ▸ ih later

end Chain

namespace Frame

theorem sizeWord_mod (n : Nat) : sizeWord (n % 2048) = sizeWord n := by
  have same : (UInt16.ofNat (n % 2048)).toNat % 2048 = (UInt16.ofNat n).toNat % 2048 := by
    rw [UInt16.toNat_ofNat', UInt16.toNat_ofNat']
    omega
  simp only [sizeWord, FrameHeader.toWord, same]

/-- What the length field does not count is left out, as if it were padding. -/
theorem parse?_masked {ethernet : EthernetHeader} (type : ethernet.etherType = Layout.etherType)
    (body padding : Bytes) :
    parse? (ethernet.encode ++ sizeWord body.length ++ body ++ padding) =
      .ok ⟨ethernet, ⟨UInt16.ofNat (body.length % 2048), FrameHeader.datagrams⟩,
        body.take (body.length % 2048)⟩ := by
  have counted : (body.take (body.length % 2048)).length = body.length % 2048 :=
    List.length_take_of_le (Nat.mod_le _ _)
  have short : (body.take (body.length % 2048)).length ≤ 2047 := by omega
  have parsed := parse?_sized type short (body.drop (body.length % 2048) ++ padding)
  rw [counted, sizeWord_mod, ← List.append_assoc, List.append_assoc _ (body.take _),
    List.take_append_drop] at parsed
  exact parsed

end Frame

namespace FrameBuilder

open Fieldbus.Frame

/-- How the bytes of a frame are read, whatever follows them: the frame announces what the length
field can hold, and all its datagrams are read only if that is all there is. -/
def Masked (frame : Bytes) (es : List Entry) : Prop :=
  ∀ padding : Bytes, ∃ f, Frame.parse? (frame ++ padding) = .ok f ∧
    f.header.length.toNat = total es % 2048 ∧
    f.region = (chained (es.map Entry.bytes)).take (total es % 2048) ∧
    (f.chain.toList = (laid 0 (es.map Entry.datagram)).map .ok ↔ total es ≤ 2047)

variable {es : List Entry} {room : Nat}

theorem exists_stop (spelled : ∀ e ∈ es, e.datagram.Spelled e.bytes) (some : es ≠ [])
    (offset : Nat) : ∃ d ∈ laid offset (es.map Entry.datagram), d.stop = offset + total es := by
  induction es generalizing offset with
  | nil => exact absurd rfl some
  | cons e es ih =>
      have size := (spelled e (by simp)).length
      have sum : total (e :: es) = e.bytes.length + total es := by simp [total]
      simp only [List.map_cons, laid, List.mem_cons, exists_eq_or_imp]
      cases es with
      | nil =>
          refine .inl ?_
          simp only [Datagram.stop, sum, size]
          rfl
      | cons next rest =>
          obtain ⟨d, here, last⟩ := ih (fun e' he' => spelled e' (by simp [he'])) (by simp)
            (offset + e.bytes.length)
          refine .inr ⟨d, ?_, by rw [last, sum, Nat.add_assoc]⟩
          rw [size] at here
          exact here

theorem masked_image {ethernet : EthernetHeader} (type : ethernet.etherType = Layout.etherType)
    (spelled : ∀ e ∈ es, e.datagram.Spelled e.bytes) :
    Masked (image ethernet (es.map Entry.bytes)) es := by
  intro padding
  have size : (chained (es.map Entry.bytes)).length = total es := length_chained _
  have parsed := parse?_masked type (chained (es.map Entry.bytes)) padding
  rw [length_chained, ← image, ← total] at parsed
  refine ⟨_, parsed, ?_, rfl, fun whole => ?_, fun short => ?_⟩
  · simp only [UInt16.toNat_ofNat']
    omega
  · refine Nat.not_lt.mp fun long => ?_
    have some : es ≠ [] := by
      rintro rfl
      simp [total] at long
    obtain ⟨d, here, last⟩ := exists_stop spelled some 0
    have read : .ok d ∈ Chain.toList (.ofRegion
        ((chained (es.map Entry.bytes)).take (total es % 2048))) :=
      whole ▸ List.mem_map_of_mem here
    have inside := Chain.stop_le_of_mem read
    rw [last, Chain.ofRegion, List.length_take] at inside
    omega
  · have all : (chained (es.map Entry.bytes)).take (total es % 2048) =
        chained (es.map Entry.bytes) := by
      apply List.take_of_length_le
      omega
    have linked := linked_laid [] spelled
    have whole := (Chain.toList_linked linked (by cases es <;> simp [laid, chained])
      (by rw [length_laid, List.length_map, List.nil_append, size]
          exact length_le_total spelled)).2
    rw [Frame.chain, all]
    exact whole

/-! ## Any calls -/

theorem total_le (room : Nat) (ops : List Operation) : total (entries room ops) ≤ room := by
  have same : Frame.room (Layout.frameHeader + room) (headerLength + room) = room := by
    simp [Frame.room]
  obtain ⟨b, -, held⟩ := exists_collected (Bytes.zeros (headerLength + room))
    (Layout.frameHeader + room) .broadcast .zero ops (by simp) (by omega)
  rw [Bytes.length_zeros, same] at held
  exact held.within

/-- A datagram that is one byte longer than the length field of a frame can say. -/
def oversized : Operation := .add .nop 1 (.physical 0 0) (Bytes.zeros 2036)

theorem entry_oversized (large : 2047 < room) :
    ∃ e, oversized.entry? room = some e ∧ e.bytes.length = 2048 := by
  have wide : 2048 ≤ room := large
  refine ⟨⟨Datagram.encode .nop 1 (.physical 0 0) (Bytes.zeros 2036),
    Datagram.requested .nop 1 (.physical 0 0) (Bytes.zeros 2036)⟩, ?_, ?_⟩
  · simp only [oversized, Operation.entry?, Bytes.length_zeros]
    exact if_pos ⟨by decide, wide⟩
  · rw [Datagram.length_encode, Bytes.length_zeros]
    rfl

theorem total_le_iff (room : Nat) : (∀ ops, total (entries room ops) ≤ 2047) ↔ room ≤ 2047 := by
  refine ⟨fun short => Nat.not_lt.mp fun large => ?_, fun small ops => ?_⟩
  · obtain ⟨e, entry, size⟩ := entry_oversized large
    have taken : entries room [oversized] = [e] := by
      show [] ++ (oversized.entry? (room - 0)).toList = [e]
      rw [Nat.sub_zero, entry]
      rfl
    have long := short [oversized]
    rw [taken, total, List.map_singleton, size_cons, size] at long
    omega
  · exact Nat.le_trans (total_le room ops) small

theorem exists_masked (buffer : Bytes) (mtu : Nat) (destination source : MacAddress)
    (ops : List Operation) (long : headerLength ≤ buffer.length)
    (wide : Layout.frameHeader ≤ mtu) :
    ∃ b, create? buffer mtu destination source = .ok b ∧
      (b.run ops).frame.length = headerLength +
        total (entries (Frame.room mtu buffer.length) ops) ∧
      Masked (b.run ops).frame (entries (Frame.room mtu buffer.length) ops) := by
  obtain ⟨b, created, held⟩ := exists_collected buffer mtu destination source ops long wide
  refine ⟨b, created, ?_, ?_⟩
  · rw [held.holds.frame, length_image, total]
  · rw [held.holds.frame]
    exact masked_image rfl held.spelled

theorem exists_unread : ∃ b b' : FrameBuilder,
    create? (Bytes.zeros 2100) 2100 .broadcast .zero = .ok b ∧ b.attempt oversized = .ok b' ∧
      b'.frame.length = headerLength + 2048 ∧
      ∃ f, Frame.parse? b'.frame = .ok f ∧ f.header.length.toNat = 0 ∧ f.chain.toList = [] := by
  obtain ⟨b, created, held⟩ := exists_collected (Bytes.zeros 2100) 2100 .broadcast .zero []
    (by rw [Bytes.length_zeros]; decide) (by decide)
  rw [run, List.foldl_nil, Bytes.length_zeros] at held
  have room : b.remaining = 2084 := held.remaining
  have large : 2047 < b.remaining := by omega
  obtain ⟨e, entry, size⟩ := entry_oversized large
  obtain ⟨accepted, spelled, fits⟩ := b.attempt_eq_ok entry
  have taken := held.place spelled fits
  have type : ({ destination := .broadcast, source := .zero } : EthernetHeader).etherType =
      Layout.etherType := rfl
  have total : total (entries (Frame.room 2100 2100) [] ++ [e]) = 2048 := by
    simp [FrameBuilder.total, entries, size]
  obtain ⟨f, parsed, length, region, -⟩ := masked_image type taken.spelled []
  rw [List.append_nil, ← taken.holds.frame] at parsed
  rw [total] at length region
  refine ⟨b, b.place e.bytes, created, accepted, ?_, f, parsed, length, ?_⟩
  · rw [taken.holds.frame, length_image, ← FrameBuilder.total, total]
  · rw [Frame.chain, region]
    rfl

end FrameBuilder

end Fieldbus
