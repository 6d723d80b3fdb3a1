import Fieldbus.Proofs.Bytes
import Fieldbus.Proofs.Frame.Iteration

/-!
# What is kept between datagrams and their bytes

Headers and datagrams are read back as they were written. Bytes that were read as a header are
written again as they were, except for the three bits of the length word that no field has.
-/

namespace Fieldbus

/-! ## Addresses -/

namespace Address

def Suits (command : Command) : Address → Prop
  | .physical _ _ => command.isLogical = false
  | .logical _ => command.isLogical = true

theorem ofLong_toLong_iff (command : Command) (address : Address) :
    ofLong command address.toLong = address ↔ address.Suits command := by
  cases address with
  | physical slave offset =>
      have low := slave.toNat_lt
      have high := offset.toNat_lt
      have word : (UInt32.ofNat (slave.toNat + 65536 * offset.toNat)).toNat =
          slave.toNat + 65536 * offset.toNat := by
        rw [UInt32.toNat_ofNat']
        omega
      have slaves : UInt16.ofNat (slave.toNat + 65536 * offset.toNat) = slave := by
        rw [← UInt16.toNat_inj, UInt16.toNat_ofNat']
        omega
      have offsets : UInt16.ofNat ((slave.toNat + 65536 * offset.toNat) / 65536) = offset := by
        rw [← UInt16.toNat_inj, UInt16.toNat_ofNat']
        omega
      rw [ofLong, toLong, Suits, word, slaves, offsets]
      cases command.isLogical <;> simp
  | logical address =>
      cases logical : command.isLogical <;> simp [ofLong, toLong, Suits, logical]

end Address

/-! ## Headers -/

namespace DatagramHeader

variable {h : DatagramHeader} {bytes : Bytes}

/-- What is left of a length word without bits 11 to 13. -/
theorem toNat_and_fields (word : UInt16) : (word &&& 0xC7FF).toNat =
    2 ^ 14 * (word.toNat / 2 ^ 14 % 2 ^ 2) + word.toNat % 2 ^ 11 := by
  rw [UInt16.toNat_and]
  exact Bytes.and_gap word.toNat 2 (by decide : 11 ≤ 14)

theorem toNat_and_low (word : UInt16) : (word &&& 0x7FFF).toNat = word.toNat % 2 ^ 15 := by
  rw [UInt16.toNat_and]
  exact Nat.and_two_pow_sub_one_eq_mod word.toNat 15

theorem toNat_or_high (word : UInt16) :
    (word ||| 0x8000).toNat = 2 ^ 15 + word.toNat % 2 ^ 15 := by
  have small := word.toNat_lt
  have high : (word.toNat ||| 0x8000) / 2 ^ 15 = 1 := by
    have top : word.toNat / 2 ^ 15 = 0 ∨ word.toNat / 2 ^ 15 = 1 := by omega
    rw [Nat.or_div_two_pow]
    rcases top with clear | set
    · rw [clear]
      rfl
    · rw [set]
      rfl
  have low : (word.toNat ||| 0x8000) % 2 ^ 15 = word.toNat % 2 ^ 15 := by
    rw [Nat.or_mod_two_pow]
    exact Nat.or_zero _
  rw [UInt16.toNat_or]
  change word.toNat ||| 0x8000 = _
  omega

theorem lengthWord_read (command : Command) (index : UInt8) (address : UInt32)
    (word interrupt : UInt16) :
    lengthWord ⟨command, index, address, UInt16.ofNat (word.toNat % 2048),
      word.toNat / 0x4000 % 2 == 1, word.toNat / 0x8000 == 1, interrupt⟩ = word &&& 0xC7FF := by
  have small := word.toNat_lt
  have length : (UInt16.ofNat (word.toNat % 2048)).toNat = word.toNat % 2048 := by
    rw [UInt16.toNat_ofNat']
    omega
  rw [← UInt16.toNat_inj, toNat_and_fields, lengthWord_toNat (by rw [length]; omega), length]
  simp only [beq_iff_eq]
  split <;> split <;> omega

theorem encode_of_decode? (decode : decode? bytes = .ok h) :
    h.encode = (bytes.modifyWord 6 (· &&& 0xC7FF)).take 10 := by
  unfold decode? at decode
  split at decode
  · rename_i byte index a₀ a₁ a₂ a₃ l₀ l₁ i₀ i₁ rest
    rcases known : Command.ofByte? byte with cause | command
    · rw [known] at decode
      cases decode
    · rw [known] at decode
      simp only [bind, Except.bind, pure, Except.pure, Except.ok.injEq] at decode
      subst decode
      rw [encode, lengthWord_read, Bytes.encodeLong_decodeLong, Bytes.encodeWord_decodeWord,
        ← Command.toByte_of_ofByte? known]
      rfl
  · cases decode

theorem setMore_eq_modifyWord (more : Bool) (bytes : Bytes) :
    setMore more bytes =
      bytes.modifyWord 6 fun word => if more then word ||| 0x8000 else word &&& 0x7FFF := by
  have flagged (word : UInt16) : UInt16.ofNat (word.toNat % 0x8000 + if more then 0x8000 else 0) =
      if more then word ||| 0x8000 else word &&& 0x7FFF := by
    rw [← UInt16.toNat_inj, UInt16.toNat_ofNat']
    cases more
    · rw [if_neg Bool.false_ne_true, if_neg Bool.false_ne_true, toNat_and_low]
      omega
    · rw [if_pos rfl, if_pos rfl, toNat_or_high]
      omega
  -- Fewer than eight bytes have no length word, and neither side changes them.
  match bytes with
  | [] | [_] | [_, _] | [_, _, _] | [_, _, _, _] | [_, _, _, _, _] | [_, _, _, _, _, _]
  | [_, _, _, _, _, _, _] => rfl
  | b₀ :: b₁ :: b₂ :: b₃ :: b₄ :: b₅ :: l₀ :: l₁ :: rest =>
      simp only [setMore, flagged]
      rfl

theorem decode?_encodeInto {buffer : Bytes} (bound : h.length.toNat ≤ 2047)
    (room : 10 ≤ buffer.length) :
    ∃ written, h.encodeInto buffer = .ok written ∧ written.length = buffer.length ∧
      written.drop 10 = buffer.drop 10 ∧ decode? written = .ok h := by
  obtain ⟨stored, whole, rest⟩ := Bytes.store_append (length_encode h) room
  exact ⟨_, stored, whole, rest, decode?_encode _ (Nat.lt_succ_of_le bound)⟩

theorem encodeInto_decode? {command : Command} {buffer : Bytes} (ten : 10 ≤ bytes.length)
    (known : bytes[0]? = some command.toByte) (room : 10 ≤ buffer.length) :
    ∃ h, decode? bytes = .ok h ∧ h.encodeInto buffer =
      .ok ((bytes.modifyWord 6 (· &&& 0xC7FF)).take 10 ++ buffer.drop 10) := by
  obtain ⟨h, decode⟩ := exists_decode?.mpr ⟨ten, command, known⟩
  refine ⟨h, decode, ?_⟩
  rw [encodeInto, (Bytes.store_append (length_encode h) room).1, encode_of_decode? decode]

end DatagramHeader

/-! ## Datagrams -/

namespace Datagram

open DatagramHeader (setMore setMore_append)

theorem length_request (command : Command) (index : UInt8) (address : Address)
    (payload : Bytes) : (encode command index address payload).length = 12 + payload.length := by
  rw [length_encode, Layout.datagramHeader, Layout.workCounter]
  omega

theorem parse?_encodeInto (command : Command) (index : UInt8) (address : Address)
    {payload buffer : Bytes} (front behind : Bytes) (size : payload.length ≤ 2047)
    (room : 12 + payload.length ≤ buffer.length) :
    ∃ written, encodeInto buffer command index address payload =
        .ok (12 + payload.length, written) ∧ written.length = buffer.length ∧
      written.drop (12 + payload.length) = buffer.drop (12 + payload.length) ∧
      parse? (front ++ written ++ behind) front.length =
        .ok ⟨.request command index address (UInt16.ofNat payload.length), payload, 0,
          front.length⟩ := by
  have length := length_request command index address payload
  have fits : ¬payload.length > Layout.maxPayload := Nat.not_lt.mpr size
  obtain ⟨stored, whole, rest⟩ := Bytes.store_append length room
  refine ⟨_, ?_, whole, rest, ?_⟩
  · rw [encodeInto, if_neg fits]
    simp only [stored, length, bind, Except.bind, pure, Except.pure]
  · have spelled := spelled_requested command index address size
    have read := parse?_spelled (d := { requested command index address payload with
      offset := front.length }) spelled front (buffer.drop (12 + payload.length) ++ behind) rfl
    rwa [← List.append_assoc, List.append_assoc front] at read

theorem parse?_setMore {front bytes behind : Bytes} {d : Datagram} (more : Bool)
    (long : 8 ≤ bytes.length) (parsed : parse? (front ++ bytes ++ behind) front.length = .ok d) :
    parse? (front ++ setMore more bytes ++ behind) front.length =
      .ok { d with header := { d.header with more } } := by
  obtain ⟨place, stop, spelled⟩ := parse?_eq_ok_iff.mp parsed
  rw [List.append_assoc, place, List.drop_left] at spelled
  have whole : 8 ≤ ((bytes ++ behind).take d.header.datagramLength).length := by
    have twelve := spelled.twelve_le
    omega
  -- The datagram may end before or after the bytes that are changed do.
  have split : setMore more bytes ++ behind =
      setMore more ((bytes ++ behind).take d.header.datagramLength) ++
        (bytes ++ behind).drop d.header.datagramLength := by
    rw [← setMore_append more behind long, ← setMore_append more _ whole, List.take_append_drop]
  have read := parse?_spelled (spelled.setMore more) front
    ((bytes ++ behind).drop d.header.datagramLength) place
  rwa [List.append_assoc, ← split, ← List.append_assoc] at read

/-- Headers with a length of eleven bits and requests of the same size are read back as written,
wherever they lie. Of the bytes of a header, all but bits 11 to 13 of the length word come back when
it is written again. A change of the more flag is read as that and as nothing else. -/
theorem codec_lossless :
    (∀ (header : DatagramHeader) (buffer : Bytes), header.length.toNat ≤ 2047 →
        10 ≤ buffer.length →
      ∃ written, header.encodeInto buffer = .ok written ∧ written.length = buffer.length ∧
        written.drop 10 = buffer.drop 10 ∧ DatagramHeader.decode? written = .ok header) ∧
    (∀ (command : Command) (bytes buffer : Bytes), 10 ≤ bytes.length →
        bytes[0]? = some command.toByte → 10 ≤ buffer.length →
      ∃ header, DatagramHeader.decode? bytes = .ok header ∧ header.encodeInto buffer =
        .ok ((bytes.modifyWord 6 (· &&& 0xC7FF)).take 10 ++ buffer.drop 10)) ∧
    (∀ (command : Command) (index : UInt8) (address : Address)
        (payload front buffer behind : Bytes), payload.length ≤ 2047 →
        12 + payload.length ≤ buffer.length →
      ∃ written d, encodeInto buffer command index address payload =
          .ok (12 + payload.length, written) ∧ written.length = buffer.length ∧
        written.drop (12 + payload.length) = buffer.drop (12 + payload.length) ∧
        parse? (front ++ written ++ behind) front.length = .ok d ∧
        d = ⟨⟨command, index, address.toLong, .ofNat payload.length, false, false, 0⟩, payload, 0,
          front.length⟩ ∧
        (d.address = address ↔ address.Suits command)) ∧
    (∀ (front bytes behind : Bytes) (more : Bool) (d : Datagram), 8 ≤ bytes.length →
        parse? (front ++ bytes ++ behind) front.length = .ok d →
      parse? (front ++ setMore more bytes ++ behind) front.length =
          .ok { d with header := { d.header with more } } ∧
        setMore more bytes =
          bytes.modifyWord 6 fun word => if more then word ||| 0x8000 else word &&& 0x7FFF) := by
  refine ⟨?headers, ?bytes, ?requests, ?flags⟩
  case headers =>
    intro header buffer bound room
    exact DatagramHeader.decode?_encodeInto bound room
  case bytes =>
    intro command bytes buffer ten known room
    exact DatagramHeader.encodeInto_decode? ten known room
  case requests =>
    intro command index address payload front buffer behind size room
    obtain ⟨written, encoded, length, rest, parsed⟩ :=
      parse?_encodeInto command index address front behind size room
    exact ⟨written, _, encoded, length, rest, parsed, rfl, Address.ofLong_toLong_iff ..⟩
  case flags =>
    intro front bytes behind more d long parsed
    exact ⟨parse?_setMore more long parsed, DatagramHeader.setMore_eq_modifyWord more bytes⟩

theorem codec_lossless_at_limits :
    (∃ written, (⟨.lrw, 0x5A, 0xDEADBEEF, 2047, true, true, 0xBEEF⟩ : DatagramHeader).encodeInto
        (List.replicate 12 0xAA) = .ok written ∧ written.length = 12 ∧
      written.drop 10 = [0xAA, 0xAA] ∧ DatagramHeader.decode? written =
        .ok ⟨.lrw, 0x5A, 0xDEADBEEF, 2047, true, true, 0xBEEF⟩) ∧
    (∃ header, DatagramHeader.decode? [4, 0x22, 1, 0x10, 0x30, 1, 0xFF, 0xFF, 0xEF, 0xBE, 9] =
        .ok header ∧ header.encodeInto (Bytes.zeros 11) =
      .ok [4, 0x22, 1, 0x10, 0x30, 1, 0xFF, 0xC7, 0xEF, 0xBE, 0]) ∧
    (∃ written d, encodeInto (Bytes.zeros 2060) .fpwr 7 (.physical 0x1001 0x0130)
        (List.replicate 2047 0x5A) = .ok (12 + 2047, written) ∧
      parse? ([0xEE] ++ written ++ [0xDD]) 1 = .ok d ∧
      d = ⟨⟨.fpwr, 7, 0x01301001, 2047, false, false, 0⟩, List.replicate 2047 0x5A, 0, 1⟩ ∧
      d.address = .physical 0x1001 0x0130) ∧
    parse? ([0xEE] ++ setMore true (encode .brd 7 (.logical 3) [0xAB]) ++ [0xDD]) 1 =
      .ok ⟨⟨.brd, 7, 3, 1, false, true, 0⟩, [0xAB], 0, 1⟩ := by
  refine ⟨?_, ?_, ?_, ?_⟩
  · exact codec_lossless.1 _ (List.replicate 12 0xAA) (by decide) (by decide)
  · exact codec_lossless.2.1 .fprd [4, 0x22, 1, 0x10, 0x30, 1, 0xFF, 0xFF, 0xEF, 0xBE, 9]
      (Bytes.zeros 11) (by decide) rfl (by decide)
  · have size : (List.replicate 2047 (0x5A : UInt8)).length ≤ 2047 := List.length_replicate.le
    have room : 12 + (List.replicate 2047 (0x5A : UInt8)).length ≤ (Bytes.zeros 2060).length := by
      rw [List.length_replicate, Bytes.length_zeros]
      decide
    obtain ⟨written, d, encoded, -, -, parsed, eq, suits⟩ := codec_lossless.2.2.1 .fpwr 7
      (.physical 0x1001 0x0130) _ [0xEE] _ [0xDD] size room
    rw [List.length_replicate] at encoded eq
    exact ⟨written, d, encoded, parsed, eq, suits.mpr rfl⟩
  · exact (codec_lossless.2.2.2 [0xEE] (encode .brd 7 (.logical 3) [0xAB]) [0xDD] true
      ⟨⟨.brd, 7, 3, 1, false, false, 0⟩, [0xAB], 0, 1⟩ (by decide) rfl).1

end Datagram

end Fieldbus
