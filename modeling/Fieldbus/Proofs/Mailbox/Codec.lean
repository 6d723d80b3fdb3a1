import Fieldbus.Proofs.Bytes
import Fieldbus.Proofs.Mailbox.Messages

/-!
# What is kept between messages and their bytes

Messages are read back as they were written, and a message that was read is written again as it
was, except for the reserved bit. The length, the protocol and the counter lie in fields of a few
bits each, and a stamp changes none but the counter.
-/

namespace Fieldbus

theorem Protocol.toByte_of_ofByte? {byte : UInt8} {p : Protocol} (h : ofByte? byte = .ok p) :
    byte = p.toByte := by
  unfold ofByte? at h
  split at h <;> first | (cases h; done) | (cases h; rfl)

/-! ## Headers -/

namespace MessageHeader

variable {h : MessageHeader} {bytes : Bytes}

theorem nibble (kind : UInt8) : UInt8.ofNat (kind.toNat % 16) = kind &&& 0x0F := by
  rw [← UInt8.toNat_inj, UInt8.toNat_ofNat', UInt8.toNat_and]
  change _ = kind.toNat &&& 2 ^ 4 - 1
  rw [Nat.and_two_pow_sub_one_eq_mod]
  omega

theorem toNat_and_reserved (kind : UInt8) : (kind &&& 0x80).toNat = 128 * (kind.toNat / 128) := by
  have small := kind.toNat_lt
  have mask := Bytes.and_gap kind.toNat 1 (by decide : 0 ≤ 7)
  rw [UInt8.toNat_and]
  change kind.toNat &&& 2 ^ 7 * (2 ^ 1 - 1) + (2 ^ 0 - 1) = _
  rw [mask]
  omega

theorem six_le (long : 6 ≤ bytes.length) :
    ∃ l₀ l₁ a₀ a₁ channel kind rest, bytes = l₀ :: l₁ :: a₀ :: a₁ :: channel :: kind :: rest := by
  match bytes, long with
  | l₀ :: l₁ :: a₀ :: a₁ :: channel :: kind :: rest, _ =>
      exact ⟨l₀, l₁, a₀, a₁, channel, kind, rest, rfl⟩

theorem decode?_cases (decode : decode? bytes = .ok h) :
    ∃ l₀ l₁ a₀ a₁ channel kind rest,
      bytes = l₀ :: l₁ :: a₀ :: a₁ :: channel :: kind :: rest ∧
        kind &&& 0x0F = h.protocol.toByte ∧
        h = ⟨Bytes.decodeWord l₀ l₁, Bytes.decodeWord a₀ a₁, UInt8.ofNat (channel.toNat % 64),
          UInt8.ofNat (channel.toNat / 64), h.protocol, UInt8.ofNat (kind.toNat / 16 % 8)⟩ := by
  unfold decode? at decode
  split at decode
  · rename_i l₀ l₁ a₀ a₁ channel kind rest
    rw [nibble] at decode
    rcases known : Protocol.ofByte? (kind &&& 0x0F) with cause | p
    · rw [known] at decode
      cases decode
    · rw [known] at decode
      cases decode
      exact ⟨l₀, l₁, a₀, a₁, channel, kind, rest, rfl, Protocol.toByte_of_ofByte? known, rfl⟩
  · cases decode

theorem exists_decode? : (∃ h, decode? bytes = .ok h) ↔
    6 ≤ bytes.length ∧ ∃ p : Protocol, bytes[5]?.map (· &&& 0x0F) = some p.toByte := by
  constructor
  · rintro ⟨h, decode⟩
    obtain ⟨l₀, l₁, a₀, a₁, channel, kind, rest, rfl, known, -⟩ := decode?_cases decode
    exact ⟨Nat.le_add_left 6 rest.length, h.protocol, congrArg some known⟩
  · rintro ⟨long, p, known⟩
    obtain ⟨l₀, l₁, a₀, a₁, channel, kind, rest, rfl⟩ := six_le long
    have low : kind &&& 0x0F = p.toByte := Option.some.inj known
    simp only [decode?, nibble, low, Protocol.ofByte?_toByte]
    exact ⟨_, rfl⟩

theorem word?_of_decode? (decode : decode? bytes = .ok h) : bytes.word? 0 = some h.length := by
  obtain ⟨l₀, l₁, a₀, a₁, channel, kind, rest, rfl, -, eq⟩ := decode?_cases decode
  rw [eq]
  rfl

theorem encode_of_decode? (decode : decode? bytes = .ok h) :
    h.encode = (bytes.modify 5 (· &&& 0x7F)).take 6 := by
  obtain ⟨l₀, l₁, a₀, a₁, channel, kind, rest, rfl, known, eq⟩ := decode?_cases decode
  have small := channel.toNat_lt
  have routing : UInt8.ofNat ((UInt8.ofNat (channel.toNat % 64)).toNat % 64 +
      64 * ((UInt8.ofNat (channel.toNat / 64)).toNat % 4)) = channel := by
    rw [← UInt8.toNat_inj]
    simp only [UInt8.toNat_ofNat']
    omega
  have sequence : UInt8.ofNat (h.protocol.toByte.toNat +
      16 * ((UInt8.ofNat (kind.toNat / 16 % 8)).toNat % 8)) = kind &&& 0x7F := by
    have low : (kind &&& 0x7F).toNat = kind.toNat % 2 ^ 7 := by
      rw [UInt8.toNat_and]
      exact Nat.and_two_pow_sub_one_eq_mod kind.toNat 7
    rw [← UInt8.toNat_inj, ← known, ← nibble, low]
    simp only [UInt8.toNat_ofNat']
    omega
  rw [eq]
  simp only [encode, routing, sequence, Bytes.encodeWord_decodeWord]
  rfl

/-! ## Stamps -/

theorem stamp_eq_modify (c : UInt8) (bytes : Bytes) : stamp c bytes =
    bytes.modify 5 fun kind =>
      UInt8.ofNat (kind.toNat % 16 + 16 * (c.toNat % 8) + 128 * (kind.toNat / 128)) := by
  match bytes with
  | b₀ :: b₁ :: b₂ :: b₃ :: b₄ :: kind :: rest => rfl
  | [] | [_] | [_, _] | [_, _, _] | [_, _, _, _] | [_, _, _, _, _] => rfl

theorem decode?_stamp_mod (c : UInt8) (decode : decode? bytes = .ok h) :
    decode? (stamp c bytes) = .ok { h with counter := c % 8 } := by
  have same : stamp (c % 8) bytes = stamp c bytes := by
    rw [stamp_eq_modify, stamp_eq_modify, UInt8.toNat_mod]
    simp only [UInt8.toNat_ofNat, Nat.reducePow, Nat.reduceMod, Nat.mod_mod]
  rw [← same]
  apply decode?_stamp decode
  rw [UInt8.toNat_mod]
  exact Nat.mod_lt _ (by decide)

theorem getElem?_stamp (c : UInt8) (bytes : Bytes) {i : Nat} (other : i ≠ 5) :
    (stamp c bytes)[i]? = bytes[i]? := by
  rw [stamp_eq_modify, List.getElem?_modify_ne _ _ other.symm]

theorem reserved_stamp (c : UInt8) (bytes : Bytes) :
    (stamp c bytes)[5]?.map (· &&& 0x80) = bytes[5]?.map (· &&& 0x80) := by
  have kept (kind : UInt8) : UInt8.ofNat (kind.toNat % 16 + 16 * (c.toNat % 8) +
      128 * (kind.toNat / 128)) &&& 0x80 = kind &&& 0x80 := by
    have small := kind.toNat_lt
    rw [← UInt8.toNat_inj, toNat_and_reserved, toNat_and_reserved, UInt8.toNat_ofNat']
    omega
  rw [stamp_eq_modify, List.getElem?_modify_eq, Option.map_eq_map, Option.map_map]
  exact Option.map_congr fun kind _ => kept kind

end MessageHeader

/-! ## Messages -/

namespace Message

open MessageHeader (stamp)

variable {bytes : Bytes} {m : Message}

theorem decode?_eq_ok_iff : decode? bytes = .ok m ↔
    MessageHeader.decode? bytes = .ok m.header ∧
      m.header.length.toNat ≤ (bytes.drop 6).length ∧
      m.payload = (bytes.drop 6).take m.header.length.toNat := by
  unfold decode?
  rcases MessageHeader.decode? bytes with cause | header
  · exact iff_of_false nofun nofun
  · obtain ⟨header', payload⟩ := m
    change (if (bytes.drop 6).length < header.length.toNat then
        Except.error (Error.malformed .messageTruncated)
      else .ok (Message.mk header ((bytes.drop 6).take header.length.toNat))) =
        .ok (Message.mk header' payload) ↔ _
    rw [Except.ok.injEq]
    by_cases short : (bytes.drop 6).length < header.length.toNat
    · rw [if_pos short]
      refine iff_of_false nofun ?_
      rintro ⟨rfl, whole, -⟩
      exact Nat.not_le_of_lt short whole
    · rw [if_neg short, Except.ok.injEq, Message.mk.injEq]
      constructor
      · rintro ⟨rfl, rfl⟩
        exact ⟨rfl, Nat.le_of_not_lt short, rfl⟩
      · rintro ⟨rfl, -, rest⟩
        exact ⟨rfl, rest.symm⟩

theorem exists_decode? : (∃ m, decode? bytes = .ok m) ↔
    6 ≤ bytes.length ∧ (∃ p : Protocol, bytes[5]?.map (· &&& 0x0F) = some p.toByte) ∧
      ∃ length, bytes.word? 0 = some length ∧ 6 + length.toNat ≤ bytes.length := by
  constructor
  · rintro ⟨m, decode⟩
    obtain ⟨header, whole, -⟩ := decode?_eq_ok_iff.mp decode
    obtain ⟨long, known⟩ := MessageHeader.exists_decode?.mp ⟨_, header⟩
    rw [List.length_drop] at whole
    exact ⟨long, known, _, MessageHeader.word?_of_decode? header, by omega⟩
  · rintro ⟨long, known, length, announced, whole⟩
    obtain ⟨header, decode⟩ := MessageHeader.exists_decode?.mpr ⟨long, known⟩
    rw [MessageHeader.word?_of_decode? decode, Option.some.injEq] at announced
    subst announced
    have rest : header.length.toNat ≤ (bytes.drop 6).length := by
      rw [List.length_drop]
      exact Nat.le_sub_of_add_le' whole
    exact ⟨⟨header, (bytes.drop 6).take header.length.toNat⟩,
      decode?_eq_ok_iff.mpr ⟨decode, rest, rfl⟩⟩

theorem length_of_decode? (decode : decode? bytes = .ok m) :
    m.payload.length = m.header.length.toNat ∧ 6 + m.payload.length ≤ bytes.length := by
  obtain ⟨header, whole, payload⟩ := decode?_eq_ok_iff.mp decode
  obtain ⟨long, -⟩ := MessageHeader.exists_decode?.mp ⟨_, header⟩
  have length : m.payload.length = m.header.length.toNat := by
    rw [payload, List.length_take_of_le whole]
  rw [List.length_drop] at whole
  exact ⟨length, by omega⟩

theorem length_encode (m : Message) : m.encode.length = 6 + m.payload.length := by
  rw [encode, List.length_append, MessageHeader.length_encode]

theorem encodeInto_append (header : MessageHeader) {payload buffer : Bytes}
    (short : payload.length ≤ 65535) (room : 6 + payload.length ≤ buffer.length) :
    encodeInto buffer header payload = .ok (6 + payload.length,
      encode ⟨{ header with length := .ofNat payload.length }, payload⟩ ++
        buffer.drop (6 + payload.length)) := by
  have length := length_encode ⟨{ header with length := .ofNat payload.length }, payload⟩
  have stored := (Bytes.store_append length room).1
  have fits : ¬payload.length > maxPayload := Nat.not_lt.mpr short
  unfold encodeInto
  dsimp only
  rw [if_neg fits, stored]
  simp only [length, bind, Except.bind, pure, Except.pure]

theorem decode?_encodeInto {header : MessageHeader} {payload buffer : Bytes}
    (channel : header.channel.toNat < 64) (priority : header.priority.toNat < 4)
    (counter : header.counter.toNat < 8) (short : payload.length ≤ 65535)
    (room : 6 + payload.length ≤ buffer.length) :
    ∃ written, encodeInto buffer header payload = .ok (6 + payload.length, written) ∧
      written.length = buffer.length ∧
      written.drop (6 + payload.length) = buffer.drop (6 + payload.length) ∧
      decode? written = .ok ⟨{ header with length := .ofNat payload.length }, payload⟩ := by
  have length := length_encode ⟨{ header with length := .ofNat payload.length }, payload⟩
  have announced : (UInt16.ofNat payload.length).toNat = payload.length := by
    rw [UInt16.toNat_ofNat']
    omega
  obtain ⟨-, whole, rest⟩ := Bytes.store_append length room
  refine ⟨_, encodeInto_append header short room, whole, rest, ?_⟩
  rw [encode, List.append_assoc]
  refine decode?_eq_ok_iff.mpr ⟨?_, ?_, ?_⟩
  · exact MessageHeader.decode?_encode _ channel priority counter
  · rw [List.drop_left' (MessageHeader.length_encode _), List.length_append, announced]
    exact Nat.le_add_right ..
  · rw [List.drop_left' (MessageHeader.length_encode _), announced, List.take_left]

theorem encodeInto_decode? {buffer : Bytes} (decode : decode? bytes = .ok m)
    (room : 6 + m.payload.length ≤ buffer.length) :
    encodeInto buffer m.header m.payload = .ok (6 + m.payload.length,
      (bytes.modify 5 (· &&& 0x7F)).take (6 + m.payload.length) ++
        buffer.drop (6 + m.payload.length)) := by
  obtain ⟨length, -⟩ := length_of_decode? decode
  obtain ⟨header, whole, payload⟩ := decode?_eq_ok_iff.mp decode
  have short : m.payload.length ≤ 65535 := by
    have := m.header.length.toNat_lt
    omega
  have same : { m.header with length := .ofNat m.payload.length } = m.header := by
    rw [length, UInt16.ofNat_toNat]
  have behind : (bytes.modify 5 (· &&& 0x7F)).drop 6 = bytes.drop 6 :=
    List.drop_modify_of_lt _ 5 6 bytes (by decide)
  rw [encodeInto_append _ short room, same, encode, MessageHeader.encode_of_decode? header,
    List.take_add, behind, length, ← payload]

theorem decode?_stamp (c : UInt8) (decode : decode? bytes = .ok m) :
    decode? (stamp c bytes) = .ok ⟨{ m.header with counter := c % 8 }, m.payload⟩ := by
  obtain ⟨header, whole, payload⟩ := decode?_eq_ok_iff.mp decode
  have behind : (stamp c bytes).drop 6 = bytes.drop 6 := by
    rw [MessageHeader.stamp_eq_modify]
    exact List.drop_modify_of_lt _ 5 6 bytes (by decide)
  refine decode?_eq_ok_iff.mpr ⟨MessageHeader.decode?_stamp_mod c header, ?_, ?_⟩
  · rw [behind]
    exact whole
  · rw [behind]
    exact payload

/-- Messages whose fields have room in their bits are read back as written. What is read as a
message is written again as it was, without the reserved bit, and it is read wherever a header with
a known protocol is followed by as many bytes as it announces. A stamp changes the counter. -/
theorem messages_lossless :
    (∀ (header : MessageHeader) (payload buffer : Bytes), header.channel.toNat < 64 →
        header.priority.toNat < 4 → header.counter.toNat < 8 → payload.length ≤ 65535 →
        6 + payload.length ≤ buffer.length →
      ∃ written, encodeInto buffer header payload = .ok (6 + payload.length, written) ∧
        written.length = buffer.length ∧
        written.drop (6 + payload.length) = buffer.drop (6 + payload.length) ∧
        decode? written = .ok ⟨{ header with length := .ofNat payload.length }, payload⟩) ∧
    (∀ (bytes buffer : Bytes) (m : Message), decode? bytes = .ok m →
        6 + m.payload.length ≤ buffer.length →
      6 + m.payload.length ≤ bytes.length ∧
        encodeInto buffer m.header m.payload = .ok (6 + m.payload.length,
          (bytes.modify 5 (· &&& 0x7F)).take (6 + m.payload.length) ++
            buffer.drop (6 + m.payload.length))) ∧
    (∀ bytes : Bytes, (∃ m, decode? bytes = .ok m) ↔
      6 ≤ bytes.length ∧ (∃ p : Protocol, bytes[5]?.map (· &&& 0x0F) = some p.toByte) ∧
        ∃ length, bytes.word? 0 = some length ∧ 6 + length.toNat ≤ bytes.length) ∧
    ∀ (bytes : Bytes) (m : Message) (c : UInt8), decode? bytes = .ok m →
      decode? (stamp c bytes) = .ok ⟨{ m.header with counter := c % 8 }, m.payload⟩ ∧
        (∀ i, i ≠ 5 → (stamp c bytes)[i]? = bytes[i]?) ∧
        (stamp c bytes)[5]?.map (· &&& 0x80) = bytes[5]?.map (· &&& 0x80) ∧
        ∀ c', stamp c' (stamp c bytes) = stamp c' bytes := by
  refine ⟨?writing, ?reading, ?accepting, ?stamping⟩
  case writing =>
    intro header payload buffer channel priority counter short room
    exact decode?_encodeInto channel priority counter short room
  case reading =>
    intro bytes buffer m decode room
    exact ⟨(length_of_decode? decode).2, encodeInto_decode? decode room⟩
  case accepting => exact fun bytes => exists_decode?
  case stamping =>
    intro bytes m c decode
    exact ⟨decode?_stamp c decode, fun i other => MessageHeader.getElem?_stamp c bytes other,
      MessageHeader.reserved_stamp c bytes, fun c' => MessageHeader.stamp_stamp c' c bytes⟩

theorem messages_lossless_reserved :
    (∃ written, encodeInto (List.replicate 10 0xEE) ⟨0xFFFF, 0x1001, 63, 3, .voe, 7⟩ [1, 2] =
        .ok (8, written) ∧ written.drop 8 = [0xEE, 0xEE] ∧
      decode? written = .ok ⟨⟨2, 0x1001, 63, 3, .voe, 7⟩, [1, 2]⟩) ∧
    decode? [2, 0, 1, 0x10, 0xFF, 0xF3, 1, 2, 9] = .ok ⟨⟨2, 0x1001, 63, 3, .coe, 7⟩, [1, 2]⟩ ∧
    encodeInto (Bytes.zeros 9) ⟨2, 0x1001, 63, 3, .coe, 7⟩ [1, 2] =
      .ok (8, [2, 0, 1, 0x10, 0xFF, 0x73, 1, 2, 0]) ∧
    decode? (stamp 13 [2, 0, 1, 0x10, 0xFF, 0xF3, 1, 2, 9]) =
      .ok ⟨⟨2, 0x1001, 63, 3, .coe, 5⟩, [1, 2]⟩ := by
  have decode : decode? [2, 0, 1, 0x10, 0xFF, 0xF3, 1, 2, 9] =
      .ok ⟨⟨2, 0x1001, 63, 3, .coe, 7⟩, [1, 2]⟩ := rfl
  refine ⟨?_, decode, ?_, ?_⟩
  · obtain ⟨written, encoded, -, rest, read⟩ := messages_lossless.1
      ⟨0xFFFF, 0x1001, 63, 3, .voe, 7⟩ [1, 2] (List.replicate 10 0xEE) (by decide) (by decide)
      (by decide) (by decide) (by decide)
    exact ⟨written, encoded, rest, read⟩
  · exact (messages_lossless.2.1 _ (Bytes.zeros 9) _ decode (by decide)).2
  · exact (messages_lossless.2.2.2 _ _ 13 decode).1

end Message

end Fieldbus
