import Fieldbus.Frame.Builder
import Fieldbus.Proofs.Frame.Datagrams

/-!
# What a builder holds

After every step the buffer of a builder holds a complete frame, and behind it what was there
before. The frame is spelled by the list of its datagrams: each is as it was given except for its
more flag, which all but the last have set.
-/

namespace Fieldbus

namespace Bytes

theorem overwrite_append {front old patch rest : Bytes} {offset : Nat}
    (place : front.length = offset) (size : old.length = patch.length) :
    overwrite (front ++ old ++ rest) offset patch = front ++ patch ++ rest := by
  subst place
  have behind : (front ++ old ++ rest).drop (front.length + patch.length) = rest := by
    rw [← size, ← List.length_append, List.drop_left]
  rw [overwrite, behind, List.append_assoc front, List.take_left]

theorem overwrite_behind {front patch rest : Bytes} {offset : Nat}
    (place : front.length = offset) :
    overwrite (front ++ rest) offset patch = front ++ patch ++ rest.drop patch.length := by
  subst place
  rw [overwrite, List.take_left, ← List.drop_drop, List.drop_left]

end Bytes

namespace DatagramHeader

/-! ## The more flag -/

theorem eight_le {bytes : Bytes} (long : 8 ≤ bytes.length) :
    ∃ b₀ b₁ b₂ b₃ b₄ b₅ l₀ l₁ rest,
      bytes = b₀ :: b₁ :: b₂ :: b₃ :: b₄ :: b₅ :: l₀ :: l₁ :: rest := by
  match bytes, long with
  | b₀ :: b₁ :: b₂ :: b₃ :: b₄ :: b₅ :: l₀ :: l₁ :: rest, _ =>
      exact ⟨b₀, b₁, b₂, b₃, b₄, b₅, l₀, l₁, rest, rfl⟩

@[simp] theorem length_setMore (more : Bool) (bytes : Bytes) :
    (setMore more bytes).length = bytes.length := by
  unfold setMore
  split
  · simp
    omega
  · rfl

theorem setMore_append (more : Bool) {bytes : Bytes} (rest : Bytes) (long : 8 ≤ bytes.length) :
    setMore more (bytes ++ rest) = setMore more bytes ++ rest := by
  obtain ⟨b₀, b₁, b₂, b₃, b₄, b₅, l₀, l₁, behind, rfl⟩ := eight_le long
  simp only [List.cons_append, setMore, List.append_assoc, List.nil_append]

theorem setMore_setMore (more before : Bool) (bytes : Bytes) :
    setMore more (setMore before bytes) = setMore more bytes := by
  by_cases long : 8 ≤ bytes.length
  · obtain ⟨b₀, b₁, b₂, b₃, b₄, b₅, l₀, l₁, behind, rfl⟩ := eight_le long
    simp only [setMore, Bytes.encodeWord, List.cons_append, List.nil_append,
      Bytes.decodeWord_encodeWord]
    have low : ∀ n : Nat, ((n % 0x8000 + if before then 0x8000 else 0) % 2 ^ 16) % 0x8000 =
        n % 0x8000 := by
      intro n
      split <;> omega
    simp only [UInt16.toNat_ofNat', low]
  · have short : setMore before bytes = bytes := by
      unfold setMore
      split
      · simp at long
      · rfl
    rw [short]

theorem setMore_encode {h : DatagramHeader} (more : Bool) (rest : Bytes)
    (bound : h.length.toNat < 2048) :
    setMore more (h.encode ++ rest) = ({ h with more } : DatagramHeader).encode ++ rest := by
  have word : UInt16.ofNat (h.lengthWord.toNat % 0x8000 + if more then 0x8000 else 0) =
      ({ h with more } : DatagramHeader).lengthWord := by
    have now := @lengthWord_toNat { h with more } bound
    rw [← UInt16.toNat_inj, now, lengthWord_toNat bound, UInt16.toNat_ofNat']
    cases h.circulating <;> cases h.more <;> cases more <;> simp <;> omega
  simp only [encode, Bytes.encodeLong, Bytes.encodeWord, List.cons_append, List.nil_append,
    setMore, Bytes.decodeWord_encodeWord, word]

end DatagramHeader

namespace Frame

open DatagramHeader (setMore setMore_append setMore_setMore length_setMore)

/-! ## Chained datagrams -/

/-- Encoded datagrams one after the other. The more flag of all but the last is set. -/
def chained : List Bytes → Bytes
  | [] => []
  | d :: ds => setMore (!ds.isEmpty) d ++ chained ds

theorem chained_concat (ds : List Bytes) (d : Bytes) :
    chained (ds ++ [d]) = ds.flatMap (setMore true) ++ setMore false d := by
  induction ds with
  | nil => simp [chained]
  | cons first rest ih =>
      have follows : (rest ++ [d]).isEmpty = false := by simp
      simp only [List.cons_append, chained, ih, follows, Bool.not_false, List.flatMap_cons,
        List.append_assoc]

def size (ds : List Bytes) : Nat := ds.flatten.length

@[simp] theorem size_nil : size [] = 0 := rfl

@[simp] theorem size_cons (d : Bytes) (ds : List Bytes) : size (d :: ds) = d.length + size ds := by
  simp [size]

@[simp] theorem size_append (ds ds' : List Bytes) : size (ds ++ ds') = size ds + size ds' := by
  simp [size]

@[simp] theorem length_chained (ds : List Bytes) : (chained ds).length = size ds := by
  induction ds with
  | nil => rfl
  | cons d ds ih => simp [chained, ih]

theorem length_flatMap_setMore (more : Bool) (ds : List Bytes) :
    (ds.flatMap (setMore more)).length = size ds := by
  induction ds with
  | nil => rfl
  | cons d ds ih => simp [ih]

/-! ## Images -/

def room (mtu size : Nat) : Nat := min (mtu - Layout.frameHeader) (size - headerLength)

def image (ethernet : EthernetHeader) (ds : List Bytes) : Bytes :=
  ethernet.encode ++ sizeWord (size ds) ++ chained ds

theorem length_image (ethernet : EthernetHeader) (ds : List Bytes) :
    (image ethernet ds).length = headerLength + size ds := by
  simp [image, sizeWord, headerLength, Layout.ethernetHeader, Layout.frameHeader]
  omega

end Frame

namespace FrameBuilder

open DatagramHeader (setMore setMore_append setMore_setMore length_setMore)
open Fieldbus.Frame

/-- A builder whose frame has the given header and datagrams. -/
structure Holds (b : FrameBuilder) (ethernet : EthernetHeader) (ds : List Bytes) : Prop where
  buffer : ∃ rest, b.buffer = image ethernet ds ++ rest
  length : b.length = headerLength + size ds
  last : b.last = ds.getLast?.map fun d => b.length - d.length
  count : b.count = ds.length
  long : ∀ d ∈ ds, 8 ≤ d.length

variable {b : FrameBuilder} {ethernet : EthernetHeader} {ds : List Bytes}

theorem Holds.frame (h : b.Holds ethernet ds) : b.frame = image ethernet ds := by
  obtain ⟨rest, buffer⟩ := h.buffer
  rw [FrameBuilder.frame, buffer, h.length, ← length_image ethernet, List.take_left]

theorem Holds.isEmpty (h : b.Holds ethernet ds) : b.isEmpty = ds.isEmpty := by
  rw [FrameBuilder.isEmpty, h.count]
  cases ds <;> simp

theorem Holds.fits (h : b.Holds ethernet ds) : b.length ≤ b.buffer.length := by
  obtain ⟨rest, buffer⟩ := h.buffer
  rw [buffer, List.length_append, length_image, h.length]
  omega

theorem Holds.remaining (h : b.Holds ethernet ds) :
    b.remaining = room b.mtu b.buffer.length - size ds := by
  rw [FrameBuilder.remaining, h.length]
  simp only [room, headerLength, Layout.ethernetHeader, Layout.frameHeader]
  omega

/-! ## The steps of a builder -/

theorem sealed_buffer {b : FrameBuilder} {word body : Bytes}
    (buffer : b.buffer = ethernet.encode ++ word ++ body) (size : word.length = 2) :
    b.sealed.buffer = ethernet.encode ++ sizeWord (b.length - headerLength) ++ body := by
  have place : ethernet.encode.length = Layout.ethernetHeader := EthernetHeader.length_encode _
  simp only [«sealed», buffer]
  exact Bytes.overwrite_append place (size.trans (Bytes.length_encodeWord _).symm)

theorem create?_holds {buffer : Bytes} {mtu : Nat} {destination source : MacAddress}
    (h : create? buffer mtu destination source = .ok b) :
    b.Holds { destination, source } [] ∧ b.mtu = mtu ∧ b.buffer.length = buffer.length ∧
      headerLength ≤ buffer.length ∧ Layout.frameHeader ≤ mtu := by
  unfold create? at h
  split at h
  · cases h
  · rename_i room
    simp only [not_or, Nat.not_lt] at room
    simp only [EthernetHeader.encodeInto, Bytes.store] at h
    split at h
    · cases h
    · simp only [bind, Except.bind, pure, Except.pure, Except.ok.injEq] at h
      have long : 16 ≤ buffer.length := room.1
      have two : ((buffer.drop 14).take 2).length = 2 := by
        simp
        omega
      have lead : buffer.overwrite 0 (EthernetHeader.encode { destination, source }) =
          EthernetHeader.encode { destination, source } ++ (buffer.drop 14).take 2 ++
            (buffer.drop 14).drop 2 := by
        rw [Bytes.overwrite_zero, EthernetHeader.length_encode, List.append_assoc,
          List.take_append_drop]
      have spelled := sealed_buffer (b := ⟨_, mtu, headerLength, none, 0⟩) lead two
      subst h
      refine ⟨⟨⟨(buffer.drop 14).drop 2, spelled.trans ?_⟩, rfl, rfl, rfl,
        fun d hd => by cases hd⟩, rfl, ?_, room⟩
      · simp [Frame.image, Frame.chained]
      · refine (congrArg List.length spelled).trans ?_
        simp [sizeWord]
        omega

theorem create?_cases (buffer : Bytes) (mtu : Nat)
    (destination source : MacAddress) :
    (buffer.length < Frame.headerLength ∨ mtu < Layout.frameHeader) ∧
        (∃ required available,
          create? buffer mtu destination source = .error (.capacity required available)) ∨
      (Frame.headerLength ≤ buffer.length ∧ Layout.frameHeader ≤ mtu) ∧
        ∃ b, create? buffer mtu destination source = .ok b := by
  by_cases small : buffer.length < Frame.headerLength ∨ mtu < Layout.frameHeader
  · refine .inl ⟨small, ?_⟩
    rw [create?, if_pos small]
    exact ⟨_, _, rfl⟩
  · have large := small
    simp only [not_or, Nat.not_lt] at large
    refine .inr ⟨large, ?_⟩
    have room : (EthernetHeader.encode { destination, source }).length ≤ buffer.length := by
      rw [EthernetHeader.length_encode]
      exact Nat.le_trans (by decide) large.1
    have stored := Bytes.store_eq_ok_iff.mpr ⟨room, rfl⟩
    simp only [create?, if_neg small, EthernetHeader.encodeInto, stored]
    exact ⟨_, rfl⟩

example : Frame.headerLength = 16 ∧ Layout.frameHeader = 2 := by decide

theorem setMoreAt_buffer {front d rest : Bytes} {offset : Nat} (more : Bool)
    (buffer : b.buffer = front ++ d ++ rest) (place : front.length = offset)
    (long : 8 ≤ d.length) :
    (b.setMoreAt offset more).buffer = front ++ setMore more d ++ rest := by
  subst place
  rw [setMoreAt, buffer, List.append_assoc, List.take_left, List.drop_left,
    setMore_append more rest long, List.append_assoc]

def chain (b : FrameBuilder) : FrameBuilder :=
  match b.last with
  | none => b
  | some previous => b.setMoreAt previous true

theorem link_eq (b : FrameBuilder) (size : Nat) :
    b.link size = FrameBuilder.sealed ⟨(b.chain.setMoreAt b.length false).buffer, b.mtu,
      b.length + size, some b.length, b.count + 1⟩ := by
  unfold link chain setMoreAt
  cases b.last <;> rfl

/-- Before the next datagram is linked, all datagrams have their more flags set. -/
theorem Holds.chain_buffer (h : b.Holds ethernet ds) {rest : Bytes}
    (buffer : b.buffer = image ethernet ds ++ rest) :
    b.chain.buffer =
      ethernet.encode ++ sizeWord (size ds) ++ ds.flatMap (setMore true) ++ rest := by
  rw [chain, h.last]
  rcases List.eq_nil_or_concat ds with nil | ⟨others, previous, concat⟩
  · subst nil
    exact buffer
  · rw [List.concat_eq_append] at concat
    subst concat
    have long := h.long previous (by simp)
    rw [image, chained_concat, ← List.append_assoc] at buffer
    have place : (ethernet.encode ++ sizeWord (size (others ++ [previous])) ++
        others.flatMap (setMore true)).length = b.length - previous.length := by
      simp only [List.length_append, length_flatMap_setMore, EthernetHeader.length_encode,
        sizeWord, Bytes.length_encodeWord, h.length, headerLength, Layout.ethernetHeader,
        Layout.frameHeader, size_append, size_cons, size_nil]
      omega
    simp only [List.getLast?_append, List.getLast?_singleton, Option.some_or, Option.map_some]
    rw [setMoreAt_buffer true buffer place (by simpa using long), setMore_setMore]
    simp

theorem Holds.place (h : b.Holds ethernet ds) {d : Bytes} (long : 8 ≤ d.length)
    (room : d.length ≤ b.remaining) :
    (b.place d).Holds ethernet (ds ++ [d]) ∧ (b.place d).mtu = b.mtu ∧
      (b.place d).buffer.length = b.buffer.length := by
  obtain ⟨rest, buffer⟩ := h.buffer
  have whole : (image ethernet ds).length = b.length := by rw [length_image, h.length]
  have room' : d.length ≤ rest.length := by
    have behind : b.remaining ≤ b.buffer.length - b.length := Nat.min_le_right _ _
    rw [buffer, List.length_append, whole] at behind
    omega
  -- The datagram is written behind the frame, then linked to it.
  have shown : b.buffer.overwrite b.length d =
      image ethernet ds ++ (d ++ rest.drop d.length) := by
    rw [buffer, Bytes.overwrite_behind whole, List.append_assoc]
  have written : Holds { b with buffer := b.buffer.overwrite b.length d } ethernet ds :=
    { h with buffer := ⟨_, shown⟩ }
  have opened := written.chain_buffer shown
  rw [← List.append_assoc] at opened
  have place : (ethernet.encode ++ sizeWord (size ds) ++ ds.flatMap (setMore true)).length =
      b.length := by
    rw [← whole]
    simp only [List.length_append, length_flatMap_setMore, image, length_chained]
  have linked := setMoreAt_buffer false opened place long
  have grown : b.length + d.length - headerLength = size (ds ++ [d]) := by
    simp only [h.length, size_append, size_cons, size_nil]
    omega
  have body : ethernet.encode ++ sizeWord (size ds) ++ ds.flatMap (setMore true) ++
      setMore false d ++ rest.drop d.length =
        ethernet.encode ++ sizeWord (size ds) ++ (chained (ds ++ [d]) ++ rest.drop d.length) := by
    rw [chained_concat]
    simp only [List.append_assoc]
  have spelled := sealed_buffer
    (b := ⟨_, b.mtu, b.length + d.length, some b.length, b.count + 1⟩) (linked.trans body)
    (Bytes.length_encodeWord _)
  rw [FrameBuilder.place, link_eq]
  refine ⟨⟨⟨rest.drop d.length, ?_⟩, ?_, ?_, ?_, ?_⟩, rfl, ?_⟩
  · refine spelled.trans ?_
    rw [grown, ← List.append_assoc]
    rfl
  · show b.length + d.length = headerLength + size (ds ++ [d])
    rw [← grown]
    have := h.length
    omega
  · show some b.length = (ds ++ [d]).getLast?.map fun d' => b.length + d.length - d'.length
    simp
  · show b.count + 1 = (ds ++ [d]).length
    simp [h.count]
  · intro d' hd'
    rcases List.mem_append.mp hd' with old | new
    · exact h.long d' old
    · exact List.mem_singleton.mp new ▸ long
  · have total : b.buffer.length = headerLength + size ds + rest.length := by
      rw [buffer, List.length_append, length_image]
    refine (congrArg List.length spelled).trans ?_
    rw [total]
    simp only [List.length_append, EthernetHeader.length_encode, sizeWord,
      Bytes.length_encodeWord, length_chained, size_append, size_cons, size_nil, List.length_drop,
      headerLength, Layout.ethernetHeader, Layout.frameHeader]
    omega

theorem append_eq_ok {b b' : FrameBuilder} {bytes : Bytes} (h : b.append bytes = .ok b') :
    ∃ header, DatagramHeader.decode? bytes = .ok header ∧
      header.datagramLength ≤ bytes.length ∧ header.datagramLength ≤ b.remaining ∧
      b' = b.place (bytes.take header.datagramLength) := by
  unfold append reserve at h
  cases decode : DatagramHeader.decode? bytes with
  | error cause => simp [decode, bind, Except.bind] at h
  | ok header =>
      simp only [decode, bind, Except.bind, pure, Except.pure] at h
      refine ⟨header, rfl, ?_⟩
      by_cases short : bytes.length < header.datagramLength
      · simp [short] at h
      · by_cases room : header.datagramLength > b.remaining
        · simp [short, room] at h
        · simp only [short, room, if_false, Except.ok.injEq] at h
          exact ⟨by omega, by omega, h.symm⟩

theorem count_place (b : FrameBuilder) (d : Bytes) : (b.place d).count = b.count + 1 := by
  rw [FrameBuilder.place, link_eq]
  rfl

theorem append_eq (b : FrameBuilder) {bytes : Bytes} {header : DatagramHeader}
    (decode : DatagramHeader.decode? bytes = .ok header)
    (whole : header.datagramLength ≤ bytes.length) :
    b.append bytes = if header.datagramLength > b.remaining then
        .error (.capacity header.datagramLength b.remaining)
      else .ok (b.place (bytes.take header.datagramLength)) := by
  unfold append reserve
  simp only [decode, if_neg (Nat.not_lt.mpr whole), bind, Except.bind, pure, Except.pure]
  by_cases room : header.datagramLength > b.remaining <;> simp only [room, if_true, if_false]

end FrameBuilder

end Fieldbus
