import Fieldbus.Frame.Basic

/-!
# Datagrams on the wire

The bytes of a datagram are its header, its payload and its work counter. Datagrams that lie one
after the other, with their lengths, offsets and more flags in order, are read back as they are.
-/

namespace Fieldbus

theorem DatagramHeader.decode?_append {bytes : Bytes} {header : DatagramHeader}
    (h : decode? bytes = .ok header) (rest : Bytes) : decode? (bytes ++ rest) = .ok header := by
  unfold decode? at h
  split at h
  · exact h
  · cases h

namespace Datagram

theorem encodeInto_eq_ok {buffer bytes : Bytes} {command : Command} {index : UInt8}
    {address : Address} {payload : Bytes} {length : Nat}
    (h : encodeInto buffer command index address payload = .ok (length, bytes)) :
    payload.length ≤ Layout.maxPayload ∧
      length = (encode command index address payload).length ∧ length ≤ bytes.length ∧
      bytes.take length = encode command index address payload := by
  unfold encodeInto at h
  split at h
  · cases h
  · rename_i size
    cases stored : Bytes.store buffer (encode command index address payload) with
    | error cause => simp [stored, bind, Except.bind] at h
    | ok result =>
        simp only [stored, bind, Except.bind, pure, Except.pure, Except.ok.injEq,
          Prod.mk.injEq] at h
        obtain ⟨rfl, rfl⟩ := h
        obtain ⟨-, rfl⟩ := Bytes.store_eq_ok_iff.mp stored
        refine ⟨Nat.not_lt.mp size, rfl, ?_, List.take_left⟩
        rw [List.length_append]
        omega

theorem length_encode (command : Command) (index : UInt8) (address : Address) (payload : Bytes) :
    (encode command index address payload).length =
      Layout.datagramHeader + payload.length + Layout.workCounter := by
  simp only [encode, List.length_append, DatagramHeader.length_encode, Bytes.length_encodeWord,
    Layout.datagramHeader, Layout.workCounter]

/-! ## Reading one datagram -/

def bytes (d : Datagram) : Bytes := d.header.encode ++ d.payload ++ Bytes.encodeWord d.workCounter

def Measured (d : Datagram) : Prop :=
  d.header.length.toNat = d.payload.length ∧ d.payload.length ≤ Layout.maxPayload

theorem length_bytes (d : Datagram) : d.bytes.length = 12 + d.payload.length := by
  simp only [bytes, List.length_append, DatagramHeader.length_encode, Bytes.length_encodeWord]
  omega

theorem Measured.datagramLength {d : Datagram} (h : d.Measured) :
    d.header.datagramLength = d.bytes.length := by
  rw [DatagramHeader.datagramLength, h.1, length_bytes]
  simp only [Layout.datagramHeader, Layout.workCounter]
  omega

/-- Bytes that are a header, the payload and the work counter, whatever else the length word of
the header has in it. -/
def Spelled (d : Datagram) (raw : Bytes) : Prop :=
  d.header.length.toNat = d.payload.length ∧ ∃ head : Bytes, head.length = Layout.datagramHeader ∧
    DatagramHeader.decode? head = .ok d.header ∧
    raw = head ++ d.payload ++ Bytes.encodeWord d.workCounter

theorem Spelled.length {d : Datagram} {raw : Bytes} (h : d.Spelled raw) :
    raw.length = d.header.datagramLength := by
  obtain ⟨measured, head, ten, -, rfl⟩ := h
  simp only [List.length_append, Bytes.length_encodeWord, DatagramHeader.datagramLength, measured,
    ten, Layout.workCounter]

theorem Measured.spelled {d : Datagram} (h : d.Measured) : d.Spelled d.bytes := by
  have bound : d.payload.length ≤ 2047 := h.2
  refine ⟨h.1, d.header.encode, DatagramHeader.length_encode _, ?_, rfl⟩
  have decode := DatagramHeader.decode?_encode (h := d.header) [] (by rw [h.1]; omega)
  simpa using decode

theorem parse?_spelled {d : Datagram} {raw : Bytes} (h : d.Spelled raw) (front rest : Bytes)
    (place : d.offset = front.length) :
    parse? (front ++ raw ++ rest) front.length = .ok d := by
  have size := h.length
  obtain ⟨measured, head, ten, decode, rfl⟩ := h
  have behind : (front ++ (head ++ d.payload ++ Bytes.encodeWord d.workCounter) ++ rest).drop
      front.length = head ++ (d.payload ++ (Bytes.encodeWord d.workCounter ++ rest)) := by
    rw [List.append_assoc, List.drop_left]
    simp only [List.append_assoc]
  have payload : ((head ++ (d.payload ++ (Bytes.encodeWord d.workCounter ++ rest))).drop
      Layout.datagramHeader).take d.header.length.toNat = d.payload := by
    rw [← ten, List.drop_left, measured, List.take_left]
  have counter : (head ++ (d.payload ++ (Bytes.encodeWord d.workCounter ++ rest))).drop
      (Layout.datagramHeader + d.header.length.toNat) =
        Bytes.encodeWord d.workCounter ++ rest := by
    rw [← List.drop_drop, ← ten, List.drop_left, measured, List.drop_left]
  have inside : ¬front.length >
      (front ++ (head ++ d.payload ++ Bytes.encodeWord d.workCounter) ++ rest).length := by
    simp only [List.length_append]
    omega
  have fits : ¬(head ++ (d.payload ++ (Bytes.encodeWord d.workCounter ++ rest))).length <
      d.header.datagramLength := by
    simp only [List.length_append] at size ⊢
    omega
  unfold parse?
  rw [if_neg inside, behind]
  simp only [DatagramHeader.decode?_append decode, bind, Except.bind, if_neg fits, counter, payload]
  simp only [Bytes.encodeWord, List.cons_append, Bytes.decodeWord_encodeWord, pure, Except.pure,
    ← place]

theorem parse?_bytes {d : Datagram} (h : d.Measured) (front rest : Bytes)
    (place : d.offset = front.length) :
    parse? (front ++ d.bytes ++ rest) front.length = .ok d :=
  parse?_spelled h.spelled front rest place

end Datagram

/-! ## Reading a region -/

namespace Chain

def wire (ds : List Datagram) : Bytes := ds.flatMap Datagram.bytes

/-- Datagrams one after the other from a place on. All but the last have the more flag. -/
def Laid : Nat → List Datagram → Prop
  | _, [] => True
  | offset, d :: ds =>
      d.Measured ∧ d.offset = offset ∧ d.header.more = !ds.isEmpty ∧ Laid d.stop ds

def Linked (region : Bytes) : Nat → List Datagram → Prop
  | _, [] => True
  | offset, d :: ds =>
      Datagram.parse? region offset = .ok d ∧ d.header.more = !ds.isEmpty ∧
        Linked region d.stop ds

theorem Laid.linked (front : Bytes) {ds : List Datagram} (laid : Laid front.length ds) :
    Linked (front ++ wire ds) front.length ds := by
  induction ds generalizing front with
  | nil => trivial
  | cons d ds ih =>
      obtain ⟨measured, place, more, laid⟩ := laid
      have stop : d.stop = (front ++ d.bytes).length := by
        rw [Datagram.stop, place, measured.datagramLength, List.length_append]
      have spelled : front ++ wire (d :: ds) = front ++ d.bytes ++ wire ds := by
        simp only [wire, List.flatMap_cons, List.append_assoc]
      rw [stop] at laid
      rw [spelled]
      refine ⟨Datagram.parse?_bytes measured front (wire ds) place, more, ?_⟩
      rw [stop]
      apply ih _ laid

theorem take_linked {region : Bytes} {offset : Nat} {d : Datagram} {ds : List Datagram}
    (linked : Linked region offset (d :: ds)) (fuel : Nat) :
    take fuel ⟨region, some offset⟩ = ((d :: ds).map .ok).take fuel := by
  induction ds generalizing offset d fuel with
  | nil =>
      obtain ⟨parsed, more, -⟩ := linked
      have last : d.header.more = false := more
      cases fuel with
      | zero => rfl
      | succ fuel => cases fuel <;> simp [take, step?, parsed, last]
  | cons next ds ih =>
      obtain ⟨parsed, more, linked⟩ := linked
      have follows : d.header.more = true := more
      cases fuel with
      | zero => rfl
      | succ fuel => simpa [take, step?, parsed, follows] using ih linked fuel

theorem toList_linked {region : Bytes} {ds : List Datagram} (linked : Linked region 0 ds)
    (filled : ds = [] → region = []) (bound : ds.length ≤ region.length) :
    (∀ fuel, take fuel (ofRegion region) = (ds.map .ok).take fuel) ∧
      (ofRegion region).toList = ds.map .ok := by
  have reads (fuel : Nat) : take fuel (ofRegion region) = (ds.map .ok).take fuel := by
    cases ds with
    | nil =>
        rw [filled rfl]
        cases fuel <;> rfl
    | cons d rest =>
        have begun : start region = some 0 := by
          cases region with
          | nil => cases bound
          | cons byte others => rfl
        rw [ofRegion, begun]
        apply take_linked linked
  refine ⟨reads, ?_⟩
  rw [toList, reads, List.take_of_length_le]
  simpa [ofRegion] using Nat.le_succ_of_le bound

theorem length_le_wire (ds : List Datagram) : ds.length ≤ (wire ds).length := by
  induction ds with
  | nil => exact Nat.le_refl 0
  | cons d ds ih =>
      simp only [wire, List.flatMap_cons, List.length_append, List.length_cons,
        Datagram.length_bytes] at ih ⊢
      omega

theorem toList_laid {ds : List Datagram} (laid : Laid 0 ds) :
    (ofRegion (wire ds)).toList = ds.map .ok := by
  have linked := Laid.linked [] laid
  exact (toList_linked linked (by rintro rfl; rfl) (length_le_wire ds)).2

end Chain

/-! ## Reading a frame -/

namespace Frame

open Chain (wire Laid toList_laid)

def decoded (bytes : Bytes) : List Datagram :=
  match parse? bytes with
  | .error _ => []
  | .ok frame => frame.chain.toList.filterMap Except.toOption

theorem mem_decoded {bytes : Bytes} {d : Datagram} (h : d ∈ decoded bytes) :
    ∃ frame, parse? bytes = .ok frame ∧ .ok d ∈ frame.chain.toList := by
  unfold decoded at h
  split at h
  · cases h
  · rename_i frame parsed
    obtain ⟨item, carried, same⟩ := List.mem_filterMap.mp h
    cases item with
    | error cause => cases same
    | ok d' =>
        cases same
        exact ⟨frame, parsed, carried⟩

def sizeWord (n : Nat) : Bytes :=
  Bytes.encodeWord (FrameHeader.toWord ⟨UInt16.ofNat n, FrameHeader.datagrams⟩)

theorem parse?_sized {ethernet : EthernetHeader} {region : Bytes}
    (type : ethernet.etherType = Layout.etherType) (size : region.length ≤ 2047)
    (padding : Bytes) :
    parse? (ethernet.encode ++ sizeWord region.length ++ region ++ padding) =
      .ok ⟨ethernet, ⟨UInt16.ofNat region.length, FrameHeader.datagrams⟩, region⟩ := by
  have length : (UInt16.ofNat region.length).toNat = region.length := by
    rw [UInt16.toNat_ofNat']
    omega
  have word := FrameHeader.ofWord_toWord
    (h := ⟨UInt16.ofNat region.length, FrameHeader.datagrams⟩)
    (show (UInt16.ofNat region.length).toNat < 2048 by omega)
    (show FrameHeader.datagrams.toNat < 16 by decide)
  have lead : (ethernet.encode ++ sizeWord region.length ++ region ++ padding).drop
      Layout.ethernetHeader = sizeWord region.length ++ (region ++ padding) := by
    have fourteen : ethernet.encode.length = Layout.ethernetHeader :=
      EthernetHeader.length_encode _
    rw [← fourteen, List.append_assoc, List.append_assoc, List.drop_left]
  have header : EthernetHeader.decode?
      (ethernet.encode ++ sizeWord region.length ++ region ++ padding) = .ok ethernet := by
    rw [List.append_assoc, List.append_assoc, EthernetHeader.decode?_encode]
  have whole : ¬(region ++ padding).length < region.length := by
    rw [List.length_append]
    omega
  unfold parse?
  rw [lead, header]
  simp only [sizeWord, Bytes.encodeWord, List.cons_append, List.nil_append, bind, Except.bind,
    type, ne_eq, not_true, if_false, Bytes.decodeWord_encodeWord, word, if_neg whole, pure,
    Except.pure, length, List.take_left]

theorem decoded_sized {ethernet : EthernetHeader} {ds : List Datagram} (laid : Laid 0 ds)
    (type : ethernet.etherType = Layout.etherType) (size : (wire ds).length ≤ 2047)
    (padding : Bytes) :
    parse? (ethernet.encode ++ sizeWord (wire ds).length ++ wire ds ++ padding) =
        .ok ⟨ethernet, ⟨UInt16.ofNat (wire ds).length, FrameHeader.datagrams⟩, wire ds⟩ ∧
      decoded (ethernet.encode ++ sizeWord (wire ds).length ++ wire ds ++ padding) = ds := by
  have parsed := parse?_sized type size padding
  refine ⟨parsed, ?_⟩
  rw [decoded, parsed]
  simp only [chain, toList_laid laid, List.filterMap_map]
  exact List.filterMap_some

end Frame

end Fieldbus
