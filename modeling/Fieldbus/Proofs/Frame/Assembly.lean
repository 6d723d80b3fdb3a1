import Mathlib.Data.List.ModifyLast
import Fieldbus.Proofs.Bytes
import Fieldbus.Proofs.Frame.Builder

/-!
# Frames built by any calls

Whatever is called on a builder, and whichever calls fail, its frame is read as the datagrams that
were accepted, in their order. What an encoded datagram says of its more flag and its place is
replaced; all else is kept.
-/

namespace Fieldbus

/-! ## Bytes of one datagram -/

namespace DatagramHeader

theorem decode?_take {bytes : Bytes} {header : DatagramHeader}
    (h : decode? bytes = .ok header) : Layout.datagramHeader ≤ bytes.length ∧
      decode? (bytes.take Layout.datagramHeader) = .ok header := by
  unfold decode? at h
  split at h
  · exact ⟨by simp [Layout.datagramHeader], h⟩
  · cases h

theorem decode?_setMore {bytes : Bytes} {header : DatagramHeader}
    (h : decode? bytes = .ok header) (more : Bool) :
    decode? (setMore more bytes) = .ok { header with more } := by
  unfold decode? at h
  split at h
  · rename_i command index a₀ a₁ a₂ a₃ l₀ l₁ i₀ i₁ rest
    cases known : Command.ofByte? command with
    | error cause => simp [known, bind, Except.bind] at h
    | ok command' =>
        simp only [known, bind, Except.bind, pure, Except.pure, Except.ok.injEq] at h
        subst h
        have small := (Bytes.decodeWord l₀ l₁).toNat_lt
        have word : (UInt16.ofNat ((Bytes.decodeWord l₀ l₁).toNat % 0x8000 +
            if more then 0x8000 else 0)).toNat =
              (Bytes.decodeWord l₀ l₁).toNat % 0x8000 + if more then 0x8000 else 0 := by
          rw [UInt16.toNat_ofNat']
          split <;> omega
        have length : ((Bytes.decodeWord l₀ l₁).toNat % 0x8000 +
            if more then 0x8000 else 0) % 2048 = (Bytes.decodeWord l₀ l₁).toNat % 2048 := by
          split <;> omega
        have circulating : ((Bytes.decodeWord l₀ l₁).toNat % 0x8000 +
            if more then 0x8000 else 0) / 0x4000 % 2 =
              (Bytes.decodeWord l₀ l₁).toNat / 0x4000 % 2 := by
          split <;> omega
        have follows : (((Bytes.decodeWord l₀ l₁).toNat % 0x8000 +
            if more then 0x8000 else 0) / 0x8000 == 1) = more := by
          cases more <;> simp
        simp only [setMore, Bytes.encodeWord, List.cons_append, List.nil_append, decode?, known,
          Bytes.decodeWord_encodeWord]
        simp only [word, length, circulating, follows, bind, Except.bind, pure, Except.pure]
  · cases h

end DatagramHeader

namespace Datagram

open DatagramHeader (setMore setMore_append length_setMore decode?_setMore decode?_take)

def requested (command : Command) (index : UInt8) (address : Address) (payload : Bytes) :
    Datagram :=
  ⟨.request command index address (UInt16.ofNat payload.length), payload, 0, 0⟩

theorem spelled_requested (command : Command) (index : UInt8) (address : Address)
    {payload : Bytes} (size : payload.length ≤ Layout.maxPayload) :
    (requested command index address payload).Spelled (encode command index address payload) := by
  have bound : payload.length ≤ 2047 := size
  have measured : (requested command index address payload).Measured := by
    refine ⟨?_, size⟩
    simp only [requested, DatagramHeader.request, UInt16.toNat_ofNat']
    omega
  exact measured.spelled

theorem Spelled.twelve_le {d : Datagram} {raw : Bytes} (h : d.Spelled raw) : 12 ≤ raw.length := by
  rw [h.length]
  simp only [DatagramHeader.datagramLength, Layout.datagramHeader, Layout.workCounter]
  omega

theorem spelled_of_parse? {bytes : Bytes} {d : Datagram} (h : parse? bytes 0 = .ok d) :
    DatagramHeader.decode? bytes = .ok d.header ∧ d.header.datagramLength ≤ bytes.length ∧
      d.Spelled (bytes.take d.header.datagramLength) := by
  unfold parse? at h
  rw [if_neg (Nat.not_lt_zero _), List.drop_zero] at h
  cases decode : DatagramHeader.decode? bytes with
  | error cause => simp [decode, bind, Except.bind] at h
  | ok header =>
      simp only [decode, bind, Except.bind] at h
      split at h
      · cases h
      · rename_i whole
        split at h
        · rename_i c₀ c₁ rest behind
          simp only [pure, Except.pure, Except.ok.injEq] at h
          subst h
          obtain ⟨ten, head⟩ := decode?_take decode
          have long : Layout.datagramHeader + header.length.toNat ≤ bytes.length := by
            simp only [DatagramHeader.datagramLength] at whole
            omega
          refine ⟨rfl, Nat.not_lt.mp whole, ?_, bytes.take Layout.datagramHeader, ?_, head, ?_⟩
          · simp only [List.length_take, List.length_drop]
            omega
          · exact List.length_take_of_le ten
          · rw [Bytes.encodeWord_decodeWord, DatagramHeader.datagramLength, List.take_add, behind,
              List.take_add]
            rfl
        · cases h

theorem exists_parse? {bytes : Bytes} {header : DatagramHeader}
    (decode : DatagramHeader.decode? bytes = .ok header)
    (whole : header.datagramLength ≤ bytes.length) : ∃ d, parse? bytes 0 = .ok d := by
  have two : 2 ≤ (bytes.drop (Layout.datagramHeader + header.length.toNat)).length := by
    simp only [DatagramHeader.datagramLength, Layout.workCounter] at whole
    rw [List.length_drop]
    omega
  unfold parse?
  rw [if_neg (Nat.not_lt_zero _), List.drop_zero]
  simp only [decode, bind, Except.bind, if_neg (Nat.not_lt.mpr whole)]
  generalize bytes.drop (Layout.datagramHeader + header.length.toNat) = behind at two
  rcases behind with - | ⟨c₀, - | ⟨c₁, rest⟩⟩
  · simp at two
  · simp at two
  · exact ⟨_, rfl⟩

theorem Spelled.setMore {d : Datagram} {raw : Bytes} (h : d.Spelled raw) (more : Bool) :
    ({ d with header := { d.header with more } } : Datagram).Spelled (setMore more raw) := by
  obtain ⟨measured, head, ten, decode, rfl⟩ := h
  have long : 8 ≤ head.length := by
    rw [ten, Layout.datagramHeader]
    omega
  refine ⟨measured, DatagramHeader.setMore more head, ?_, decode?_setMore decode more, ?_⟩
  · rw [length_setMore, ten]
  · rw [List.append_assoc, setMore_append more _ long, List.append_assoc]

def recounted (counter : UInt16) (raw : Bytes) : Bytes :=
  raw.take (raw.length - Layout.workCounter) ++ Bytes.encodeWord counter

theorem recounted_append (counter : UInt16) (body : Bytes) {tail : Bytes}
    (two : tail.length = Layout.workCounter) :
    recounted counter (body ++ tail) = body ++ Bytes.encodeWord counter := by
  rw [recounted, List.length_append, two, Nat.add_sub_cancel, List.take_left]

theorem Spelled.recounted {d : Datagram} {raw : Bytes} (h : d.Spelled raw) (counter : UInt16) :
    ({ d with workCounter := counter } : Datagram).Spelled (Datagram.recounted counter raw) := by
  obtain ⟨measured, head, ten, decode, rfl⟩ := h
  refine ⟨measured, head, ten, decode, ?_⟩
  rw [recounted_append counter _ (Bytes.length_encodeWord _)]

end Datagram

namespace FrameBuilder

open DatagramHeader (setMore setMore_append length_setMore)
open Fieldbus.Frame

/-! ## Calls and what they add -/

inductive Operation where
  | add (command : Command) (index : UInt8) (address : Address) (payload : Bytes)
  | append (bytes : Bytes)
  | setWorkCounter (counter : UInt16)
  deriving DecidableEq, Repr

def attempt (b : FrameBuilder) : Operation → Except Error FrameBuilder
  | .add command index address payload => (b.add command index address payload).map Prod.snd
  | .append bytes => b.append bytes
  | .setWorkCounter counter => .ok (b.setWorkCounter counter)

/-- A call that fails leaves the builder as it was. -/
def perform (b : FrameBuilder) (op : Operation) : FrameBuilder := (b.attempt op).toOption.getD b

def run (b : FrameBuilder) (ops : List Operation) : FrameBuilder := ops.foldl perform b

/-- A datagram as it was accepted, and its bytes. -/
structure Entry where
  bytes : Bytes
  datagram : Datagram
  deriving DecidableEq, Repr

def Entry.recounted (counter : UInt16) (e : Entry) : Entry :=
  ⟨Datagram.recounted counter e.bytes, { e.datagram with workCounter := counter }⟩

/-- What an operation adds to a frame with `free` bytes left. -/
def Operation.entry? (free : Nat) : Operation → Option Entry
  | .add command index address payload =>
      if payload.length ≤ Layout.maxPayload ∧
          Layout.datagramHeader + payload.length + Layout.workCounter ≤ free then
        some ⟨Datagram.encode command index address payload,
          Datagram.requested command index address payload⟩
      else
        none
  | .append bytes =>
      match Datagram.parse? bytes 0 with
      | .error _ => none
      | .ok d =>
          if d.header.datagramLength ≤ free then
            some ⟨bytes.take d.header.datagramLength, d⟩
          else
            none
  | .setWorkCounter _ => none

def total (es : List Entry) : Nat := size (es.map Entry.bytes)

def Operation.onEntries (room : Nat) (es : List Entry) : Operation → List Entry
  | .setWorkCounter counter => es.modifyLast (Entry.recounted counter)
  | op => es ++ (op.entry? (room - total es)).toList

/-- What the operations leave in a frame with room for `room` bytes of datagrams. -/
def entries (room : Nat) (ops : List Operation) : List Entry :=
  ops.foldl (Operation.onEntries room) []

/-- The datagrams as they are read from a frame, with their more flags and offsets. -/
def laid : Nat → List Datagram → List Datagram
  | _, [] => []
  | offset, d :: ds =>
      let d : Datagram := { d with header := { d.header with more := !ds.isEmpty }, offset }
      d :: laid d.stop ds

/-! ## One call -/

variable {b : FrameBuilder} {ethernet : EthernetHeader}

theorem add_eq (b : FrameBuilder) (command : Command) (index : UInt8) (address : Address)
    {payload : Bytes} (size : payload.length ≤ Layout.maxPayload)
    (room : Layout.datagramHeader + payload.length + Layout.workCounter ≤ b.remaining) :
    b.add command index address payload = .ok (b.length + Layout.datagramHeader,
      b.place (Datagram.encode command index address payload)) := by
  have length := Datagram.length_encode command index address payload
  have behind : b.remaining ≤ b.buffer.length - b.length := Nat.min_le_right _ _
  have long : ¬(b.buffer.drop b.length).length <
      (Datagram.encode command index address payload).length := by
    rw [List.length_drop]
    omega
  simp only [add, reserve, if_neg (Nat.not_lt.mpr room), Datagram.encodeInto,
    if_neg (Nat.not_lt.mpr size), Bytes.store, if_neg long, bind, Except.bind, pure, Except.pure,
    FrameBuilder.place, Bytes.overwrite, List.take_zero, List.nil_append, Nat.zero_add,
    List.drop_drop, List.append_assoc]

theorem add_refused (b : FrameBuilder) (command : Command) (index : UInt8) (address : Address)
    {payload : Bytes} (refused : ¬(payload.length ≤ Layout.maxPayload ∧
      Layout.datagramHeader + payload.length + Layout.workCounter ≤ b.remaining)) :
    ∃ cause, b.add command index address payload = .error cause := by
  by_cases room : Layout.datagramHeader + payload.length + Layout.workCounter > b.remaining
  · simp [add, reserve, if_pos room, bind, Except.bind]
  · have size : payload.length > Layout.maxPayload := by omega
    simp [add, reserve, if_neg room, Datagram.encodeInto, if_pos size, bind, Except.bind]

theorem append_unparsed (b : FrameBuilder) {bytes : Bytes} {cause : Error}
    (unparsed : Datagram.parse? bytes 0 = .error cause) :
    ∃ cause, b.append bytes = .error cause := by
  cases appended : b.append bytes with
  | error cause => exact ⟨cause, rfl⟩
  | ok b' =>
      obtain ⟨header, decode, whole, -⟩ := append_eq_ok appended
      obtain ⟨d, parsed⟩ := Datagram.exists_parse? decode whole
      rw [unparsed] at parsed
      cases parsed

theorem attempt_eq_ok (b : FrameBuilder) {op : Operation} {e : Entry}
    (entry : op.entry? b.remaining = some e) :
    b.attempt op = .ok (b.place e.bytes) ∧ e.datagram.Spelled e.bytes ∧
      e.bytes.length ≤ b.remaining := by
  cases op with
  | add command index address payload =>
      simp only [Operation.entry?, Option.ite_none_right_eq_some, Option.some.injEq] at entry
      obtain ⟨⟨size, room⟩, rfl⟩ := entry
      refine ⟨?_, Datagram.spelled_requested command index address size, ?_⟩
      · simp [attempt, add_eq b command index address size room, Except.map]
      · rwa [Datagram.length_encode]
  | append bytes =>
      simp only [Operation.entry?] at entry
      split at entry
      · cases entry
      · rename_i d parsed
        simp only [Option.ite_none_right_eq_some, Option.some.injEq] at entry
        obtain ⟨room, rfl⟩ := entry
        obtain ⟨decode, whole, spelled⟩ := Datagram.spelled_of_parse? parsed
        refine ⟨?_, spelled, ?_⟩
        · rw [attempt, b.append_eq decode whole, if_neg (Nat.not_lt.mpr room)]
        · rwa [spelled.length]
  | setWorkCounter counter => cases entry

theorem attempt_eq_error (b : FrameBuilder) {op : Operation}
    (refused : op.entry? b.remaining = none) (adds : ∀ counter, op ≠ .setWorkCounter counter) :
    ∃ cause, b.attempt op = .error cause := by
  cases op with
  | add command index address payload =>
      simp only [Operation.entry?, ite_eq_right_iff, reduceCtorEq, imp_false] at refused
      obtain ⟨cause, failed⟩ := b.add_refused command index address refused
      exact ⟨cause, by simp [attempt, failed, Except.map]⟩
  | append bytes =>
      simp only [Operation.entry?] at refused
      split at refused
      · rename_i unparsed
        exact b.append_unparsed unparsed
      · rename_i d parsed
        simp only [ite_eq_right_iff, reduceCtorEq, imp_false, Nat.not_le] at refused
        obtain ⟨decode, whole, -⟩ := Datagram.spelled_of_parse? parsed
        exact ⟨_, (b.append_eq decode whole).trans (if_pos refused)⟩
  | setWorkCounter counter => exact absurd rfl (adds counter)

theorem image_concat (ethernet : EthernetHeader) (raws : List Bytes) {body : Bytes} (tail : Bytes)
    (long : 8 ≤ body.length) :
    image ethernet (raws ++ [body ++ tail]) =
      ethernet.encode ++ sizeWord (size raws + (body.length + tail.length)) ++
        raws.flatMap (setMore true) ++ setMore false body ++ tail := by
  rw [image, chained_concat, setMore_append false tail long]
  simp only [size_append, size_cons, size_nil, List.length_append, List.append_assoc, Nat.add_zero]

theorem Holds.setWorkCounter {raws : List Bytes} {body tail : Bytes}
    (h : b.Holds ethernet (raws ++ [body ++ tail])) (long : 8 ≤ body.length)
    (two : tail.length = Layout.workCounter) (counter : UInt16) :
    (b.setWorkCounter counter).Holds ethernet (raws ++ [body ++ Bytes.encodeWord counter]) ∧
      (b.setWorkCounter counter).mtu = b.mtu ∧
      (b.setWorkCounter counter).buffer.length = b.buffer.length := by
  obtain ⟨rest, buffer⟩ := h.buffer
  have fits := h.fits
  have length := h.length
  have last : b.last = some (b.length - (body ++ tail).length) := by
    rw [h.last]
    simp
  have two' : (Bytes.encodeWord counter).length = tail.length := two.symm
  rw [image_concat ethernet raws tail long] at buffer
  have written : b.buffer.overwrite (b.length - Layout.workCounter) (Bytes.encodeWord counter) =
      image ethernet (raws ++ [body ++ Bytes.encodeWord counter]) ++ rest := by
    rw [image_concat ethernet raws _ long, two', buffer]
    apply Bytes.overwrite_append _ two'.symm
    simp only [List.length_append, length_flatMap_setMore, EthernetHeader.length_encode, sizeWord,
      Bytes.length_encodeWord, length_setMore, length, size_append, size_cons, size_nil, two,
      headerLength, Layout.ethernetHeader, Layout.frameHeader, Layout.workCounter]
    omega
  have shown : b.setWorkCounter counter = { b with
      buffer :=
        b.buffer.overwrite (b.length - Layout.workCounter) (Bytes.encodeWord counter) } := by
    rw [FrameBuilder.setWorkCounter, last]
  rw [shown]
  refine ⟨⟨⟨rest, written⟩, ?_, ?_, ?_, ?_⟩, rfl, ?_⟩
  · simpa [two'] using length
  · simpa [two'] using last
  · simpa using h.count
  · intro d hd
    rcases List.mem_append.mp hd with old | new
    · exact h.long d (by simp [old])
    · rw [List.mem_singleton.mp new, List.length_append]
      omega
  · apply Bytes.length_overwrite
    rw [two', two]
    simp only [length, size_append, size_cons, size_nil, List.length_append, two] at fits ⊢
    omega

/-! ## Any calls -/

/-- A builder holds the bytes of what was accepted. -/
structure Collected (b : FrameBuilder) (ethernet : EthernetHeader) (room : Nat)
    (es : List Entry) : Prop where
  holds : b.Holds ethernet (es.map Entry.bytes)
  within : total es ≤ room
  room : Frame.room b.mtu b.buffer.length = room
  spelled : ∀ e ∈ es, e.datagram.Spelled e.bytes

variable {room : Nat} {es : List Entry}

theorem Collected.remaining (h : Collected b ethernet room es) :
    b.remaining = room - total es := by
  rw [h.holds.remaining, h.room, total]

theorem Collected.place (h : Collected b ethernet room es) {e : Entry}
    (spelled : e.datagram.Spelled e.bytes) (fits : e.bytes.length ≤ b.remaining) :
    Collected (b.place e.bytes) ethernet room (es ++ [e]) := by
  have long : 8 ≤ e.bytes.length := by
    have := spelled.twelve_le
    omega
  obtain ⟨holds, mtu, size⟩ := h.holds.place long fits
  refine ⟨?_, ?_, ?_, ?_⟩
  · simpa using holds
  · have within := h.within
    rw [h.remaining] at fits
    simp only [total, List.map_append, size_append, List.map_singleton, size_cons, size_nil]
      at fits within ⊢
    omega
  · rw [mtu, size, h.room]
  · intro e' he'
    rcases List.mem_append.mp he' with old | new
    · exact h.spelled e' old
    · rwa [List.mem_singleton.mp new]

theorem Collected.setWorkCounter (h : Collected b ethernet room es) (counter : UInt16) :
    Collected (b.setWorkCounter counter) ethernet room
      (es.modifyLast (Entry.recounted counter)) := by
  rcases List.eq_nil_or_concat es with rfl | ⟨es, e, rfl⟩
  · have none : b.last = none := h.holds.last
    rw [FrameBuilder.setWorkCounter, none]
    exact h
  · rw [List.concat_eq_append] at h ⊢
    rw [List.modifyLast_concat]
    have spelled := h.spelled e (by simp)
    have again := spelled.recounted counter
    obtain ⟨-, head, ten, -, raw⟩ := spelled
    have long : 8 ≤ (head ++ e.datagram.payload).length := by
      rw [List.length_append, ten, Layout.datagramHeader]
      omega
    have holds := h.holds
    rw [List.map_append, List.map_singleton, raw] at holds
    obtain ⟨holds', mtu, size⟩ := holds.setWorkCounter long (Bytes.length_encodeWord _) counter
    rw [← Datagram.recounted_append counter _ (Bytes.length_encodeWord e.datagram.workCounter),
      ← raw] at holds'
    have counted : (b.setWorkCounter counter).length = b.length := by
      rw [FrameBuilder.setWorkCounter]
      split <;> rfl
    refine ⟨?_, ?_, ?_, ?_⟩
    · simpa [Entry.recounted] using holds'
    · have within := h.within
      have before := h.holds.length
      have after := holds'.length
      simp only [total, List.map_append, List.map_singleton, Entry.recounted] at within before ⊢
      omega
    · rw [mtu, size, h.room]
    · intro e' he'
      rcases List.mem_append.mp he' with old | new
      · exact h.spelled e' (by simp [old])
      · rwa [List.mem_singleton.mp new]

theorem Collected.add (h : Collected b ethernet room es) {op : Operation}
    (adds : ∀ counter, op ≠ .setWorkCounter counter) :
    Collected (b.perform op) ethernet room
      (es ++ (op.entry? (room - total es)).toList) := by
  rw [← h.remaining, perform]
  cases entry : op.entry? b.remaining with
  | none =>
      obtain ⟨cause, failed⟩ := b.attempt_eq_error entry adds
      simpa [failed, Except.toOption] using h
  | some e =>
      obtain ⟨accepted, spelled, fits⟩ := b.attempt_eq_ok entry
      simpa [accepted, Except.toOption] using h.place spelled fits

theorem Collected.perform (h : Collected b ethernet room es) (op : Operation) :
    Collected (b.perform op) ethernet room (op.onEntries room es) := by
  cases op with
  | add command index address payload => exact h.add (by simp)
  | append bytes => exact h.add (by simp)
  | setWorkCounter counter => exact h.setWorkCounter counter

theorem Collected.run (h : Collected b ethernet room es) (ops : List Operation) :
    Collected (b.run ops) ethernet room (ops.foldl (Operation.onEntries room) es) := by
  induction ops generalizing b es with
  | nil => exact h
  | cons op ops ih => exact ih (h.perform op)

theorem exists_create? {buffer : Bytes} {mtu : Nat} (destination source : MacAddress)
    (long : headerLength ≤ buffer.length) (wide : Layout.frameHeader ≤ mtu) :
    ∃ b, create? buffer mtu destination source = .ok b := by
  have room : ¬(buffer.length < headerLength ∨ mtu < Layout.frameHeader) := by omega
  have fourteen : (EthernetHeader.encode { destination, source }).length ≤ buffer.length := by
    rw [EthernetHeader.length_encode]
    simp only [headerLength, Layout.ethernetHeader, Layout.frameHeader] at long
    omega
  have stored : EthernetHeader.encodeInto { destination, source } buffer =
      .ok (EthernetHeader.encode { destination, source } ++
        buffer.drop (EthernetHeader.encode { destination, source }).length) :=
    Bytes.store_eq_ok_iff.mpr ⟨fourteen, rfl⟩
  simp [create?, if_neg room, stored, bind, Except.bind, pure, Except.pure]

/-! ## Reading the frame -/

theorem isEmpty_laid (offset : Nat) (ds : List Datagram) :
    (laid offset ds).isEmpty = ds.isEmpty := by
  cases ds <;> rfl

theorem linked_laid (front : Bytes) {es : List Entry}
    (spelled : ∀ e ∈ es, e.datagram.Spelled e.bytes) :
    Chain.Linked (front ++ chained (es.map Entry.bytes)) front.length
      (laid front.length (es.map Entry.datagram)) := by
  induction es generalizing front with
  | nil => trivial
  | cons e es ih =>
      have first := (spelled e (by simp)).setMore (!es.isEmpty)
      have size := first.length
      have rest := ih (front ++ setMore (!es.isEmpty) e.bytes)
        fun e' he' => spelled e' (by simp [he'])
      simp only [List.map_cons, laid, Chain.Linked, isEmpty_laid, chained, List.isEmpty_map,
        true_and]
      rw [← List.append_assoc]
      refine ⟨?_, ?_⟩
      · exact Datagram.parse?_spelled (d := { e.datagram with
          header := { e.datagram.header with more := !es.isEmpty }, offset := front.length })
          first front _ rfl
      · rw [List.length_append, size] at rest
        exact rest

theorem length_laid (offset : Nat) (ds : List Datagram) :
    (laid offset ds).length = ds.length := by
  induction ds generalizing offset with
  | nil => rfl
  | cons d ds ih => simp [laid, ih]

/-- The frame of a builder, whatever follows it, is read as these datagrams. -/
structure Reads (b : FrameBuilder) (destination source : MacAddress) (ds : List Datagram) :
    Prop where
  length : b.frame.length = b.length
  count : b.count = ds.length
  parsed : ∀ padding : Bytes, ∃ f, Frame.parse? (b.frame ++ padding) = .ok f ∧
    f.ethernet.destination = destination ∧ f.ethernet.source = source ∧
    f.header.length.toNat = b.length - headerLength ∧
    f.chain.toList = (laid 0 ds).map .ok ∧
    ∀ fuel, Chain.take fuel f.chain = ((laid 0 ds).map .ok).take fuel

theorem length_le_total (spelled : ∀ e ∈ es, e.datagram.Spelled e.bytes) :
    es.length ≤ total es := by
  induction es with
  | nil => exact Nat.le_refl 0
  | cons e es ih =>
      have first := (spelled e (by simp)).twelve_le
      have rest := ih fun e' he' => spelled e' (by simp [he'])
      simp only [total, List.map_cons, size_cons, List.length_cons] at rest ⊢
      omega

theorem Collected.reads {destination source : MacAddress}
    (h : Collected b { destination, source } room es) (short : total es ≤ 2047) :
    b.Reads destination source (es.map Entry.datagram) := by
  have frame := h.holds.frame
  have length := h.holds.length
  rw [← total] at length
  have region : (chained (es.map Entry.bytes)).length = total es := length_chained _
  refine ⟨?_, ?_, ?_⟩
  · rw [frame, length_image, ← total, length]
  · simpa using h.holds.count
  · intro padding
    have type : ({ destination, source } : EthernetHeader).etherType = Layout.etherType := rfl
    have parsed := parse?_sized type (region ▸ short) padding
    rw [length_chained, ← image, ← frame] at parsed
    have linked := linked_laid [] h.spelled
    obtain ⟨reads, whole⟩ := Chain.toList_linked linked
      (by cases es <;> simp [laid, chained])
      (by rw [length_laid, List.length_map, List.nil_append, region]
          exact length_le_total h.spelled)
    refine ⟨_, parsed, rfl, rfl, ?_, whole, reads⟩
    simp only [total, length, UInt16.toNat_ofNat'] at short ⊢
    omega

theorem exists_collected (buffer : Bytes) (mtu : Nat) (destination source : MacAddress)
    (ops : List Operation) (long : headerLength ≤ buffer.length)
    (wide : Layout.frameHeader ≤ mtu) :
    ∃ b, create? buffer mtu destination source = .ok b ∧
      Collected (b.run ops) { destination, source } (Frame.room mtu buffer.length)
        (entries (Frame.room mtu buffer.length) ops) := by
  obtain ⟨b, created⟩ := exists_create? destination source long wide
  obtain ⟨holds, payloads, size, -⟩ := create?_holds created
  have begun : Collected b { destination, source } (Frame.room mtu buffer.length) [] :=
    ⟨holds, Nat.zero_le _, by rw [payloads, size], by simp⟩
  exact ⟨b, created, begun.run ops⟩

/-- From any buffer that holds the headers, after any calls, the frame is read as the datagrams
that were accepted, and its bytes are those that any other buffer of that size would hold. -/
theorem run_reads (buffer : Bytes) (mtu : Nat) (destination source : MacAddress)
    (ops : List Operation) (long : headerLength ≤ buffer.length) (wide : Layout.frameHeader ≤ mtu)
    (short : total (entries (Frame.room mtu buffer.length) ops) ≤ 2047) :
    ∃ b, create? buffer mtu destination source = .ok b ∧
      (b.run ops).Reads destination source
        ((entries (Frame.room mtu buffer.length) ops).map Entry.datagram) ∧
      ∀ other : Bytes, other.length = buffer.length →
        ∃ b', create? other mtu destination source = .ok b' ∧
          (b'.run ops).frame = (b.run ops).frame := by
  obtain ⟨b, created, held⟩ := exists_collected buffer mtu destination source ops long wide
  refine ⟨b, created, held.reads short, fun other same => ?_⟩
  obtain ⟨b', created', held'⟩ := exists_collected other mtu destination source ops
    (same ▸ long) wide
  rw [same] at held'
  exact ⟨b', created', by rw [held'.holds.frame, held.holds.frame]⟩

/-- Two calls that are accepted, one for the work counter and two that fail. The encoded datagram
says that another follows it and has reserved bits set. -/
def mixedCalls : List Operation :=
  [.add .lrw 1 (.logical 16) [1, 2, 3],
    .append [4, 9, 1, 0, 2, 0, 2, 0xF8, 5, 0, 7, 8, 3, 0],
    .setWorkCounter 6,
    .append [4, 9, 1, 0],
    .add .nop 2 (.physical 1 2) (Bytes.zeros 40)]

theorem run_reads_mixedCalls :
    total (entries (Frame.room 60 64) mixedCalls) ≤ 2047 ∧
      ∃ b, create? (List.replicate 64 0xAA) 60 .broadcast .zero = .ok b ∧
        (b.run mixedCalls).Reads .broadcast .zero
          [⟨⟨.lrw, 1, 16, 3, false, false, 0⟩, [1, 2, 3], 0, 0⟩,
            ⟨⟨.fprd, 9, 0x20001, 2, true, true, 5⟩, [7, 8], 6, 0⟩] := by
  have short : total (entries (Frame.room 60 64) mixedCalls) ≤ 2047 := by decide +kernel
  have accepted : (entries (Frame.room 60 64) mixedCalls).map Entry.datagram =
      [⟨⟨.lrw, 1, 16, 3, false, false, 0⟩, [1, 2, 3], 0, 0⟩,
        ⟨⟨.fprd, 9, 0x20001, 2, true, true, 5⟩, [7, 8], 6, 0⟩] := by decide +kernel
  have size : (List.replicate 64 (0xAA : UInt8)).length = 64 := List.length_replicate
  obtain ⟨b, created, reads, -⟩ := run_reads (List.replicate 64 0xAA) 60
    .broadcast .zero mixedCalls (by decide) (by decide) (by rw [size]; exact short)
  rw [size, accepted] at reads
  exact ⟨short, b, created, reads⟩

end FrameBuilder

end Fieldbus
