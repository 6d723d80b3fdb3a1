import Fieldbus.Proofs.Frame.Bounds

/-!
# Building a frame in place

The calls of a builder told as the single reads and writes that they make in the buffer, each
checked where it happens. A read or a write that is not inside the bytes at hand, or a size taken
from a smaller one, has no outcome at all. A call that is refused keeps what it has written until
then.

As long as the builder is within its bounds, each call has an outcome, and that and what it leaves
are those of the builder itself.
-/

namespace Fieldbus

/-! ## Edits -/

/-- Changes of a state in place. One without an outcome has left its bounds; one that is refused
leaves the state as it has become by then. -/
structure Edit (σ α : Type) where
  run : σ → Option (Except Error α × σ)

namespace Edit

variable {σ α β : Type}

instance : Monad (Edit σ) where
  pure a := ⟨fun s => some (.ok a, s)⟩
  bind edit next := ⟨fun s =>
    match edit.run s with
    | none => none
    | some (.error cause, s') => some (.error cause, s')
    | some (.ok a, s') => (next a).run s'⟩

def state : Edit σ σ := ⟨fun s => some (.ok s, s)⟩

def alter (f : σ → σ) : Edit σ Unit := ⟨fun s => some (.ok (), f s)⟩

def refuse (cause : Error) : Edit σ α := ⟨fun s => some (.error cause, s)⟩

def ofExcept (result : Except Error α) : Edit σ α := ⟨fun s => some (result, s)⟩

def less (size part : Nat) : Edit σ Nat :=
  ⟨fun s => if part ≤ size then some (.ok (size - part), s) else none⟩

def first (bytes : Bytes) (size : Nat) : Edit σ Bytes :=
  ⟨fun s => if size ≤ bytes.length then some (.ok (bytes.take size), s) else none⟩

def write (start : Nat) (patch : Bytes) : Edit Bytes Unit := ⟨fun bytes =>
  if start + patch.length ≤ bytes.length then some (.ok (), bytes.overwrite start patch) else none⟩

def readWord (start : Nat) : Edit Bytes UInt16 := ⟨fun bytes =>
  match bytes.drop start with
  | b₀ :: b₁ :: _ => some (.ok (Bytes.decodeWord b₀ b₁), bytes)
  | _ => none⟩

def behind (start : Nat) (edit : Edit Bytes α) : Edit Bytes α := ⟨fun bytes =>
  if start ≤ bytes.length then
    (edit.run (bytes.drop start)).map fun (outcome, rest) => (outcome, bytes.take start ++ rest)
  else
    none⟩

/-! ### Running them -/

variable {edit : Edit σ α} {after : α → Edit σ β} {s s' : σ}

@[simp] theorem run_pure (a : α) : (pure a : Edit σ α).run s = some (.ok a, s) := rfl

@[simp] theorem run_state_bind (after : σ → Edit σ β) :
    (state >>= after).run s = (after s).run s := rfl

@[simp] theorem run_alter (f : σ → σ) : (alter f).run s = some (.ok (), f s) := rfl

@[simp] theorem run_refuse (cause : Error) :
    (refuse cause : Edit σ α).run s = some (.error cause, s) := rfl

theorem run_bind_ok {a : α} (done : edit.run s = some (.ok a, s')) :
    (edit >>= after).run s = (after a).run s' := by
  simp only [bind, done]

theorem run_bind_error {cause : Error} (refused : edit.run s = some (.error cause, s')) :
    (edit >>= after).run s = some (.error cause, s') := by
  simp only [bind, refused]

@[simp] theorem run_ofExcept (result : Except Error α) :
    (ofExcept result).run s = some (result, s) := rfl

theorem run_less {size part : Nat} (room : part ≤ size) :
    (less size part).run s = some (.ok (size - part), s) := if_pos room

theorem run_first {bytes : Bytes} {size : Nat} (room : size ≤ bytes.length) :
    (first bytes size).run s = some (.ok (bytes.take size), s) := if_pos room

theorem run_write {bytes patch : Bytes} {start : Nat}
    (room : start + patch.length ≤ bytes.length) :
    (write start patch).run bytes = some (.ok (), bytes.overwrite start patch) := if_pos room

theorem run_behind {bytes rest : Bytes} {start : Nat} {edit : Edit Bytes α}
    {outcome : Except Error α} (inside : start ≤ bytes.length)
    (done : edit.run (bytes.drop start) = some (outcome, rest)) :
    (behind start edit).run bytes = some (outcome, bytes.take start ++ rest) := by
  simp only [behind, if_pos inside, done, Option.map_some]

/-! ### Filling bytes from the front -/

def Fills (edit : Edit Bytes α) (a : α) (start : Nat) (patch : Bytes) : Prop :=
  ∀ front rest : Bytes, front.length = start → patch.length ≤ rest.length →
    edit.run (front ++ rest) = some (.ok a, front ++ patch ++ rest.drop patch.length)

theorem fills_pure (a : α) (start : Nat) : (pure a : Edit Bytes α).Fills a start [] := by
  intro front rest _ _
  simp

theorem fills_write (start : Nat) (patch : Bytes) : (write start patch).Fills () start patch := by
  intro front rest place room
  rw [run_write (by rw [List.length_append, place]; omega), Bytes.overwrite_behind place]

theorem Fills.next {edit : Edit Bytes α} {after : α → Edit Bytes β} {a : α} {b : β}
    {start stop : Nat} {patch behind : Bytes} (filled : edit.Fills a start patch)
    (goesOn : (after a).Fills b stop behind) (place : start + patch.length = stop) :
    (edit >>= after).Fills b start (patch ++ behind) := by
  intro front rest here room
  rw [List.length_append] at room
  rw [run_bind_ok (filled front rest here (by omega)),
    goesOn (front ++ patch) (rest.drop patch.length) (by rw [List.length_append, here, place])
      (by rw [List.length_drop]; omega),
    List.drop_drop, List.length_append, List.append_assoc front]

theorem Fills.run {edit : Edit Bytes α} {a : α} {patch bytes : Bytes}
    (filled : edit.Fills a 0 patch) (room : patch.length ≤ bytes.length) :
    edit.run bytes = some (.ok a, bytes.overwrite 0 patch) := by
  rw [Bytes.overwrite_zero]
  exact filled [] bytes rfl room

end Edit

/-! ## Headers and datagrams -/

namespace EthernetHeader

def write (h : EthernetHeader) : Edit Bytes Unit := do
  let bytes ← Edit.state
  if bytes.length < Layout.ethernetHeader then
    Edit.refuse (.capacity Layout.ethernetHeader bytes.length)
  else
    Edit.write 0 h.destination.bytes
    Edit.write 6 h.source.bytes
    Edit.write 12 (Bytes.encodeWord h.etherType).reverse

theorem run_write {h : EthernetHeader} {bytes : Bytes}
    (long : Layout.ethernetHeader ≤ bytes.length) :
    h.write.run bytes = some (.ok (), bytes.overwrite 0 h.encode) := by
  have target : h.destination.bytes.length = 6 := by simp [MacAddress.bytes]
  have origin : h.source.bytes.length = 6 := by simp [MacAddress.bytes]
  have filled : Edit.Fills (do
      Edit.write 0 h.destination.bytes
      Edit.write 6 h.source.bytes
      Edit.write 12 (Bytes.encodeWord h.etherType).reverse) () 0
      (h.destination.bytes ++ (h.source.bytes ++ (Bytes.encodeWord h.etherType).reverse)) :=
    (Edit.fills_write 0 _).next
      ((Edit.fills_write 6 _).next (Edit.fills_write 12 _) (by rw [origin])) (by rw [target])
  rw [← List.append_assoc] at filled
  rw [write, Edit.run_state_bind, if_neg (Nat.not_lt.mpr long)]
  exact filled.run ((length_encode h).symm ▸ long)

end EthernetHeader

namespace DatagramHeader

def write (h : DatagramHeader) : Edit Bytes Unit := do
  let bytes ← Edit.state
  if bytes.length < Layout.datagramHeader then
    Edit.refuse (.capacity Layout.datagramHeader bytes.length)
  else
    Edit.write 0 [h.command.toByte]
    Edit.write 1 [h.index]
    Edit.write 2 (Bytes.encodeLong h.address)
    Edit.write 6 (Bytes.encodeWord h.lengthWord)
    Edit.write 8 (Bytes.encodeWord h.interrupt)

theorem fills_write (h : DatagramHeader) : h.write.Fills () 0 h.encode := by
  intro front rest place room
  obtain rfl := List.eq_nil_of_length_eq_zero place
  have long : Layout.datagramHeader ≤ rest.length := room
  have filled : Edit.Fills (do
      Edit.write 0 [h.command.toByte]
      Edit.write 1 [h.index]
      Edit.write 2 (Bytes.encodeLong h.address)
      Edit.write 6 (Bytes.encodeWord h.lengthWord)
      Edit.write 8 (Bytes.encodeWord h.interrupt)) () 0 h.encode :=
    (Edit.fills_write 0 _).next ((Edit.fills_write 1 _).next ((Edit.fills_write 2 _).next
      ((Edit.fills_write 6 _).next (Edit.fills_write 8 _) rfl) rfl) rfl) rfl
  rw [write, Edit.run_state_bind, List.nil_append, if_neg (Nat.not_lt.mpr long)]
  exact filled [] rest rfl room

def writeMore (more : Bool) : Edit Bytes Unit := do
  let word ← Edit.readWord 6
  Edit.write 6 (Bytes.encodeWord
    (UInt16.ofNat (word.toNat % 0x8000 + if more then 0x8000 else 0)))

theorem run_writeMore {bytes : Bytes} (more : Bool) (long : 8 ≤ bytes.length) :
    (writeMore more).run bytes = some (.ok (), setMore more bytes) := by
  obtain ⟨b₀, b₁, b₂, b₃, b₄, b₅, l₀, l₁, rest, rfl⟩ := eight_le long
  have read : (Edit.readWord 6).run (b₀ :: b₁ :: b₂ :: b₃ :: b₄ :: b₅ :: l₀ :: l₁ :: rest) =
      some (.ok (Bytes.decodeWord l₀ l₁),
        b₀ :: b₁ :: b₂ :: b₃ :: b₄ :: b₅ :: l₀ :: l₁ :: rest) := rfl
  rw [writeMore, Edit.run_bind_ok read, Edit.run_write (by simp)]
  simp [setMore, Bytes.overwrite]

end DatagramHeader

namespace Datagram

def write (command : Command) (index : UInt8) (address : Address) (payload : Bytes) :
    Edit Bytes Nat :=
  if payload.length > Layout.maxPayload then
    Edit.refuse (.capacity payload.length Layout.maxPayload)
  else do
    let header := DatagramHeader.request command index address (UInt16.ofNat payload.length)
    let size := header.datagramLength
    let bytes ← Edit.state
    if bytes.length < size then
      Edit.refuse (.capacity size bytes.length)
    else
      header.write
      Edit.write Layout.datagramHeader payload
      Edit.write (Layout.datagramHeader + payload.length) (Bytes.encodeWord 0)
      return size

variable (command : Command) (index : UInt8) (address : Address) {payload : Bytes}

theorem run_write_oversized (bytes : Bytes) (size : Layout.maxPayload < payload.length) :
    (write command index address payload).run bytes =
      some (.error (.capacity payload.length Layout.maxPayload), bytes) := by
  rw [write, if_pos size, Edit.run_refuse]

theorem run_write {bytes : Bytes} (size : payload.length ≤ Layout.maxPayload)
    (room : Layout.datagramHeader + payload.length + Layout.workCounter ≤ bytes.length) :
    (write command index address payload).run bytes =
      some (.ok (Layout.datagramHeader + payload.length + Layout.workCounter),
        bytes.overwrite 0 (encode command index address payload)) := by
  have short : payload.length ≤ 2047 := size
  have counted : (DatagramHeader.request command index address
      (UInt16.ofNat payload.length)).datagramLength =
        Layout.datagramHeader + payload.length + Layout.workCounter := by
    simp only [DatagramHeader.datagramLength, DatagramHeader.request, UInt16.toNat_ofNat']
    omega
  have filled : Edit.Fills (do
      DatagramHeader.write (.request command index address (UInt16.ofNat payload.length))
      Edit.write Layout.datagramHeader payload
      Edit.write (Layout.datagramHeader + payload.length) (Bytes.encodeWord 0)
      return Layout.datagramHeader + payload.length + Layout.workCounter)
      (Layout.datagramHeader + payload.length + Layout.workCounter) 0
      ((DatagramHeader.request command index address (UInt16.ofNat payload.length)).encode ++
        (payload ++ (Bytes.encodeWord 0 ++ []))) :=
    (DatagramHeader.fills_write _).next ((Edit.fills_write _ _).next
      ((Edit.fills_write _ _).next (Edit.fills_pure _ _) rfl) rfl) rfl
  rw [List.append_nil, ← List.append_assoc] at filled
  simp only [write, if_neg (Nat.not_lt.mpr size), counted, Edit.run_state_bind,
    if_neg (Nat.not_lt.mpr room)]
  exact filled.run ((length_encode command index address payload).symm ▸ room)

end Datagram

/-! ## The calls -/

namespace FrameBuilder

namespace InPlace

def onBuffer {α : Type} (edit : Edit Bytes α) : Edit FrameBuilder α := ⟨fun b =>
  (edit.run b.buffer).map fun (outcome, buffer) => (outcome, { b with buffer })⟩

def remaining : Edit FrameBuilder Nat := do
  let b ← Edit.state
  let used ← Edit.less b.length Layout.ethernetHeader
  let free ← Edit.less b.buffer.length b.length
  return min (b.mtu - used) free

def writeHeader : Edit FrameBuilder Unit := do
  let b ← Edit.state
  let payload ← Edit.less b.length Layout.ethernetHeader
  let size ← Edit.less payload Layout.frameHeader
  let header : FrameHeader := ⟨UInt16.ofNat size, FrameHeader.datagrams⟩
  onBuffer (Edit.write Layout.ethernetHeader (Bytes.encodeWord header.toWord))

def setMoreAt (offset : Nat) (more : Bool) : Edit FrameBuilder Unit :=
  onBuffer (Edit.behind offset (DatagramHeader.writeMore more))

def chain (last : Option Nat) : Edit FrameBuilder Unit :=
  match last with
  | none => pure ()
  | some previous => setMoreAt previous true

def link (offset size : Nat) : Edit FrameBuilder Unit := do
  let b ← Edit.state
  chain b.last
  setMoreAt offset false
  Edit.alter fun b =>
    { b with last := some offset, length := b.length + size, count := b.count + 1 }
  writeHeader

def reserve (required : Nat) : Edit FrameBuilder Unit := do
  let available ← remaining
  if required > available then Edit.refuse (.capacity required available) else pure ()

def begin (header : EthernetHeader) : Edit FrameBuilder Unit := do
  onBuffer header.write
  writeHeader

def create (buffer : Bytes) (mtu : Nat) (destination source : MacAddress) :
    Option (Except Error FrameBuilder) :=
  if buffer.length < Frame.headerLength ∨ mtu < Layout.frameHeader then
    some (.error (.capacity Frame.headerLength
      (min buffer.length ((mtu + Layout.ethernetHeader) % Layout.wordCount))))
  else
    ((begin { destination, source }).run ⟨buffer, mtu, Frame.headerLength, none, 0⟩).map
      fun (outcome, b) => outcome.map fun _ => b

def add (command : Command) (index : UInt8) (address : Address) (payload : Bytes) :
    Edit FrameBuilder Nat := do
  let required := Layout.datagramHeader + payload.length + Layout.workCounter
  reserve required
  let b ← Edit.state
  let _ ← onBuffer (Edit.behind b.length (Datagram.write command index address payload))
  link b.length required
  return b.length + Layout.datagramHeader

def append (bytes : Bytes) : Edit FrameBuilder Unit := do
  let header ← Edit.ofExcept (DatagramHeader.decode? bytes)
  let required := header.datagramLength
  if bytes.length < required then
    Edit.refuse (.malformed .datagramTruncated)
  else
    reserve required
    let b ← Edit.state
    let datagram ← Edit.first bytes required
    onBuffer (Edit.write b.length datagram)
    link b.length required

def setWorkCounter (counter : UInt16) : Edit FrameBuilder Unit := do
  let b ← Edit.state
  match b.last with
  | none => pure ()
  | some _ =>
      let start ← Edit.less b.length Layout.workCounter
      onBuffer (Edit.write start (Bytes.encodeWord counter))

def call : Operation → Edit FrameBuilder Unit
  | .add command index address payload => do
      let _ ← add command index address payload
  | .append bytes => append bytes
  | .setWorkCounter counter => setWorkCounter counter

def calls : List Operation → FrameBuilder → Option FrameBuilder
  | [], b => some b
  | op :: ops, b => ((call op).run b).bind fun (_, b') => calls ops b'

/-! ### Each call within the bounds -/

variable {b : FrameBuilder}

theorem run_onBuffer {α : Type} {edit : Edit Bytes α} {outcome : Except Error α} {buffer : Bytes}
    (done : edit.run b.buffer = some (outcome, buffer)) :
    (onBuffer edit).run b = some (outcome, { b with buffer }) := by
  simp only [onBuffer, done, Option.map_some]

theorem run_remaining (h : b.Bounded) : remaining.run b = some (.ok b.remaining, b) := by
  have headers : Layout.ethernetHeader ≤ b.length := Nat.le_trans (by decide) h.headers
  rw [remaining, Edit.run_state_bind, Edit.run_bind_ok (Edit.run_less headers),
    Edit.run_bind_ok (Edit.run_less h.inside), Edit.run_pure]
  rfl

theorem run_writeHeader (headers : Frame.headerLength ≤ b.length)
    (room : Frame.headerLength ≤ b.buffer.length) :
    writeHeader.run b = some (.ok (), b.sealed) := by
  have ethernet : Layout.ethernetHeader ≤ b.length := Nat.le_trans (by decide) headers
  have both : Layout.frameHeader ≤ b.length - Layout.ethernetHeader := Nat.le_sub_of_add_le headers
  rw [writeHeader, Edit.run_state_bind, Edit.run_bind_ok (Edit.run_less ethernet),
    Edit.run_bind_ok (Edit.run_less both), Nat.sub_sub]
  exact run_onBuffer (Edit.run_write room)

theorem run_setMoreAt {offset : Nat} (more : Bool) (room : offset + 8 ≤ b.buffer.length) :
    (setMoreAt offset more).run b = some (.ok (), b.setMoreAt offset more) := by
  apply run_onBuffer
  apply Edit.run_behind (by omega)
  apply DatagramHeader.run_writeMore
  rw [List.length_drop]
  omega

theorem run_chain (last : b.LastBefore b.buffer.length) :
    (chain b.last).run b = some (.ok (), b.chain) := by
  cases here : b.last with
  | none =>
      rw [FrameBuilder.chain, here]
      exact Edit.run_pure ()
  | some previous =>
      rw [FrameBuilder.chain, here]
      exact run_setMoreAt true (last previous here)

theorem run_link {size : Nat} (headers : Frame.headerLength ≤ b.length) (long : 8 ≤ size)
    (last : b.LastBefore b.length) (room : b.length + size ≤ b.buffer.length) :
    (link b.length size).run b = some (.ok (), b.link size) := by
  have last' : b.LastBefore b.buffer.length := fun start here => by
    have := last start here
    omega
  have chained := sameFrom_chain last' (Nat.le_refl _)
  have linked : Bytes.SameFrom b.buffer.length (b.chain.setMoreAt b.length false).buffer
      b.chain.buffer := sameFrom_setMoreAt false (by omega) (Nat.le_of_eq chained.1.symm)
  rw [link, Edit.run_state_bind, Edit.run_bind_ok (run_chain last'),
    Edit.run_bind_ok (run_setMoreAt false (by rw [chained.1]; omega)),
    Edit.run_bind_ok (Edit.run_alter _), link_eq]
  have shown : { b.chain.setMoreAt b.length false with
      last := some b.length
      length := (b.chain.setMoreAt b.length false).length + size
      count := (b.chain.setMoreAt b.length false).count + 1 } =
      FrameBuilder.mk (b.chain.setMoreAt b.length false).buffer b.mtu (b.length + size)
        (some b.length) (b.count + 1) := by
    unfold FrameBuilder.chain FrameBuilder.setMoreAt
    cases b.last <;> rfl
  rw [shown]
  refine run_writeHeader (Nat.le_trans headers (Nat.le_add_right _ _)) ?_
  show Frame.headerLength ≤ (b.chain.setMoreAt b.length false).buffer.length
  rw [linked.1, chained.1]
  omega

theorem run_reserve {required : Nat} (h : b.Bounded) (room : required ≤ b.remaining) :
    (reserve required).run b = some (.ok (), b) := by
  rw [reserve, Edit.run_bind_ok (run_remaining h), if_neg (Nat.not_lt.mpr room), Edit.run_pure]

theorem run_reserve_full {required : Nat} (h : b.Bounded) (full : b.remaining < required) :
    (reserve required).run b = some (.error (.capacity required b.remaining), b) := by
  rw [reserve, Edit.run_bind_ok (run_remaining h), if_pos full, Edit.run_refuse]

theorem run_link_place (h : b.Bounded) {d : Bytes} (long : 8 ≤ d.length)
    (room : d.length ≤ b.remaining) :
    (link b.length d.length).run { b with buffer := b.buffer.overwrite b.length d } =
      some (.ok (), b.place d) := by
  have fits := h.remaining_le.1
  refine run_link h.headers long h.lastBefore ?_
  show b.length + d.length ≤ (b.buffer.overwrite b.length d).length
  rw [Bytes.length_overwrite (by omega)]
  omega

theorem run_add (h : b.Bounded) (command : Command) (index : UInt8) (address : Address)
    (payload : Bytes) : (add command index address payload).run b =
      some ((b.add command index address payload).map Prod.fst,
        b.perform (.add command index address payload)) := by
  have unchanged {cause : Error} (refused : b.add command index address payload = .error cause) :
      some ((b.add command index address payload).map Prod.fst,
        b.perform (.add command index address payload)) = some (.error cause, b) := by
    rw [refused, perform_of_error (attempt_add_error refused), Except.map]
  obtain full | room :=
    Nat.lt_or_ge b.remaining (Layout.datagramHeader + payload.length + Layout.workCounter)
  · rw [add, Edit.run_bind_error (run_reserve_full h full),
      unchanged (b.add_full command index address full)]
  have fits := h.remaining_le.1
  have behind : Layout.datagramHeader + payload.length + Layout.workCounter ≤
      (b.buffer.drop b.length).length := by
    rw [List.length_drop]
    omega
  rw [add, Edit.run_bind_ok (run_reserve h room), Edit.run_state_bind]
  obtain long | size := Nat.lt_or_ge Layout.maxPayload payload.length
  · have unwritten := run_onBuffer (Edit.run_behind h.inside
      (Datagram.run_write_oversized command index address _ long))
    rw [List.take_append_drop] at unwritten
    rw [Edit.run_bind_error unwritten, unchanged (b.add_oversized command index address room long)]
  · have accepted := b.add_eq command index address size room
    have length := Datagram.length_encode command index address payload
    have written := run_onBuffer (Edit.run_behind h.inside
      (Datagram.run_write command index address size behind))
    rw [Bytes.take_append_overwrite] at written
    have linked := run_link_place h (d := Datagram.encode command index address payload)
      (by rw [length]; simp only [Layout.datagramHeader]; omega) (by rw [length]; exact room)
    rw [length] at linked
    rw [Edit.run_bind_ok written, Edit.run_bind_ok linked, Edit.run_pure, accepted,
      perform_of_ok (attempt_add_ok accepted), Except.map]

theorem run_append (h : b.Bounded) (bytes : Bytes) : (append bytes).run b =
    some ((b.append bytes).map fun _ => (), b.perform (.append bytes)) := by
  have unchanged {cause : Error} (refused : b.append bytes = .error cause) :
      some ((b.append bytes).map fun _ => (), b.perform (.append bytes)) =
        some (.error cause, b) := by
    have kept : b.perform (.append bytes) = b := perform_of_error refused
    rw [refused, kept, Except.map]
  rw [append]
  cases decoded : DatagramHeader.decode? bytes with
  | error cause =>
      have refused : b.append bytes = .error cause := by
        rw [FrameBuilder.append, decoded]
        rfl
      rw [Edit.run_bind_error (Edit.run_ofExcept _), unchanged refused]
  | ok header =>
      rw [Edit.run_bind_ok (Edit.run_ofExcept _)]
      obtain short | whole := Nat.lt_or_ge bytes.length header.datagramLength
      · have refused : b.append bytes = .error (.malformed .datagramTruncated) := by
          simp only [FrameBuilder.append, decoded, if_pos short, bind, Except.bind]
        rw [if_pos short, Edit.run_refuse, unchanged refused]
      rw [if_neg (Nat.not_lt.mpr whole)]
      have outcome := b.append_eq decoded whole
      obtain full | room := Nat.lt_or_ge b.remaining header.datagramLength
      · rw [if_pos full] at outcome
        rw [Edit.run_bind_error (run_reserve_full h full), unchanged outcome]
      · rw [if_neg (Nat.not_lt.mpr room)] at outcome
        have fits := h.remaining_le.1
        have length : (bytes.take header.datagramLength).length = header.datagramLength :=
          List.length_take_of_le whole
        have inside : b.length + (bytes.take header.datagramLength).length ≤ b.buffer.length := by
          rw [length]
          omega
        have written := run_onBuffer (Edit.run_write inside)
        have placed : b.perform (.append bytes) = b.place (bytes.take header.datagramLength) :=
          perform_of_ok outcome
        have linked := run_link_place h (d := bytes.take header.datagramLength)
          (by rw [length]; simp only [DatagramHeader.datagramLength, Layout.datagramHeader]; omega)
          (by rw [length]; exact room)
        rw [length] at linked
        rw [Edit.run_bind_ok (run_reserve h room), Edit.run_state_bind,
          Edit.run_bind_ok (Edit.run_first whole), Edit.run_bind_ok written, linked, outcome,
          placed, Except.map]

theorem run_setWorkCounter (h : b.Bounded) (counter : UInt16) :
    (setWorkCounter counter).run b = some (.ok (), b.setWorkCounter counter) := by
  rw [setWorkCounter, Edit.run_state_bind, FrameBuilder.setWorkCounter]
  cases last : b.last with
  | none => exact Edit.run_pure ()
  | some start =>
      have headers : Layout.workCounter ≤ b.length := Nat.le_trans (by decide) h.headers
      have room : b.length - Layout.workCounter + (Bytes.encodeWord counter).length ≤
          b.buffer.length := by
        rw [Bytes.length_encodeWord]
        exact Nat.le_trans (Nat.le_of_eq (Nat.sub_add_cancel headers)) h.inside
      have written := run_onBuffer (Edit.run_write room)
      rw [last] at written
      exact (Edit.run_bind_ok (Edit.run_less headers)).trans written

/-- Within its bounds a builder does in place what its calls are defined to do. -/
theorem run_call (h : b.Bounded) (op : Operation) :
    (call op).run b = some ((b.attempt op).map fun _ => (), b.perform op) := by
  cases op with
  | add command index address payload =>
      have done := run_add h command index address payload
      cases outcome : b.add command index address payload with
      | error cause =>
          rw [outcome] at done
          rw [call, Edit.run_bind_error done, attempt_add_error outcome, Except.map]
      | ok placed =>
          rw [outcome] at done
          rw [call, Edit.run_bind_ok done, attempt_add_ok outcome, Except.map]
          rfl
  | append bytes => exact run_append h bytes
  | setWorkCounter counter => exact run_setWorkCounter h counter

theorem calls_eq (h : b.Bounded) (ops : List Operation) : calls ops b = some (b.run ops) := by
  induction ops generalizing b with
  | nil => rfl
  | cons op ops ih =>
      rw [calls, run_call h op, Option.bind_some]
      exact ih (h.perform op).1

theorem create_eq {buffer : Bytes} {mtu : Nat} (destination source : MacAddress)
    (long : Frame.headerLength ≤ buffer.length) (wide : Layout.frameHeader ≤ mtu) :
    create buffer mtu destination source = some (create? buffer mtu destination source) := by
  have room : ¬(buffer.length < Frame.headerLength ∨ mtu < Layout.frameHeader) := by omega
  have fourteen : Layout.ethernetHeader ≤ buffer.length := Nat.le_trans (by decide) long
  have size : (EthernetHeader.encode { destination, source }).length ≤ buffer.length :=
    (EthernetHeader.length_encode _).symm ▸ fourteen
  have stored : EthernetHeader.encodeInto { destination, source } buffer =
      .ok (buffer.overwrite 0 (EthernetHeader.encode { destination, source })) :=
    if_neg (Nat.not_lt.mpr size)
  have created : create? buffer mtu destination source = .ok (FrameBuilder.mk
      (buffer.overwrite 0 (EthernetHeader.encode { destination, source })) mtu Frame.headerLength
      none 0).sealed := by
    simp only [create?, if_neg room, stored]
    rfl
  have written := run_onBuffer (b := ⟨buffer, mtu, Frame.headerLength, none, 0⟩)
    (EthernetHeader.run_write (h := { destination, source }) fourteen)
  have long' : Frame.headerLength ≤ (buffer.overwrite 0
      (EthernetHeader.encode { destination, source })).length := by
    rw [Bytes.length_overwrite (by rw [Nat.zero_add]; exact size)]
    exact long
  rw [create, if_neg room, created, begin, Edit.run_bind_ok written,
    run_writeHeader (Nat.le_refl _) long']
  rfl

end InPlace

/-- From any buffer that holds the headers, with any payload size that holds the frame header, no
sequence of calls leaves the bounds, and what is free is what both leave. A call is accepted if its
datagram is one and has room, it then makes the frame longer by that datagram, and it changes
nothing if it is refused and nothing behind its frame if it is not. -/
theorem calls_bounded (buffer : Bytes) (mtu : Nat) (destination source : MacAddress)
    (long : Frame.headerLength ≤ buffer.length) (wide : Layout.frameHeader ≤ mtu) :
    ∃ b, create? buffer mtu destination source = .ok b ∧
      InPlace.create buffer mtu destination source = some (.ok b) ∧
      ∀ ops, ∃ c, c = b.run ops ∧ InPlace.calls ops b = some c ∧
        (Frame.headerLength ≤ c.length ∧ c.length ≤ buffer.length ∧
          c.length - Layout.ethernetHeader ≤ mtu) ∧
        c.remaining = min (mtu - (c.length - Layout.ethernetHeader)) (buffer.length - c.length) ∧
        InPlace.remaining.run c = some (.ok c.remaining, c) ∧
        ∀ op, ∃ outcome c', (InPlace.call op).run c = some (outcome, c') ∧
          outcome = ((c.attempt op).map fun _ => ()) ∧ c' = c.perform op ∧
          c.Clean op outcome c' := by
  obtain ⟨b, created⟩ := exists_create? destination source long wide
  obtain ⟨begun, payloads, size⟩ := bounded_of_create? created
  refine ⟨b, created, ?_, fun ops => ?_⟩
  · rw [InPlace.create_eq destination source long wide, created]
  obtain ⟨bounded, mtu', same⟩ := begun.run ops
  have size' : (b.run ops).buffer.length = buffer.length := same.1.trans size
  have payloads' : (b.run ops).mtu = mtu := mtu'.trans payloads
  refine ⟨b.run ops, rfl, InPlace.calls_eq begun ops, ⟨bounded.headers, ?_, ?_⟩, ?_,
    InPlace.run_remaining bounded, fun op => ?_⟩
  · exact size' ▸ bounded.inside
  · exact payloads' ▸ bounded.within
  · rw [remaining, payloads', size']
  · exact ⟨_, _, InPlace.run_call bounded op, rfl, rfl, bounded.clean op⟩

/-- The payload size leaves 15 bytes and the buffer 19: a payload of three bytes is accepted, one of
four is refused. -/
theorem calls_bounded_mixedCalls :
    Frame.headerLength ≤ (List.replicate 64 (0xAA : UInt8)).length ∧ Layout.frameHeader ≤ 46 ∧
      ∃ b c, InPlace.create (List.replicate 64 0xAA) 46 .broadcast .zero = some (.ok b) ∧
        InPlace.calls mixedCalls b = some c ∧ c.length = 45 ∧
        InPlace.remaining.run c = some (.ok 15, c) ∧
        (∃ c', (InPlace.call (.add .lrw 3 (.logical 0) [1, 2, 3])).run c = some (.ok (), c') ∧
          c'.length = 60) ∧
        ∃ cause, (InPlace.call (.add .lrw 3 (.logical 0) [1, 2, 3, 4])).run c =
          some (.error cause, c) := by
  have long : Frame.headerLength ≤ (List.replicate 64 (0xAA : UInt8)).length := by decide
  obtain ⟨b, created, begun, bounded⟩ := calls_bounded (List.replicate 64 0xAA) 46 .broadcast .zero
    long (by decide)
  obtain ⟨c, reached, ran, -, free, room, call⟩ := bounded mixedCalls
  have length : c.length = 45 := by
    have measured : (create? (List.replicate 64 0xAA) 46 .broadcast .zero).toOption.map
        (fun b => (b.run mixedCalls).length) = some 45 := by decide +kernel
    rw [created] at measured
    rw [reached]
    exact Option.some.inj measured
  have fifteen : c.remaining = 15 := by
    rw [free, length]
    decide
  rw [fifteen] at room
  obtain ⟨outcome, c', placed, -, -, clean⟩ := call (.add .lrw 3 (.logical 0) [1, 2, 3])
  obtain ⟨outcome', c'', refused, -, -, clean'⟩ := call (.add .lrw 3 (.logical 0) [1, 2, 3, 4])
  have takes : (Operation.add .lrw 3 (.logical 0) [1, 2, 3]).Takes c.remaining 15 := by
    rw [fifteen]
    exact ⟨by decide, rfl, Nat.le_refl _⟩
  have accepted := clean.accepted.mpr ⟨15, takes⟩
  refine ⟨long, by decide, b, c, begun, ran, length, room, ⟨c', accepted ▸ placed, ?_⟩, ?_⟩
  · rw [clean.grown 15 takes, length]
  · cases outcome' with
    | error cause => exact ⟨cause, clean'.failed cause rfl ▸ refused⟩
    | ok done =>
        obtain ⟨size, -, rfl, fits⟩ := clean'.accepted.mp rfl
        rw [fifteen] at fits
        exact absurd fits (by decide)

end FrameBuilder

end Fieldbus
