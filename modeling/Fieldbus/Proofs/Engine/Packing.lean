import Fieldbus.Port.Loopback
import Fieldbus.Proofs.Engine.Waiters

/-!
# What a whole transmission sends

Over a port that is always free every waiting transaction is packed, in some frame and only once.
Between two frames the transactions packed so far form groups, one for each frame. While a frame is
filled, its last group grows.
-/

namespace Fieldbus

def JournalEntry.frame? : JournalEntry → Option Bytes
  | .sent frame => some frame
  | _ => none

namespace Engine

def frames (e : Engine) : List Bytes := e.journal.filterMap JournalEntry.frame?

theorem frames_record (e : Engine) (x : JournalEntry) :
    (e.record x).frames = e.frames ++ x.frame?.toList := by
  unfold frames record
  rw [List.filterMap_append, List.filterMap_cons, List.filterMap_nil]
  cases x.frame? <;> rfl

/-- A port, in the states that are `ready`, is always free, lends a transmit buffer of one size and
carries payloads of one size. -/
structure AlwaysReady {π : Type} [FramePort π] (ready : π → Prop) (size mtu : Nat) : Prop where
  free : ∀ {p}, ready p → (FramePort.sendFinished p).1 = true ∧ ready (FramePort.sendFinished p).2
  mtu : ∀ {p}, ready p → FramePort.mtu p = mtu
  lend : ∀ {p p' buffer}, ready p → FramePort.transmitBuffer p = (.ok buffer, p') →
    buffer.length = size ∧ ready p'
  load : ∀ {p bytes}, ready p → bytes.length = size → ready (FramePort.load bytes p)
  send : ∀ {p p' n}, ready p → FramePort.send n p = (.ok (), p') → ready p'

theorem send_kept {l l' : Loopback} {n : Nat} (sent : l.send n = (.ok (), l')) :
    l'.near = l.near ∧ l'.mtu = l.mtu ∧ l'.far.attached = l.far.attached := by
  unfold Loopback.send Loopback.sendFrame at sent
  split at sent
  · cases sent
  · split at sent
    · cases sent
      exact ⟨rfl, rfl, rfl⟩
    · cases sent

theorem alwaysReady_loopback (size mtu : Nat) :
    AlwaysReady (fun l : Loopback => l.near.transmitBuffer.length = size ∧ l.mtu = mtu)
      size mtu := by
  constructor
  case free =>
    intro l ready
    exact ⟨rfl, ready⟩
  case mtu =>
    intro l ready
    exact ready.2
  case lend =>
    rintro l l' buffer ready ⟨⟩
    exact ⟨ready.1, ready⟩
  case load =>
    intro l bytes ready same
    exact ⟨same, ready.2⟩
  case send =>
    intro l l' n ready sent
    obtain ⟨near, mtu, -⟩ := send_kept sent
    exact ⟨near ▸ ready.1, mtu.trans ready.2⟩

/-! ## What has been packed -/

/-- Of the waiting transactions of `e₀` some have been packed. Nothing else has happened in the
slots. -/
structure Took (e₀ e : Engine) (now : Nat) (ts : List Transaction) : Prop where
  distinct : (ts.map Transaction.index).Nodup
  taken : ∀ t ∈ ts, e₀.slot t.index = some t ∧ t.queued = true ∧
    e.slot t.index = some (t.markSent now)
  left : ∀ index, index ∉ ts.map Transaction.index → e.slot index = e₀.slot index

namespace Took

variable {e₀ e e' : Engine} {now : Nat} {ts : List Transaction} {index : UInt8} {t : Transaction}

theorem refl (e : Engine) (now : Nat) : Took e e now [] :=
  ⟨List.nodup_nil, by simp, fun _ _ => rfl⟩

theorem index_unique (h : Took e₀ e now ts) {u : Transaction} (hu : u ∈ ts) (ht : t ∈ ts)
    (same : u.index = t.index) : u = t := by
  have slot := (h.taken u hu).1
  rw [same, (h.taken t ht).1, Option.some.injEq] at slot
  exact slot.symm

theorem congr (h : Took e₀ e now ts) (slots : ∀ index, e'.slot index = e.slot index) :
    Took e₀ e' now ts :=
  ⟨h.distinct, fun t ht => by rw [slots]; exact h.taken t ht,
    fun index fresh => (slots index).trans (h.left index fresh)⟩

theorem waiting (h : Took e₀ e now ts) (slot : e.slot index = some t) (queued : t.queued = true) :
    index ∉ ts.map Transaction.index ∧ e₀.slot index = some t := by
  have fresh : index ∉ ts.map Transaction.index := by
    intro packed
    obtain ⟨u, hu, rfl⟩ := List.mem_map.mp packed
    rw [(h.taken u hu).2.2, Option.some.injEq] at slot
    rw [← slot] at queued
    cases queued
  exact ⟨fresh, (h.left index fresh).symm.trans slot⟩

theorem markSent (h : Took e₀ e now ts) (slot : e.slot index = some t) (queued : t.queued = true)
    (place : t.index = index) : Took e₀ (e.markSent now index t) now (ts ++ [t]) := by
  subst place
  obtain ⟨fresh, before⟩ := h.waiting slot queued
  have slots (other : UInt8) : (e.markSent now t.index t).slot other =
      if other = t.index then some (t.markSent now) else e.slot other :=
    slot_setSlot e t.index other _
  constructor
  case distinct =>
    rw [List.map_append, List.nodup_append]
    refine ⟨h.distinct, by simp, fun i hi j hj same => fresh ?_⟩
    rw [List.map_singleton, List.mem_singleton] at hj
    exact hj ▸ same ▸ hi
  case taken =>
    intro u hu
    rcases List.mem_append.mp hu with old | new
    · obtain ⟨slot₀, waited, marked⟩ := h.taken u old
      have ne : u.index ≠ t.index := fun same => fresh (same ▸ List.mem_map_of_mem old)
      exact ⟨slot₀, waited, by rw [slots, if_neg ne, marked]⟩
    · rw [List.mem_singleton.mp new]
      exact ⟨before, queued, by rw [slots, if_pos rfl]⟩
  case left =>
    intro other out
    rw [List.map_append, List.mem_append, not_or, List.map_singleton, List.mem_singleton] at out
    rw [slots, if_neg out.2]
    exact h.left other out.1

theorem mem_iff (h : Took e₀ e now ts)
    (done : ∀ index t, e.slot index = some t → t.queued = false) :
    t ∈ ts ↔ e₀.slot t.index = some t ∧ t.queued = true := by
  constructor
  · intro ht
    exact ⟨(h.taken t ht).1, (h.taken t ht).2.1⟩
  · rintro ⟨slot, queued⟩
    by_cases packed : t.index ∈ ts.map Transaction.index
    · obtain ⟨u, hu, same⟩ := List.mem_map.mp packed
      have slot' := (h.taken u hu).1
      rw [same, slot, Option.some.injEq] at slot'
      exact slot' ▸ hu
    · have idle := done t.index t ((h.left t.index packed).trans slot)
      rw [queued] at idle
      cases idle

end Took

end Engine

theorem Transaction.Carries.decode {t : Transaction} {index : UInt8} {r : Request}
    (h : t.Carries index r) : ∃ header, DatagramHeader.decode? t.encoded = .ok header ∧
      header.datagramLength = t.encoded.length ∧ 8 ≤ t.encoded.length := by
  have bound : r.payload.length ≤ 2047 := h.size
  have length : (UInt16.ofNat r.payload.length).toNat = r.payload.length := by
    rw [UInt16.toNat_ofNat']
    omega
  have size := Datagram.length_encode r.command index r.address r.payload
  refine ⟨DatagramHeader.request r.command index r.address (UInt16.ofNat r.payload.length),
    ?_, ?_, ?_⟩
  · rw [h.encoded, Datagram.encode, List.append_assoc]
    exact DatagramHeader.decode?_encode _
      (show (UInt16.ofNat r.payload.length).toNat < 2048 by omega)
  · rw [h.encoded, size]
    simp only [DatagramHeader.datagramLength, DatagramHeader.request, length]
  · rw [h.encoded, size, Layout.datagramHeader]
    omega

namespace Engine

/-! ## Filling a frame -/

def Packing.items (p : Packing) : Nat := p.carry.toList.length + p.engine.queue.length

/-- Every waiting transaction has room in an empty frame. -/
def Fits (e : Engine) (room : Nat) : Prop :=
  ∀ {index t}, e.slot index = some t → t.queued = true → t.encoded.length ≤ room

/-- A frame is filled with `batch`, after `done` was packed into the frames `sent`. -/
structure Filling (e₀ : Engine) (now mtu size : Nat) (ethernet : EthernetHeader)
    (sent : List Bytes) (done batch : List Transaction) (p : Packing) : Prop where
  took : Took e₀ p.engine now (done ++ batch)
  holds : p.frame.Holds ethernet (batch.map Transaction.encoded)
  payloads : p.frame.mtu = mtu
  capacity : p.frame.buffer.length = size
  small : Frame.size (batch.map Transaction.encoded) ≤ Frame.room mtu size
  frames : p.engine.frames = sent
  config : p.engine.config = e₀.config

variable {e₀ : Engine} {now mtu size : Nat} {ethernet : EthernetHeader} {sent : List Bytes}
  {done batch : List Transaction} {p : Packing}

theorem Filling.remaining (h : Filling e₀ now mtu size ethernet sent done batch p) :
    p.frame.remaining =
      Frame.room mtu size - Frame.size (batch.map Transaction.encoded) := by
  rw [h.holds.remaining, h.payloads, h.capacity]

theorem Filling.pass (h : Filling e₀ now mtu size ethernet sent done batch p) {e : Engine}
    (slots : ∀ index, e.slot index = p.engine.slot index) (frames : e.frames = p.engine.frames)
    (config : e.config = p.engine.config) (carry : Option UInt8) :
    Filling e₀ now mtu size ethernet sent done batch { p with engine := e, carry } :=
  ⟨h.took.congr slots, h.holds, h.payloads, h.capacity, h.small, frames.trans h.frames,
    config.trans h.config⟩

theorem Filling.place (h : Filling e₀ now mtu size ethernet sent done batch p) (sound : e₀.Sound)
    {index : UInt8} {t : Transaction} (slot : p.engine.slot index = some t)
    (queued : t.queued = true) (room : t.encoded.length ≤ p.frame.remaining) (carry : Option UInt8)
    (packed : Nat) :
    p.frame.append t.encoded = .ok (p.frame.place t.encoded) ∧
      Filling e₀ now mtu size ethernet sent done (batch ++ [t])
        ⟨p.engine.markSent now index t, p.frame.place t.encoded, carry, packed⟩ := by
  obtain ⟨r, -, carries⟩ := (sound.backed (h.took.waiting slot queued).2).prepared
  obtain ⟨header, decode, whole, long⟩ := carries.decode
  obtain ⟨holds, payloads, capacity⟩ := h.holds.place long room
  refine ⟨?_, ?_, ?_, payloads.trans h.payloads, capacity.trans h.capacity, ?_, ?_, h.config⟩
  · rw [p.frame.append_eq decode (Nat.le_of_eq whole), whole, if_neg (Nat.not_lt.mpr room),
      List.take_length]
  · rw [← List.append_assoc]
    exact h.took.markSent slot queued carries.place
  · rw [List.map_append]
    exact holds
  · have known := h.remaining
    have small := h.small
    simp only [List.map_append, List.map_cons, List.map_nil, Frame.size_append, Frame.size_cons,
      Frame.size_nil]
    omega
  · exact (frames_record _ _).trans ((List.append_nil _).trans h.frames)

theorem dequeue_items {e : Engine} {index : UInt8}
    (h : p.engine.dequeue p.carry = some (index, e)) :
    (∀ other, e.slot other = p.engine.slot other) ∧ e.frames = p.engine.frames ∧
      e.config = p.engine.config ∧ e.queue.length + 1 = p.items := by
  cases carried : p.carry with
  | some front =>
      simp only [dequeue, carried, Option.some.injEq, Prod.mk.injEq] at h
      obtain ⟨-, rfl⟩ := h
      refine ⟨fun _ => rfl, rfl, rfl, ?_⟩
      simp [Packing.items, carried, Nat.add_comm]
  | none =>
      cases queue : p.engine.queue with
      | nil => simp [dequeue, carried, queue] at h
      | cons front rest =>
          simp only [dequeue, carried, queue, Option.some.injEq, Prod.mk.injEq] at h
          obtain ⟨-, rfl⟩ := h
          refine ⟨fun _ => rfl, rfl, rfl, ?_⟩
          simp [Packing.items, carried, queue]

/-- Packing takes the first of those who wait. The next one has no room in the frame. -/
structure Gathers (p : Packing) (taken : List Transaction) (p' : Packing) : Prop where
  order : p.whole.waiters = taken ++ p'.whole.waiters
  counted : p'.packed = p.packed + taken.length
  statistics : p'.engine.statistics = p.engine.statistics
  full : ∀ t ∈ p'.whole.waiters.head?, p'.frame.remaining < t.encoded.length

theorem gathers_none (p : Packing) (carry : p.carry = none) (queue : p.engine.queue = []) :
    Gathers p [] p := by
  have none : p.whole.waiters = [] := by
    simp [Packing.whole, reclaim, carry, queue, waiters]
  refine ⟨rfl, rfl, rfl, fun t first => ?_⟩
  rw [none] at first
  cases first

/-- The index that is taken makes no difference, or it ends the frame, or its transaction is the
next one of the frame. -/
theorem Gathers.skip {p' : Packing} {taken : List Transaction} {index : UInt8} {e : Engine}
    (dequeued : p.engine.dequeue p.carry = some (index, e))
    (idle : ∀ t, e.slot index = some t → t.queued = false)
    (h : Gathers { p with engine := e, carry := none } taken p') : Gathers p taken p' := by
  have whole := dequeue_eq_some dequeued
  refine ⟨?_, h.counted, h.statistics.trans (congrArg Engine.statistics whole).symm, h.full⟩
  rw [Packing.whole, whole, waiters_skip idle]
  exact h.order

theorem gathers_full {index : UInt8} {e : Engine} {t : Transaction}
    (dequeued : p.engine.dequeue p.carry = some (index, e)) (slot : e.slot index = some t)
    (queued : t.queued = true) (large : p.frame.remaining < t.encoded.length) :
    Gathers p [] { p with engine := e, carry := some index } := by
  have whole := dequeue_eq_some dequeued
  refine ⟨congrArg waiters whole, rfl, (congrArg Engine.statistics whole).symm, fun u first => ?_⟩
  have taken := waiters_take slot queued 0
  rw [show Packing.whole { p with engine := e, carry := some index } =
    { e with queue := index :: e.queue } from rfl, taken] at first
  exact Option.some.inj first ▸ large

theorem Gathers.place {p' : Packing} {taken : List Transaction} {index : UInt8} {e : Engine}
    {t : Transaction} {frame : FrameBuilder}
    (dequeued : p.engine.dequeue p.carry = some (index, e)) (slot : e.slot index = some t)
    (queued : t.queued = true)
    (h : Gathers ⟨e.markSent now index t, frame, none, p.packed + 1⟩ taken p') :
    Gathers p (t :: taken) p' := by
  have whole := dequeue_eq_some dequeued
  refine ⟨?_, ?_, h.statistics.trans (congrArg Engine.statistics whole).symm, h.full⟩
  · rw [Packing.whole, whole, waiters_take slot queued now, List.cons_append]
    exact congrArg (t :: ·) h.order
  · have counted : p'.packed = p.packed + 1 + taken.length := h.counted
    rw [counted, List.length_cons]
    omega

/-- Packing `p`, which has `batch` in its frame, takes more and ends with all indices taken, or with
one that the filled frame has no room for. -/
structure Filled (e₀ : Engine) (now mtu size : Nat) (ethernet : EthernetHeader)
    (sent : List Bytes) (done batch : List Transaction) (bound : Nat) (p : Packing)
    (taken : List Transaction) (p' : Packing) : Prop where
  filling : Filling e₀ now mtu size ethernet sent done (batch ++ taken) p'
  gathers : Gathers p taken p'
  rest : p'.carry = none → p'.engine.queue = []
  bare : batch ++ taken = [] → p'.carry = none
  items : p'.items + (batch ++ taken).length ≤ bound

variable {bound : Nat} {p' : Packing} {taken : List Transaction} {index : UInt8} {e : Engine}
  {t : Transaction}

theorem Filling.filled_none (h : Filling e₀ now mtu size ethernet sent done batch p)
    (carry : p.carry = none) (queue : p.engine.queue = [])
    (bounded : p.items + batch.length ≤ bound) :
    Filled e₀ now mtu size ethernet sent done batch bound p [] p :=
  ⟨by rwa [List.append_nil], gathers_none p carry queue, fun _ => queue, fun _ => carry,
    by rwa [List.append_nil]⟩

theorem Filling.filled_full (h : Filling e₀ now mtu size ethernet sent done batch p)
    (dequeued : p.engine.dequeue p.carry = some (index, e)) (slot : e.slot index = some t)
    (queued : t.queued = true) (large : p.frame.remaining < t.encoded.length) (busy : batch ≠ [])
    (bounded : p.items + batch.length ≤ bound) :
    Filled e₀ now mtu size ethernet sent done batch bound p []
      { p with engine := e, carry := some index } := by
  obtain ⟨slots, frames, config, items⟩ := dequeue_items dequeued
  have same : Packing.items { p with engine := e, carry := some index } = p.items := by
    simpa [Packing.items, Nat.add_comm] using items
  refine ⟨?_, gathers_full dequeued slot queued large, fun none => ?_, fun empty => ?_, ?_⟩
  · rw [List.append_nil]
    exact h.pass slots frames config (some index)
  · cases none
  · rw [List.append_nil] at empty
    exact absurd empty busy
  · rw [List.append_nil, same]
    exact bounded

theorem Filled.skip (dequeued : p.engine.dequeue p.carry = some (index, e))
    (idle : ∀ t, e.slot index = some t → t.queued = false)
    (h : Filled e₀ now mtu size ethernet sent done batch bound { p with engine := e, carry := none }
      taken p') : Filled e₀ now mtu size ethernet sent done batch bound p taken p' :=
  ⟨h.filling, h.gathers.skip dequeued idle, h.rest, h.bare, h.items⟩

theorem Filled.place {frame : FrameBuilder}
    (dequeued : p.engine.dequeue p.carry = some (index, e)) (slot : e.slot index = some t)
    (queued : t.queued = true)
    (h : Filled e₀ now mtu size ethernet sent done (batch ++ [t]) bound
      ⟨e.markSent now index t, frame, none, p.packed + 1⟩ taken p') :
    Filled e₀ now mtu size ethernet sent done batch bound p (t :: taken) p' := by
  obtain ⟨filling, gathers, rest, bare, items⟩ := h
  rw [List.append_assoc, List.singleton_append] at filling bare items
  exact ⟨filling, gathers.place dequeued slot queued, rest, bare, items⟩

theorem pack_fills (sound : e₀.Sound) (fits : e₀.Fits (Frame.room mtu size)) (fuel : Nat)
    (filling : Filling e₀ now mtu size ethernet sent done batch p) (enough : p.items ≤ fuel)
    (bounded : p.items + batch.length ≤ bound) :
    ∃ p' taken, pack now fuel p = (.ok (), p') ∧
      Filled e₀ now mtu size ethernet sent done batch bound p taken p' := by
  induction fuel generalizing p batch with
  | zero =>
      have empty : p.carry.toList.length + p.engine.queue.length = 0 := Nat.le_zero.mp enough
      have carry : p.carry = none := by
        cases carried : p.carry with
        | none => rfl
        | some index => simp [carried] at empty
      have queue : p.engine.queue = [] := List.eq_nil_of_length_eq_zero (by omega)
      exact ⟨p, [], rfl, filling.filled_none carry queue bounded⟩
  | succ fuel ih =>
      rw [pack]
      cases dequeued : p.engine.dequeue p.carry with
      | none =>
          obtain ⟨carry, queue⟩ := dequeue_eq_none dequeued
          have same : { p with carry := none } = p := by rw [← carry]
          refine ⟨p, [], ?_, filling.filled_none carry queue bounded⟩
          dsimp only
          rw [same]
      | some front =>
          obtain ⟨index, e⟩ := front
          obtain ⟨slots, frames, config, items⟩ := dequeue_items dequeued
          have passed := filling.pass slots frames config none
          have rest : Packing.items { p with engine := e, carry := none } + 1 = p.items := by
            simpa [Packing.items] using items
          obtain ⟨p', taken, next, filled⟩ := ih passed (by omega) (by omega)
          dsimp only
          split
          · rename_i vacant
            exact ⟨p', taken, next, filled.skip dequeued fun t slot => by simp [vacant] at slot⟩
          · rename_i t slot
            split
            · rename_i queued
              have alone := fits (passed.took.waiting slot queued).2 queued
              have remaining := filling.remaining
              split
              · rename_i large
                have busy : batch ≠ [] := by
                  rintro rfl
                  rw [List.map_nil, Frame.size_nil, Nat.sub_zero] at remaining
                  omega
                have closed : p.frame.isEmpty = false := by
                  rw [filling.holds.isEmpty]
                  simpa using busy
                rw [if_neg (by rw [closed]; exact Bool.false_ne_true)]
                exact ⟨_, [], rfl, filling.filled_full dequeued slot queued large busy bounded⟩
              · rename_i room
                obtain ⟨appended, placed⟩ :=
                  passed.place sound slot queued (Nat.not_lt.mp room) none (p.packed + 1)
                rw [appended]
                have less : Packing.items { p with engine := e, carry := none } ≤ fuel := by omega
                have more : Packing.items { p with engine := e, carry := none } +
                    (batch ++ [t]).length ≤ bound := by
                  rw [List.length_append, List.length_singleton]
                  omega
                obtain ⟨p', taken, next, filled⟩ := ih placed less more
                exact ⟨p', t :: taken, next, filled.place dequeued slot queued⟩
            · rename_i idle
              refine ⟨p', taken, next, filled.skip dequeued fun u slot' => ?_⟩
              rw [slot, Option.some.injEq] at slot'
              simpa [slot'] using idle

/-! ## Frames one after the other -/

def frameOf (e : Engine) (group : List Transaction) : Bytes :=
  Frame.image { destination := e.config.destination, source := e.config.source }
    (group.map Transaction.encoded)

namespace Transmission

variable {π : Type} [FramePort π] {ready : π → Prop} {s s' : Transmission π PassThrough}
  {groups : List (List Transaction)}

def items (s : Transmission π PassThrough) : Nat := s.carry.toList.length + s.engine.queue.length

/-- Of the transactions that waited in `e₀` the groups have been packed and sent. -/
structure Underway (e₀ : Engine) (now room : Nat) (groups : List (List Transaction))
    (s : Transmission π PassThrough) : Prop where
  took : Took e₀ s.engine now groups.flatten
  frames : s.engine.frames = e₀.frames ++ groups.map e₀.frameOf
  small : ∀ group ∈ groups, Frame.size (group.map Transaction.encoded) ≤ room
  config : s.engine.config = e₀.config
  count : s.frames = groups.length
  sound : s.whole.Sound
  groups : Groups e₀ room groups s.whole

theorem overwrite_refit (frame : FrameBuilder) :
    frame.buffer.overwrite 0 (refit frame.frame frame.frame) = frame.buffer := by
  have kept : refit frame.frame frame.frame = frame.frame := by
    rw [refit, List.take_length, Bytes.overwrite_zero, List.drop_length, List.append_nil]
  rw [kept, Bytes.overwrite_zero, FrameBuilder.frame, List.length_take]
  rcases Nat.le_total frame.length frame.buffer.length with inside | beyond
  · rw [Nat.min_eq_left inside, List.take_append_drop]
  · rw [Nat.min_eq_right beyond, List.take_of_length_le beyond, List.drop_length, List.append_nil]

theorem send_eq {frame : FrameBuilder} {ethernet : EthernetHeader} {ds : List Bytes} {packed : Nat}
    (holds : frame.Holds ethernet ds) :
    s.send frame packed =
      match FramePort.send frame.length (FramePort.load frame.buffer s.port) with
      | (.error fault, port) => (.error (.device fault), { s with port }.countError)
      | (.ok (), port) =>
          (.ok (), { s with
            engine := (s.engine.record (.sent (Frame.image ethernet ds))).tally fun n => { n with
              framesSent := n.framesSent + 1
              datagramsSent := n.datagramsSent + packed }
            port
            frames := s.frames + 1 }) := by
  have image : frame.buffer.take frame.length = Frame.image ethernet ds := holds.frame
  simp only [send, FrameFilter.onSend, overwrite_refit, if_true]
  cases FramePort.send frame.length (FramePort.load frame.buffer s.port) with
  | mk taken port =>
      cases taken with
      | error fault => rfl
      | ok _ =>
          dsimp only
          rw [image]

variable {e₀ : Engine} {now mtu size : Nat} {ethernet : EthernetHeader}

def advance (s : Transmission π PassThrough) (p : Packing) (image : Bytes) (port : π) :
    Transmission π PassThrough :=
  { s with
    engine := (p.engine.record (.sent image)).tally fun n => { n with
      framesSent := n.framesSent + 1
      datagramsSent := n.datagramsSent + p.packed }
    carry := p.carry
    port
    frames := s.frames + 1 }

omit [FramePort π] in
theorem Underway.advance {frame : FrameBuilder} {group : List Transaction} {p : Packing} {port : π}
    (h : Underway e₀ now (Frame.room mtu size) groups s)
    (filling : Filling e₀ now mtu size ethernet s.engine.frames groups.flatten group p)
    (gathers : Gathers ⟨s.engine, frame, s.carry, 0⟩ group p) (busy : group ≠ [])
    (sound : (s.advance p (e₀.frameOf group) port).whole.Sound) :
    Underway e₀ now (Frame.room mtu size) (groups ++ [group])
      (s.advance p (e₀.frameOf group) port) := by
  have tight : Tight (Frame.room mtu size) group p.whole.waiters := fun t first => by
    have large := gathers.full t first
    rw [filling.remaining] at large
    have small := filling.small
    omega
  have counted : p.packed = group.length := gathers.counted.trans (Nat.zero_add _)
  refine ⟨?_, ?_, ?_, filling.config, ?_, sound, ?_⟩
  · rw [List.flatten_append, List.flatten_singleton]
    exact filling.took.congr fun _ => rfl
  · refine (frames_record _ _).trans ?_
    rw [filling.frames, h.frames, List.map_append, List.append_assoc]
    rfl
  · intro g hg
    rcases List.mem_append.mp hg with old | new
    · exact h.small g old
    · exact List.mem_singleton.mp new ▸ filling.small
  · simp [Transmission.advance, h.count]
  · refine h.groups.next busy gathers.order tight ?_ ?_
    · show p.engine.statistics.framesSent + 1 = _
      rw [gathers.statistics]
      rfl
    · show p.engine.statistics.datagramsSent + p.packed = _
      rw [gathers.statistics, counted]
      rfl

def Leaves (ready : π → Prop) (e₀ : Engine) (now room : Nat) (groups : List (List Transaction))
    (s s' : Transmission π PassThrough) : Option (Except Error Nat) → Prop
  | none => ∃ group, Underway e₀ now room (groups ++ [group]) s' ∧ ready s'.port ∧
      s'.items < s.items
  | some (.ok count) => Underway e₀ now room groups s' ∧ count = groups.length ∧
      s'.carry = none ∧ s'.engine.queue = []
  | some (.error _) => True

theorem Underway.fill (always : AlwaysReady ready size mtu) (sound : e₀.Sound)
    (fits : e₀.Fits (Frame.room (min mtu e₀.config.mtu) size))
    (h : Underway e₀ now (Frame.room (min mtu e₀.config.mtu) size) groups s)
    (idle : ready s.port) {frame : FrameBuilder}
    (holds : frame.Holds { destination := e₀.config.destination, source := e₀.config.source } [])
    (payloads : frame.mtu = min mtu e₀.config.mtu) (capacity : frame.buffer.length = size)
    {result : Option (Except Error Nat)} (sound' : s'.whole.Sound)
    (filled : s.fill now frame = (result, s')) :
    Leaves ready e₀ now (Frame.room (min mtu e₀.config.mtu) size) groups s s' result := by
  have start : Filling e₀ now (min mtu e₀.config.mtu) size _ s.engine.frames groups.flatten []
      ⟨s.engine, frame, s.carry, 0⟩ :=
    ⟨by rw [List.append_nil]; exact h.took, holds, payloads, capacity, Nat.zero_le _, rfl,
      h.config⟩
  have enough : Packing.items ⟨s.engine, frame, s.carry, 0⟩ ≤ s.engine.workload + 1 := by
    have one : s.carry.toList.length ≤ 1 := by cases s.carry <;> simp
    simp only [Packing.items, workload]
    omega
  obtain ⟨p, group, packed, end_, gathers, rest, bare, items⟩ :=
    pack_fills sound fits _ start enough (Nat.le_refl _)
  rw [List.nil_append] at end_ bare items
  unfold Transmission.fill at filled
  rw [packed] at filled
  dsimp only at filled
  split at filled
  · rename_i empty
    cases filled
    rw [end_.holds.isEmpty, List.isEmpty_iff, List.map_eq_nil_iff] at empty
    subst empty
    have took := end_.took
    rw [List.append_nil] at took
    have still : Groups e₀ _ groups (p.engine.reclaim p.carry) :=
      h.groups.congr gathers.order.symm gathers.statistics
    exact ⟨⟨took, end_.frames.trans h.frames, h.small, end_.config, h.count, sound', still⟩,
      h.count, bare rfl, rest (bare rfl)⟩
  · rename_i busy
    rw [send_eq end_.holds] at filled
    have loaded := always.load idle end_.capacity
    have some_packed : 0 < group.length := by
      rw [end_.holds.isEmpty] at busy
      simpa [List.length_pos_iff] using busy
    cases sending : FramePort.send p.frame.length (FramePort.load p.frame.buffer s.port) with
    | mk taken port =>
        rw [sending] at filled
        cases taken with
        | error fault =>
            cases filled
            trivial
        | ok _ =>
            cases filled
            refine ⟨group, h.advance end_ gathers (List.length_pos_iff.mp some_packed) sound',
              always.send loaded sending, ?_⟩
            show p.items < _
            simp only [List.length_nil, Nat.add_zero] at items
            exact Nat.lt_of_lt_of_le (Nat.lt_add_of_pos_right some_packed) items

theorem Underway.step (always : AlwaysReady ready size mtu) (sound : e₀.Sound)
    (fits : e₀.Fits (Frame.room (min mtu e₀.config.mtu) size))
    (h : Underway e₀ now (Frame.room (min mtu e₀.config.mtu) size) groups s)
    (idle : ready s.port) {result : Option (Except Error Nat)}
    (stepped : s.step now = (result, s')) :
    Leaves ready e₀ now (Frame.room (min mtu e₀.config.mtu) size) groups s s' result := by
  have sound' : s'.whole.Sound := by
    have path := @step_moves π PassThrough _ _ now s s h.sound Relation.ReflTransGen.refl
    rw [stepped] at path
    exact path.sound h.sound
  unfold Transmission.step at stepped
  split at stepped
  · rename_i done
    cases stepped
    rw [isDone, Bool.and_eq_true, Option.isNone_iff_eq_none, List.isEmpty_iff] at done
    exact ⟨h, h.count, done⟩
  · obtain ⟨free, idle⟩ := always.free idle
    split at stepped
    · rename_i port busy
      rw [busy] at free
      cases free
    · rename_i port busy
      rw [busy] at idle
      split at stepped
      · cases stepped
        trivial
      · rename_i buffer port' lent
        obtain ⟨capacity, idle'⟩ := always.lend idle lent
        dsimp only at stepped
        split at stepped
        · cases stepped
          trivial
        · rename_i frame created
          rw [h.config, always.mtu idle] at created
          obtain ⟨holds, payloads, size, -, -⟩ := FrameBuilder.create?_holds created
          have h' : Underway e₀ now _ groups { s with port := port' } :=
            ⟨h.took, h.frames, h.small, h.config, h.count, h.sound, h.groups⟩
          exact h'.fill always sound fits idle' holds payloads (size.trans capacity) sound' stepped

theorem Underway.run (always : AlwaysReady ready size mtu) (sound : e₀.Sound)
    (fits : e₀.Fits (Frame.room (min mtu e₀.config.mtu) size)) {fuel count : Nat}
    (h : Underway e₀ now (Frame.room (min mtu e₀.config.mtu) size) groups s)
    (idle : ready s.port) (enough : s.items < fuel)
    (ended : (Transmission.run now fuel s).result = .ok count) :
    ∃ (groups' : List (List Transaction)) (s' : Transmission π PassThrough),
      Underway e₀ now (Frame.room (min mtu e₀.config.mtu) size) groups' s' ∧
      count = groups'.length ∧ s'.carry = none ∧ s'.engine.queue = [] ∧
      (Transmission.run now fuel s).engine = s'.engine.requeue none := by
  induction fuel generalizing s groups with
  | zero => cases enough
  | succ fuel ih =>
      rw [Transmission.run] at ended ⊢
      cases stepped : s.step now with
      | mk result s' =>
          have outcome := h.step always sound fits idle stepped
          rw [stepped] at ended
          cases result with
          | none =>
              obtain ⟨group, h', idle', fewer⟩ := outcome
              exact ih h' idle' (by omega) ended
          | some result =>
              cases result with
              | error cause => cases ended
              | ok sent =>
                  obtain ⟨h', known, carry, queue⟩ := outcome
                  cases ended
                  refine ⟨groups, s', h', known, carry, queue, ?_⟩
                  simp only [stop, carry]

end Transmission

theorem exists_underway {π : Type} [FramePort π] {ready : π → Prop} {e : Engine} {size mtu : Nat}
    {port : π} {now count : Nat} (always : AlwaysReady ready size mtu) (idle : ready port)
    (sound : e.Sound) (fits : e.Fits (Frame.room (min mtu e.config.mtu) size))
    (ended : (e.transmit port PassThrough.mk now).result = .ok count) :
    ∃ (groups : List (List Transaction)) (s : Transmission π PassThrough),
      s.Underway e now (Frame.room (min mtu e.config.mtu) size) groups ∧ count = groups.length ∧
      s.carry = none ∧ s.engine.queue = [] ∧
      (e.transmit port PassThrough.mk now).engine = s.engine.requeue none := by
  have start : Transmission.Underway e now (Frame.room (min mtu e.config.mtu) size) []
      (.opening e port PassThrough.mk) :=
    ⟨.refl e now, (List.append_nil _).symm, by simp, rfl, rfl, sound, .none e _⟩
  have enough : (Transmission.opening e port PassThrough.mk).items < e.workload + 1 := by
    simp only [Transmission.items, Transmission.opening, workload, Option.toList_none,
      List.length_nil]
    omega
  exact start.run always sound fits idle enough ended

/-- A transmission over a port that is always free packs and sends all that waits. -/
theorem transmit_packs {π : Type} [FramePort π] {ready : π → Prop} {e : Engine} {size mtu : Nat}
    {port : π} {now count : Nat} (always : AlwaysReady ready size mtu) (idle : ready port)
    (sound : e.Sound) (fits : e.Fits (Frame.room (min mtu e.config.mtu) size))
    (ended : (e.transmit port PassThrough.mk now).result = .ok count) :
    ∃ groups : List (List Transaction), count = groups.length ∧
      Took e (e.transmit port PassThrough.mk now).engine now groups.flatten ∧
      (∀ t, t ∈ groups.flatten ↔ e.slot t.index = some t ∧ t.queued = true) ∧
      (e.transmit port PassThrough.mk now).engine.frames = e.frames ++ groups.map e.frameOf ∧
      ∀ group ∈ groups, Frame.size (group.map Transaction.encoded) ≤
        Frame.room (min mtu e.config.mtu) size := by
  obtain ⟨groups, s, h, known, carry, queue, engine⟩ :=
    exists_underway always idle sound fits ended
  have nothing : ∀ index t, s.engine.slot index = some t → t.queued = false := by
    intro index t slot
    cases queued : t.queued with
    | false => rfl
    | true =>
        have there : s.whole.slot index = some t := slot
        have waits := (h.sound.waiting there queued).2
        simp [Transmission.whole, reclaim, carry, queue] at waits
  rw [engine]
  exact ⟨groups, known, h.took.congr fun _ => rfl, fun t => h.took.mem_iff nothing, h.frames,
    h.small⟩

end Engine

end Fieldbus
