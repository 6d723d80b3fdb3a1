import Mathlib.Order.Bounds.Defs
import Fieldbus.Proofs.Engine.RoundTrip
import Fieldbus.Proofs.Engine.Stranding

/-!
# Sending with the fewest frames

A frame takes as many of the waiting transactions as have room in it, in their order. No other way
to cut their row into frames needs fewer of them.
-/

namespace Fieldbus.Engine

/-! ## Cuttings of a row -/

/-- A row of transactions cut into parts, each of which has room in a frame. -/
structure Cuts (room : Nat) (row : List Transaction) (parts : List (List Transaction)) : Prop where
  flatten : parts.flatten = row
  small : ∀ part ∈ parts, Frame.size (part.map Transaction.encoded) ≤ room

theorem Cuts.tail {room : Nat} {row part : List Transaction} {parts : List (List Transaction)}
    (h : Cuts room row (part :: parts)) : Cuts room parts.flatten parts :=
  ⟨rfl, fun other later => h.small other (List.mem_cons_of_mem part later)⟩

theorem Tight.size_lt {room : Nat} {group later : List Transaction} {t : Transaction}
    (tight : Tight room group (t :: later)) (before more : List Transaction) :
    room < Frame.size ((before ++ group ++ t :: more).map Transaction.encoded) := by
  have large := tight t rfl
  simp only [List.map_append, List.map_cons, Frame.size_append, Frame.size_cons]
  omega

/-- The groups that a row ends in are no more than the parts of any cutting of the row, if each of
them has no room for the next transaction. -/
theorem Cuts.length_le {room : Nat} {before : List Transaction}
    {groups parts : List (List Transaction)} (h : Cuts room (before ++ groups.flatten) parts)
    (filled : ∀ group ∈ groups, group ≠ []) (tight : groups.IsChain (Tight room)) :
    groups.length ≤ parts.length := by
  induction parts generalizing groups before with
  | nil =>
      have nothing : groups.flatten = [] := (List.append_eq_nil_iff.mp h.flatten.symm).2
      rw [List.flatten_eq_nil_iff] at nothing
      have none : groups = [] := List.eq_nil_iff_forall_not_mem.mpr fun group hg =>
        filled group hg (nothing group hg)
      simp [none]
  | cons part parts ih =>
      cases groups with
      | nil => simp
      | cons group groups =>
          have filled' : ∀ g ∈ groups, g ≠ [] := fun g hg => filled g (List.mem_cons_of_mem _ hg)
          have row := h.flatten
          rw [List.flatten_cons, List.flatten_cons, ← List.append_assoc,
            List.append_eq_append_iff] at row
          -- The first part ends inside the first group, or it has that group and some of the next.
          have inside : ∃ rest, parts.flatten = rest ++ groups.flatten := by
            rcases row with ⟨rest, -, behind⟩ | ⟨beyond, part_eq, behind⟩
            · exact ⟨rest, behind⟩
            · cases beyond with
              | nil => exact ⟨[], behind.symm⟩
              | cons t beyond =>
                  cases groups with
                  | nil => simp at behind
                  | cons next groups =>
                      cases next with
                      | nil => exact absurd rfl (filled' [] List.mem_cons_self)
                      | cons u next =>
                          obtain ⟨rfl, -⟩ := List.cons.inj behind
                          have large :=
                            (List.isChain_cons_cons.mp tight).1.size_lt before beyond
                          have small := h.small part List.mem_cons_self
                          rw [part_eq] at small
                          omega
          obtain ⟨rest, behind⟩ := inside
          have fewer := ih (behind ▸ h.tail) filled' tight.tail
          rw [List.length_cons, List.length_cons]
          omega

/-! ## Ports that never fail -/

/-- A port that is always free and never fails to lend its buffer or to send from it. -/
structure Steady {π : Type} [FramePort π] (ready : π → Prop) (size mtu : Nat) : Prop
    extends AlwaysReady ready size mtu where
  lends : ∀ {p}, ready p → ∃ buffer p', FramePort.transmitBuffer p = (.ok buffer, p')
  sends : ∀ {p n}, ready p → n ≤ size → ∃ p', FramePort.send n p = (.ok (), p')

theorem Steady.obliging {π : Type} [FramePort π] {ready : π → Prop} {size mtu mtu' room : Nat}
    (steady : Steady ready size mtu) (payloads : Layout.frameHeader + room ≤ min mtu mtu')
    (capacity : Frame.headerLength + room ≤ size) : Obliging ready mtu' room := by
  intro port idle
  obtain ⟨free, idle⟩ := steady.free idle
  rcases finished : FramePort.sendFinished port with ⟨left, port'⟩
  rw [finished] at free idle
  obtain ⟨buffer, lent, lends⟩ := steady.lends idle
  obtain ⟨same, kept⟩ := steady.lend idle lends
  refine ⟨port', buffer, lent, by rw [← free], lends, same ▸ capacity, ?_, fun bytes length => ?_⟩
  · rw [steady.mtu idle]
    exact payloads
  · have loaded := steady.load kept (length.trans same)
    refine ⟨loaded, fun n short => ?_⟩
    obtain ⟨after, sent⟩ := steady.sends loaded (same ▸ short)
    exact ⟨after, sent, steady.send loaded sent⟩

theorem steady_loopback (size mtu : Nat) :
    Steady (fun l : Loopback => l.near.transmitBuffer.length = size ∧ l.mtu = mtu ∧
      l.far.attached = true) size mtu := by
  constructor
  case toAlwaysReady =>
    constructor
    case free => exact fun ready => ⟨rfl, ready⟩
    case mtu => exact fun ready => ready.2.1
    case lend =>
      rintro l l' buffer ready ⟨⟩
      exact ⟨ready.1, ready⟩
    case load => exact fun ready same => ⟨same, ready.2⟩
    case send =>
      intro l l' n ready sent
      obtain ⟨near, mtu, attached⟩ := send_kept sent
      exact ⟨near ▸ ready.1, mtu.trans ready.2.1, attached.trans ready.2.2⟩
  case lends => exact fun {l} _ => ⟨_, l, rfl⟩
  case sends =>
    rintro l n ⟨size, -, attached⟩ short
    have fits : ¬n > l.near.transmitBuffer.length := by omega
    have sent : l.send n = l.sendFrame (l.near.transmitBuffer.take n) := if_neg fits
    exact ⟨_, sent.trans (if_pos attached)⟩

/-! ## The contract -/

theorem room_eq {room mtu size : Nat}
    (roomy : (room : Int) = min ((mtu : Int) - Layout.frameHeader) (size - Frame.headerLength)) :
    room = Frame.room mtu size ∧ Layout.frameHeader + room ≤ mtu ∧
      Frame.headerLength + room ≤ size := by
  rw [Frame.room]
  omega

theorem frames_ask {asked : Transaction → Request → Prop} {groups : List (List Transaction)}
    (carried : ∀ t ∈ groups.flatten, ∃ r, asked t r ∧ t.Carries t.index r)
    (small : ∀ group ∈ groups, Frame.size (group.map Transaction.encoded) ≤ 2047) (e : Engine) :
    List.Forall₂ (fun t d => ∃ r, asked t r ∧ d.Asks t.index r) groups.flatten
      ((groups.map e.frameOf).flatMap Frame.decoded) := by
  induction groups with
  | nil => exact .nil
  | cons group groups ih =>
      rw [List.flatten_cons] at carried ⊢
      have first := (frameOf_asks (fun t ht => carried t (List.mem_append_left _ ht))
        (small group List.mem_cons_self) e).2
      have others := ih (fun t ht => carried t (List.mem_append_right group ht))
        (fun g hg => small g (List.mem_cons_of_mem group hg))
      exact List.rel_append first others

/-- A call over a port that is always free and never fails sends all that waits, in the order of the
queue, with as few frames as can carry it. -/
theorem transmit_fewest_frames {π : Type} [FramePort π] {ready : π → Prop} {size mtu room : Nat}
    {e : Engine} (reachable : e.Reachable) (steady : Steady ready size mtu) (port : π)
    (idle : ready port) (now : Nat)
    (roomy : (room : Int) = min ((min mtu e.config.mtu : Nat) - Layout.frameHeader : Int)
      (size - Frame.headerLength))
    (bound : room ≤ 2047) (fits : ∀ t ∈ e.waiters, t.encoded.length ≤ room) :
    let called := e.transmit port PassThrough.mk now
    (∀ t, t ∈ e.waiters ↔ e.slot t.index = some t ∧ t.queued = true) ∧
    ∃ sent : List Bytes, called.engine.frames = e.frames ++ sent ∧
      called.result = .ok sent.length ∧ called.engine.queue = [] ∧
      (∀ t ∈ e.waiters, called.engine.slot t.index = some (t.markSent now)) ∧
      (∀ frame ∈ sent,
        (∃ parsed, Frame.parse? frame = .ok parsed ∧
          parsed.chain.toList = (Frame.decoded frame).map .ok) ∧
        Frame.decoded frame ≠ [] ∧
        frame.length ≤ Layout.ethernetHeader + min mtu e.config.mtu ∧ frame.length ≤ size) ∧
      List.Forall₂ (fun t d => ∃ r, .prepared t.generation t.index r ∈ e.journal ∧
        d.Asks t.index r) e.waiters (sent.flatMap Frame.decoded) ∧
      IsLeast {k | ∃ parts, Cuts room e.waiters parts ∧ parts.length = k} sent.length ∧
      called.engine.statistics.framesSent = e.statistics.framesSent + sent.length ∧
      called.engine.statistics.datagramsSent =
        e.statistics.datagramsSent + (sent.flatMap Frame.decoded).length := by
  intro called
  have sound := reachable.sound
  obtain ⟨room_eq, payloads, capacity⟩ := room_eq roomy
  subst room_eq
  have fits' : e.Fits (Frame.room (min mtu e.config.mtu) size) := by
    intro index t slot queued
    obtain ⟨r, -, carries⟩ := (sound.backed slot).prepared
    exact fits t (sound.mem_waiters.mpr ⟨carries.place ▸ slot, queued⟩)
  obtain ⟨⟨count, ended⟩, empty, marked⟩ :=
    sound.drains (steady.obliging payloads capacity) idle fits' PassThrough.mk now
  obtain ⟨groups, s, h, rfl, carry, queue, engine⟩ :=
    exists_underway steady.toAlwaysReady idle sound fits' ended
  have none_wait : s.whole.waiters = [] := by
    simp [Transmission.whole, reclaim, carry, queue, waiters]
  have row : groups.flatten = e.waiters := by
    have order := h.groups.order
    rwa [none_wait, List.append_nil] at order
  have tight : groups.IsChain (Tight (Frame.room (min mtu e.config.mtu) size)) :=
    (List.isChain_append.mp h.groups.tight).1
  have carried (t : Transaction) (ht : t ∈ groups.flatten) :
      ∃ r, .prepared t.generation t.index r ∈ e.journal ∧ t.Carries t.index r :=
    (sound.backed (sound.mem_waiters.mp (row ▸ ht)).1).prepared
  have short (group : List Transaction) (hg : group ∈ groups) :
      Frame.size (group.map Transaction.encoded) ≤ 2047 := Nat.le_trans (h.small group hg) bound
  have asks := frames_ask carried short e
  have statistics : called.engine.statistics = s.engine.statistics := by
    show (e.transmit port PassThrough.mk now).engine.statistics = _
    rw [engine]
    rfl
  refine ⟨fun t => sound.mem_waiters, groups.map e.frameOf, ?sent, ?count, empty, ?marked, ?each,
    row ▸ asks, ?least, ?frames, ?datagrams⟩
  case sent => exact (congrArg frames engine).trans h.frames
  case count => rw [List.length_map]; exact ended
  case marked =>
    intro t ht
    obtain ⟨slot, queued⟩ := sound.mem_waiters.mp ht
    exact marked t.index t slot queued
  case each =>
    intro frame hf
    obtain ⟨group, hg, rfl⟩ := List.mem_map.mp hf
    obtain ⟨parsed, paired⟩ := frameOf_asks
      (fun t ht => carried t (List.mem_flatten_of_mem hg ht)) (short group hg) e
    have some : group ≠ [] := h.groups.filled group hg
    have small := h.small group hg
    have size : (e.frameOf group).length = Frame.headerLength +
        Frame.size (group.map Transaction.encoded) := Frame.length_image _ _
    refine ⟨parsed, fun none => some ?_, ?_, ?_⟩
    · rw [none] at paired
      exact List.forall₂_nil_right_iff.mp paired
    · rw [size, Frame.headerLength]
      omega
    · rw [size]
      omega
  case least =>
    rw [List.length_map]
    refine ⟨⟨groups, ⟨row, h.small⟩, rfl⟩, ?_⟩
    rintro k ⟨parts, cuts, rfl⟩
    rw [← row, ← List.nil_append groups.flatten] at cuts
    exact cuts.length_le h.groups.filled tight
  case frames => rw [statistics, List.length_map]; exact h.groups.framesSent
  case datagrams => rw [statistics, ← asks.length_eq]; exact h.groups.datagramsSent

/-- Three requests wait, behind an index whose request was cancelled. -/
def littered : Engine :=
  (withParts {} (Pool.openWith 0 4 64) (.startingAt 7)).run
    [.prepare ⟨1, .brd, .physical 0 0, [0, 0], 100⟩ [], .schedule 7,
      .prepare ⟨2, .fprd, .physical 4 16, Bytes.zeros 10, 100⟩ [], .schedule 8, .cancel 7,
      .prepare ⟨3, .brd, .physical 0 0, Bytes.zeros 20, 100⟩ [], .schedule 9,
      .prepare ⟨4, .brd, .physical 0 0, [0, 0], 100⟩ [], .schedule 10]

def confined : Loopback := { near := { transmitBuffer := Bytes.zeros 66 } }

theorem littered_takes_two_frames :
    littered.queue = [7, 8, 9, 10] ∧ littered.waiters.map Transaction.index = [8, 9, 10] ∧
      ∃ sent : List Bytes,
        (littered.transmit confined PassThrough.mk 5).engine.frames = littered.frames ++ sent ∧
        (sent.flatMap Frame.decoded).length = 3 ∧
        IsLeast {k | ∃ parts, Cuts 50 littered.waiters parts ∧ parts.length = k} 2 := by
  have reachable : littered.Reachable := ⟨{}, Pool.openWith 0 4 64, 7, _, rfl⟩
  have roomy : ((50 : Nat) : Int) =
      min ((min Layout.defaultMtu littered.config.mtu : Nat) - Layout.frameHeader : Int)
        ((66 : Nat) - Frame.headerLength) := by
    decide +kernel
  have fits : ∀ t ∈ littered.waiters, t.encoded.length ≤ 50 := by decide +kernel
  have taken : (littered.transmit confined PassThrough.mk 5).result.toOption = some 2 := by
    decide +kernel
  have waiting : littered.waiters.map Transaction.index = [8, 9, 10] := by decide +kernel
  obtain ⟨-, sent, frames, ok, -, -, -, asks, least, -⟩ := transmit_fewest_frames reachable
    (steady_loopback 66 Layout.defaultMtu) confined ⟨rfl, rfl, rfl⟩ 5 roomy (by decide) fits
  rw [ok, Except.toOption, Option.some.injEq] at taken
  rw [taken] at least
  have three := congrArg List.length waiting
  rw [List.length_map, asks.length_eq] at three
  exact ⟨by decide +kernel, waiting, sent, frames, three, least⟩

end Fieldbus.Engine
