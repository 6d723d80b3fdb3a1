import Fieldbus.Proofs.Engine.Hearing
import Fieldbus.Proofs.Engine.Runs
import Fieldbus.Proofs.Frame.Assembly

/-!
# Round trips

What a transmission sends and the bus gives back, in any order and repeated at will, completes every
transaction that waited, once, with the first answer to it.
-/

namespace Fieldbus

/-- A datagram asks for what a request does, whatever its more flag and its place. -/
def Datagram.Asks (d : Datagram) (index : UInt8) (r : Request) : Prop :=
  { d with header := { d.header with more := false }, offset := 0 } =
    Datagram.requested r.command index r.address r.payload

theorem Datagram.Asks.matches {d : Datagram} {t : Transaction} {r : Request}
    (asks : d.Asks t.index r) (carries : t.Carries t.index r) : t.Matches d := by
  have header := congrArg Datagram.header asks
  constructor
  · exact congrArg DatagramHeader.index header
  · rw [carries.command]
    exact congrArg DatagramHeader.command header

namespace Engine

open Chain (wire Laid)
open Fieldbus.Frame (chained Returns)
open JournalEntry (completes)

def Reachable (e : Engine) : Prop :=
  ∃ config pool start ops, e = (withParts config pool (.startingAt start)).run ops

theorem Reachable.sound {e : Engine} (h : e.Reachable) : e.Sound := by
  obtain ⟨config, pool, start, ops, rfl⟩ := h
  exact (sound_withParts config pool start).run ops

/-! ## Frames that come back -/

theorem exists_laid {asked : Transaction → Request → Prop} {ts : List Transaction}
    (carried : ∀ t ∈ ts, ∃ r, asked t r ∧ t.Carries t.index r) (offset : Nat) :
    ∃ ds, Laid offset ds ∧ wire ds = chained (ts.map Transaction.encoded) ∧
      List.Forall₂ (fun t d => ∃ r, asked t r ∧ t.Carries t.index r ∧ d.Asks t.index r) ts ds := by
  induction ts generalizing offset with
  | nil => exact ⟨[], trivial, rfl, .nil⟩
  | cons t rest ih =>
      obtain ⟨r, meant, carries⟩ := carried t List.mem_cons_self
      have bound : r.payload.length ≤ 2047 := carries.size
      have length : (UInt16.ofNat r.payload.length).toNat = r.payload.length := by
        rw [UInt16.toNat_ofNat']
        omega
      let d : Datagram := {
        header := { DatagramHeader.request r.command t.index r.address
          (UInt16.ofNat r.payload.length) with more := !rest.isEmpty }
        payload := r.payload
        workCounter := 0
        offset }
      obtain ⟨ds, laid, spelled, paired⟩ :=
        ih (fun u hu => carried u (List.mem_cons_of_mem t hu)) d.stop
      have follows : rest.isEmpty = ds.isEmpty := by cases paired <;> rfl
      refine ⟨d :: ds, ⟨⟨length, carries.size⟩, rfl, congrArg Bool.not follows, laid⟩, ?_,
        .cons ⟨r, meant, carries, rfl⟩ paired⟩
      have bytes : d.bytes = DatagramHeader.setMore (!rest.isEmpty) t.encoded := by
        rw [carries.encoded, Datagram.encode, List.append_assoc,
          DatagramHeader.setMore_encode _ _ (show (UInt16.ofNat _).toNat < 2048 by omega),
          Datagram.bytes, List.append_assoc]
      simp only [wire, List.flatMap_cons, List.map_cons, chained, List.isEmpty_map] at spelled ⊢
      rw [bytes, spelled]

theorem frameOf_asks {asked : Transaction → Request → Prop} {ts : List Transaction}
    (carried : ∀ t ∈ ts, ∃ r, asked t r ∧ t.Carries t.index r)
    (small : Frame.size (ts.map Transaction.encoded) ≤ 2047) (e : Engine) :
    (∃ frame, Frame.parse? (e.frameOf ts) = .ok frame ∧
      frame.chain.toList = (Frame.decoded (e.frameOf ts)).map .ok) ∧
      List.Forall₂ (fun t d => ∃ r, asked t r ∧ d.Asks t.index r) ts
        (Frame.decoded (e.frameOf ts)) := by
  obtain ⟨ds, laid, spelled, paired⟩ := exists_laid carried 0
  have size : (wire ds).length = Frame.size (ts.map Transaction.encoded) := by
    rw [spelled, Frame.length_chained]
  have type : ({ destination := e.config.destination, source := e.config.source } :
      EthernetHeader).etherType = Layout.etherType := rfl
  obtain ⟨parsed, read⟩ := Frame.decoded_sized laid type (size ▸ small) []
  rw [List.append_nil] at parsed read
  rw [frameOf, Frame.image, ← size, ← spelled, read]
  refine ⟨⟨_, parsed, Chain.toList_laid laid⟩, paired.imp ?_⟩
  rintro t d ⟨r, meant, -, asks⟩
  exact ⟨r, meant, asks⟩

theorem matches_rewritten {ts : List Transaction} {ds ds' : List Datagram}
    (paired : List.Forall₂ Transaction.Matches ts ds)
    (changed : List.Forall₂ Datagram.Rewritten ds ds') :
    List.Forall₂ Transaction.Matches ts ds' := by
  induction paired generalizing ds' with
  | nil =>
      cases changed
      exact .nil
  | cons known _ ih =>
      cases changed with
      | cons first others =>
          exact .cons ⟨first.index.trans known.1, first.command.trans known.2⟩ (ih others)

theorem matches_mem {ts : List Transaction} {ds : List Datagram}
    (paired : List.Forall₂ Transaction.Matches ts ds) :
    (∀ t ∈ ts, ∃ d ∈ ds, t.Matches d) ∧ ∀ d ∈ ds, ∃ t ∈ ts, t.Matches d := by
  induction paired with
  | nil => simp
  | @cons t d _ _ meant _ ih =>
      constructor
      · intro u hu
        rcases List.mem_cons.mp hu with rfl | later
        · exact ⟨d, List.mem_cons_self, meant⟩
        · obtain ⟨c, hc, known⟩ := ih.1 u later
          exact ⟨c, List.mem_cons_of_mem d hc, known⟩
      · intro c hc
        rcases List.mem_cons.mp hc with rfl | later
        · exact ⟨t, List.mem_cons_self, meant⟩
        · obtain ⟨u, hu, known⟩ := ih.2 c later
          exact ⟨u, List.mem_cons_of_mem t hu, known⟩

/-- A frame that comes back is read whole, and each of its datagrams answers one transaction of the
group, in order. -/
theorem returns_answers {e : Engine} {ts : List Transaction} {received : Bytes}
    (carried : ∀ t ∈ ts, ∃ r, t.Carries t.index r)
    (small : Frame.size (ts.map Transaction.encoded) ≤ 2047)
    (back : Returns (e.frameOf ts) received) :
    (∃ frame, Frame.parse? received = .ok frame ∧
      frame.chain.toList = (Frame.decoded received).map .ok) ∧
      List.Forall₂ Transaction.Matches ts (Frame.decoded received) := by
  have carried' : ∀ t ∈ ts, ∃ r, True ∧ t.Carries t.index r := by simpa using carried
  obtain ⟨ds, laid, spelled, paired⟩ := exists_laid carried' 0
  have size : (wire ds).length = Frame.size (ts.map Transaction.encoded) := by
    rw [spelled, Frame.length_chained]
  rw [frameOf, Frame.image, ← size, ← spelled] at back
  obtain ⟨parsed, changed⟩ := back.decoded laid rfl (size ▸ small)
  have known : List.Forall₂ Transaction.Matches ts ds := by
    refine paired.imp ?_
    rintro t d ⟨r, -, carries, asks⟩
    exact asks.matches carries
  exact ⟨parsed, matches_rewritten known changed⟩

section Groups

variable {e : Engine} {groups : List (List Transaction)} {deliveries : List Bytes}
  (carried : ∀ group ∈ groups, ∀ t ∈ group, ∃ r, t.Carries t.index r)
  (small : ∀ group ∈ groups, Frame.size (group.map Transaction.encoded) ≤ 2047)

include carried small

theorem answers_of_returns {bytes : Bytes}
    (real : ∃ sent ∈ groups.map e.frameOf, Returns sent bytes) :
    (∃ frame, Frame.parse? bytes = .ok frame ∧
      frame.chain.toList = (Frame.decoded bytes).map .ok) ∧
      ∀ d ∈ Frame.decoded bytes, ∃ t ∈ groups.flatten, t.Matches d := by
  obtain ⟨sent, hs, returns⟩ := real
  obtain ⟨group, hg, rfl⟩ := List.mem_map.mp hs
  obtain ⟨parsed, paired⟩ := returns_answers (carried group hg) (small group hg) returns
  refine ⟨parsed, fun d hd => ?_⟩
  obtain ⟨t, ht, meant⟩ := (matches_mem paired).2 d hd
  exact ⟨t, List.mem_flatten_of_mem hg ht, meant⟩

theorem exists_answer (all : ∀ sent ∈ groups.map e.frameOf, ∃ bytes ∈ deliveries,
      Returns sent bytes) {t : Transaction} (ht : t ∈ groups.flatten) :
    ∃ d ∈ deliveries.flatMap Frame.decoded, t.Matches d := by
  obtain ⟨group, hg, member⟩ := List.mem_flatten.mp ht
  obtain ⟨bytes, hb, returns⟩ := all _ (List.mem_map_of_mem hg)
  have paired := (returns_answers (carried group hg) (small group hg) returns).2
  obtain ⟨d, hd, meant⟩ := (matches_mem paired).1 t member
  exact ⟨d, List.mem_flatMap.mpr ⟨bytes, hb, hd⟩, meant⟩

end Groups

/-! ## The contract -/

/-- A call over a port that is always free sends each waiting transaction as it was asked for, up to
the more flag. The frames that come back complete each of them with its first answer, and everything
else that is read from them is stale. -/
theorem transmit_receive {π : Type} [FramePort π] {ready : π → Prop} {size mtu : Nat} {port : π}
    {e : Engine} {now count : Nat} (reachable : e.Reachable)
    (always : AlwaysReady ready size mtu) (idle : ready port)
    (small : Frame.room (min mtu e.config.mtu) size ≤ 2047)
    (fits : ∀ index t, e.slot index = some t → t.queued = true →
      t.encoded.length ≤ Frame.room (min mtu e.config.mtu) size)
    (ended : (e.transmit port PassThrough.mk now).result = .ok count) :
    let e' := (e.transmit port PassThrough.mk now).engine
    ∃ groups : List (List Transaction),
      (∀ t, t ∈ groups.flatten ↔ e.slot t.index = some t ∧ t.queued = true) ∧
      (groups.flatten.map Transaction.index).Nodup ∧
      (∀ t ∈ groups.flatten, ∃ r, .prepared t.generation t.index r ∈ e.journal ∧
        t.encoded = Datagram.encode r.command t.index r.address r.payload) ∧
      e'.frames = e.frames ++ groups.map e.frameOf ∧ count = groups.length ∧
      ∀ deliveries : List Bytes,
        (∀ bytes ∈ deliveries, ∃ sent ∈ groups.map e.frameOf, Returns sent bytes) →
        (∀ sent ∈ groups.map e.frameOf, ∃ bytes ∈ deliveries, Returns sent bytes) →
        (∀ t ∈ groups.flatten, ∃ d,
          firstOf (deliveries.flatMap Frame.decoded) t.index = some d ∧
          d.header.command = t.command ∧
          (e'.receiveAll deliveries).journal.filter (completes t.generation) =
            [.completed t.generation t.id (.response d.workCounter d.payload)]) ∧
        (e'.receiveAll deliveries).statistics.datagramsMatched =
          e'.statistics.datagramsMatched + groups.flatten.length ∧
        (e'.receiveAll deliveries).statistics.staleDatagrams + groups.flatten.length =
          e'.statistics.staleDatagrams + (deliveries.flatMap Frame.decoded).length := by
  intro e'
  have sound := reachable.sound
  obtain ⟨groups, known, took, members, frames, sizes⟩ :=
    transmit_packs always idle sound (fun {index t} => fits index t) ended
  have carried (group : List Transaction) (hg : group ∈ groups) :
      ∀ t ∈ group, ∃ r, t.Carries t.index r := by
    intro t ht
    obtain ⟨r, -, carries⟩ :=
      (sound.backed ((members t).mp (List.mem_flatten_of_mem hg ht)).1).prepared
    exact ⟨r, carries⟩
  have short (group : List Transaction) (hg : group ∈ groups) :=
    Nat.le_trans (sizes group hg) small
  refine ⟨groups, members, took.distinct, fun t ht => ?_, frames, known,
    fun deliveries real all => ?_⟩
  · obtain ⟨r, prepared, carries⟩ := (sound.backed ((members t).mp ht).1).prepared
    exact ⟨r, prepared, carries.encoded⟩
  · have sound' : e'.Sound := (transmit_moves sound port PassThrough.mk now).sound sound
    have started : Heard groups.flatten now e' [] :=
      .start sound' fun t ht => (took.taken t ht).2.2
    have answers bytes (hb : bytes ∈ deliveries) :=
      answers_of_returns carried short (real bytes hb)
    have answered t (ht : t ∈ groups.flatten) : ∃ d,
        firstOf (deliveries.flatMap Frame.decoded) t.index = some d ∧ t.Matches d := by
      refine took.first_matches (fun d hd => ?_) ht (exists_answer carried short all ht)
      obtain ⟨bytes, hb, hd⟩ := List.mem_flatMap.mp hd
      exact (answers bytes hb).2 d hd
    obtain ⟨heard, matched, stale⟩ := started.receiveAll took sound answers
    rw [List.nil_append] at heard matched stale
    rw [found_nil, found_eq_length fun t ht => (answered t ht).imp fun _ => And.left]
      at matched stale
    refine ⟨fun t ht => ?_, matched, stale⟩
    obtain ⟨d, first, meant⟩ := answered t ht
    exact ⟨d, first, meant.2, (heard.first t ht d first).2⟩

def counter : Engine :=
  (withParts {} (Pool.openWith 0 2 64) (.startingAt 7)).run
    [.prepare ⟨1, .brd, .physical 0 0, [0, 0], 100⟩ [], .schedule 7,
      .prepare ⟨2, .fprd, .physical 4 16, [0, 0], 100⟩ [], .schedule 8]

def narrow : Loopback := { near := { transmitBuffer := Bytes.zeros 40 } }

theorem transmit_receive_two_frames :
    let e' := (counter.transmit narrow PassThrough.mk 5).engine
    e'.frames.length = 2 ∧ (∀ sent ∈ e'.frames, Returns sent sent) ∧
      ∀ deliveries : List Bytes,
        (∀ bytes ∈ deliveries, ∃ sent ∈ e'.frames, Returns sent bytes) →
        (∀ sent ∈ e'.frames, ∃ bytes ∈ deliveries, Returns sent bytes) →
        (e'.receiveAll deliveries).fired 1 = 1 ∧ (e'.receiveAll deliveries).fired 2 = 1 := by
  intro e'
  have whole : ∀ sent ∈ e'.frames,
      sent = sent.take Frame.headerLength ++ wire (Frame.decoded sent) ++ [] := by
    decide +kernel
  have returns : ∀ sent ∈ e'.frames, Returns sent sent := fun sent hs =>
    ⟨Frame.decoded sent, [], List.forall₂_same.mpr fun _ _ => .refl _, whole sent hs⟩
  have taken : (counter.transmit narrow PassThrough.mk 5).result.toOption = some 2 := by
    decide +kernel
  have ended : (counter.transmit narrow PassThrough.mk 5).result = .ok 2 := by
    cases result : (counter.transmit narrow PassThrough.mk 5).result with
    | error cause => simp [result, Except.toOption] at taken
    | ok count =>
        rw [result, Except.toOption, Option.some.injEq] at taken
        rw [taken]
  have short : ∀ s ∈ counter.slots.toList, ∀ t ∈ s,
      t.encoded.length ≤ Frame.room (min Layout.defaultMtu counter.config.mtu) 40 := by
    decide +kernel
  have fits : ∀ index t, counter.slot index = some t → t.queued = true →
      t.encoded.length ≤ Frame.room (min Layout.defaultMtu counter.config.mtu) 40 := by
    intro index t slot _
    refine short _ ?_ t slot
    rw [Vector.mem_toList_iff]
    exact Vector.getElem_mem _
  have silent : counter.frames = [] := by decide +kernel
  have reachable : counter.Reachable := ⟨{}, Pool.openWith 0 2 64, 7, _, rfl⟩
  have small : Frame.room (min Layout.defaultMtu counter.config.mtu) 40 ≤ 2047 := by
    decide +kernel
  obtain ⟨groups, members, -, -, frames, two, contract⟩ :=
    transmit_receive reachable (alwaysReady_loopback 40 Layout.defaultMtu) ⟨rfl, rfl⟩ small fits
      ended
  rw [silent, List.nil_append] at frames
  refine ⟨by rw [frames, List.length_map, ← two], returns, fun deliveries real all => ?_⟩
  rw [frames] at real all
  have heard {index : UInt8} {generation : Nat}
      (waits : (counter.slot index).map (fun t => (t.index, t.generation, t.queued)) =
        some (index, generation, true)) :
      (e'.receiveAll deliveries).fired generation = 1 := by
    obtain ⟨t, slot, known⟩ := Option.map_eq_some_iff.mp waits
    simp only [Prod.mk.injEq] at known
    obtain ⟨place, rfl, queued⟩ := known
    have member := (members t).mpr ⟨place ▸ slot, queued⟩
    obtain ⟨d, -, -, completed⟩ := (contract deliveries real all).1 t member
    rw [fired, List.countP_eq_length_filter, completed, List.length_singleton]
  have first : (counter.slot 7).map (fun t => (t.index, t.generation, t.queued)) =
      some (7, 1, true) := by decide +kernel
  have second : (counter.slot 8).map (fun t => (t.index, t.generation, t.queued)) =
      some (8, 2, true) := by decide +kernel
  exact ⟨heard first, heard second⟩

end Engine

end Fieldbus
