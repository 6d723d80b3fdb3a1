import Fieldbus.Proofs.Engine.Completion
import Fieldbus.Proofs.Engine.Packing
import Fieldbus.Proofs.Engine.Wanted

/-!
# The frames that a filter is shown

A filter is shown each frame before the port gets it. One that writes down what it is shown changes
nothing else, and in the end it has the frames in which all that was packed went out, each
transaction in one of them.
-/

namespace Fieldbus

/-- A filter and the outgoing frames that it was shown. -/
structure Watched (φ : Type) where
  inner : φ
  seen : List Bytes

instance {φ : Type} [FrameFilter φ] : FrameFilter (Watched φ) where
  onSend frame w :=
    let (verdict, inner) := FrameFilter.onSend frame w.inner
    (verdict, ⟨inner, w.seen ++ [frame]⟩)
  onReceive frame w :=
    let (verdict, inner) := FrameFilter.onReceive frame w.inner
    (verdict, { w with inner })

def JournalEntry.isPacked : JournalEntry → Bool
  | .packed .. => true
  | _ => false

namespace Engine

structure Piece where
  generation : Nat
  index : UInt8
  request : Request
  deriving DecidableEq, Repr

namespace Piece

def bytes (x : Piece) : Bytes :=
  Datagram.encode x.request.command x.index x.request.address x.request.payload

def entry (now : Nat) (x : Piece) : JournalEntry := .packed x.generation x.index now

def frame (ethernet : EthernetHeader) (pieces : List Piece) : Bytes :=
  Frame.image ethernet (pieces.map bytes)

end Piece

def ethernet (e : Engine) : EthernetHeader :=
  { destination := e.config.destination, source := e.config.source }

def packings (e : Engine) : List JournalEntry := e.journal.filter JournalEntry.isPacked

theorem packings_quiet {e e' : Engine} {xs : List JournalEntry}
    (journal : e'.journal = e.journal ++ xs) (quiet : Quiet xs) : e'.packings = e.packings := by
  have none : xs.filter JournalEntry.isPacked = [] := by
    rw [List.filter_eq_nil_iff]
    intro x hx
    cases x with
    | packed generation index now => exact absurd hx (quiet generation index now)
    | _ => simp [JournalEntry.isPacked]
  rw [packings, journal, List.filter_append, none, List.append_nil, packings]

/-- What was packed between two engines are these frames, piece by piece. -/
structure Shipped (now : Nat) (ethernet : EthernetHeader) (e e' : Engine)
    (groups : List (List Piece)) : Prop where
  grown : e.journal <+: e'.journal
  packings : e'.packings = e.packings ++ groups.flatten.map (Piece.entry now)
  prepared : ∀ x ∈ groups.flatten, .prepared x.generation x.index x.request ∈ e'.journal

namespace Shipped

variable {now : Nat} {ethernet : EthernetHeader} {e e' e'' : Engine}
  {groups groups' : List (List Piece)}

theorem quiet {xs : List JournalEntry} (journal : e'.journal = e.journal ++ xs) (quiet : Quiet xs) :
    Shipped now ethernet e e' [] :=
  ⟨⟨xs, journal.symm⟩, by simp [packings_quiet journal quiet], by simp⟩

theorem still (journal : e'.journal = e.journal) : Shipped now ethernet e e' [] :=
  quiet (journal.trans (List.append_nil _).symm) (by simp [Quiet])

theorem trans (h : Shipped now ethernet e e' groups) (h' : Shipped now ethernet e' e'' groups') :
    Shipped now ethernet e e'' (groups ++ groups') := by
  refine ⟨h.grown.trans h'.grown, ?_, fun x hx => ?_⟩
  · rw [h'.packings, h.packings]
    simp
  · rw [List.flatten_append, List.mem_append] at hx
    rcases hx with old | new
    · exact h'.grown.subset (h.prepared x old)
    · exact h'.prepared x new

end Shipped

/-! ## One frame -/

structure Loaded (now : Nat) (ethernet : EthernetHeader) (e : Engine) (pieces : List Piece)
    (p : Packing) : Prop where
  sound : p.whole.Sound
  holds : p.frame.Holds ethernet (pieces.map Piece.bytes)
  shipped : Shipped now ethernet e p.engine [pieces]

variable {now : Nat} {ethernet : EthernetHeader} {e : Engine} {pieces : List Piece}
  {p p' : Packing}

theorem Loaded.pass (h : Loaded now ethernet e pieces p) (sound : p'.whole.Sound)
    (frame : p'.frame = p.frame) {xs : List JournalEntry}
    (journal : p'.engine.journal = p.engine.journal ++ xs) (quiet : Quiet xs) :
    Loaded now ethernet e pieces p' :=
  ⟨sound, frame ▸ h.holds, h.shipped.trans (.quiet journal quiet)⟩

theorem journal_dequeue {e e' : Engine} {carry : Option UInt8} {index : UInt8}
    (h : e.dequeue carry = some (index, e')) : e'.journal = e.journal := by
  rw [dequeue_queue h]

theorem journal_refuse {index : UInt8} {t : Transaction} (slot : e.slot index = some t) :
    ∃ xs, (e.refuse index).journal = e.journal ++ xs ∧ Quiet xs := by
  obtain ⟨xs, journal, sequel⟩ := journal_finish .timeout slot
  refine ⟨.completed t.generation t.id .timeout :: xs, by simpa [refuse, tally] using journal, ?_⟩
  intro generation i now here
  rcases List.mem_cons.mp here with same | later
  · cases same
  · cases sequel _ later

theorem front_carries {index : UInt8} {t : Transaction} (h : p.whole.Sound)
    (taken : p.engine.dequeue p.carry = some (index, e)) (slot : e.slot index = some t) :
    ∃ r, .prepared t.generation index r ∈ e.journal ∧ t.Carries index r := by
  rw [Packing.whole, dequeue_eq_some taken] at h
  exact (h.backed slot).prepared

theorem PackStep.loaded {p p' : Packing} (step : PackStep now p p')
    (h : Loaded now ethernet e pieces p) : ∃ more, Loaded now ethernet e (pieces ++ more) p' := by
  have sound : p'.whole.Sound := (step.moves h.sound fun _ => rfl).1.sound h.sound
  cases step with
  | skip taken =>
      refine ⟨[], ?_⟩
      rw [List.append_nil]
      exact h.pass sound rfl ((journal_dequeue taken).trans (List.append_nil _).symm)
        (by simp [Quiet])
  | refuse taken slot =>
      obtain ⟨xs, journal, quiet⟩ := journal_refuse slot
      refine ⟨[], ?_⟩
      rw [List.append_nil]
      exact h.pass sound rfl (journal.trans (by rw [journal_dequeue taken])) quiet
  | @place index e' t frame taken slot queued appended =>
      obtain ⟨r, prepared, carries⟩ := front_carries h.sound taken slot
      obtain ⟨header, decode, whole, long⟩ := carries.decode
      rw [p.frame.append_eq decode (Nat.le_of_eq whole), whole, List.take_length] at appended
      split at appended
      · cases appended
      · rename_i room
        cases appended
        have journal := journal_dequeue taken
        have packed : (e'.markSent now index t).packings =
            p.engine.packings ++ [.packed t.generation index now] := by
          simp [packings, markSent, record, setSlot, journal, JournalEntry.isPacked]
        have shipped : Shipped now ethernet p.engine (e'.markSent now index t)
            [[⟨t.generation, index, r⟩]] := by
          refine ⟨⟨[.packed t.generation index now], ?_⟩, packed, fun x hx => ?_⟩
          · simp [markSent, record, setSlot, journal]
          · rw [List.flatten_singleton, List.mem_singleton] at hx
            subst hx
            exact List.mem_append_left _ prepared
        have joined := h.shipped.trans shipped
        refine ⟨[⟨t.generation, index, r⟩], sound, ?_, joined.grown, ?_, ?_⟩
        · have placed := (h.holds.place long (Nat.not_lt.mp room)).1
          simpa [Piece.bytes, carries.encoded] using placed
        · simpa using joined.packings
        · simpa using joined.prepared

theorem append_front {index : UInt8} {t : Transaction} (h : p.whole.Sound)
    (taken : p.engine.dequeue p.carry = some (index, e)) (slot : e.slot index = some t)
    (room : t.encoded.length ≤ p.frame.remaining) :
    ∃ frame, p.frame.append t.encoded = .ok frame := by
  obtain ⟨r, -, carries⟩ := front_carries h taken slot
  obtain ⟨header, decode, whole, -⟩ := carries.decode
  rw [p.frame.append_eq decode (Nat.le_of_eq whole), whole, if_neg (Nat.not_lt.mpr room)]
  exact ⟨_, rfl⟩

/-- Packing never fails, and the frame holds what was packed. -/
theorem pack_loaded (fuel : Nat) (h : Loaded now ethernet e pieces p) :
    ∃ p' more, pack now fuel p = (.ok (), p') ∧ Loaded now ethernet e (pieces ++ more) p' := by
  obtain ⟨p₁, path, ending⟩ := pack_path now fuel p
  have led : ∃ more, Loaded now ethernet e (pieces ++ more) p₁ := by
    clear ending
    induction path with
    | refl => exact ⟨[], by simpa using h⟩
    | tail _ step ih =>
        obtain ⟨more, loaded⟩ := ih
        obtain ⟨others, loaded⟩ := step.loaded loaded
        exact ⟨more ++ others, by simpa using loaded⟩
  obtain ⟨more, loaded⟩ := led
  have moved : Moves (fun _ _ => False) p₁.whole (pack now fuel p).2.whole := ending.moves
  have sound := moved.sound loaded.sound
  have silent : Quiet [] := by simp [Quiet]
  clear moved
  generalize pack now fuel p = result at ending sound ⊢
  cases ending with
  | spent => exact ⟨_, more, rfl, loaded⟩
  | drained => exact ⟨_, more, rfl, loaded.pass sound rfl (List.append_nil _).symm silent⟩
  | full taken =>
      exact ⟨_, more, rfl, loaded.pass sound rfl
        ((journal_dequeue taken).trans (List.append_nil _).symm) silent⟩
  | failed taken slot room appended =>
      obtain ⟨frame, accepted⟩ := append_front loaded.sound taken slot room
      rw [appended] at accepted
      cases accepted

/-! ## All frames of a call -/

def Sending.watch {π φ : Type} (r : Sending π φ) (seen : List Bytes) : Sending π (Watched φ) :=
  ⟨r.result, r.engine, r.port, ⟨r.filter, seen⟩⟩

namespace Transmission

variable {π φ : Type} [FramePort π] [FrameFilter φ]

def watch (s : Transmission π φ) (seen : List Bytes) : Transmission π (Watched φ) :=
  ⟨s.engine, s.carry, s.port, ⟨s.filter, seen⟩, s.frames⟩

theorem send_watch (s : Transmission π φ) (frame : FrameBuilder) (packed : Nat)
    (seen : List Bytes) : (s.watch seen).send frame packed =
      ((s.send frame packed).1, (s.send frame packed).2.watch (seen ++ [frame.frame])) := by
  have shown : FrameFilter.onSend frame.frame (s.watch seen).filter =
      ((FrameFilter.onSend frame.frame s.filter).1,
        ⟨(FrameFilter.onSend frame.frame s.filter).2, seen ++ [frame.frame]⟩) := rfl
  rcases verdict : FrameFilter.onSend frame.frame s.filter with ⟨⟨passed, filtered⟩, filter⟩
  rw [verdict] at shown
  simp only [send, shown, verdict]
  cases passed with
  | false => rfl
  | true =>
      have port : (s.watch seen).port = s.port := rfl
      rw [if_pos rfl, if_pos rfl, port]
      cases FramePort.send frame.length (FramePort.load
          (frame.buffer.overwrite 0 (refit frame.frame filtered)) s.port) with
      | mk result port => cases result <;> rfl

theorem send_ships (s : Transmission π φ) (frame : FrameBuilder) (packed now : Nat)
    (ethernet : EthernetHeader) :
    Shipped now ethernet s.engine (s.send frame packed).2.engine [] := by
  simp only [send]
  split
  · split
    · exact .still rfl
    · exact .quiet rfl (by simp [Quiet])
  · exact .still rfl

theorem fill_watch (s : Transmission π φ) (h : s.whole.Sound) (now : Nat) {frame : FrameBuilder}
    (holds : frame.Holds ethernet []) :
    ∃ groups, Shipped now ethernet s.engine (s.fill now frame).2.engine groups ∧
      ∀ seen, (s.watch seen).fill now frame = ((s.fill now frame).1,
        (s.fill now frame).2.watch (seen ++ groups.map (Piece.frame ethernet))) := by
  have begun : Loaded now ethernet s.engine [] ⟨s.engine, frame, s.carry, 0⟩ :=
    ⟨h, holds, List.prefix_rfl, by simp, by simp⟩
  obtain ⟨p, pieces, packed, -, filled, shipped⟩ := pack_loaded (s.engine.workload + 1) begun
  rw [List.nil_append] at filled shipped
  have again (seen : List Bytes) : pack now ((s.watch seen).engine.workload + 1)
      ⟨(s.watch seen).engine, frame, (s.watch seen).carry, 0⟩ = (.ok (), p) := packed
  simp only [fill, packed, again]
  by_cases bare : p.frame.isEmpty = true
  · have none : pieces = [] := by
      rw [filled.isEmpty] at bare
      simpa using bare
    subst none
    refine ⟨[], ?_, fun seen => ?_⟩
    · rw [if_pos bare]
      exact ⟨shipped.grown, by simpa using shipped.packings, by simp⟩
    · simp [bare, watch]
  · refine ⟨[pieces], ?_, fun seen => ?_⟩
    · rw [if_neg bare]
      have sent := send_ships { s with engine := p.engine, carry := p.carry } p.frame p.packed now
        ethernet
      generalize @send π φ _ _ _ p.frame p.packed = sending at sent ⊢
      obtain ⟨result, s'⟩ := sending
      cases result <;> simpa using shipped.trans sent
    · have sent := send_watch { s with engine := p.engine, carry := p.carry } p.frame p.packed seen
      simp only [watch] at sent ⊢
      rw [if_neg bare, if_neg bare, sent, filled.frame]
      generalize @send π φ _ _ _ p.frame p.packed = sending
      obtain ⟨result, s'⟩ := sending
      cases result <;> rfl

theorem step_watch (s : Transmission π φ) (h : s.whole.Sound) (now : Nat) :
    ∃ groups, Shipped now s.engine.ethernet s.engine (s.step now).2.engine groups ∧
      ∀ seen, (s.watch seen).step now = ((s.step now).1,
        (s.step now).2.watch (seen ++ groups.map (Piece.frame s.engine.ethernet))) := by
  have port (seen : List Bytes) : (s.watch seen).port = s.port := rfl
  have config (seen : List Bytes) : (s.watch seen).engine.config = s.engine.config := rfl
  have done (seen : List Bytes) : (s.watch seen).isDone = s.isDone := rfl
  have nothing {e : Engine} (journal : e.journal = s.engine.journal) :
      Shipped now s.engine.ethernet s.engine e [] := .still journal
  simp only [step, done, port, config]
  split
  · exact ⟨[], nothing rfl, by simp [watch]⟩
  · split
    · exact ⟨[], nothing rfl, by simp [watch]⟩
    · rename_i port₁ free
      split
      · exact ⟨[], nothing rfl, by simp [watch, countError]⟩
      · rename_i buffer port₂ lent
        split
        · exact ⟨[], nothing rfl, by simp [watch]⟩
        · rename_i frame created
          have holds := (FrameBuilder.create?_holds created).1
          exact fill_watch { s with port := port₂ } h now holds

theorem run_watch (s : Transmission π φ) (h : s.whole.Sound) (now fuel : Nat) :
    ∃ groups, Shipped now s.engine.ethernet s.engine (s.run now fuel).engine groups ∧
      ∀ seen, (s.watch seen).run now fuel =
        (s.run now fuel).watch (seen ++ groups.map (Piece.frame s.engine.ethernet)) := by
  induction fuel generalizing s with
  | zero => exact ⟨[], .still rfl, by simp [run, stop, watch, Sending.watch]⟩
  | succ fuel ih =>
      obtain ⟨groups, shipped, watched⟩ := step_watch s h now
      have moved := step_moves s h (.refl : Leads now s s)
      obtain ⟨sound, config, -⟩ := moved.trace h
      simp only [run, watched]
      generalize s.step now = stepped at shipped watched sound config ⊢
      obtain ⟨ending, s'⟩ := stepped
      dsimp only at shipped sound config ⊢
      cases ending with
      | some ending =>
          have stopped : Shipped now s.engine.ethernet s'.engine (s'.stop ending).engine [] :=
            .still rfl
          exact ⟨groups, by simpa using shipped.trans stopped, fun seen => rfl⟩
      | none =>
          obtain ⟨others, shipped', watched'⟩ := ih s' sound
          have same : s'.engine.ethernet = s.engine.ethernet := by
            have config' : s'.engine.config = s.engine.config := config
            rw [Engine.ethernet, config', Engine.ethernet]
          rw [same] at shipped' watched'
          refine ⟨groups ++ others, shipped.trans shipped', fun seen => ?_⟩
          dsimp only
          rw [watched', List.map_append, List.append_assoc]

end Transmission

theorem transmit_watch {π φ : Type} [FramePort π] [FrameFilter φ] {e : Engine} (h : e.Sound)
    (port : π) (filter : φ) (now : Nat) :
    ∃ groups, Shipped now e.ethernet e (e.transmit port filter now).engine groups ∧
      e.transmit port (Watched.mk filter []) now =
        (e.transmit port filter now).watch (groups.map (Piece.frame e.ethernet)) := by
  obtain ⟨groups, shipped, watched⟩ :=
    Transmission.run_watch (.opening e port filter) h now (e.workload + 1)
  exact ⟨groups, shipped, watched []⟩

/-! ## Runs -/

open JournalEntry (packs)

theorem EachPacked.once {journal : List JournalEntry}
    (h : EachPacked (fun before generation _ _ => before.countP (packs generation) = 0) [] journal)
    (generation : Nat) : journal.countP (packs generation) ≤ 1 := by
  induction journal using List.reverseRecOn with
  | nil => simp
  | append_singleton xs x ih =>
      have earlier := ih fun ys zs g i n split => h ys (zs ++ [x]) g i n (by simp [split])
      rw [List.countP_append, List.countP_singleton]
      by_cases new : x.packs generation = true
      · cases x with
        | packed g index now =>
            have same : g = generation := by simpa [packs] using new
            have none := h xs [] g index now rfl
            rw [List.nil_append, same] at none
            simp [none, new]
        | _ => cases new
      · simpa [new] using earlier

/-- In any run whatever is packed is wanted at that moment, so it is packed once. A filter sees
each frame that is packed, with the transactions that are packed into it. -/
theorem packed_once (config : Config) (pool : Pool) (start : UInt8) (ops : List Operation) :
    let begun := withParts config pool (.startingAt start)
    let e := begun.run ops
    (∀ generation, e.journal.countP (packs generation) ≤ 1) ∧
    (∀ before after generation index now,
      e.journal = before ++ .packed generation index now :: after →
        ∃ earlier op later, ops = earlier ++ op :: later ∧
          PackedBy begun earlier op before generation index now) ∧
    ∀ (π φ : Type) [FramePort π] [FrameFilter φ] (port : π) (filter : φ) (now : Nat),
      ∃ groups, Shipped now e.ethernet e (e.transmit port filter now).engine groups ∧
        e.transmit port (Watched.mk filter []) now =
          (e.transmit port filter now).watch (groups.map (Piece.frame e.ethernet)) := by
  intro begun e
  have accounted := accounted_withParts config pool start ops
  refine ⟨?_, fun before after generation index now split => ?_, ?_⟩
  · apply EachPacked.once
    refine accounted.packed.imp fun before generation index now _ _ packed => ?_
    obtain ⟨_, _, _, _, packed⟩ := packed
    exact packed.wanted.unpacked
  · exact accounted.packed before after generation index now split
  · intro π φ _ _ port filter now
    exact transmit_watch accounted.sound port filter now

/-- One errand is asked for twice, another is called off when its index waits in the queue. -/
def nagging : List Operation :=
  [.prepare errand [], .schedule 7, .schedule 7, .prepare errand [], .schedule 8, .cancel 8,
    .transmit ({ near := { transmitBuffer := Bytes.zeros 64 } } : Loopback) PassThrough.mk 5,
    .transmit ({ near := { transmitBuffer := Bytes.zeros 64 } } : Loopback) PassThrough.mk 6]

theorem packed_once_nagging :
    (workshop.run nagging).journal.countP (packs 1) = 1 ∧
      (workshop.run nagging).journal.countP (packs 2) = 0 ∧
      ∃ before after index now earlier op later,
        (workshop.run nagging).journal = before ++ .packed 1 index now :: after ∧
          nagging = earlier ++ op :: later ∧ PackedBy workshop earlier op before 1 index now := by
  have once : (workshop.run nagging).journal.countP (packs 1) = 1 := by decide +kernel
  have never : (workshop.run nagging).journal.countP (packs 2) = 0 := by decide +kernel
  have contract := packed_once {} (Pool.openWith 0 2 64) 7 nagging
  obtain ⟨x, here, packed⟩ := List.countP_pos_iff.mp (by omega :
    0 < (workshop.run nagging).journal.countP (packs 1))
  obtain ⟨before, after, split⟩ := List.append_of_mem here
  cases x with
  | packed generation index now =>
      have same : generation = 1 := by simpa [packs] using packed
      subst same
      obtain ⟨earlier, op, later, whole, by_op⟩ := contract.2.1 before after 1 index now split
      exact ⟨once, never, before, after, index, now, earlier, op, later, split, whole, by_op⟩
  | _ => cases packed

end Engine

end Fieldbus
