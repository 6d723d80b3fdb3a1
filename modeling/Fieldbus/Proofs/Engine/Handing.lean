import Fieldbus.Proofs.Engine.RoundTrip
import Fieldbus.Proofs.Engine.Watching
import Fieldbus.Proofs.Frame.Masking

/-!
# The frames that a port is handed

A port that writes down the frames it is handed is handed those in which all that was packed went
out. No frame is longer than the configuration allows, but a frame that may be longer than its
length field can say is sent all the same.
-/

namespace Fieldbus

/-- A port, the bytes last put into its transmit buffer and the frames that it was handed. -/
structure Tapped (π : Type) where
  inner : π
  loaded : Bytes
  handed : List Bytes

instance {π : Type} [FramePort π] : FramePort (Tapped π) where
  sendFinished p :=
    let (free, inner) := FramePort.sendFinished p.inner
    (free, { p with inner })
  mtu p := FramePort.mtu p.inner
  transmitBuffer p :=
    let (lent, inner) := FramePort.transmitBuffer p.inner
    (lent, { p with inner })
  load bytes p := { p with inner := FramePort.load bytes p.inner, loaded := bytes }
  send n p :=
    let (result, inner) := FramePort.send n p.inner
    (result, { p with inner, handed := p.handed ++ [p.loaded.take n] })
  receive limit p :=
    let (heard, inner) := FramePort.receive limit p.inner
    (heard, { p with inner })
  backlog p := FramePort.backlog p.inner
  isBlocking p := FramePort.isBlocking p.inner
  close p := FramePort.close p.inner

namespace Engine

variable {π : Type} [FramePort π]

def Sending.tap {φ : Type} (r : Sending π φ) (loaded : Bytes) (handed : List Bytes) :
    Sending (Tapped π) φ :=
  ⟨r.result, r.engine, ⟨r.port, loaded, handed⟩, r.filter⟩

namespace Transmission

def tap (s : Transmission π PassThrough) (loaded : Bytes) (frames : List Bytes) :
    Transmission (Tapped π) (Watched PassThrough) :=
  ⟨s.engine, s.carry, ⟨s.port, loaded, frames⟩, ⟨s.filter, frames⟩, s.frames⟩

variable {s : Transmission π PassThrough} {limit : Nat}

/-- A tap makes no difference to what a call has done, and no frame is longer than the limit. -/
def Taps {α : Type} (limit : Nat) (tapped : α × Transmission (Tapped π) (Watched PassThrough))
    (bare : α × Transmission π PassThrough) (frames : List Bytes) : Prop :=
  ∃ loaded more, tapped = (bare.1, bare.2.tap loaded (frames ++ more)) ∧
    ∀ frame ∈ more, frame.length ≤ limit

omit [FramePort π] in
theorem taps_still {α : Type} (result : α) (s : Transmission π PassThrough) (loaded : Bytes)
    (frames : List Bytes) : Taps limit (result, s.tap loaded frames) (result, s) frames :=
  ⟨loaded, [], by rw [List.append_nil], by simp⟩

theorem send_taps (s : Transmission π PassThrough) {frame : FrameBuilder}
    (short : frame.length ≤ limit) (packed : Nat) (loaded : Bytes) (frames : List Bytes) :
    Taps limit ((s.tap loaded frames).send frame packed) (s.send frame packed) frames := by
  refine ⟨frame.buffer, [frame.frame], ?_, fun f hf => ?_⟩
  · simp only [send, tap, FrameFilter.onSend, overwrite_refit, if_true, FramePort.load,
      FramePort.send]
    cases FramePort.send frame.length (FramePort.load frame.buffer s.port) with
    | mk result port => cases result <;> rfl
  · rw [List.mem_singleton.mp hf, FrameBuilder.frame, List.length_take]
    omega

end Transmission

theorem append_within {b b' : FrameBuilder} {bytes : Bytes} (appended : b.append bytes = .ok b')
    (within : b.length ≤ Layout.ethernetHeader + b.mtu) :
    b'.mtu = b.mtu ∧ b'.length ≤ Layout.ethernetHeader + b.mtu := by
  obtain ⟨header, -, whole, room, rfl⟩ := FrameBuilder.append_eq_ok appended
  have mtu : (b.place (bytes.take header.datagramLength)).mtu = b.mtu := by
    rw [FrameBuilder.place, FrameBuilder.link_eq]
    rfl
  have length : (b.place (bytes.take header.datagramLength)).length =
      b.length + header.datagramLength := by
    rw [FrameBuilder.place, FrameBuilder.link_eq, List.length_take_of_le whole]
    rfl
  rw [FrameBuilder.remaining] at room
  refine ⟨mtu, ?_⟩
  rw [length]
  omega

theorem PackStep.within {now : Nat} {p p' : Packing} (step : PackStep now p p')
    (within : p.frame.length ≤ Layout.ethernetHeader + p.frame.mtu) :
    p'.frame.mtu = p.frame.mtu ∧ p'.frame.length ≤ Layout.ethernetHeader + p.frame.mtu := by
  cases step with
  | skip => exact ⟨rfl, within⟩
  | refuse => exact ⟨rfl, within⟩
  | place taken slot queued appended => exact append_within appended within

theorem pack_within (now fuel : Nat) {p : Packing}
    (within : p.frame.length ≤ Layout.ethernetHeader + p.frame.mtu) :
    (pack now fuel p).2.frame.length ≤ Layout.ethernetHeader + p.frame.mtu := by
  obtain ⟨p', path, ending⟩ := pack_path now fuel p
  have led : p'.frame.mtu = p.frame.mtu ∧
      p'.frame.length ≤ Layout.ethernetHeader + p.frame.mtu := by
    clear ending
    induction path with
    | refl => exact ⟨rfl, within⟩
    | tail _ step ih =>
        obtain ⟨same, within'⟩ := step.within (ih.1 ▸ ih.2)
        exact ⟨same.trans ih.1, ih.1 ▸ within'⟩
  generalize pack now fuel p = result at ending ⊢
  cases ending <;> exact led.2

namespace Transmission

theorem fill_taps (s : Transmission π PassThrough) (now : Nat) {frame : FrameBuilder}
    (within : frame.length ≤ Layout.ethernetHeader + frame.mtu) (loaded : Bytes)
    (frames : List Bytes) :
    Taps (Layout.ethernetHeader + frame.mtu) ((s.tap loaded frames).fill now frame)
      (s.fill now frame) frames := by
  have short := pack_within now (s.engine.workload + 1)
    (p := ⟨s.engine, frame, s.carry, 0⟩) within
  have engine : (s.tap loaded frames).engine = s.engine := rfl
  have carry : (s.tap loaded frames).carry = s.carry := rfl
  simp only [fill, engine, carry]
  generalize pack now (s.engine.workload + 1) _ = packed at short ⊢
  obtain ⟨result, p⟩ := packed
  cases result with
  | error cause => exact ⟨p.frame.buffer, [], by rw [List.append_nil]; rfl, by simp⟩
  | ok _ =>
      dsimp only
      split
      · exact ⟨p.frame.buffer, [], by rw [List.append_nil]; rfl, by simp⟩
      · obtain ⟨loaded', more, sent, small⟩ :=
          send_taps { s with engine := p.engine, carry := p.carry } short p.packed loaded frames
        refine ⟨loaded', more, ?_, small⟩
        simp only [tap] at sent ⊢
        rw [sent]
        generalize send { s with engine := p.engine, carry := p.carry } p.frame p.packed = sending
        obtain ⟨result, s'⟩ := sending
        cases result <;> rfl

theorem step_taps (s : Transmission π PassThrough) (now : Nat) (loaded : Bytes)
    (frames : List Bytes) :
    Taps (Layout.ethernetHeader + s.engine.config.mtu) ((s.tap loaded frames).step now)
      (s.step now) frames := by
  have done : (s.tap loaded frames).isDone = s.isDone := rfl
  have engine : (s.tap loaded frames).engine = s.engine := rfl
  have finished : FramePort.sendFinished (s.tap loaded frames).port =
      ((FramePort.sendFinished s.port).1,
        ⟨(FramePort.sendFinished s.port).2, loaded, frames⟩) := rfl
  simp only [step, done, engine, finished]
  split
  · exact taps_still _ s loaded frames
  · rcases FramePort.sendFinished s.port with ⟨free, port⟩
    cases free with
    | false => exact taps_still _ { s with port } loaded frames
    | true =>
        have lent : FramePort.transmitBuffer (Tapped.mk port loaded frames) =
            ((FramePort.transmitBuffer port).1,
              ⟨(FramePort.transmitBuffer port).2, loaded, frames⟩) := rfl
        have mtu : FramePort.mtu (Tapped.mk port loaded frames) = FramePort.mtu port := rfl
        simp only [lent, mtu]
        rcases FramePort.transmitBuffer port with ⟨buffer, port'⟩
        cases buffer with
        | error fault => exact taps_still _ { s with port := port' }.countError loaded frames
        | ok buffer =>
            dsimp only
            split
            · exact taps_still _ { s with port := port' } loaded frames
            · rename_i frame created
              obtain ⟨holds, payloads, -, -, wide⟩ := FrameBuilder.create?_holds created
              have within : frame.length ≤ Layout.ethernetHeader + frame.mtu := by
                rw [holds.length, payloads, Frame.size_nil, Frame.headerLength]
                omega
              obtain ⟨loaded', more, filled, small⟩ :=
                fill_taps { s with port := port' } now within loaded frames
              refine ⟨loaded', more, filled, fun f hf => ?_⟩
              have bound := small f hf
              rw [payloads] at bound
              omega

theorem run_taps (s : Transmission π PassThrough) (h : s.whole.Sound) (now fuel : Nat)
    (loaded : Bytes) (frames : List Bytes) :
    ∃ loaded' more, (s.tap loaded frames).run now fuel =
        ((s.run now fuel).watch (frames ++ more)).tap loaded' (frames ++ more) ∧
      ∀ frame ∈ more, frame.length ≤ Layout.ethernetHeader + s.engine.config.mtu := by
  induction fuel generalizing s loaded frames with
  | zero => exact ⟨loaded, [], by rw [List.append_nil]; rfl, by simp⟩
  | succ fuel ih =>
      obtain ⟨loaded', more, stepped, small⟩ := step_taps s now loaded frames
      obtain ⟨sound, config, -⟩ := (step_moves s h (.refl : Leads now s s)).trace h
      simp only [run, stepped]
      generalize s.step now = result at sound config ⊢
      obtain ⟨ending, s'⟩ := result
      cases ending with
      | some ending => exact ⟨loaded', more, rfl, small⟩
      | none =>
          obtain ⟨loaded'', others, rest, small'⟩ := ih s' sound loaded' (frames ++ more)
          have same : s'.engine.config = s.engine.config := config
          refine ⟨loaded'', more ++ others, ?_, fun frame here => ?_⟩
          · rw [← List.append_assoc]
            exact rest
          · rcases List.mem_append.mp here with first | later
            · exact small frame first
            · exact same ▸ small' frame later

end Transmission

/-- A port that writes down the frames changes nothing, and the frames that it has are what was
packed, none longer than the configuration allows. -/
theorem transmit_hands {e : Engine} (h : e.Sound) (port : π) (now : Nat) :
    ∃ groups loaded, Shipped now e.ethernet e (e.transmit port PassThrough.mk now).engine groups ∧
      e.transmit (Tapped.mk port [] []) PassThrough.mk now =
        (e.transmit port PassThrough.mk now).tap loaded (groups.map (Piece.frame e.ethernet)) ∧
      ∀ frame ∈ groups.map (Piece.frame e.ethernet),
        frame.length ≤ Layout.ethernetHeader + e.config.mtu := by
  obtain ⟨groups, shipped, watched⟩ := transmit_watch h (Tapped.mk port [] []) PassThrough.mk now
  obtain ⟨loaded, frames, tapped, small⟩ := Transmission.run_taps
    (.opening e port PassThrough.mk) h now (e.workload + 1) [] []
  have both : (e.transmit (Tapped.mk port [] []) PassThrough.mk now).watch
      (groups.map (Piece.frame e.ethernet)) =
        ((e.transmit port PassThrough.mk now).watch frames).tap loaded frames :=
    watched.symm.trans tapped
  generalize e.transmit (Tapped.mk port [] []) PassThrough.mk now = through at both shipped ⊢
  simp only [Sending.watch, Sending.tap, Sending.mk.injEq, Watched.mk.injEq] at both
  obtain ⟨result, engine, port', filter, seen⟩ := both
  refine ⟨groups, loaded, engine ▸ shipped, ?_, seen ▸ small⟩
  obtain ⟨_, _, _, _⟩ := through
  simp only at result engine port'
  subst result engine port'
  rw [seen]
  rfl

/-! ## Reading the frames -/

def Piece.carried (x : Piece) : FrameBuilder.Entry :=
  ⟨x.bytes, Datagram.requested x.request.command x.index x.request.address x.request.payload⟩

theorem Piece.map_carried (pieces : List Piece) :
    (pieces.map Piece.carried).map FrameBuilder.Entry.bytes = pieces.map Piece.bytes := by
  rw [List.map_map]
  rfl

def Measured (journal : List JournalEntry) : Prop :=
  ∀ generation index r, .prepared generation index r ∈ journal →
    r.payload.length ≤ Layout.maxPayload

theorem Move.measured {e e' : Engine} {xs : List JournalEntry} (move : Move e xs e') :
    Measured xs := by
  intro generation index r here
  cases move with
  | enroll lease take encode =>
      cases List.mem_singleton.mp here
      exact (Datagram.encodeInto_eq_ok encode).1
  | note general =>
      cases List.mem_singleton.mp here
      cases general
  | pack | finish | cancel => cases List.mem_singleton.mp here
  | _ => cases here

theorem Moves.measured {allow : Engine → JournalEntry → Prop} {e e' : Engine}
    (path : Moves allow e e') (h : e.Sound) (m : Measured e.journal) : Measured e'.journal := by
  have led : e'.Sound ∧ Measured e'.journal := by
    induction path with
    | refl => exact ⟨h, m⟩
    | tail _ last ih =>
        obtain ⟨xs, move, -⟩ := last
        obtain ⟨sound, journal, -⟩ := move.sound ih.1
        refine ⟨sound, fun generation index r here => ?_⟩
        rw [journal, List.mem_append] at here
        exact here.elim (ih.2 generation index r) (move.measured generation index r)
  exact led.2

theorem Sound.measured_run {e : Engine} (h : e.Sound) (m : Measured e.journal)
    (ops : List Operation) : Measured (e.run ops).journal := by
  induction ops generalizing e with
  | nil => exact m
  | cons op rest ih => exact ih (h.perform op) ((perform_moves h op).measured h m)

theorem Reachable.measured {e : Engine} (h : e.Reachable) : Measured e.journal := by
  obtain ⟨config, pool, start, ops, rfl⟩ := h
  refine (sound_withParts config pool start).measured_run ?_ ops
  intro generation index r here
  cases here

open FrameBuilder (Masked)

/-- From any buffer that holds the headers and after any calls, a frame is announced with as much
as its length field can say, and all its datagrams are read if they have at most 2047 bytes, and
only then. After any calls at all that is so only if there is no room for more. A frame that is
handed to a port is within the configured limit and is read in the same way. -/
theorem frames_masked {buffer : Bytes} {mtu : Nat} (destination source : MacAddress)
    (ops : List FrameBuilder.Operation) (long : Frame.headerLength ≤ buffer.length)
    (wide : Layout.frameHeader ≤ mtu) {e : Engine} (reachable : e.Reachable) (port : π)
    (now : Nat) :
    let room := Frame.room mtu buffer.length
    let es := FrameBuilder.entries room ops
    (∃ b, FrameBuilder.create? buffer mtu destination source = .ok b ∧
      (b.run ops).frame.length = Frame.headerLength + FrameBuilder.total es ∧
      Masked (b.run ops).frame es) ∧
    ((∀ calls, FrameBuilder.total (FrameBuilder.entries room calls) ≤ 2047) ↔ room ≤ 2047) ∧
    ∃ groups loaded,
      Shipped now e.ethernet e (e.transmit port PassThrough.mk now).engine groups ∧
      e.transmit (Tapped.mk port [] []) PassThrough.mk now =
        (e.transmit port PassThrough.mk now).tap loaded (groups.map (Piece.frame e.ethernet)) ∧
      ∀ group ∈ groups,
        FrameBuilder.total (group.map Piece.carried) ≤ e.config.mtu - Layout.frameHeader ∧
        Masked (Piece.frame e.ethernet group) (group.map Piece.carried) := by
  intro room es
  refine ⟨FrameBuilder.exists_masked buffer mtu destination source ops long wide,
    FrameBuilder.total_le_iff room, ?_⟩
  have sound := reachable.sound
  obtain ⟨groups, loaded, shipped, tapped, within⟩ := transmit_hands sound port now
  have measured : Measured (e.transmit port PassThrough.mk now).engine.journal :=
    (transmit_moves sound port PassThrough.mk now).measured sound reachable.measured
  refine ⟨groups, loaded, shipped, tapped, fun group hg => ⟨?_, ?_⟩⟩
  · have bound := within _ (List.mem_map_of_mem hg)
    rw [Piece.frame, Frame.length_image, Frame.headerLength] at bound
    rw [FrameBuilder.total, Piece.map_carried]
    omega
  · rw [Piece.frame, ← Piece.map_carried]
    refine FrameBuilder.masked_image rfl fun x hx => ?_
    obtain ⟨piece, hp, rfl⟩ := List.mem_map.mp hx
    exact Datagram.spelled_requested _ _ _
      (measured _ _ _ (shipped.prepared piece (List.mem_flatten_of_mem hg hp)))

/-- Some calls on a builder, and two requests that leave in two frames. -/
theorem frames_masked_narrow :
    Frame.headerLength ≤ (Bytes.zeros 64).length ∧ Layout.frameHeader ≤ 60 ∧ counter.Reachable ∧
    (∃ b, FrameBuilder.create? (Bytes.zeros 64) 60 .broadcast .zero = .ok b ∧
      Masked (b.run FrameBuilder.mixedCalls).frame
        (FrameBuilder.entries (Frame.room 60 64) FrameBuilder.mixedCalls)) ∧
    ∃ groups : List (List Piece),
      (counter.transmit (Tapped.mk narrow [] []) PassThrough.mk 5).port.handed =
        groups.map (Piece.frame counter.ethernet) ∧
      groups.length = 2 ∧
      ∀ group ∈ groups, Masked (Piece.frame counter.ethernet group) (group.map Piece.carried) := by
  have long : Frame.headerLength ≤ (Bytes.zeros 64).length := by decide +kernel
  have reachable : counter.Reachable := ⟨{}, Pool.openWith 0 2 64, 7, _, rfl⟩
  have wide : Layout.frameHeader ≤ 60 := by decide
  obtain ⟨⟨b, created, -, masked⟩, -, groups, loaded, -, tapped, read⟩ :=
    frames_masked .broadcast .zero FrameBuilder.mixedCalls long wide reachable narrow 5
  have frames : (counter.transmit (Tapped.mk narrow [] []) PassThrough.mk 5).port.handed =
      groups.map (Piece.frame counter.ethernet) := by
    rw [tapped]
    rfl
  have two : (counter.transmit (Tapped.mk narrow [] []) PassThrough.mk 5).port.handed.length =
      2 := by decide +kernel
  rw [frames, List.length_map] at two
  rw [Bytes.length_zeros] at masked
  exact ⟨long, wide, reachable, ⟨b, created, masked⟩, groups, frames, two,
    fun group hg => (read group hg).2⟩

end Engine

end Fieldbus
