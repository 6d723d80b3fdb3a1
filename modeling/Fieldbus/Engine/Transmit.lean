import Fieldbus.Engine.Basic
import Fieldbus.Frame.Builder
import Fieldbus.Port.Basic

/-!
# Sending frames

Queued datagrams are packed into frames, each frame as full as the next datagram allows. A datagram
that has no room in an empty frame can never be sent, so its time is up at once. The index that
ends a frame for lack of room is carried to the next frame, and goes back to the queue when there
is no next frame.
-/

namespace Fieldbus.Engine

def requeue (e : Engine) (index : Option UInt8) : Engine :=
  { e with queue := e.queue ++ index.toList }

/-- The next index to be packed: the carried one, or the front of the queue. -/
def dequeue (e : Engine) : Option UInt8 → Option (UInt8 × Engine)
  | some index => some (index, e)
  | none =>
      match e.queue with
      | [] => none
      | index :: queue => some (index, { e with queue })

structure Packing where
  engine : Engine
  frame : FrameBuilder
  /-- The index that had no room. -/
  carry : Option UInt8
  packed : Nat

def markSent (e : Engine) (now : Nat) (index : UInt8) (t : Transaction) : Engine :=
  (e.setSlot index (some (t.markSent now))).record (.packed t.generation index now)

/-- Completes a transaction that no frame can carry. -/
def refuse (e : Engine) (index : UInt8) : Engine :=
  (e.finish index .timeout).tally fun s => { s with datagramTimeouts := s.datagramTimeouts + 1 }

/-- Packs one frame, looking at no more than `fuel` indices. -/
def pack (now : Nat) : Nat → Packing → Except Error Unit × Packing
  | 0, p => (.ok (), p)
  | fuel + 1, p =>
      match p.engine.dequeue p.carry with
      | none => (.ok (), { p with carry := none })
      | some (index, e) =>
          let p := { p with engine := e, carry := none }
          match e.slot index with
          | none => pack now fuel p
          | some t =>
              if t.queued then
                if t.encoded.length > p.frame.remaining then
                  if p.frame.isEmpty then
                    pack now fuel { p with engine := e.refuse index }
                  else
                    (.ok (), { p with carry := some index })
                else match p.frame.append t.encoded with
                  | .error cause => (.error cause, { p with engine := e.requeue (some index) })
                  | .ok frame =>
                      pack now fuel { p with
                        engine := e.markSent now index t
                        frame
                        packed := p.packed + 1 }
              else
                pack now fuel p

/-- No more indices than this can be taken from the queue, even if every transaction that
completes meanwhile submits its follow-ups. -/
def workload (e : Engine) : Nat :=
  e.queue.length + (e.slots.toList.flatMap fun slot =>
    match slot with
    | none => []
    | some t => t.followUps).length

structure Sending (π φ : Type) where
  result : Except Error Nat
  engine : Engine
  port : π
  filter : φ

/-- Where a call stands between two frames. -/
structure Transmission (π φ : Type) where
  engine : Engine
  /-- The index that ended the last frame. -/
  carry : Option UInt8
  port : π
  filter : φ
  frames : Nat

namespace Transmission

variable {π φ : Type}

def opening (e : Engine) (port : π) (filter : φ) : Transmission π φ := ⟨e, none, port, filter, 0⟩

def isDone (s : Transmission π φ) : Bool := s.carry.isNone && s.engine.queue.isEmpty

def stop (s : Transmission π φ) (result : Except Error Nat) : Sending π φ :=
  ⟨result, s.engine.requeue s.carry, s.port, s.filter⟩

def countError (s : Transmission π φ) : Transmission π φ :=
  { s with engine := s.engine.tally fun n => { n with sendErrors := n.sendErrors + 1 } }

variable [FramePort π] [FrameFilter φ]

/-- Shows a packed frame to the filter and hands it to the port, unless the filter drops it. -/
def send (s : Transmission π φ) (frame : FrameBuilder) (packed : Nat) :
    Except Error Unit × Transmission π φ :=
  let ((passed, filtered), filter) := FrameFilter.onSend frame.frame s.filter
  let bytes := frame.buffer.overwrite 0 (refit frame.frame filtered)
  let s := { s with port := FramePort.load bytes s.port, filter }
  if passed then
    match FramePort.send frame.length s.port with
    | (.error fault, port) => (.error (.device fault), { s with port }.countError)
    | (.ok (), port) =>
        let e := s.engine.record (.sent (bytes.take frame.length))
        (.ok (), { s with
          engine := e.tally fun n => { n with
            framesSent := n.framesSent + 1
            datagramsSent := n.datagramsSent + packed }
          port
          frames := s.frames + 1 })
  else
    (.ok (), s)

/-- Packs one frame into an empty builder and sends it. There is a result if the call ends here. -/
def fill (s : Transmission π φ) (now : Nat) (frame : FrameBuilder) :
    Option (Except Error Nat) × Transmission π φ :=
  let (result, p) := pack now (s.engine.workload + 1) ⟨s.engine, frame, s.carry, 0⟩
  let s := { s with engine := p.engine, carry := p.carry }
  match result with
  | .error cause => (some (.error cause), { s with port := FramePort.load p.frame.buffer s.port })
  | .ok () =>
      if p.frame.isEmpty then
        (some (.ok s.frames), { s with port := FramePort.load p.frame.buffer s.port })
      else match s.send p.frame p.packed with
        | (.error cause, s) => (some (.error cause), s)
        | (.ok (), s) => (none, s)

/-- Sends one frame, if anything is left to send and the port is free. There is a result if the
call ends here. -/
def step (s : Transmission π φ) (now : Nat) : Option (Except Error Nat) × Transmission π φ :=
  if s.isDone then (some (.ok s.frames), s)
  else match FramePort.sendFinished s.port with
    | (false, port) => (some (.ok s.frames), { s with port })
    | (true, port) =>
      let config := s.engine.config
      let mtu := min (FramePort.mtu port) config.mtu
      match FramePort.transmitBuffer port with
      | (.error fault, port) => (some (.error (.device fault)), { s with port }.countError)
      | (.ok buffer, port) =>
        let s := { s with port }
        match FrameBuilder.create? buffer mtu config.destination config.source with
        | .error cause => (some (.error cause), s)
        | .ok frame => s.fill now frame

def run (now : Nat) : Nat → Transmission π φ → Sending π φ
  | 0, s => s.stop (.ok s.frames)
  | fuel + 1, s =>
      match s.step now with
      | (some result, s) => s.stop result
      | (none, s) => run now fuel s

end Transmission

/-- Packs queued datagrams into frames and sends them until the queue is empty or the port is
busy. Returns the number of frames sent. -/
def transmit {π φ : Type} [FramePort π] [FrameFilter φ] (e : Engine) (port : π) (filter : φ)
    (now : Nat) : Sending π φ :=
  Transmission.run now (e.workload + 1) (.opening e port filter)

end Fieldbus.Engine
