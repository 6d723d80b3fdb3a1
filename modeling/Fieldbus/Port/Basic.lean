import Fieldbus.Bytes

/-!
# Frame devices and frame filters

A device has one transmit buffer, in which a frame is built before it is sent. A filter sees every
frame on its way out and in, may change bytes of it and may drop it.
-/

namespace Fieldbus

class FramePort (π : Type) where
  /-- Whether the last frame has left, so that the transmit buffer is free. -/
  sendFinished : π → Bool × π
  mtu : π → Nat
  transmitBuffer : π → Except Fault Bytes × π
  /-- Puts bytes into the transmit buffer. -/
  load : Bytes → π → π
  send : Nat → π → Except Fault Unit × π
  /-- Takes a frame in, of at most this many bytes. -/
  receive : Nat → π → Except Fault Bytes × π
  /-- No more frames than this can be taken in before others arrive. -/
  backlog : π → Nat
  /-- Whether taking a frame in waits for one. -/
  isBlocking : π → Bool
  close : π → Except Fault Unit

/-- A device that keeps to its backlog: each frame that it hands over without waiting lowers it. -/
class LawfulFramePort (π : Type) [FramePort π] : Prop where
  backlog_receive : ∀ {limit : Nat} {port port' : π} {frame : Bytes},
    FramePort.receive limit port = (.ok frame, port') → FramePort.isBlocking port' = false →
      FramePort.backlog port' < FramePort.backlog port

class FrameFilter (φ : Type) where
  onSend : Bytes → φ → (Bool × Bytes) × φ
  onReceive : Bytes → φ → (Bool × Bytes) × φ

structure PassThrough where
  deriving DecidableEq, Repr

instance : FrameFilter PassThrough where
  onSend frame f := ((true, frame), f)
  onReceive frame f := ((true, frame), f)

instance {φ : Type} [FrameFilter φ] : FrameFilter (Option φ) where
  onSend frame
    | none => ((true, frame), none)
    | some f =>
        let (seen, f) := FrameFilter.onSend frame f
        (seen, some f)
  onReceive frame
    | none => ((true, frame), none)
    | some f =>
        let (seen, f) := FrameFilter.onReceive frame f
        (seen, some f)

/-- A frame after a filter saw it. A filter cannot change the length of a frame. -/
def refit (frame filtered : Bytes) : Bytes :=
  Bytes.overwrite frame 0 (filtered.take frame.length)

end Fieldbus
