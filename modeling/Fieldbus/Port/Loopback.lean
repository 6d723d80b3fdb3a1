import Fieldbus.Layout
import Fieldbus.Port.Basic

/-!
# A pair of ports

What one end sends arrives at the other. The pair is seen from its near end; `Loopback.flip` looks
from the other one.
-/

namespace Fieldbus

structure LoopbackEnd where
  transmitBuffer : Bytes := Bytes.zeros Layout.ethernetFrame
  inbox : List Bytes := []
  attached : Bool := true
  deriving DecidableEq, Repr

structure Loopback where
  near : LoopbackEnd := {}
  far : LoopbackEnd := {}
  mtu : Nat := Layout.defaultMtu
  deriving DecidableEq, Repr

namespace Loopback

def peerClosed : Fault := ⟨.brokenPipe, "loopback peer closed"⟩

def frameTooLong : Fault := ⟨.invalidInput, "frame longer than transmit buffer"⟩

def nothingPending : Fault := ⟨.wouldBlock, "operation would block"⟩

def flip (l : Loopback) : Loopback := { l with near := l.far, far := l.near }

/-- Sends a frame that need not stand in the transmit buffer. -/
def sendFrame (frame : Bytes) (l : Loopback) : Except Fault Unit × Loopback :=
  if l.far.attached then
    (.ok (), { l with far := { l.far with inbox := l.far.inbox ++ [frame] } })
  else
    (.error peerClosed, l)

def takeFrame? (l : Loopback) : Option (Bytes × Loopback) :=
  match l.near.inbox with
  | [] => none
  | frame :: inbox => some (frame, { l with near := { l.near with inbox } })

def takeFrames (l : Loopback) : List Bytes × Loopback :=
  (l.near.inbox, { l with near := { l.near with inbox := [] } })

def send (length : Nat) (l : Loopback) : Except Fault Unit × Loopback :=
  if length > l.near.transmitBuffer.length then (.error frameTooLong, l)
  else l.sendFrame (l.near.transmitBuffer.take length)

def receive (limit : Nat) (l : Loopback) : Except Fault Bytes × Loopback :=
  match l.takeFrame? with
  | some (frame, l) => (.ok (frame.take limit), l)
  | none => (.error (if l.far.attached then nothingPending else peerClosed), l)

/-- Drops the near end. Frames that have not been taken in are lost. -/
def detach (l : Loopback) : Loopback :=
  { l with near := { l.near with inbox := [], attached := false } }

end Loopback

instance : FramePort Loopback where
  sendFinished l := (true, l)
  mtu l := l.mtu
  transmitBuffer l := (.ok l.near.transmitBuffer, l)
  load bytes l := { l with near := { l.near with transmitBuffer := bytes } }
  send := Loopback.send
  receive := Loopback.receive
  backlog l := l.near.inbox.length
  isBlocking _ := false
  close _ := .ok ()

instance : LawfulFramePort Loopback where
  backlog_receive {limit l l' frame} received _ := by
    change Loopback.receive limit l = (.ok frame, l') at received
    change l'.near.inbox.length < l.near.inbox.length
    unfold Loopback.receive Loopback.takeFrame? at received
    cases inbox : l.near.inbox with
    | nil => simp [inbox] at received
    | cons first rest =>
        rw [inbox] at received
        obtain ⟨-, rfl⟩ := Prod.mk.inj received
        exact Nat.lt_succ_self rest.length

end Fieldbus
