import Fieldbus.Port.Loopback

/-!
# A scripted port

The port keeps the frames that are sent through it. Its willingness can be limited: by how often it
says that the last frame has left, how often it lends its transmit buffer and how often it sends.
-/

namespace Fieldbus.Simulation

/-- How often something still works; without a number, always. -/
abbrev Budget := Option Nat

def Budget.spend : Budget → Bool × Budget
  | none => (true, none)
  | some 0 => (false, some 0)
  | some (n + 1) => (true, some n)

structure ScriptedPort where
  buffer : Bytes
  mtu : Nat
  finishedLeft : Budget := none
  buffersLeft : Budget := none
  sendsLeft : Budget := none
  /-- After this many more frames the payload size changes to the second number. -/
  mtuAfter : Option (Nat × Nat) := none
  sent : List Bytes := []
  deriving DecidableEq, Repr

namespace ScriptedPort

def noBuffer : Fault := ⟨.other, "no transmit buffer"⟩

def linkDown : Fault := ⟨.other, "link down"⟩

def resize (p : ScriptedPort) (length : Nat) : ScriptedPort :=
  { p with buffer := p.buffer.take length ++ Bytes.zeros (length - p.buffer.length) }

def changeMtu (p : ScriptedPort) : ScriptedPort :=
  match p.mtuAfter with
  | some (0, mtu) => { p with mtu, mtuAfter := none }
  | _ => p

/-- Sets the limits anew. The transmit buffer and the payload size stay unless they are given. -/
def configure (p : ScriptedPort) (length mtu : Option Nat)
    (finishedLeft buffersLeft sendsLeft : Budget) (mtuAfter : Option (Nat × Nat)) : ScriptedPort :=
  let p := match length with
    | none => p
    | some n => p.resize n
  { p with mtu := mtu.getD p.mtu, finishedLeft, buffersLeft, sendsLeft, mtuAfter }.changeMtu

def send (length : Nat) (p : ScriptedPort) : Except Fault Unit × ScriptedPort :=
  let (granted, sendsLeft) := Budget.spend p.sendsLeft
  let p := { p with sendsLeft }
  if granted then
    let p := { p with
      sent := p.sent ++ [p.buffer.take length]
      mtuAfter := p.mtuAfter.map fun (n, mtu) => (n - 1, mtu) }
    (.ok (), p.changeMtu)
  else
    (.error linkDown, p)

end ScriptedPort

instance : FramePort ScriptedPort where
  sendFinished p :=
    let (finished, finishedLeft) := Budget.spend p.finishedLeft
    (finished, { p with finishedLeft })
  mtu p := p.mtu
  transmitBuffer p :=
    let (granted, buffersLeft) := Budget.spend p.buffersLeft
    (if granted then .ok p.buffer else .error ScriptedPort.noBuffer, { p with buffersLeft })
  load bytes p := { p with buffer := bytes }
  send := ScriptedPort.send
  receive _ p := (.error ⟨.wouldBlock, "operation would block"⟩, p)
  backlog _ := 0
  isBlocking _ := false
  close _ := .ok ()

/-- One end of a pair of ports that may claim to wait for frames and may fail to close. -/
structure PairedPort where
  pair : Loopback
  blocking : Bool := false
  closeFails : Bool := false
  deriving DecidableEq, Repr

def PairedPort.closeFailed : Fault := ⟨.other, "close failed"⟩

instance : FramePort PairedPort where
  sendFinished p := (true, p)
  mtu p := p.pair.mtu
  transmitBuffer p := (.ok p.pair.near.transmitBuffer, p)
  load bytes p := { p with pair := FramePort.load bytes p.pair }
  send length p :=
    let (result, pair) := p.pair.send length
    (result, { p with pair })
  receive limit p :=
    let (result, pair) := p.pair.receive limit
    (result, { p with pair })
  backlog p := p.pair.near.inbox.length
  isBlocking p := p.blocking
  close p := if p.closeFails then .error PairedPort.closeFailed else .ok ()

end Fieldbus.Simulation
