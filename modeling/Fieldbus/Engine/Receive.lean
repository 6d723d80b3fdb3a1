import Fieldbus.Engine.Basic
import Fieldbus.Frame.Basic

/-!
# Taking answers in

The datagrams of a frame are taken one by one. One that answers a sent transaction completes it;
the others are counted as stale. A datagram that cannot be read ends the frame.
-/

namespace Fieldbus.Engine

/-- Completes the transaction that the datagram answers. The answer says whether there is one. -/
def answer (e : Engine) (d : Datagram) : Bool × Engine :=
  match e.slot d.header.index with
  | none => (false, e)
  | some t =>
      if t.awaits d then
        (true, e.finish d.header.index (.response d.workCounter d.payload))
      else (false, e)

/-- Takes datagrams up to the first failure. Returns how many were matched and how many stale. -/
def answerAll (e : Engine) : List (Except Error Datagram) → (Nat × Nat) × Engine
  | [] => ((0, 0), e)
  | .error _ :: _ => ((0, 0), e)
  | .ok d :: rest =>
      let (found, e) := e.answer d
      let ((matched, stale), e) := e.answerAll rest
      ((matched + found.toNat, stale + (!found).toNat), e)

/-- Takes a received frame in and returns the number of transactions that it completed. -/
def receive (e : Engine) (bytes : Bytes) : Except Error Nat × Engine :=
  match Frame.parse? bytes with
  | .error cause =>
      (.error cause, e.tally fun s => { s with foreignFrames := s.foreignFrames + 1 })
  | .ok frame =>
      let e := e.tally fun s => { s with framesReceived := s.framesReceived + 1 }
      let ((matched, stale), e) := e.answerAll frame.chain.toList
      (.ok matched, e.tally fun s => { s with
        datagramsMatched := s.datagramsMatched + matched
        staleDatagrams := s.staleDatagrams + stale })

end Fieldbus.Engine
