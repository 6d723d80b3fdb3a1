import Fieldbus.Share

/-!
# Traffic counters
-/

namespace Fieldbus

structure TrafficStatistics where
  framesSent : Nat := 0
  framesReceived : Nat := 0
  /-- Received frames that carry no datagrams. -/
  foreignFrames : Nat := 0
  datagramsSent : Nat := 0
  datagramsMatched : Nat := 0
  staleDatagrams : Nat := 0
  datagramTimeouts : Nat := 0
  sendErrors : Nat := 0
  deriving DecidableEq, Repr

def TrafficStatistics.timeoutRate (s : TrafficStatistics) : Float32 :=
  share (UInt64.ofNat s.datagramTimeouts) (UInt64.ofNat s.datagramsSent)

end Fieldbus
