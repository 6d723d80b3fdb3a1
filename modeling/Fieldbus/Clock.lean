/-!
# A clock that is set by hand
-/

namespace Fieldbus

structure Clock where
  /-- Microseconds since the clock was started. -/
  now : Nat := 0
  deriving DecidableEq, Repr

def Clock.advance (c : Clock) (step : Nat) : Clock := ⟨c.now + step⟩

def Clock.readings (c : Clock) : List Nat → List Nat
  | [] => []
  | step :: rest => (c.advance step).now :: (c.advance step).readings rest

end Fieldbus
