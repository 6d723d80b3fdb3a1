/-!
# Shares

A share is a quotient in single precision. Both counters are rounded to the nearest single, halves
to the even one, before they are divided.
-/

namespace Fieldbus

def share (part whole : UInt64) : Float32 :=
  if whole = 0 then 0 else part.toFloat32 / whole.toFloat32

end Fieldbus
