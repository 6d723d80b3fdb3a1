import Fieldbus.Port.Basic

/-!
# A filter that patches and drops frames
-/

namespace Fieldbus.Simulation

abbrev Patches := List (Nat × UInt8)

def Patches.apply (patches : Patches) (frame : Bytes) : Bytes :=
  patches.foldl (fun frame (offset, byte) => frame.set offset byte) frame

structure PatchFilter where
  patchSend : Patches := []
  patchReceive : Patches := []
  dropSend : Nat := 0
  dropReceive : Nat := 0
  sawSend : Bool := false
  deriving DecidableEq, Repr

instance : FrameFilter PatchFilter where
  onSend frame f :=
    ((f.dropSend == 0, Patches.apply f.patchSend frame),
      { f with dropSend := f.dropSend - 1, sawSend := true })
  onReceive frame f :=
    ((f.dropReceive == 0, Patches.apply f.patchReceive frame),
      { f with dropReceive := f.dropReceive - 1 })

end Fieldbus.Simulation
