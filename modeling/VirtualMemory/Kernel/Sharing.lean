import VirtualMemory.Kernel.Basic

/-!
# Shared frames

How many leaf entries refer to a frame is kept beside the tables. Mapping and unmapping leave the
counts alone: whoever shares a frame, or gives a share up, counts it here.
-/
namespace VirtualMemory.Kernel

def shareCount (frame : Nat) : Kernel Nat := do return (← get).shares.get frame

def setShareCount (frame count : Nat) : Kernel Unit :=
  modify fun s => { s with shares := s.shares.set frame count }

/-- Count one reference more to `frame`. -/
def shareFrame (frame : Nat) : Kernel Unit := do
  match (← get).shares.increment frame with
  | .ok shares => modify fun s => { s with shares }
  | .error v => violate v

/-- Count one reference less to `frame`. -/
def unshareFrame (frame : Nat) : Kernel Unit := do
  match (← get).shares.decrement frame with
  | .ok shares => modify fun s => { s with shares }
  | .error v => violate v

end VirtualMemory.Kernel
