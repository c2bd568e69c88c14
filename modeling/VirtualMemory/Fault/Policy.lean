import VirtualMemory.Fault.Kind
import VirtualMemory.Kernel.Pages
import VirtualMemory.Kernel.Sharing

/-!
# Fault policies

Where the kernel has no rule of its own it asks a policy: for a frame to hold a private copy, and
for the answer to a fault that is no write to a shared page.
-/
namespace VirtualMemory

open Layout

structure Policy where
  /-- A frame for the private copy of the page at the given address. -/
  privateFrame : Nat → Kernel Nat
  /-- The answer to a fault of the given kind at the given address. -/
  resolve : Nat → FaultKind → Kernel Unit

namespace Policy

open Kernel

/-- A frame from the pool, with one reference more. -/
def freshFrame : Kernel Nat := do
  let frame ← acquireRaw
  shareFrame frame
  return frame

/-- Private frames come from the pool; other faults are recorded and left alone. -/
def recording : Policy where
  privateFrame _ := freshFrame
  resolve va kind := modify fun s => { s with delegated := (va, kind) :: s.delegated }

/-- Private frames come from the pool; other faults get a zeroed page with user rights. -/
def demandZero : Policy where
  privateFrame _ := freshFrame
  resolve va _ := do
    let frame ← acquire
    setShareCount frame 1
    match ← attempt (map frame (dirIndex va) (tableIndex va) Protection.userRW) with
    | .ok _ => pure ()
    | .error e => violate (.refused e)

/-- Every private frame is `frame`; other faults are left alone. -/
def fixed (frame : Nat) : Policy where
  privateFrame _ := do
    shareFrame frame
    return frame
  resolve _ _ := pure ()

end Policy
end VirtualMemory
