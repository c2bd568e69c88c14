import VirtualMemory.Kernel.Tables

/-!
# Boot

Frame 0 holds the directory and frame 1 the mount table. The next `reserved` frames stay out of the
pool, for tables that a boot loader leaves behind; the rest are free, lowest address first. The
kernel takes the first free frame to store its own user half.
-/
namespace VirtualMemory

open Layout

namespace Kernel

/-- Record the entries of a kernel table that was bound before the kernel started. -/
def seedBootTable (d : Nat) : Kernel Unit := do
  let e ← slot d
  if e.isPresent && !e.isHuge then
    seedTable e.frame (← table d).presentCount

/-- Take over a prepared directory, and become the first address space. -/
def start : Kernel Unit := do
  let store ← acquireRaw
  withFrame store Window.zero
  forEach 1 seedBootTable userSlots (mountTableSlot - userSlots)
  modify fun s => { s with spaces := .withKernel store }
  note (.ready store (← get).occupancy.tracked)

end Kernel

namespace KernelState

/-- A machine with a prepared directory, after the stores in `setup`. -/
def bootMachine (frames : Nat) (setup : List (Nat × UInt32)) : Except Violation Machine := do
  let m ← Machine.blank frames
  let directory ← m.frameAddress 0
  let mountTable ← m.frameAddress 1
  let prepared ← (← m.loadPage directory).prepareDirectory directory mountTable
  let m := { m with ram := m.ram.modifyPage directory fun _ => prepared }
  setup.foldlM (fun m (pa, w) => m.storeWord pa w) m

/-- Frames `first` to `last - 1`, lowest first. -/
def frameRange (first last : Nat) : List Nat :=
  (List.range' first (last - first)).map Ram.frameAddress

/-- A machine before its kernel has started. -/
def raw (machine : Machine) (pool : FramePool) : KernelState where
  machine
  pool
  shares := .empty
  occupancy := .empty
  spaces := .withKernel 0
  statistics := .zero
  events := []
  delegated := []

/-- Boot a machine of `frames` frames. -/
def boot (frames reserved : Nat) (setup : List (Nat × UInt32)) : Except Failure KernelState := do
  if 3 + reserved ≥ addressLimit then throw (.violation .additionOverflow)
  if frames < 3 + reserved then throw (.violation .machineTooSmall)
  match bootMachine frames setup with
  | .error v => throw (.violation v)
  | .ok machine =>
    match Kernel.start (raw machine ⟨frameRange (2 + reserved) frames⟩) with
    | .ok _ s => return s
    | .error f _ => throw f

end KernelState
end VirtualMemory
