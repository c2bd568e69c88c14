import VirtualMemory.Memory.Table
import VirtualMemory.Kernel.Directory

/-!
# The mount window

Frames that no table binds are reached by pointing the last entry of the mount table at them; they
then appear at `Layout.windowView`. Mounting is bracketed: whatever the body does, and also if it
fails, the entry gets back the word it held before, so mounts nest.
-/
namespace VirtualMemory.Kernel

open Layout

variable {α : Type}

/-- Physical address of the entry behind the window. -/
def windowSlot : Kernel Nat := do
  return (← tableBase mountTableSlot) + 4 * mountEntry

def setWindow (e : Entry) : Kernel Unit := do
  storeEntry (← windowSlot) e
  invalidatePage windowView

/-- Run `body` while the window shows `frame`. -/
def mountAligned (frame : Nat) (body : Kernel α) : Kernel α := do
  let slot ← windowSlot
  let previous ← loadEntry slot
  storeEntry slot (.of frame EntryFlags.kernelData)
  invalidatePage windowView
  ensuring body (setWindow previous)

/-- `mountAligned`, for frames that a caller names. -/
def mount (frame : Nat) (body : Kernel α) : Kernel α :=
  if isAligned frame then mountAligned frame body else refuse .misaligned

/-- `mountAligned`, for frames whose alignment the kernel's own records promise. -/
def withFrame (frame : Nat) (body : Kernel α) : Kernel α :=
  if isAligned frame then mountAligned frame body else halt (.unalignedMount frame)

/-- The frame that the window shows. -/
def mounted : Kernel (Option Nat) := do
  let e ← loadEntry (← windowSlot)
  return if e.isPresent then some e.frame else none

/-! What follows acts on the mounted frame. -/
namespace Window

def base : Kernel Nat := access windowView

def checkIndex (i : Nat) : Kernel Unit :=
  if i < tableEntries then pure () else violate .windowIndex

def entry (i : Nat) : Kernel Entry := do
  checkIndex i
  loadEntry ((← base) + 4 * i)

def setEntry (i : Nat) (e : Entry) : Kernel Unit := do
  checkIndex i
  storeEntry ((← base) + 4 * i) e

def page : Kernel Page := do loadPage (← base)

def setPage (p : Page) : Kernel Unit := do storePage (← base) p

def zero : Kernel Unit := setPage Page.zero

def presentCount : Kernel Nat := do return (← page).presentCount

/-- Byte `k` of the mounted frame, `k` below the page size. -/
def byte (k : Nat) : Kernel UInt8 := do
  let pa ← base
  inspect (·.loadByte (pa + k))

end Window
end VirtualMemory.Kernel
