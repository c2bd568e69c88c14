import VirtualMemory.AddressSpace.Switch
import VirtualMemory.Kernel.Sharing

/-!
# Pages of any address space

Adding a page, and removing or protecting a range of pages. The space is made resident for the
time of the call. Ranges are half-open and page aligned at both ends.
-/
namespace VirtualMemory.Kernel

open Layout

/-- Map `frame` at `va` of the space. -/
def add (id va frame : Nat) (prot : Protection) : Kernel Unit :=
  if !isAligned va || !isAligned frame then refuse .misaligned
  else within id do
    map frame (dirIndex va) (tableIndex va) prot
    invalidatePage va

/-- Map a frame straight from the pool at `va` of the space, with one reference. -/
def mapFresh (id va : Nat) (prot : Protection) : Kernel Nat := do
  let frame ← takeFrame
  setShareCount frame 1
  match ← attempt (add id va frame prot) with
  | .ok _ => return frame
  | .error e => violate (.refused e)

/-- Run `body` with the space resident at every page from `first` up to `last`. -/
def forPages (id first last : Nat) (body : Nat → Kernel Unit) : Kernel Unit :=
  if !isAligned first || !isAligned last then refuse .misaligned
  else if last < first then refuse .invalidRange
  else within id (forEach pageSize body first ((last - first) / pageSize))

/-- Unmap every page of the range. -/
def remove (id first last : Nat) : Kernel Unit := forPages id first last unmap

/-- Give the page at `va` these rights, if it is present. -/
def protectPage (prot : Protection) (va : Nat) : Kernel Unit := do
  match ← leafAt? va with
  | some e =>
    setLeaf (dirIndex va) (tableIndex va) (.of e.frame prot.entryFlags)
    invalidatePage va
  | none => pure ()

/-- Give every present page of the range these rights. -/
def protect (id first last : Nat) (prot : Protection) : Kernel Unit :=
  forPages id first last (protectPage prot)

end VirtualMemory.Kernel
