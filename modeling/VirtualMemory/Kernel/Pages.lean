import VirtualMemory.Kernel.Tables
import VirtualMemory.Layout.Checked

/-!
# Pages of the resident space

Mapping installs one entry and, where none is bound, a table for it; unmapping clears the entry
and takes back a table that becomes empty. The rights of a page are those that both levels grant,
so a directory slot is widened to what its entries need.
-/
namespace VirtualMemory.Kernel

open Layout

/-- Widen slot `d`, which holds `e`, by the rights in `flags`. -/
def widenSlot (d : Nat) (e : Entry) (flags : EntryFlags) : Kernel Unit := do
  let needed := flags &&& (EntryFlags.writable ||| EntryFlags.user)
  if !e.flags.contains needed then setSlot d (e.set needed)

/-- Map `frame` at entry `t` of slot `d`. Its share count is the caller's affair. -/
def map (frame d t : Nat) (prot : Protection) : Kernel Unit :=
  if d ≥ tableEntries || t ≥ tableEntries then refuse .invalidIndex
  else if !isAligned frame then refuse .misaligned
  else do
    if !(← slot d).isPresent then
      let table ← allocateTable
      bindTable table d prot
    let e ← slot d
    widenSlot d e prot.entryFlags
    let previous ← leaf d t
    setLeaf d t (.of frame prot.entryFlags)
    if !previous.isPresent then countEntry e.frame

/-- Remove the page at `va`; an address that is not page aligned is ignored. -/
def unmap (va : Nat) : Kernel Unit :=
  if !isAligned va then pure ()
  else do
    let d := dirIndex va
    let t := tableIndex va
    let e ← slot d
    if e.isPresent then
      if (← leaf d t).isPresent then
        setLeaf d t .empty
        if (← discountEntry e.frame) = 0 then unbindTable d
    invalidatePage va

/-- Map frames `frame + i * stride`, … at entries `t + i`, … of slot `d`, `n` in all. -/
def mapRunFrom (frame d t : Nat) (prot : Protection) (stride : Nat) : (i n : Nat) → Kernel Unit
  | _, 0 => pure ()
  | i, n + 1 => do
    let f ← inspect fun _ => checkedOffset frame i stride
    map f d (t + i) prot
    mapRunFrom frame d t prot stride (i + 1) n

/-- Map frames `frame`, `frame + stride`, … at entries `t`, `t + 1`, … of slot `d`, `n` in all. -/
def mapRun (frame d t : Nat) (prot : Protection) (stride n : Nat) : Kernel Unit :=
  mapRunFrom frame d t prot stride 0 n

end VirtualMemory.Kernel
