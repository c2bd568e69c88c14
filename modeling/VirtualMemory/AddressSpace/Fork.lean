import VirtualMemory.AddressSpace.Switch
import VirtualMemory.Kernel.Sharing

/-!
# Fork

Every user page of one space is shared with another: both map the same frame, neither may write
it, and its share count grows by one. The first write on either side faults and is resolved there.
-/
namespace VirtualMemory.Kernel

open Layout

/-- Share entry `t` of the mounted table with `table`, which is bound at slot `d`, and return how
many pages that is. -/
def shareLeaf (table d t : Nat) : Kernel Nat := do
  let e ← Window.entry t
  if e.isPresent then
    let shared := e.clear EntryFlags.writable
    Window.setEntry t shared
    setLeaf d t shared
    countEntry table
    shareFrame shared.frame
    return 1
  else return 0

/-- Share the table at slot `d` of the stored directory with the resident space, and return how
many pages that is. -/
def shareTable (directory d : Nat) : Kernel Nat := do
  let e ← withFrame directory (Window.entry d)
  if e.isPresent then
    let table ← allocateTable
    bindTable table d Protection.userRWX
    withFrame e.frame (sumEach (shareLeaf table d) 0 tableEntries)
  else return 0

/-- Share every user page of `parent` with `child`, and leave `parent` resident. -/
def fork (parent child : Nat) : Kernel Unit := do
  let directory := (← space parent).directory
  discard (space child)
  discard (switch child)
  let pages ← sumEach (shareTable directory) 0 userSlots
  flush
  discard (switch parent)
  note (.forked parent child pages)

end VirtualMemory.Kernel
