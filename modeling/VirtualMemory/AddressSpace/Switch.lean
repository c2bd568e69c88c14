import VirtualMemory.Kernel.Pages

/-!
# Switching address spaces

The user half of the active space is in the resident directory; every other space keeps its own
in a frame. A switch copies one out and the other in, so the kernel half is shared and never moves.
-/
namespace VirtualMemory.Kernel

open Layout

/-- The record of a live space. -/
def space (id : Nat) : Kernel SpaceRecord := do
  match (← get).spaces.find? id with
  | some r => return r
  | none => refuse .unknownSpace

def active : Kernel Nat := do return (← get).spaces.active

def setActive (id : Nat) : Kernel Unit :=
  modify fun s => { s with spaces := { s.spaces with active := id } }

def countSwitch : Kernel Unit := modify fun s =>
  { s with statistics := { s.statistics with switches := s.statistics.switches + 1 } }

def countDirectoryCopies : Kernel Unit := modify fun s =>
  { s with statistics :=
    { s.statistics with directoryCopies := s.statistics.directoryCopies + 2 } }

/-- Copy the user half of the page at `source` over that of the page at `target`. -/
def copyUserHalf (source target : Nat) : Kernel Unit := do
  let user ← loadPage source
  let kept ← loadPage target
  storePage target (PerfectTree.splice userSlots user kept)

/-- Make the space resident and return the one it replaces. -/
def switch (id : Nat) : Kernel Nat := do
  let target ← space id
  let previous ← active
  let current ← space previous
  countSwitch
  if current.directory = target.directory then
    setActive id
  else
    let resident ← directoryBase
    withFrame current.directory do copyUserHalf resident (← Window.base)
    withFrame target.directory do copyUserHalf (← Window.base) resident
    countDirectoryCopies
    setActive id
    flush
    note (.switched previous id)
  return previous

/-- Run `body` with the space resident, and then return to the space that was. -/
def within (id : Nat) (body : Kernel Unit) : Kernel Unit := do
  let previous ← switch id
  body
  discard (switch previous)

end VirtualMemory.Kernel
