import VirtualMemory.Kernel.Basic

/-!
# The resident directory

The loaded directory and the tables bound in it, reached through the self-map. The directory is
the same frame for the life of the system: a space becomes resident by having its user half copied
there.
-/
namespace VirtualMemory.Kernel

open Layout

/-- Physical address of the resident directory. -/
def directoryBase : Kernel Nat := access directoryView

/-- Physical address of the table bound at slot `d`, which has to be present. -/
def tableBase (d : Nat) : Kernel Nat := access (tableView d)

def checkSlot (d : Nat) : Kernel Unit :=
  if d < tableEntries then pure () else violate .directoryIndex

def checkLeaf (t : Nat) : Kernel Unit :=
  if t < tableEntries then pure () else violate .leafIndex

def slot (d : Nat) : Kernel Entry := do
  checkSlot d
  loadEntry ((← directoryBase) + 4 * d)

def setSlot (d : Nat) (e : Entry) : Kernel Unit := do
  checkSlot d
  storeEntry ((← directoryBase) + 4 * d) e

/-- Entry `t` of the table bound at slot `d`, which has to be present. -/
def leaf (d t : Nat) : Kernel Entry := do
  checkLeaf t
  loadEntry ((← tableBase d) + 4 * t)

def setLeaf (d t : Nat) (e : Entry) : Kernel Unit := do
  checkLeaf t
  storeEntry ((← tableBase d) + 4 * t) e

/-- The table bound at slot `d`, which has to be present. -/
def table (d : Nat) : Kernel Page := do
  checkSlot d
  loadPage (← tableBase d)

/-- The present entry behind `va`, if any. -/
def leafAt? (va : Nat) : Kernel (Option Entry) := do
  if (← slot (dirIndex va)).isPresent then
    let e ← leaf (dirIndex va) (tableIndex va)
    return if e.isPresent then some e else none
  else return none

/-- The present mapping of the page that holds `va`. -/
def lookup (va : Nat) : Kernel (Option Mapping) := do
  return (← leafAt? va).map Mapping.ofEntry

end VirtualMemory.Kernel
