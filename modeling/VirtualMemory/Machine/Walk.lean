import VirtualMemory.Entry.Basic
import VirtualMemory.Machine.Basic

/-!
# The page walk

The processor finds the frame behind a virtual address by reading one entry of the loaded
directory and one entry of the table it points at. Only the present bit of either matters, and
only the low 32 bits of the address.
-/
namespace VirtualMemory

open Layout

namespace Machine

def loadEntry (m : Machine) (pa : Nat) : Except Violation Entry := do
  return ⟨← m.loadWord pa⟩

def walk (m : Machine) (va : Nat) : Except Violation (Option Nat) := do
  let slot ← m.loadEntry (m.directory + 4 * dirIndex va)
  if slot.isPresent then
    let leaf ← m.loadEntry (slot.frame + 4 * tableIndex va)
    return if leaf.isPresent then some (leaf.frame + offset va) else none
  else return none

/-- The physical address behind `va`, which has to be mapped and lie in memory. -/
def access (m : Machine) (va : Nat) : Except Violation Nat := do
  match ← m.walk va with
  | some pa =>
    m.checkRam pa
    return pa
  | none => throw (.unmapped va)

def loadVirtual (m : Machine) (va : Nat) : Except Violation UInt8 := do
  m.loadByte (← m.access va)

def storeVirtual (m : Machine) (va : Nat) (b : UInt8) : Except Violation Machine := do
  m.storeByte (← m.access va) b

end Machine
end VirtualMemory
