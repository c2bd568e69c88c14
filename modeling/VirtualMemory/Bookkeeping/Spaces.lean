import Std.Data.ExtTreeMap
import VirtualMemory.Error.Failure

/-!
# The register of address spaces

A space is named by a number that is never given out twice. Its record holds the frame that keeps
its user half while another space is resident, and the number of its owners. Space 0 is the
kernel's.
-/
namespace VirtualMemory

structure SpaceRecord where
  directory : Nat
  owners : Nat
  deriving DecidableEq, Repr

structure Spaces where
  records : Std.ExtTreeMap Nat SpaceRecord
  nextId : Nat
  active : Nat

namespace Spaces

abbrev kernelId : Nat := 0
/-- Identifiers and owner counts are 32 bits wide. -/
abbrev countLimit : Nat := 0x100000000

/-- Only the kernel's space, active and owned once. -/
def withKernel (directory : Nat) : Spaces :=
  ⟨(∅ : Std.ExtTreeMap Nat SpaceRecord).insert kernelId ⟨directory, 1⟩, 1, kernelId⟩

def find? (s : Spaces) (id : Nat) : Option SpaceRecord := s.records[id]?

/-- The number of live spaces. -/
def live (s : Spaces) : Nat := s.records.size

def put (s : Spaces) (id : Nat) (r : SpaceRecord) : Spaces :=
  { s with records := s.records.insert id r }

def remove (s : Spaces) (id : Nat) : Spaces := { s with records := s.records.erase id }

/-- Register a space with one owner and return its name. -/
def add (s : Spaces) (directory : Nat) : Except Violation (Nat × Spaces) :=
  if s.nextId + 1 < countLimit then
    .ok (s.nextId, { s.put s.nextId ⟨directory, 1⟩ with nextId := s.nextId + 1 })
  else .error .additionOverflow

@[simp] theorem find?_put (s : Spaces) (id j : Nat) (r : SpaceRecord) :
    (s.put id r).find? j = if id = j then some r else s.find? j := by
  simp [find?, put, Std.ExtTreeMap.getElem?_insert]

@[simp] theorem find?_remove (s : Spaces) (id j : Nat) :
    (s.remove id).find? j = if id = j then none else s.find? j := by
  simp [find?, remove, Std.ExtTreeMap.getElem?_erase]

@[simp] theorem find?_withKernel (directory j : Nat) :
    (withKernel directory).find? j = if kernelId = j then some ⟨directory, 1⟩ else none := by
  simp [find?, withKernel, Std.ExtTreeMap.getElem?_insert]

end Spaces
end VirtualMemory
