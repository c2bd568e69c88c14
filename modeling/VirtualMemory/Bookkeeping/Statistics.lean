/-!
# Statistics

Counters of what the kernel has done.
-/
namespace VirtualMemory

structure Statistics where
  /-- Switches asked for, those to the active space included. -/
  switches : Nat
  /-- User halves copied between the resident directory and a space's own frame. -/
  directoryCopies : Nat
  tlbFlushes : Nat
  /-- Write faults answered with a private copy. -/
  pageCopies : Nat
  /-- Write faults answered by giving the write right back. -/
  writeGrants : Nat
  deriving DecidableEq, Repr

def Statistics.zero : Statistics := ⟨0, 0, 0, 0, 0⟩

end VirtualMemory
