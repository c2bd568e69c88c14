import Std.Data.ExtTreeMap
import VirtualMemory.Error.Failure

/-!
# Share counts

How many leaf entries, over all address spaces, refer to each frame. Counts are 32 bits wide; a
frame without a record has count zero.
-/
namespace VirtualMemory

structure Shares where
  counts : Std.ExtTreeMap Nat Nat

namespace Shares

abbrev countLimit : Nat := 0x100000000

def empty : Shares := ⟨∅⟩

def get (s : Shares) (frame : Nat) : Nat := s.counts.getD frame 0

def set (s : Shares) (frame count : Nat) : Shares := ⟨s.counts.insert frame count⟩

/-- Count one reference more. -/
def increment (s : Shares) (frame : Nat) : Except Violation Shares :=
  if s.get frame + 1 < countLimit then .ok (s.set frame (s.get frame + 1))
  else .error .additionOverflow

/-- Count one reference less. -/
def decrement (s : Shares) (frame : Nat) : Except Violation Shares :=
  if s.get frame = 0 then .error (.shareUnderflow frame)
  else .ok (s.set frame (s.get frame - 1))

@[simp] theorem get_empty (frame : Nat) : empty.get frame = 0 := by simp [get, empty]

@[simp] theorem get_set (s : Shares) (frame count g : Nat) :
    (s.set frame count).get g = if frame = g then count else s.get g := by
  simp [get, set, Std.ExtTreeMap.getD_insert]

end Shares
end VirtualMemory
