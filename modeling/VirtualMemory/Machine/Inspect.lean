import VirtualMemory.Machine.Basic
import VirtualMemory.Memory.Digest

/-!
# Inspection of memory

Runs of bytes and words by physical address. A run may start anywhere and stops at the first
access that fails.
-/
namespace VirtualMemory

open Layout

namespace Machine

/-- Whether the `n` bytes from `pa` on are all zero; nothing is read after one that is not. -/
def isZeroRun (m : Machine) : (pa n : Nat) → Except Violation Bool
  | _, 0 => .ok true
  | pa, n + 1 => do
    if (← m.loadByte pa) = 0 then m.isZeroRun (pa + 1) n else return false

/-- Whether the page that starts at `pa` is all zero. -/
def isZeroPage (m : Machine) (pa : Nat) : Except Violation Bool := m.isZeroRun pa pageSize

/-- The `n` words from `pa` on. -/
def loadWords (m : Machine) : (pa n : Nat) → Except Violation (List UInt32)
  | _, 0 => .ok []
  | pa, n + 1 => do
    let w ← m.loadWord pa
    return w :: (← m.loadWords (pa + 4) n)

/-- The digest of the 1024 words from `pa` on. -/
def digest (m : Machine) (pa : Nat) : Except Violation Digest := do
  return .ofWords (← m.loadWords pa tableEntries)

/-- Store words `i` to `i + n - 1` of the pattern of `seed` from `pa` on. The machine is returned
as it is after the last store that succeeds. -/
def storePattern (seed : UInt32) :
    (m : Machine) → (pa i n : Nat) → Machine × Except Violation Unit
  | m, _, _, 0 => (m, .ok ())
  | m, pa, i, n + 1 =>
    match m.storeWord pa (patternWord seed i) with
    | .ok m' => storePattern seed m' (pa + 4) (i + 1) n
    | .error v => (m, .error v)

/-- Fill the 1024 words from `pa` on with the pattern of `seed`. -/
def fill (m : Machine) (pa : Nat) (seed : UInt32) : Machine × Except Violation Unit :=
  storePattern seed m pa 0 tableEntries

end Machine
end VirtualMemory
