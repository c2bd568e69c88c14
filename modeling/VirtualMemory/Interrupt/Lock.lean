/-!
# Locks that keep interrupts off

Taking a lock first disables interrupts and keeps the state they were in as a token with the
guard; giving the lock up restores what the token says. A token that says "disabled" restores
nothing, so interrupts come back with the guard that was the first to disable them.

Guards are values of their own, which may be given up in any order.
-/
namespace VirtualMemory

/-- The interrupt flag of one processor. -/
structure Interrupts where
  enabled : Bool
  deriving DecidableEq, Repr

namespace Interrupts

/-- The bit of the processor's state that says interrupts are enabled. -/
abbrev enabledBit : Nat := 9

/-- Disable interrupts, and return the state they were in. -/
def disable (i : Interrupts) : Nat × Interrupts :=
  (if i.enabled then 1 <<< enabledBit else 0, ⟨false⟩)

/-- Enable interrupts if `token` says that they were. -/
def restore (i : Interrupts) (token : Nat) : Interrupts :=
  if token.testBit enabledBit then ⟨true⟩ else i

theorem testBit_disable (i : Interrupts) : i.disable.1.testBit enabledBit = i.enabled := by
  cases i with
  | mk enabled => cases enabled <;> rfl

theorem enabled_restore (i : Interrupts) (token : Nat) :
    (i.restore token).enabled = (i.enabled || token.testBit enabledBit) := by
  unfold restore
  split <;> simp_all

theorem restore_disable (i : Interrupts) : i.disable.2.restore i.disable.1 = i := by
  cases i with
  | mk enabled => cases enabled <;> rfl

end Interrupts

/-- A spin lock as its users know it: made free, taken by one try, and given up. -/
class SpinLock (μ : Type) where
  new : μ
  isHeld : μ → Bool
  tryTake : μ → Option μ
  release : μ → μ

/-- A spin lock that has one holder at a time. -/
class LawfulSpinLock (μ : Type) [SpinLock μ] : Prop where
  isHeld_new : SpinLock.isHeld (SpinLock.new : μ) = false
  tryTake_free : ∀ {m : μ}, SpinLock.isHeld m = false →
    ∃ m', SpinLock.tryTake m = some m' ∧ SpinLock.isHeld m' = true
  tryTake_held : ∀ {m : μ}, SpinLock.isHeld m = true → SpinLock.tryTake m = none
  isHeld_release : ∀ m : μ, SpinLock.isHeld (SpinLock.release m) = false

/-- A lock that is one flag, set while it is held. -/
instance : SpinLock Bool where
  new := false
  isHeld := id
  tryTake held := if held then none else some true
  release _ := false

instance : LawfulSpinLock Bool where
  isHeld_new := rfl
  tryTake_free h := ⟨true, by subst h; rfl, rfl⟩
  tryTake_held h := by subst h; rfl
  isHeld_release _ := rfl

/-- A spin lock around a value. -/
structure Lock (α μ : Type) where
  value : α
  spin : μ
  deriving DecidableEq, Repr

/-- A free lock around `value`. -/
def Lock.new {α μ : Type} [SpinLock μ] (value : α) : Lock α μ := ⟨value, SpinLock.new⟩

/-- The guard of a lock that was taken, with the state that interrupts were in. -/
structure Guard where
  lock : Nat
  token : Nat
  deriving DecidableEq, Repr

/-- A processor's interrupt flag, the locks, and the live guards, newest first. -/
structure LockState (α μ : Type) where
  interrupts : Interrupts
  locks : List (Lock α μ)
  guards : List Guard
  deriving DecidableEq, Repr

namespace LockState

variable {α μ : Type} [SpinLock μ]

/-- Interrupts enabled, and a free lock around each value. -/
def initial (values : List α) : LockState α μ := ⟨⟨true⟩, values.map Lock.new, []⟩

/-- Try to take lock `k`, with interrupts off since `token`; `none` if it is held. -/
def enter? (s : LockState α μ) (k token : Nat) : Option (LockState α μ) := do
  let l ← s.locks[k]?
  let spin ← SpinLock.tryTake l.spin
  return { s with locks := s.locks.set k { l with spin }, guards := ⟨k, token⟩ :: s.guards }

/-- Take lock `k`. A lock that is held is waited for: with interrupts off nothing on this processor
gives it up, and no state comes back. -/
def lock? (s : LockState α μ) (k : Nat) : Option (LockState α μ) :=
  let (token, interrupts) := s.interrupts.disable
  { s with interrupts }.enter? k token

/-- Take lock `k` if it is free, and tell whether it was. Otherwise interrupts are left as they
were. -/
def tryLock (s : LockState α μ) (k : Nat) : Bool × LockState α μ :=
  let (token, interrupts) := s.interrupts.disable
  match { s with interrupts }.enter? k token with
  | some t => (true, t)
  | none => (false, { s with interrupts := interrupts.restore token })

/-- Give up the live guard at place `i`: its lock first, then what its token says. -/
def drop? (s : LockState α μ) (i : Nat) : Option (LockState α μ) := do
  let g ← s.guards[i]?
  let locks := s.locks.modify g.lock fun l => { l with spin := SpinLock.release l.spin }
  return ⟨s.interrupts.restore g.token, locks, s.guards.eraseIdx i⟩

/-- Store `value` in a lock through its guard, the one at place `i`. -/
def store? (s : LockState α μ) (i : Nat) (value : α) : Option (LockState α μ) := do
  let g ← s.guards[i]?
  return { s with locks := s.locks.modify g.lock fun l => { l with value } }

/-- The value of lock `k`. -/
def value? (s : LockState α μ) (k : Nat) : Option α := s.locks[k]?.map Lock.value

/-- The place of the newest guard of lock `k`. -/
def place? (s : LockState α μ) (k : Nat) : Option Nat := s.guards.findIdx? (·.lock == k)

end LockState
end VirtualMemory
