import VirtualMemory.Bookkeeping.FramePool
import VirtualMemory.Bookkeeping.Occupancy
import VirtualMemory.Bookkeeping.Shares
import VirtualMemory.Bookkeeping.Spaces
import VirtualMemory.Bookkeeping.Statistics
import VirtualMemory.Machine.Walk
import VirtualMemory.Kernel.Event

/-!
# The kernel

`KernelState` is everything one processor needs to manage page tables: the machine, the frame pool,
the share counts and the kernel's own records. `Kernel α` is an action on it. A failing action
keeps the state it had reached, so what follows a failure starts from there.
-/
namespace VirtualMemory

open Layout

structure KernelState where
  machine : Machine
  pool : FramePool
  shares : Shares
  occupancy : Occupancy
  spaces : Spaces
  statistics : Statistics
  /-- Reported events, newest first. -/
  events : List Event
  /-- Faults that were recorded and otherwise left alone, newest first. -/
  delegated : List (Nat × FaultKind)

/-- The state with its reported events and its machine's trace cleared away. -/
def KernelState.settled (s : KernelState) : KernelState :=
  { s with events := [], machine := { s.machine with trace := [] } }

abbrev Kernel := EStateM Failure KernelState

namespace Kernel
variable {α : Type}

/-- Refuse the call. -/
def refuse (e : ArgumentError) : Kernel α := throw (.argument e)

def note (e : Event) : Kernel Unit := modify fun s => { s with events := e :: s.events }

/-- Stop the kernel, reporting why. -/
def halt (h : Halt) : Kernel α := do
  note (.fatal h)
  throw (.halt h)

def violate (v : Violation) : Kernel α := throw (.violation v)

/-- Read the machine. -/
def inspect (f : Machine → Except Violation α) : Kernel α := fun s =>
  match f s.machine with
  | .ok a => .ok a s
  | .error v => .error (.violation v) s

/-- Change the machine, or leave it alone on a violation. -/
def drive (f : Machine → Except Violation Machine) : Kernel Unit := fun s =>
  match f s.machine with
  | .ok m => .ok () { s with machine := m }
  | .error v => .error (.violation v) s

/-- Run `x`, handing a refusal back as a value. Halts and violations go through. -/
def attempt (x : Kernel α) : Kernel (Except ArgumentError α) := fun s =>
  match x s with
  | .ok a s => .ok (.ok a) s
  | .error (.argument e) s => .ok (.error e) s
  | .error f s => .error f s

/-- Run `x`, then `cleanup`, also when `x` fails; the failure of `x` wins. -/
def ensuring (x : Kernel α) (cleanup : Kernel Unit) : Kernel α := fun s =>
  match x s with
  | .ok a s => (cleanup *> pure a) s
  | .error f s =>
    match cleanup s with
    | .ok _ s => .error f s
    | .error _ s => .error f s

theorem bind_of_ok {β : Type} {x : Kernel α} {s t : KernelState} {a : α} (h : x s = .ok a t)
    (f : α → Kernel β) : (x >>= f) s = f a t := by
  simp only [bind, EStateM.bind, h]

theorem bind_of_error {β : Type} {x : Kernel α} {s t : KernelState} {e : Failure}
    (h : x s = .error e t) (f : α → Kernel β) : (x >>= f) s = .error e t := by
  simp only [bind, EStateM.bind, h]

/-- A sequence succeeds exactly if both of its parts do. -/
theorem bind_eq_ok {β : Type} {x : Kernel α} {f : α → Kernel β} {s u : KernelState} {b : β} :
    (x >>= f) s = .ok b u ↔ ∃ a t, x s = .ok a t ∧ f a t = .ok b u := by
  cases h : x s with
  | ok a t =>
    rw [bind_of_ok h]
    exact ⟨fun hf => ⟨a, t, rfl, hf⟩, fun ⟨_, _, e, hf⟩ => by cases e; exact hf⟩
  | error e t =>
    rw [bind_of_error h]
    exact ⟨fun hf => (by cases hf), fun ⟨_, _, e, _⟩ => (by cases e)⟩

/-- Run `body` at `start`, `start + step`, …, `n` times. -/
def forEach (step : Nat) (body : Nat → Kernel Unit) : (start n : Nat) → Kernel Unit
  | _, 0 => pure ()
  | start, n + 1 => do
    body start
    forEach step body (start + step) n

/-- Run `body` at `start`, `start + 1`, …, `n` times, and add up the answers. -/
def sumEach (body : Nat → Kernel Nat) : (start n : Nat) → Kernel Nat
  | _, 0 => pure 0
  | start, n + 1 => do
    let a ← body start
    let b ← sumEach body (start + 1) n
    return a + b

def access (va : Nat) : Kernel Nat := inspect (·.access va)
def loadEntry (pa : Nat) : Kernel Entry := inspect (·.loadEntry pa)
def storeEntry (pa : Nat) (e : Entry) : Kernel Unit := drive (·.storeWord pa e.raw)
def loadPage (pa : Nat) : Kernel Page := inspect (·.loadPage pa)
def storePage (pa : Nat) (p : Page) : Kernel Unit := drive (·.storePage pa p)

def invalidatePage (va : Nat) : Kernel Unit := drive fun m => .ok (m.invalidatePage va)

/-- Flush the TLB, and count it as the kernel's doing. -/
def flush : Kernel Unit := do
  modify fun s =>
    { s with statistics := { s.statistics with tlbFlushes := s.statistics.tlbFlushes + 1 } }
  drive fun m => .ok m.flush

end Kernel
end VirtualMemory
