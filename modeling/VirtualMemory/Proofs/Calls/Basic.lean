import VirtualMemory.Proofs.Operations.Fault
import VirtualMemory.Proofs.Operations.Lifecycle
import VirtualMemory.Proofs.Operations.Fork

/-!
# Calls

What callers may ask of the kernel, one call at a time, and what they hold afterwards. A call that
is refused leaves everything as it was; a call that stops the kernel is no step. Callers are bound
to a few rules, which `Permits` states: they map and release only frames that they hold, keep away
from the directory's two window slots, and fork into an empty space.
-/
namespace VirtualMemory

open Layout Snapshot

inductive Call where
  | create
  | incref (p : Nat)
  | decref (p : Nat)
  | destroy (p : Nat)
  | switch (p : Nat)
  | add (p va frame : Nat) (prot : Protection)
  | remove (p first last : Nat)
  | protect (p first last : Nat) (prot : Protection)
  | map (frame d t : Nat) (prot : Protection)
  | unmap (va : Nat)
  | mapFresh (p va : Nat) (prot : Protection)
  /-- Remove one page, and count one reference less to its frame. -/
  | drop (p va frame : Nat)
  | fork (parent child : Nat)
  | pageFault (va : Nat) (code : UInt32)
  | userWrite (va : Nat) (value : UInt8)
  | acquire
  | acquireRaw
  | release (frame : Nat)
  deriving DecidableEq

inductive Answer where
  | done
  | number (n : Nat)
  | fault (outcome : FaultOutcome)
  deriving DecidableEq

namespace Call

open Kernel

/-- Faults are the recording policy's. -/
def action : Call → Kernel Answer
  | create => do return .number (← Kernel.create)
  | incref p => do return .number (← Kernel.incref p)
  | decref p => do return .number (← Kernel.decref p)
  | destroy p => do Kernel.destroy p; return .done
  | switch p => do return .number (← Kernel.switch p)
  | add p va frame prot => do Kernel.add p va frame prot; return .done
  | remove p first last => do Kernel.remove p first last; return .done
  | protect p first last prot => do Kernel.protect p first last prot; return .done
  | map frame d t prot => do Kernel.map frame d t prot; return .done
  | unmap va => do Kernel.unmap va; return .done
  | mapFresh p va prot => do return .number (← Kernel.mapFresh p va prot)
  | drop p va frame => do
    Kernel.remove p va (va + pageSize)
    unshareFrame frame
    return .done
  | fork parent child => do Kernel.fork parent child; return .done
  | pageFault va code => do return .fault (← Kernel.pageFault .recording va code)
  | userWrite va value => do Kernel.userWrite .recording va value; return .done
  | acquire => do return .number (← Kernel.acquire)
  | acquireRaw => do return .number (← Kernel.acquireRaw)
  | release frame => do Kernel.release frame; return .done

def perform (c : Call) : Kernel (Except ArgumentError Answer) := attempt c.action

theorem fork_answered {parent child : Nat} {s t : KernelState}
    (run : Kernel.fork parent child s = .ok () t) :
    (fork parent child).perform s = .ok (.ok .done) t := by
  rw [perform, attempt, action, bind_of_ok run]
  rfl

/-- The frames that callers hold after a call that found them with `O` and ended in `v`. -/
def held (c : Call) (r : Except ArgumentError Answer) (v : Snapshot) (O : Finset Nat) :
    Finset Nat :=
  match c, r with
  | .mapFresh .., .ok (.number f) | .acquire, .ok (.number f) | .acquireRaw, .ok (.number f) =>
    insert f O
  | .release f, .ok _ => O.erase f
  | .pageFault va _, .ok (.fault o) => if o = .copied then v.withPageAt va O else O
  | .userWrite va _, .ok _ => v.withPageAt va O
  | _, _ => O

@[simp] theorem held_error (c : Call) (e : ArgumentError) (v : Snapshot) (O : Finset Nat) :
    c.held (.error e) v O = O := by
  cases c <;> rfl

end Call

namespace Snapshot

variable (w : Snapshot) (O : Finset Nat)

/-- Forking is into another space, whose user half is empty. -/
def ForksInto (parent child : Nat) : Prop :=
  parent ≠ child ∧ (w.Live child → w.Vacant child)

def Permits : Call → Prop
  | .add _ va frame _ => dirIndex va < mountTableSlot ∧ frame ∈ O
  | .protect _ first last _ => ∀ i < (last - first) / pageSize,
    dirIndex (first + i * pageSize) < mountTableSlot
  | .map frame d _ _ => d < mountTableSlot ∧ frame ∈ O
  | .mapFresh _ va _ => dirIndex va < mountTableSlot
  | .fork parent child => w.ForksInto parent child
  | .pageFault va _ => dirIndex va < mountTableSlot
  | .userWrite va _ => va < kernelStart
  | .release frame => frame ∈ O ∧
    ∀ π t e, w.Has π → t < tableEntries → w.leaf? π t = some e → e.frame ≠ frame
  | .create | .incref _ | .decref _ | .destroy _ | .switch _ | .remove .. | .unmap _ | .drop ..
  | .acquire | .acquireRaw => True

/-- The calls that an owner must not make, and how the kernel stops at them: to drop an owner of a
space that is no more, or the last one of the kernel's space. -/
inductive Disowns : Call → Halt → Prop where
  | released {p : Nat} (dead : ¬ w.Live p) : Disowns (.decref p) (.releasedSpace p)
  | kernel {c : Call} {r : SpaceRecord}
      (call : c = .decref Spaces.kernelId ∨ c = .destroy Spaces.kernelId)
      (record : w.spaces.find? Spaces.kernelId = some r) (last : r.owners = 1) :
      Disowns c .kernelReleased

/-- A call of an owner that must not make it has stopped the kernel. -/
inductive Disowned (c : Call) : Failure → Books → Prop where
  | halted {reason : Halt} {b : Books} (broken : w.Disowns c reason) : Disowned c (.halt reason) b

/-- The pages of `w` without those in a range of space `p`. -/
def pagesBut (p first last : Nat) : Place → Nat → Option Entry :=
  w.pagesOver (hits p first ((last - first) / pageSize)) fun _ => none

/-- All that a call may do, by its answer, when callers hold `O` before it. -/
inductive Effect : Call → Except ArgumentError Answer → Snapshot → Finset Nat → Prop where
  | refused (c : Call) (e : ArgumentError) : Effect c (.error e) w O
  | created {v : Snapshot} {f : Nat} (settled : v.Settled O) (admitted : w.Admitted v f O) :
      Effect .create (.ok (.number w.spaces.nextId)) v O
  | reowned {c : Call} {a : Answer} {p n : Nat} {r : SpaceRecord}
      (call : c = .incref p ∨ c = .decref p ∨ c = .destroy p) (record : w.spaces.find? p = some r)
      (settled : (w.owning p r n).Settled O) : Effect c (.ok a) (w.owning p r n) O
  | vacated {v : Snapshot} {c : Call} {a : Answer} {p : Nat} (call : c = .decref p ∨ c = .destroy p)
      (settled : v.Settled O) (gone : w.Vacated v p O) : Effect c (.ok a) v O
  | switched {v : Snapshot} {p : Nat} (live : w.Live p) (settled : v.Settled O)
      (switched : w.Switched v p) : Effect (.switch p) (.ok (.number w.spaces.active)) v O
  | added {v : Snapshot} {p va frame : Nat} {prot : Protection} (live : w.Live p)
      (settled : v.Settled O)
      (pages : w.Remaps v O (w.pagesWith (.seenBy p (dirIndex va)) (tableIndex va)
        (some (.of frame prot.entryFlags)))) : Effect (.add p va frame prot) (.ok .done) v O
  | removed {v : Snapshot} {p first last : Nat} (live : w.Live p) (settled : v.Settled O)
      (pages : w.Remaps v O (w.pagesBut p first last)) :
      Effect (.remove p first last) (.ok .done) v O
  | reprotected {v : Snapshot} {p first last : Nat} {prot : Protection} (live : w.Live p)
      (settled : v.Settled O)
      (pages : w.Rewrites v O (w.pagesOver (hits p first ((last - first) / pageSize))
        (Option.map fun e => .of e.frame prot.entryFlags))) :
      Effect (.protect p first last prot) (.ok .done) v O
  | mapped {v : Snapshot} {frame d t : Nat} {prot : Protection} (settled : v.Settled O)
      (pages : w.Remaps v O (w.pagesWith (w.here d) t (some (.of frame prot.entryFlags)))) :
      Effect (.map frame d t prot) (.ok .done) v O
  | unmapped {v : Snapshot} {va : Nat} {L : Place → Nat → Option Entry} (settled : v.Settled O)
      (pages : w.Remaps v O L)
      (only : L = w.leaf? ∨ L = w.pagesWith (w.here (dirIndex va)) (tableIndex va) none) :
      Effect (.unmap va) (.ok .done) v O
  | minted {v : Snapshot} {p va f : Nat} {prot : Protection} {rest : List Nat} (fresh : f ∉ O)
      (live : w.Live p) (settled : v.Settled (insert f O))
      (pages : (w.book { w.toBooks with free := rest, shares := w.shares.set f 1 }).Remaps v
        (insert f O) (w.pagesWith (.seenBy p (dirIndex va)) (tableIndex va)
          (some (.of f prot.entryFlags)))) :
      Effect (.mapFresh p va prot) (.ok (.number f)) v (insert f O)
  | dropped {v : Snapshot} {p va f : Nat} {c : Shares} (live : w.Live p) (settled : v.Settled O)
      (pages : w.Remaps v O (w.pagesBut p va (va + pageSize)))
      (shared : w.shares.get f ≠ 0) (counts : c = w.shares.set f (w.shares.get f - 1)) :
      Effect (.drop p va f) (.ok .done) (v.book { v.toBooks with shares := c }) O
  | forked {v : Snapshot} {parent child : Nat} (live : w.Live parent) (live' : w.Live child)
      (ne : parent ≠ child) (vacant : w.Vacant child) (settled : v.Settled O)
      (forked : w.Forked v O parent child) : Effect (.fork parent child) (.ok .done) v O
  | faulted {v : Snapshot} {va : Nat} {code : UInt32} {o : FaultOutcome} {Q : Finset Nat}
      (resolved : w.Resolved O va v Q) : Effect (.pageFault va code) (.ok (.fault o)) v Q
  | stored {u : Snapshot} {va : Nat} {value : UInt8} {e : Entry} {Q : Finset Nat}
      (user : va < kernelStart) (resolved : w.Resolved O va u Q) (page : u.pageAt? va = some e)
      (writable : e.isWritable = true) :
      Effect (.userWrite va value) (.ok .done)
        (u.setPage e.frame ((u.page e.frame).setByte (offset va) value)) Q
  | taken {v : Snapshot} {c : Call} {f : Nat} (call : c = .acquire ∨ c = .acquireRaw)
      (fresh : f ∉ O) (settled : v.Settled (insert f O))
      (pages : w.Remaps v O w.leaf?) : Effect c (.ok (.number f)) v (insert f O)
  | returned {v : Snapshot} {f : Nat} (settled : v.Settled (O.erase f))
      (pages : w.Remaps v O w.leaf?) : Effect (.release f) (.ok .done) v (O.erase f)

end Snapshot
end VirtualMemory
