import VirtualMemory.Fault.Policy

/-!
# Resolving page faults

A fault on a present page with a share count is a write to a shared frame. The last sharer gets
its write right back in place; anyone else gets a private copy. All other faults, and user
accesses to pages without the user right, are the policy's.
-/
namespace VirtualMemory

/-- What became of a fault. -/
inductive FaultOutcome where
  | delegated (va : Nat) (kind : FaultKind)
  | writeGranted
  | copied
  deriving DecidableEq, Repr

namespace Kernel

open Layout

def delegateFault (policy : Policy) (va : Nat) (code : UInt32) : Kernel FaultOutcome := do
  let kind := FaultKind.ofTrapCode code
  note (.faultDelegated va kind)
  policy.resolve va kind
  return .delegated va kind

def countWriteGrant : Kernel Unit := modify fun s =>
  { s with statistics :=
    { s.statistics with writeGrants := s.statistics.writeGrants + 1 } }

def countPageCopy : Kernel Unit := modify fun s =>
  { s with statistics := { s.statistics with pageCopies := s.statistics.pageCopies + 1 } }

/-- Give the page at `page`, whose entry is `e`, its write right back. -/
def grantWrite (page : Nat) (e : Entry) : Kernel Unit := do
  let directory ← slot (dirIndex page)
  if !directory.isWritable then
    setSlot (dirIndex page) (directory.set EntryFlags.writable)
  setLeaf (dirIndex page) (tableIndex page) (e.set EntryFlags.writable)
  invalidatePage page
  countWriteGrant
  note (.writeGranted page e.frame)

/-- Replace the shared `frame` of the page at `page` by a private copy. -/
def copyPage (policy : Policy) (page frame : Nat) : Kernel Unit := do
  unshareFrame frame
  unmap page
  let copy ← policy.privateFrame page
  match ← attempt (map copy (dirIndex page) (tableIndex page) Protection.userRWX) with
  | .ok _ => pure ()
  | .error e => halt (.privateCopyRefused page e)
  invalidatePage page
  let target ← access page
  withFrame frame do storePage target (← Window.page)
  countPageCopy
  note (.pageCopied page frame copy)

/-- Resolve a fault at `va` that the processor reported with `code`. -/
def pageFault (policy : Policy) (va : Nat) (code : UInt32) : Kernel FaultOutcome := do
  let page := alignDown va
  match ← leafAt? page with
  | none => delegateFault policy va code
  | some e =>
    if TrapCode.isUser code && !e.isUser then delegateFault policy va code
    else
      match ← shareCount e.frame with
      | 0 =>
        note (.untrackedFrame page e.frame)
        delegateFault policy va code
      | 1 =>
        grantWrite page e
        return .writeGranted
      | _ =>
        copyPage policy page e.frame
        return .copied

end Kernel
end VirtualMemory
