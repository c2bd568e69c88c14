import VirtualMemory.AddressSpace.Switch

/-!
# Life of an address space

A space is created with one owner. The last owner to let go releases it: if it is active the
processor first moves to the kernel's space, then every table of its user half and its directory
frame go back to the pool. The kernel's own space is never released.
-/
namespace VirtualMemory.Kernel

open Layout

/-- A new empty space with one owner. -/
def create : Kernel Nat := do
  let directory ← acquire
  match (← get).spaces.add directory with
  | .ok (id, spaces) =>
    modify fun s => { s with spaces }
    note (.spaceCreated id directory)
    return id
  | .error v => violate v

def setOwners (id : Nat) (r : SpaceRecord) (owners : Nat) : Kernel Unit :=
  modify fun s => { s with spaces := s.spaces.put id { r with owners } }

/-- Add an owner, and return how many there are. -/
def incref (id : Nat) : Kernel Nat := do
  let r ← space id
  if r.owners + 1 < Spaces.countLimit then
    setOwners id r (r.owners + 1)
    return r.owners + 1
  else violate .additionOverflow

def refcount (id : Nat) : Kernel Nat := do return (← space id).owners

/-- Free the table at slot `d` of the stored directory, and return how many entries it held. -/
def releaseUserTable (directory d : Nat) : Kernel Nat := do
  let e ← withFrame directory (Window.entry d)
  if e.isPresent then
    let held ← tableOccupancy e.frame
    forgetTable e.frame
    release e.frame
    return held
  else return 0

/-- Free every table of the user half that is stored in frame `directory`. -/
def releaseUserTables (directory : Nat) : Kernel Unit := do
  let dropped ← sumEach (releaseUserTable directory) 0 userSlots
  if dropped > 0 then note (.mappingsDropped dropped directory)

/-- Move to the kernel's space if `id` is the active one. -/
def leave (id : Nat) : Kernel Unit := do
  if (← active) = id then
    match ← attempt (switch Spaces.kernelId) with
    | .ok _ => pure ()
    | .error e => halt (.stuckInDyingSpace e)

def releaseSpace (id directory : Nat) : Kernel Unit := do
  leave id
  releaseUserTables directory
  release directory
  modify fun s => { s with spaces := s.spaces.remove id }
  note (.spaceReleased id)

/-- Drop an owner, and return how many are left. -/
def decref (id : Nat) : Kernel Nat := do
  match (← get).spaces.find? id with
  | none => halt (.releasedSpace id)
  | some r =>
    if r.owners = 0 then halt (.noOwnersLeft id)
    else
      setOwners id r (r.owners - 1)
      if r.owners - 1 > 0 then return r.owners - 1
      else if id = Spaces.kernelId then halt .kernelReleased
      else
        releaseSpace id r.directory
        return 0

/-- Drop the last owner of a live space; other owners are reported, not waited for. -/
def destroy (id : Nat) : Kernel Unit := do
  let r ← space id
  if r.owners ≠ 1 then note (.destroyedWhileOwned id r.owners)
  discard (decref id)

end VirtualMemory.Kernel
