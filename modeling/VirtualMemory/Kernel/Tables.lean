import VirtualMemory.Kernel.Window

/-!
# Frames and tables

Frames come from the pool and go back to it. A table is a zeroed frame bound at a slot of the
resident directory; how many present entries it holds is recorded from the moment it is bound
until it is unbound.
-/
namespace VirtualMemory.Kernel

open Layout

/-- A frame from the pool, with whatever it held before. -/
def acquireRaw : Kernel Nat := do
  match (← get).pool.alloc? with
  | some (frame, pool) =>
    modify fun s => { s with pool }
    return frame
  | none => halt .outOfFrames

/-- A frame straight from the pool. -/
def takeFrame : Kernel Nat := do
  match (← get).pool.take with
  | .ok (frame, pool) =>
    modify fun s => { s with pool }
    return frame
  | .error v => violate v

/-- Take frames from the pool until at most `keep` are left, and return how many are left. -/
def drainPool (keep : Nat) : Kernel Nat := do
  modify fun s => { s with pool := s.pool.drain keep }
  return (← get).pool.available

/-- A zeroed frame from the pool. -/
def acquire : Kernel Nat := do
  let frame ← acquireRaw
  withFrame frame Window.zero
  note (.frameAcquired frame)
  return frame

/-- Give a frame back to the pool. -/
def release (frame : Nat) : Kernel Unit := do
  note (.frameReleased frame)
  match (← get).pool.release frame with
  | .ok pool => modify fun s => { s with pool }
  | .error v => violate v

/-- A frame for a table. -/
def allocateTable : Kernel Nat := acquire

def seedTable (table present : Nat) : Kernel Unit :=
  modify fun s => { s with occupancy := s.occupancy.seed table present }

def forgetTable (table : Nat) : Kernel Unit :=
  modify fun s => { s with occupancy := s.occupancy.forget table }

def tableOccupancy (table : Nat) : Kernel Nat := do return (← get).occupancy.get table

/-- Count one present entry more. -/
def countEntry (table : Nat) : Kernel Unit := do
  match (← get).occupancy.increment table with
  | .ok occupancy => modify fun s => { s with occupancy }
  | .error h => halt h

/-- Count one present entry less, and return how many are left. -/
def discountEntry (table : Nat) : Kernel Nat := do
  match (← get).occupancy.decrement table with
  | .ok occupancy =>
    modify fun s => { s with occupancy }
    return occupancy.get table
  | .error h => halt h

/-- Bind `table` at slot `d`. Entries already in it are counted. -/
def bindTable (table d : Nat) (prot : Protection) : Kernel Unit :=
  if d ≥ tableEntries then refuse .invalidIndex
  else if !isAligned table then refuse .misaligned
  else do
    let present ← withFrame table Window.presentCount
    seedTable table present
    setSlot d (.of table prot.entryFlags)
    flush
    note (.tableBound table d)

/-- Unbind the table at slot `d` and free it, if there is one. -/
def unbindTable (d : Nat) : Kernel Unit :=
  if d ≥ tableEntries then pure ()
  else do
    let e ← slot d
    if e.isPresent then
      setSlot d .empty
      forgetTable e.frame
      release e.frame
      note (.tableUnbound e.frame d)
    flush

end VirtualMemory.Kernel
