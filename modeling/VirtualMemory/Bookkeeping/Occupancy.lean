import Std.Data.ExtTreeMap
import VirtualMemory.Error.Failure

/-!
# Table occupancy

How many present entries each table holds, by the table's frame. A table whose count falls to zero
keeps its record until it is forgotten.
-/
namespace VirtualMemory

structure Occupancy where
  counts : Std.ExtTreeMap Nat Nat

namespace Occupancy

abbrev tableLimit : Nat := 1024
/-- Counts are 16 bits wide. -/
abbrev countLimit : Nat := 0x10000

def empty : Occupancy := ⟨∅⟩

def get (o : Occupancy) (table : Nat) : Nat := o.counts.getD table 0

/-- The number of tables with a record. -/
def tracked (o : Occupancy) : Nat := o.counts.size

def set (o : Occupancy) (table count : Nat) : Occupancy := ⟨o.counts.insert table count⟩

def forget (o : Occupancy) (table : Nat) : Occupancy := ⟨o.counts.erase table⟩

/-- Record a table that was filled elsewhere; an empty one needs no record. -/
def seed (o : Occupancy) (table present : Nat) : Occupancy :=
  if present = 0 then o.forget table else o.set table (present % countLimit)

def increment (o : Occupancy) (table : Nat) : Except Halt Occupancy :=
  if o.get table < tableLimit then .ok (o.set table (o.get table + 1))
  else .error (.tableOverfull table)

def decrement (o : Occupancy) (table : Nat) : Except Halt Occupancy :=
  if o.get table = 0 then .error (.tableUnderflow table)
  else .ok (o.set table (o.get table - 1))

@[simp] theorem get_set (o : Occupancy) (table count u : Nat) :
    (o.set table count).get u = if table = u then count else o.get u := by
  simp [get, set, Std.ExtTreeMap.getD_insert]

@[simp] theorem get_forget (o : Occupancy) (table u : Nat) :
    (o.forget table).get u = if table = u then 0 else o.get u := by
  simp [get, forget, Std.ExtTreeMap.getD_erase]

end Occupancy
end VirtualMemory
