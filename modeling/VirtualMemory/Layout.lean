/-!
# Virtual layout

Two-level paging for 32-bit addresses: ten bits of directory index, ten bits of table index,
twelve bits of offset. Addresses are natural numbers of 64 bits, and only their low 32 bits
take part in a walk. The last directory slot maps the directory itself, so the resident directory
and every bound table have fixed addresses; the slot below it binds the mount table, whose last
entry is a window onto one arbitrary frame.
-/
namespace VirtualMemory

namespace Layout

abbrev pageSize : Nat := 4096
abbrev pageShift : Nat := 12
abbrev pageMask : Nat := 4095
abbrev tableEntries : Nat := 1024

/-- Slots below this one belong to user space and are private to each address space. -/
abbrev userSlots : Nat := 768
abbrev kernelStart : Nat := 0xC0000000
abbrev selfMapSlot : Nat := 1023
abbrev mountTableSlot : Nat := 1022
abbrev mountEntry : Nat := 1023

/-- The resident directory, seen through the self-map. -/
abbrev directoryView : Nat := 0xFFFFF000
/-- The first resident table, seen through the self-map. -/
abbrev tablesView : Nat := 0xFFC00000
/-- The window onto the mounted frame. -/
abbrev windowView : Nat := 0xFFBFF000

/-- Addresses are 64 bits wide. -/
abbrev addressLimit : Nat := 0x10000000000000000

def dirIndex (va : Nat) : Nat := va / 0x400000 % 1024
def tableIndex (va : Nat) : Nat := va / 0x1000 % 1024
def offset (va : Nat) : Nat := va % 4096

/-- Where the table bound at slot `d` is seen through the self-map. -/
def tableView (d : Nat) : Nat := tablesView + d * pageSize

/-- The address of the page with indices `d` and `t`; bits past the address width are lost. -/
def pageAddress (d t : Nat) : Nat := ((d <<< 22) ||| (t <<< 12)) % addressLimit

def isAligned (a : Nat) : Bool := a % pageSize == 0
def alignDown (a : Nat) : Nat := a - a % pageSize

theorem dirIndex_lt (va : Nat) : dirIndex va < tableEntries :=
  Nat.mod_lt _ (by decide)

theorem tableIndex_lt (va : Nat) : tableIndex va < tableEntries :=
  Nat.mod_lt _ (by decide)

theorem isAligned_iff (a : Nat) : isAligned a = true ↔ a % 4096 = 0 := by
  simp [isAligned]

theorem isAligned_alignDown (a : Nat) : isAligned (alignDown a) = true := by
  simp only [isAligned, alignDown, beq_iff_eq, pageSize]; omega

theorem alignDown_eq_self {a : Nat} (h : isAligned a = true) : alignDown a = a := by
  rw [isAligned_iff] at h; simp [alignDown, h]

theorem dirIndex_alignDown (va : Nat) : dirIndex (alignDown va) = dirIndex va := by
  simp only [dirIndex, alignDown, pageSize]; omega

theorem tableIndex_alignDown (va : Nat) : tableIndex (alignDown va) = tableIndex va := by
  simp only [tableIndex, alignDown, pageSize]; omega

theorem dirIndex_tableView {d : Nat} (h : d < tableEntries) :
    dirIndex (tableView d) = selfMapSlot := by
  simp only [tableEntries] at h
  simp only [dirIndex, tableView, tablesView, pageSize, selfMapSlot]; omega

theorem tableIndex_tableView {d : Nat} (h : d < tableEntries) :
    tableIndex (tableView d) = d := by
  simp only [tableEntries] at h
  simp only [tableIndex, tableView, tablesView, pageSize]; omega

theorem directoryView_eq : directoryView = tableView selfMapSlot := rfl

end Layout
end VirtualMemory
