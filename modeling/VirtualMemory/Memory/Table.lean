import VirtualMemory.Entry.Basic
import VirtualMemory.Memory.Page

/-!
# Tables

A directory or table is a page read as 1024 entries.
-/
namespace VirtualMemory

open Layout

namespace Page

def entry (p : Page) (i : Nat) : Entry := ⟨p.get i⟩
def setEntry (p : Page) (i : Nat) (e : Entry) : Page := p.set i e.raw

def presentCount (p : Page) : Nat := p.count fun w => (Entry.mk w).isPresent

/-- The page with these entries and no others; of two at one index the later one counts. -/
def ofEntries (es : List (Nat × Entry)) : Except Violation Page :=
  es.foldlM (fun p (i, e) =>
    if i < tableEntries then .ok (p.setEntry i e) else .error (.arrayIndex i)) zero

/-- The boot directory `p`, which is in `frame`, made ready: its last slot maps the directory
itself, the slot below binds the mount table, and the user half is empty. -/
def prepareDirectory (p : Page) (frame mountTable : Nat) : Except Violation Page := do
  let self ← Entry.of? frame EntryFlags.kernelData
  let mount ← Entry.of? mountTable EntryFlags.kernelData
  let p := (p.setEntry selfMapSlot self).setEntry mountTableSlot mount
  return PerfectTree.splice userSlots zero p

end Page
end VirtualMemory
