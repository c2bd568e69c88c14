import VirtualMemory.FlagSet

/-!
# Entry flags

The low bits of a directory or table entry that the processor gives a meaning.
-/
namespace VirtualMemory

def entryVocabulary : Vocabulary where
  title := "EntryFlags"
  names := ["PRESENT", "WRITABLE", "USER_ACCESSIBLE", "WRITE_THROUGH", "NO_CACHE", "ACCESSED",
    "DIRTY", "HUGE_PAGE", "GLOBAL"]

abbrev EntryFlags := FlagSet entryVocabulary

namespace EntryFlags

def present : EntryFlags := ⟨0x1⟩
def writable : EntryFlags := ⟨0x2⟩
def user : EntryFlags := ⟨0x4⟩
def writeThrough : EntryFlags := ⟨0x8⟩
def noCache : EntryFlags := ⟨0x10⟩
def accessed : EntryFlags := ⟨0x20⟩
def dirty : EntryFlags := ⟨0x40⟩
/-- A directory entry with this flag maps four megabytes directly. -/
def huge : EntryFlags := ⟨0x80⟩
def global : EntryFlags := ⟨0x100⟩

/-- What the kernel's own structures are mapped with. -/
def kernelData : EntryFlags := present ||| writable

theorem known_eq : entryVocabulary.known = 0x1ff := by decide

end EntryFlags
end VirtualMemory
