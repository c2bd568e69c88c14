import VirtualMemory.FlagSet

/-!
# Kinds of page fault

What the processor's trap code says about a fault, in words that name no processor.
-/
namespace VirtualMemory

def faultVocabulary : Vocabulary where
  title := "FaultKind"
  names := ["PRESENT", "READ", "WRITE", "USER", "EXEC"]

abbrev FaultKind := FlagSet faultVocabulary

/-! Bits of the code that the processor pushes for a page fault. -/
namespace TrapCode

def isPresent (code : UInt32) : Bool := code &&& 0x1 != 0
def isWrite (code : UInt32) : Bool := code &&& 0x2 != 0
def isUser (code : UInt32) : Bool := code &&& 0x4 != 0
def isFetch (code : UInt32) : Bool := code &&& 0x10 != 0

/-- A user write that finds no page. -/
def userWriteAbsent : UInt32 := 0x6
/-- A user write that finds a page it has no right to. -/
def userWriteDenied : UInt32 := 0x7

end TrapCode

namespace FaultKind

/-- The page was there: a right was missing. -/
def present : FaultKind := ⟨0x1⟩
def read : FaultKind := ⟨0x2⟩
def write : FaultKind := ⟨0x4⟩
/-- Raised from user mode. -/
def user : FaultKind := ⟨0x8⟩
def exec : FaultKind := ⟨0x10⟩

/-- An access that is not a write counts as a read, an instruction fetch included. -/
def ofTrapCode (code : UInt32) : FaultKind :=
  let access := if TrapCode.isWrite code then write else read
  let present := if TrapCode.isPresent code then present else .empty
  let user := if TrapCode.isUser code then user else .empty
  let exec := if TrapCode.isFetch code then exec else .empty
  access ||| present ||| user ||| exec

end FaultKind
end VirtualMemory
