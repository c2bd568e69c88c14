import VirtualMemory.Error.Report

/-!
# Failures

An operation fails in one of three ways. An `ArgumentError` refuses the call before anything has
changed. A `Halt` stops the kernel on a condition that nothing can repair. A `Violation` is a
broken precondition, found by the machine or by a check at the place where it is broken.
-/
namespace VirtualMemory

/-- Refusals of an invalid argument. -/
inductive ArgumentError where
  | invalidIndex
  | misaligned
  | unknownSpace
  | invalidRange
  deriving DecidableEq, Repr

namespace ArgumentError

def subsystem : UInt8 := 0x01

def condition : ArgumentError → Condition
  | invalidIndex => ⟨subsystem, 0x01, "InvalidIndex", "Table index out of range"⟩
  | misaligned => ⟨subsystem, 0x02, "Misaligned", "Address not page aligned"⟩
  | unknownSpace => ⟨subsystem, 0x03, "UnknownPmap", "No such address space"⟩
  | invalidRange => ⟨subsystem, 0x04, "InvalidRange", "Range end precedes its start"⟩

instance : Reportable ArgumentError where
  subsystem := subsystem
  report e := .plain e.condition

def label (e : ArgumentError) : String := e.condition.label
def message (e : ArgumentError) : String := (Reportable.report e).render

end ArgumentError

/-- How a space is named in texts. -/
def renderSpace (id : Nat) : String := "Pmap(" ++ toString id ++ ")"

/-- Conditions that stop the kernel. -/
inductive Halt where
  | tableOverfull (table : Nat)
  | tableUnderflow (table : Nat)
  | outOfFrames
  | unalignedMount (frame : Nat)
  | releasedSpace (space : Nat)
  | noOwnersLeft (space : Nat)
  | kernelReleased
  | stuckInDyingSpace (cause : ArgumentError)
  | privateCopyRefused (page : Nat) (cause : ArgumentError)
  deriving DecidableEq, Repr

open Text (hex)

def Halt.reason : Halt → String
  | tableOverfull table => "table " ++ hex table ++ " holds more than 1024 entries"
  | tableUnderflow table => "occupancy of table " ++ hex table ++ " dropped below zero"
  | outOfFrames => "out of physical frames"
  | unalignedMount frame => "mount of unaligned frame " ++ hex frame
  | releasedSpace space => "decref of released address space " ++ renderSpace space
  | noOwnersLeft space => "decref of " ++ renderSpace space ++ " below zero"
  | kernelReleased => "kernel address space released"
  | stuckInDyingSpace cause => "cannot leave dying address space: " ++ cause.message
  | privateCopyRefused page cause =>
    "cannot install private copy of " ++ hex page ++ ": " ++ cause.message

def Halt.message (h : Halt) : String := "paging: " ++ h.reason

/-- Broken preconditions. -/
inductive Violation where
  | additionOverflow
  | multiplicationOverflow
  | directoryIndex
  | leafIndex
  | windowIndex
  | arrayIndex (index : Nat)
  | frameIndex
  | unalignedWord
  | unalignedFrame (frame : Nat)
  | outsideRam (pa : Nat)
  | unmapped (va : Nat)
  | poolExhausted
  | doubleFree (frame : Nat)
  | shareUnderflow (frame : Nat)
  | unresolvedWrite (va : Nat)
  | readOnlyWrite (va : Nat)
  | refused (cause : ArgumentError)
  | machineTooSmall
  | machineTooLarge
  deriving DecidableEq, Repr

def Violation.message : Violation → String
  | additionOverflow => "attempt to add with overflow"
  | multiplicationOverflow => "attempt to multiply with overflow"
  | directoryIndex => "assertion failed: dir_index < ENTRIES_PER_TABLE"
  | leafIndex => "assertion failed: tbl_index < ENTRIES_PER_TABLE"
  | windowIndex => "assertion failed: index < ENTRIES_PER_TABLE"
  | arrayIndex index =>
    "index out of bounds: the len is 1024 but the index is " ++ toString index
  | frameIndex => "assertion failed: index < self.frames"
  | unalignedWord => "assertion failed: pa % 4 == 0"
  | unalignedFrame frame => "frame " ++ hex frame ++ " is not page aligned"
  | outsideRam pa => "physical access outside simulated RAM: " ++ hex pa
  | unmapped va => "simulated access to unmapped address " ++ hex va
  | poolExhausted => "simulated frame pool exhausted"
  | doubleFree frame => "double free of frame " ++ hex frame
  | shareUnderflow frame => "share count of " ++ hex frame ++ " below zero"
  | unresolvedWrite va => "write to " ++ hex va ++ " left unresolved"
  | readOnlyWrite va => "write to " ++ hex va ++ " still read-only"
  | refused cause => "called `Result::unwrap()` on an `Err` value: " ++ cause.label
  | machineTooSmall => "need room for directory, mount table and kernel store"
  | machineTooLarge => "capacity overflow"

inductive Failure where
  | argument (error : ArgumentError)
  | halt (reason : Halt)
  | violation (cause : Violation)
  deriving DecidableEq, Repr

def Failure.message : Failure → String
  | argument e => e.message
  | halt h => h.message
  | violation v => v.message

end VirtualMemory
