import VirtualMemory.Layout
import VirtualMemory.Entry.Protection
import VirtualMemory.Error.Failure

/-!
# Entries

A directory or table entry is one word: the frame in the high twenty bits, flags in the low
twelve. The nine lowest flags have names; the other three belong to whoever wrote the entry.
-/
namespace VirtualMemory

open Layout

structure Entry where
  raw : UInt32
  deriving DecidableEq, Repr

namespace Entry

def empty : Entry := ⟨0⟩

instance : Inhabited Entry := ⟨empty⟩

/-- The entry for `frame` with `flags`; of the frame only the low 32 bits fit. -/
def of (frame : Nat) (flags : EntryFlags) : Entry := ⟨UInt32.ofNat frame ||| flags.bits⟩

/-- `of`, for frames that nobody has checked yet. -/
def of? (frame : Nat) (flags : EntryFlags) : Except Violation Entry :=
  if isAligned frame then .ok (of frame flags) else .error (.unalignedFrame frame)

def flags (e : Entry) : EntryFlags := .truncate e.raw
def frame (e : Entry) : Nat := e.raw.toNat / pageSize * pageSize

def isUnused (e : Entry) : Bool := e.raw == 0

def has (e : Entry) (flags : EntryFlags) : Bool := FlagSet.contains ⟨e.raw⟩ flags

def isPresent (e : Entry) : Bool := e.has EntryFlags.present
def isWritable (e : Entry) : Bool := e.has EntryFlags.writable
def isUser (e : Entry) : Bool := e.has EntryFlags.user
def isHuge (e : Entry) : Bool := e.has EntryFlags.huge

def set (e : Entry) (flags : EntryFlags) : Entry := ⟨e.raw ||| flags.bits⟩
def clear (e : Entry) (flags : EntryFlags) : Entry := ⟨e.raw &&& ~~~flags.bits⟩

def render (e : Entry) : String :=
  "PageTableEntry \x7b address: " ++ Text.hexPadded 8 e.frame ++ ", flags: " ++ e.flags.render ++
    " \x7d"

theorem frame_aligned (e : Entry) : isAligned e.frame = true := by
  simp [isAligned, frame, pageSize]

theorem frame_lt (e : Entry) : e.frame < 0x100000000 := by
  have := e.raw.toNat_lt
  simp only [frame, pageSize]; omega

theorem of?_aligned {frame : Nat} (h : isAligned frame = true) (flags : EntryFlags) :
    of? frame flags = .ok (of frame flags) := by simp [of?, h]

end Entry

/-- What is behind a present page: its frame, and the flags it is reached with. -/
structure Mapping where
  frame : Nat
  flags : EntryFlags
  deriving DecidableEq, Repr

namespace Mapping

def ofEntry (e : Entry) : Mapping := ⟨e.frame, e.flags⟩

def isWritable (m : Mapping) : Bool := m.flags.contains EntryFlags.writable
def isUser (m : Mapping) : Bool := m.flags.contains EntryFlags.user

def render (m : Mapping) : String :=
  "Mapping \x7b frame: " ++ toString m.frame ++ ", flags: " ++ m.flags.render ++ " \x7d"

end Mapping
end VirtualMemory
