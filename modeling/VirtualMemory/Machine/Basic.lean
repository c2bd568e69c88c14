import VirtualMemory.Error.Failure
import VirtualMemory.Memory.Ram

/-!
# The machine

Physical memory, the loaded directory and the bus. Every store and every order to the TLB is kept
in `trace`, newest first; the TLB is not modelled beyond that. Accesses outside memory and words at
addresses not divisible by four are violations.
-/
namespace VirtualMemory

open Layout

/-- What memory and the TLB were told to do. -/
inductive Transaction where
  | storeByte (pa : Nat) (value : UInt8)
  | storeWord (pa : Nat) (value : UInt32)
  | storePage (pa : Nat)
  | invalidatePage (va : Nat)
  | flush
  deriving DecidableEq, Repr

structure Machine where
  ram : Ram
  /-- Physical address of the loaded directory. -/
  directory : Nat
  tlbFlushes : Nat
  pageInvalidations : Nat
  trace : List Transaction
  deriving DecidableEq

namespace Machine

/-- `frames` frames of zeros with the first one loaded as the directory. The bytes of memory
have to be fewer than half of all addresses. -/
def blank (frames : Nat) : Except Violation Machine :=
  if frames * pageSize < 0x8000000000000000 then
    .ok ⟨Ram.blank frames, Ram.base, 0, 0, []⟩
  else .error .machineTooLarge

def frameAddress (m : Machine) (k : Nat) : Except Violation Nat :=
  if k < m.ram.frames.size then .ok (Ram.frameAddress k) else .error .frameIndex

def checkWord (pa : Nat) : Except Violation Unit :=
  if pa % 4 = 0 then .ok () else .error .unalignedWord

def checkRam (m : Machine) (pa : Nat) : Except Violation Unit :=
  if m.ram.contains pa then .ok () else .error (.outsideRam pa)

/-- A part of memory read at `pa`, or the violation of reading outside. -/
def orOutside {α : Type} (pa : Nat) : Option α → Except Violation α
  | some a => .ok a
  | none => .error (.outsideRam pa)

def loadByte (m : Machine) (pa : Nat) : Except Violation UInt8 := orOutside pa (m.ram.byte? pa)

def storeByte (m : Machine) (pa : Nat) (b : UInt8) : Except Violation Machine := do
  m.checkRam pa
  return { m with ram := m.ram.setByte pa b, trace := .storeByte pa b :: m.trace }

def loadWord (m : Machine) (pa : Nat) : Except Violation UInt32 := do
  checkWord pa
  orOutside pa (m.ram.word? pa)

def storeWord (m : Machine) (pa : Nat) (w : UInt32) : Except Violation Machine := do
  checkWord pa
  m.checkRam pa
  return { m with ram := m.ram.setWord pa w, trace := .storeWord pa w :: m.trace }

/-- The whole frame that holds `pa`. -/
def loadPage (m : Machine) (pa : Nat) : Except Violation Page := orOutside pa (m.ram.page? pa)

def storePage (m : Machine) (pa : Nat) (p : Page) : Except Violation Machine := do
  m.checkRam pa
  return { m with ram := m.ram.modifyPage pa fun _ => p, trace := .storePage pa :: m.trace }

/-- Order what the TLB holds for one page dropped. -/
def invalidatePage (m : Machine) (va : Nat) : Machine :=
  { m with pageInvalidations := m.pageInvalidations + 1, trace := .invalidatePage va :: m.trace }

/-- Order everything the TLB holds dropped. -/
def flush (m : Machine) : Machine :=
  { m with tlbFlushes := m.tlbFlushes + 1, trace := .flush :: m.trace }

end Machine
end VirtualMemory
