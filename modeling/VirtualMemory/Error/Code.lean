import VirtualMemory.Text.Hex

/-!
# Error codes

Every recoverable error has a number: the high byte names the subsystem, the low byte the
condition within it.
-/
namespace VirtualMemory

structure ErrorCode where
  raw : UInt16
  deriving DecidableEq, Repr

namespace ErrorCode

def ofParts (subsystem condition : UInt8) : ErrorCode :=
  ⟨subsystem.toUInt16 <<< 8 ||| condition.toUInt16⟩

def subsystem (c : ErrorCode) : UInt8 := (c.raw >>> 8).toUInt8
def condition (c : ErrorCode) : UInt8 := c.raw.toUInt8

instance : LE ErrorCode := ⟨fun a b => a.raw ≤ b.raw⟩
instance (a b : ErrorCode) : Decidable (a ≤ b) := inferInstanceAs (Decidable (a.raw ≤ b.raw))

/-- Codes are ordered by subsystem, then by condition. -/
def sort (codes : List ErrorCode) : List ErrorCode := codes.mergeSort fun a b => a ≤ b

/-- `E` and four digits, as in `E0102`. -/
def render (c : ErrorCode) : String := "E" ++ Text.upperHex 4 c.raw.toNat

/-- The constructor form, with the number in decimal. -/
def renderRaw (c : ErrorCode) : String := "ErrorCode(" ++ toString c.raw.toNat ++ ")"

end ErrorCode
end VirtualMemory
