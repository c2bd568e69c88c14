import VirtualMemory.Text.Hex

/-!
# Flag sets

A `Vocabulary` names the bits of a word from the lowest upwards; a `FlagSet` is a word read in
that vocabulary. Bits without a name are kept by every operation except `truncate` and
`complement`, which drop them.
-/
namespace VirtualMemory

/-- The names of bits `0, 1, …`, and the name of the set itself in text. -/
structure Vocabulary where
  title : String
  names : List String
  deriving DecidableEq, Repr

/-- Exactly the named bits. -/
def Vocabulary.known (v : Vocabulary) : UInt32 := UInt32.ofNat (1 <<< v.names.length - 1)

structure FlagSet (v : Vocabulary) where
  bits : UInt32
  deriving DecidableEq, Repr

namespace FlagSet
variable {v : Vocabulary}

def empty : FlagSet v := ⟨0⟩
def all : FlagSet v := ⟨v.known⟩

instance : Inhabited (FlagSet v) := ⟨empty⟩

/-- The set with these bits, if every one of them has a name. -/
def ofBits? (bits : UInt32) : Option (FlagSet v) :=
  if bits &&& ~~~v.known = 0 then some ⟨bits⟩ else none

/-- The named ones of these bits. -/
def truncate (bits : UInt32) : FlagSet v := ⟨bits &&& v.known⟩

def isEmpty (a : FlagSet v) : Bool := a.bits == 0

/-- Every named bit is set, whatever else is. -/
def isAll (a : FlagSet v) : Bool := v.known &&& a.bits == v.known

/-- Every bit of `b` is in `a`. -/
def contains (a b : FlagSet v) : Bool := a.bits &&& b.bits == b.bits

/-- Some bit is in both. -/
def intersects (a b : FlagSet v) : Bool := a.bits &&& b.bits != 0

def union (a b : FlagSet v) : FlagSet v := ⟨a.bits ||| b.bits⟩
def inter (a b : FlagSet v) : FlagSet v := ⟨a.bits &&& b.bits⟩
def diff (a b : FlagSet v) : FlagSet v := ⟨a.bits &&& ~~~b.bits⟩
def symmDiff (a b : FlagSet v) : FlagSet v := ⟨a.bits ^^^ b.bits⟩

/-- The named bits that are not in `a`. -/
def complement (a : FlagSet v) : FlagSet v := truncate (~~~a.bits)

instance : OrOp (FlagSet v) := ⟨union⟩
instance : AndOp (FlagSet v) := ⟨inter⟩

/-- The names of the set bits, lowest first. -/
def names (a : FlagSet v) : List String :=
  (v.names.zipIdx.filter fun (_, i) => a.bits.toNat.testBit i).map Prod.fst

/-- The set bits without a name. -/
def unnamed (a : FlagSet v) : UInt32 := a.bits &&& ~~~v.known

/-- The names joined by bars, then the unnamed bits as one number. The empty set shows `0x0`. -/
def render (a : FlagSet v) : String :=
  let rest := if a.unnamed = 0 then [] else [Text.hex a.unnamed.toNat]
  let parts := if a.isEmpty then [Text.hex 0] else a.names ++ rest
  v.title ++ "(" ++ " | ".intercalate parts ++ ")"

end FlagSet
end VirtualMemory
