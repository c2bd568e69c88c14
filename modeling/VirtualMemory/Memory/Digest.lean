/-!
# Digests of words

A digest sums up a run of words: how many are not zero, the first of those with their indices, and
a multiply-and-xor hash over all of them in order.
-/
namespace VirtualMemory

structure Digest where
  used : Nat
  hash : UInt32
  first : List (Nat × UInt32)
  deriving DecidableEq, Repr

namespace Digest

/-- The words that are not zero, with their indices. -/
def nonzero (ws : List UInt32) : List (Nat × UInt32) :=
  (ws.zipIdx.filter fun (w, _) => w != 0).map fun (w, i) => (i, w)

def hashOf (ws : List UInt32) : UInt32 :=
  ws.foldl (fun h w => (h ^^^ w) * 16777619) 0x811c9dc5

/-- The digest shows the first sixteen words that are not zero. -/
def ofWords (ws : List UInt32) : Digest where
  used := (nonzero ws).length
  hash := hashOf ws
  first := (nonzero ws).take 16

end Digest

/-- A recognisable run of words: from `seed` on in steps of an odd constant. -/
def patternWord (seed : UInt32) (i : Nat) : UInt32 := seed + UInt32.ofNat i * 0x9E3779B1

end VirtualMemory
