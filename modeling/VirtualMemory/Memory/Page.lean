import VirtualMemory.Memory.PerfectTree

/-!
# Pages

A page is 1024 words of 32 bits. Its bytes are the bytes of the words in order, the lowest byte of
each word first.
-/
namespace VirtualMemory

/-- Byte `j` of a word, counted from the lowest. -/
def byteOfWord (w : UInt32) (j : Nat) : UInt8 := UInt8.ofNat (w.toNat >>> (8 * j))

/-- The word with bytes `f 0` to `f 3`, lowest first. -/
def wordOfBytes (f : Nat → UInt8) : UInt32 :=
  UInt32.ofNat ((f 0).toNat + 256 * (f 1).toNat + 65536 * (f 2).toNat + 16777216 * (f 3).toNat)

theorem byteOfWord_wordOfBytes (f : Nat → UInt8) {j : Nat} (hj : j < 4) :
    byteOfWord (wordOfBytes f) j = f j := by
  have h0 := (f 0).toNat_lt
  have h1 := (f 1).toNat_lt
  have h2 := (f 2).toNat_lt
  have h3 := (f 3).toNat_lt
  apply UInt8.toNat_inj.1
  simp only [byteOfWord, wordOfBytes, UInt8.toNat_ofNat', UInt32.toNat_ofNat']
  obtain rfl | rfl | rfl | rfl : j = 0 ∨ j = 1 ∨ j = 2 ∨ j = 3 := by omega
  all_goals simp only [Nat.shiftRight_eq_div_pow, Nat.reduceMul, Nat.reducePow]; omega

abbrev Page := PerfectTree UInt32 10

namespace Page

def zero : Page := .replicate 0 10

instance : Inhabited Page := ⟨zero⟩

theorem mod_size_of_lt {i : Nat} (hi : i < 1024) : i % PerfectTree.size 10 = i :=
  Nat.mod_eq_of_lt hi

theorem get_set (p : Page) {i j : Nat} (w : UInt32) (hi : i < 1024) (hj : j < 1024) :
    (p.set i w).get j = if j = i then w else p.get j := by
  rw [PerfectTree.get_set, mod_size_of_lt hi, mod_size_of_lt hj]

def byte (p : Page) (k : Nat) : UInt8 := byteOfWord (p.get (k / 4)) (k % 4)

def setByte (p : Page) (k : Nat) (b : UInt8) : Page :=
  let w := p.get (k / 4)
  p.set (k / 4) (wordOfBytes fun j => if j = k % 4 then b else byteOfWord w j)

/-- The page whose byte at `k` is `f k`. -/
def ofBytes (f : Nat → UInt8) : Page :=
  .tabulate (fun i => wordOfBytes fun j => f (4 * i + j)) 10 0

/-- The page filled with `b`, apart from byte `k`, which is its bitwise complement. -/
def marked (b : UInt8) (k : Nat) : Page := ofBytes fun l => if l = k then ~~~b else b

/-- The sum of all bytes. -/
def byteSum (p : Page) : Nat :=
  p.toList.foldl (fun s w => (List.range 4).foldl (fun s j => s + (byteOfWord w j).toNat) s) 0

theorem byte_setByte (p : Page) {k l : Nat} (b : UInt8) (hk : k < 4096) (hl : l < 4096) :
    (p.setByte k b).byte l = if l = k then b else p.byte l := by
  simp only [byte, setByte]
  rw [get_set p _ (by omega) (by omega)]
  by_cases hw : l / 4 = k / 4
  · rw [if_pos hw, byteOfWord_wordOfBytes _ (Nat.mod_lt _ (by decide)), hw]
    have : l % 4 = k % 4 ↔ l = k := by omega
    simp only [this]
  · rw [if_neg hw, if_neg (by rintro rfl; exact hw rfl)]

end Page
end VirtualMemory
