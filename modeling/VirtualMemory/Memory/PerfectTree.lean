/-!
# Perfect binary trees

`PerfectTree α h` holds `size h` values in order, two to the power `h`, numbered from zero. Reading
and writing one value takes `h` steps, one for each of the low `h` bits of its index from the
highest down; further bits are ignored. An untouched half is shared between the old tree and the
new.
-/
namespace VirtualMemory

inductive PerfectTree (α : Type) : Nat → Type where
  | leaf (a : α) : PerfectTree α 0
  | node {h : Nat} (left right : PerfectTree α h) : PerfectTree α (h + 1)
  deriving DecidableEq, Repr

namespace PerfectTree
variable {α : Type}

/-- The number of values in a tree of height `h`. -/
def size (h : Nat) : Nat := 1 <<< h

def replicate (a : α) : (h : Nat) → PerfectTree α h
  | 0 => .leaf a
  | h + 1 => .node (replicate a h) (replicate a h)

/-- The tree whose value at `i` is `f (start + i)`. -/
def tabulate (f : Nat → α) : (h start : Nat) → PerfectTree α h
  | 0, start => .leaf (f start)
  | h + 1, start => .node (tabulate f h start) (tabulate f h (start + size h))

def get : {h : Nat} → PerfectTree α h → Nat → α
  | _, .leaf a, _ => a
  | _, @node _ h l r, i => if i.testBit h then r.get i else l.get i

def set : {h : Nat} → PerfectTree α h → Nat → α → PerfectTree α h
  | _, .leaf _, _, b => .leaf b
  | _, @node _ h l r, i, b => if i.testBit h then .node l (r.set i b) else .node (l.set i b) r

/-- The first `k` values of `a`, followed by those of `b`. -/
def splice : {h : Nat} → Nat → PerfectTree α h → PerfectTree α h → PerfectTree α h
  | _, k, .leaf a, .leaf b => .leaf (if k = 0 then b else a)
  | _, k, @node _ h l r, .node l' r' =>
    if k ≤ size h then .node (l.splice k l') r' else .node l (r.splice (k - size h) r')

def toList : {h : Nat} → PerfectTree α h → List α
  | _, .leaf a => [a]
  | _, .node l r => l.toList ++ r.toList

/-- How many values satisfy `p`. -/
def count (p : α → Bool) : {h : Nat} → PerfectTree α h → Nat
  | _, .leaf a => if p a then 1 else 0
  | _, .node l r => l.count p + r.count p

theorem size_pos (h : Nat) : 0 < size h := by
  rw [size, Nat.one_shiftLeft]; exact Nat.two_pow_pos h

theorem size_succ (h : Nat) : size (h + 1) = size h + size h := by
  simp only [size, Nat.one_shiftLeft, Nat.pow_succ]; omega

/-- The low `h + 1` bits of `i` are the low `h` bits and the bit above them. -/
theorem mod_size_succ (i h : Nat) :
    i % size (h + 1) = i % size h + if i.testBit h then size h else 0 := by
  simp only [size, Nat.one_shiftLeft]
  rw [Nat.mod_pow_succ, Nat.testBit_eq_decide_div_mod_eq]
  rcases Nat.mod_two_eq_zero_or_one (i / 2 ^ h) with e | e <;> simp [e]

theorem testBit_mod_size {h k : Nat} (hk : h < k) (i : Nat) :
    (i % size k).testBit h = i.testBit h := by
  simp [size, Nat.one_shiftLeft, Nat.testBit_mod_two_pow, hk]

theorem testBit_of_lt_size {i h : Nat} (hi : i < size h) : i.testBit h = false := by
  have := mod_size_succ i h
  rw [Nat.mod_eq_of_lt hi, Nat.mod_eq_of_lt (by rw [size_succ]; omega)] at this
  cases e : i.testBit h with
  | false => rfl
  | true => simp only [e, if_true] at this; have := size_pos h; omega

theorem testBit_size_add {i h : Nat} (hi : i < size h) : (size h + i).testBit h = true := by
  have := mod_size_succ (size h + i) h
  rw [Nat.add_mod_left, Nat.mod_eq_of_lt hi, Nat.mod_eq_of_lt (by rw [size_succ]; omega)] at this
  cases e : (size h + i).testBit h with
  | false => simp [e] at this; have := size_pos h; omega
  | true => rfl

theorem get_mod {h : Nat} (t : PerfectTree α h) (i : Nat) : t.get (i % size h) = t.get i := by
  suffices ∀ {h k : Nat} (t : PerfectTree α h) (i : Nat), h ≤ k → t.get (i % size k) = t.get i from
    this t i (Nat.le_refl h)
  intro h k t i hk
  induction t with
  | leaf a => rfl
  | @node h l r ihl ihr =>
    simp only [get, testBit_mod_size (show h < k by omega), ihl (by omega), ihr (by omega)]

@[simp] theorem get_replicate (a : α) (h i : Nat) : (replicate a h).get i = a := by
  induction h with
  | zero => rfl
  | succ h ih => simp [replicate, get, ih]

theorem get_set {h : Nat} (t : PerfectTree α h) (i j : Nat) (b : α) :
    (t.set i b).get j = if j % size h = i % size h then b else t.get j := by
  induction t with
  | leaf a => simp [set, get, size, Nat.mod_one]
  | @node h l r ihl ihr =>
    have hi := Nat.mod_lt i (size_pos h)
    have hj := Nat.mod_lt j (size_pos h)
    simp only [set, mod_size_succ]
    cases i.testBit h <;> cases ej : j.testBit h
    · simp [get, ej, ihl]
    · simp [get, ej]; omega
    · simp [get, ej]; omega
    · simp [get, ej, ihr]

theorem get_splice {h : Nat} (k : Nat) (s t : PerfectTree α h) (i : Nat) :
    (s.splice k t).get i = if i % size h < k then s.get i else t.get i := by
  induction s generalizing k with
  | leaf a =>
    cases t
    by_cases hk : k = 0 <;> simp [splice, get, hk, size, Nat.mod_one, Nat.pos_iff_ne_zero]
  | @node h l r ihl ihr =>
    cases t with
    | node l' r' =>
      have hi := Nat.mod_lt i (size_pos h)
      simp only [splice, mod_size_succ]
      by_cases hk : k ≤ size h <;> cases ei : i.testBit h
      · simp [hk, get, ei, ihl]
      · simp [hk, get, ei, show ¬ i % size h + size h < k by omega]
      · simp [hk, get, ei, show i % size h < k by omega]
      · have : i % size h + size h < k ↔ i % size h < k - size h := by omega
        simp [hk, get, ei, ihr, this]

/-- A tree is determined by its values. -/
theorem ext_get {h : Nat} {s t : PerfectTree α h} (e : ∀ i < size h, s.get i = t.get i) :
    s = t := by
  induction s with
  | leaf a =>
    cases t with
    | leaf b => exact congrArg leaf (e 0 (size_pos 0))
  | @node h l r ihl ihr =>
    cases t with
    | node l' r' =>
      have left : ∀ i < size h, l.get i = l'.get i := fun i hi => by
        simpa [get, testBit_of_lt_size hi] using e i (by rw [size_succ]; omega)
      have right : ∀ i < size h, r.get i = r'.get i := fun i hi => by
        have := e (size h + i) (by rw [size_succ]; omega)
        simp only [get, testBit_size_add hi, if_true] at this
        rwa [← get_mod, ← get_mod r', Nat.add_mod_left, Nat.mod_eq_of_lt hi] at this
      rw [ihl left, ihr right]

end PerfectTree
end VirtualMemory
