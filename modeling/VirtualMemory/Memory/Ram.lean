import VirtualMemory.Layout
import VirtualMemory.Memory.Page

/-!
# Physical memory

Frames follow each other from a fixed base address. An address below the base or past the last
frame has no contents; writing there changes nothing.
-/
namespace VirtualMemory

open Layout

structure Ram where
  frames : Array Page
  deriving DecidableEq

namespace Ram

/-- Address of the first frame. -/
abbrev base : Nat := 0x100000

/-- `n` frames of zeros. -/
def blank (n : Nat) : Ram := ⟨Array.replicate n Page.zero⟩

/-- Address of frame `k`. -/
def frameAddress (k : Nat) : Nat := base + k * pageSize

def limit (r : Ram) : Nat := frameAddress r.frames.size

/-- The number of the frame that holds `pa`, for addresses from the base on. -/
def frameIndex (pa : Nat) : Nat := (pa - base) / pageSize

def contains (r : Ram) (pa : Nat) : Bool := base ≤ pa && frameIndex pa < r.frames.size

/-- The contents of the frame that holds `pa`. -/
def page? (r : Ram) (pa : Nat) : Option Page :=
  if base ≤ pa then r.frames[frameIndex pa]? else none

def modifyPage (r : Ram) (pa : Nat) (f : Page → Page) : Ram :=
  if base ≤ pa then ⟨r.frames.modify (frameIndex pa) f⟩ else r

/-- The word at `pa`, an address divisible by four. -/
def word? (r : Ram) (pa : Nat) : Option UInt32 := (r.page? pa).map (·.get (pa % pageSize / 4))

def setWord (r : Ram) (pa : Nat) (w : UInt32) : Ram :=
  r.modifyPage pa (·.set (pa % pageSize / 4) w)

def byte? (r : Ram) (pa : Nat) : Option UInt8 := (r.page? pa).map (Page.byte · (pa % pageSize))

def setByte (r : Ram) (pa : Nat) (b : UInt8) : Ram :=
  r.modifyPage pa (Page.setByte · (pa % pageSize) b)

theorem contains_iff_isSome (r : Ram) (pa : Nat) : r.contains pa = (r.page? pa).isSome := by
  unfold contains page?
  by_cases hb : base ≤ pa
  · by_cases hk : frameIndex pa < r.frames.size <;> simp [hb, hk]
  · simp [hb]

@[simp] theorem size_modifyPage (r : Ram) (pa : Nat) (f : Page → Page) :
    (r.modifyPage pa f).frames.size = r.frames.size := by
  unfold modifyPage; split <;> simp

theorem page?_modifyPage (r : Ram) (f : Page → Page) {pa qa : Nat} (hp : base ≤ pa) :
    (r.modifyPage pa f).page? qa =
      if base ≤ qa ∧ frameIndex qa = frameIndex pa then (r.page? qa).map f else r.page? qa := by
  unfold page? modifyPage
  rw [if_pos hp]
  by_cases hq : base ≤ qa
  · simp only [hq, true_and, if_true, Array.getElem?_modify, eq_comm]
  · simp [hq]

end Ram
end VirtualMemory
