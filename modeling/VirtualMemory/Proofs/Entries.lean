import Mathlib.Data.Nat.Bitwise
import VirtualMemory.Entry.Basic

/-!
# Entries, bit by bit

The questions asked of an entry are bits of its word, and its frame is what lies above the flags.
Setting or clearing flags therefore keeps the frame, and an entry built for an aligned frame of a
32-bit address points back at that frame.
-/
namespace VirtualMemory

open Layout

/-- The flags stay clear of the frame. -/
def FlagSet.Low (g : EntryFlags) : Prop := g.bits.toNat < 4096

instance (g : EntryFlags) : Decidable g.Low := inferInstanceAs (Decidable (_ < _))

theorem Protection.low_entryFlags (p : Protection) : p.entryFlags.Low := by
  unfold FlagSet.Low entryFlags
  cases p.grantsWrite <;> cases p.grantsUser <;> decide

theorem Protection.low_entryFlags_inter (p : Protection) (g : EntryFlags) :
    FlagSet.Low (p.entryFlags &&& g) := by
  have := p.low_entryFlags
  unfold FlagSet.Low at this ⊢
  change (p.entryFlags.bits &&& g.bits).toNat < 4096
  rw [UInt32.toNat_and]
  exact Nat.lt_of_le_of_lt Nat.and_le_left this

/-- What two levels of entries have to agree on are flags with a name. -/
theorem Protection.named_entryFlags_inter (p : Protection) :
    (p.entryFlags &&& (EntryFlags.writable ||| EntryFlags.user)).bits &&& entryVocabulary.known =
      (p.entryFlags &&& (EntryFlags.writable ||| EntryFlags.user)).bits := by
  unfold entryFlags
  cases p.grantsWrite <;> cases p.grantsUser <;> decide

theorem EntryFlags.low_kernelData : kernelData.Low := by decide
theorem EntryFlags.low_writable : writable.Low := by decide

namespace Entry

theorem has_two_pow (e : Entry) {k : Nat} (hk : k < 32) :
    e.has ⟨UInt32.ofNat (2 ^ k)⟩ = e.raw.toNat.testBit k := by
  have small : 2 ^ k < 2 ^ 32 := Nat.pow_lt_pow_right (by decide) hk
  have word : (UInt32.ofNat (2 ^ k)).toNat = 2 ^ k := by
    simpa using Nat.mod_eq_of_lt small
  rw [Bool.eq_iff_iff, has, FlagSet.contains, beq_iff_eq, ← UInt32.toNat_inj, UInt32.toNat_and,
    word, Nat.and_two_pow]
  have := Nat.two_pow_pos k
  cases e.raw.toNat.testBit k <;> simp [this.ne]

theorem isPresent_eq (e : Entry) : e.isPresent = e.raw.toNat.testBit 0 :=
  e.has_two_pow (k := 0) (by decide)
theorem isWritable_eq (e : Entry) : e.isWritable = e.raw.toNat.testBit 1 :=
  e.has_two_pow (k := 1) (by decide)
theorem isUser_eq (e : Entry) : e.isUser = e.raw.toNat.testBit 2 :=
  e.has_two_pow (k := 2) (by decide)

theorem isHuge_eq (e : Entry) : e.isHuge = e.raw.toNat.testBit 7 :=
  e.has_two_pow (k := 7) (by decide)

@[simp] theorem isPresent_empty : empty.isPresent = false := rfl

@[simp] theorem isPresent_set (e : Entry) (g : EntryFlags) :
    (e.set g).isPresent = (e.isPresent || g.bits.toNat.testBit 0) := by
  simp [isPresent_eq, set]

@[simp] theorem isWritable_set_writable (e : Entry) : (e.set EntryFlags.writable).isWritable := by
  rw [isWritable_eq, set, UInt32.toNat_or, Nat.testBit_or]
  exact Bool.or_eq_true_iff.2 (.inr rfl)

@[simp] theorem isUser_set_writable (e : Entry) :
    (e.set EntryFlags.writable).isUser = e.isUser := by
  rw [isUser_eq, set, UInt32.toNat_or, Nat.testBit_or, isUser_eq]
  exact Bool.or_false _

theorem testBit_clear (e : Entry) (g : EntryFlags) (i : Nat) :
    (e.clear g).raw.toNat.testBit i = (e.raw.toNat.testBit i && !g.bits.toNat.testBit i) := by
  have bound := g.bits.toNat_lt
  simp only [clear, UInt32.toNat_and, UInt32.toNat_not, Nat.testBit_and]
  rw [show UInt32.size - 1 - g.bits.toNat = 2 ^ 32 - (g.bits.toNat + 1) from by
    simp only [UInt32.size]; omega, Nat.testBit_two_pow_sub_succ bound]
  by_cases hi : i < 32
  · simp [hi]
  · have : e.raw.toNat.testBit i = false := Nat.testBit_lt_two_pow
      (e.raw.toNat_lt.trans_le (Nat.pow_le_pow_right (by decide) (by omega)))
    simp [this]

@[simp] theorem isPresent_clear_writable (e : Entry) :
    (e.clear EntryFlags.writable).isPresent = e.isPresent := by
  rw [isPresent_eq, testBit_clear, isPresent_eq]
  exact Bool.and_true _

@[simp] theorem isWritable_clear_writable (e : Entry) :
    (e.clear EntryFlags.writable).isWritable = false := by
  rw [isWritable_eq, testBit_clear]
  exact Bool.and_false _

@[simp] theorem isUser_clear_writable (e : Entry) :
    (e.clear EntryFlags.writable).isUser = e.isUser := by
  rw [isUser_eq, testBit_clear, isUser_eq]
  exact Bool.and_true _

/-- Entries that agree above the flags point at the same frame. -/
theorem frame_congr {a b : Entry}
    (h : ∀ i, 12 ≤ i → a.raw.toNat.testBit i = b.raw.toNat.testBit i) : a.frame = b.frame := by
  have quotient : a.raw.toNat / 2 ^ 12 = b.raw.toNat / 2 ^ 12 := by
    apply Nat.eq_of_testBit_eq
    intro i
    rw [Nat.testBit_div_two_pow, Nat.testBit_div_two_pow]
    exact h _ (by omega)
  exact congrArg (· * pageSize) quotient

theorem testBit_low {g : EntryFlags} (hg : g.Low) {i : Nat} (hi : 12 ≤ i) :
    g.bits.toNat.testBit i = false :=
  Nat.testBit_lt_two_pow (Nat.lt_of_lt_of_le hg (Nat.pow_le_pow_right (n := 2) (by decide) hi))

theorem frame_set (e : Entry) {g : EntryFlags} (hg : g.Low) : (e.set g).frame = e.frame :=
  frame_congr fun i hi => by simp [set, Nat.testBit_or, testBit_low hg hi]

theorem frame_clear (e : Entry) {g : EntryFlags} (hg : g.Low) : (e.clear g).frame = e.frame :=
  frame_congr fun i hi => by simp [testBit_clear, testBit_low hg hi]

@[simp] theorem frame_set_writable (e : Entry) : (e.set EntryFlags.writable).frame = e.frame :=
  e.frame_set EntryFlags.low_writable

@[simp] theorem frame_clear_writable (e : Entry) :
    (e.clear EntryFlags.writable).frame = e.frame := e.frame_clear EntryFlags.low_writable

theorem toNat_of {f : Nat} (hf : isAligned f = true) (small : f < 0x100000000) {g : EntryFlags}
    (hg : g.Low) : (of f g).raw.toNat = f + g.bits.toNat := by
  rw [isAligned_iff] at hf
  have split : 2 ^ 12 * (f / 4096) = f := by omega
  rw [of, UInt32.toNat_or, UInt32.toNat_ofNat', Nat.mod_eq_of_lt small, ← split,
    Nat.two_pow_add_eq_or_of_lt hg]

theorem frame_of {f : Nat} (hf : isAligned f = true) (small : f < 0x100000000) {g : EntryFlags}
    (hg : g.Low) : (of f g).frame = f := by
  have := toNat_of hf small hg
  rw [isAligned_iff] at hf
  unfold FlagSet.Low at hg
  simp only [frame, pageSize]
  omega

/-- An entry for the frame of another points where that one does. -/
@[simp] theorem frame_of_frame (e : Entry) (p : Protection) :
    (of e.frame p.entryFlags).frame = e.frame :=
  frame_of e.frame_aligned e.frame_lt p.low_entryFlags

/-- The flags an entry is built with are its flags, whatever the frame. -/
theorem isPresent_of {f : Nat} {g : EntryFlags} (hg : g.contains EntryFlags.present = true) :
    (of f g).isPresent = true := by
  have low : g.bits.toNat.testBit 0 = true := by 
    rw [← has_two_pow ⟨g.bits⟩ (k := 0) (by decide)]
    exact hg
  rw [isPresent_eq, of, UInt32.toNat_or, Nat.testBit_or, low, Bool.or_true]

/-- Below the frame, an entry has the bits of its flags. -/
theorem testBit_of {f i : Nat} (hf : isAligned f = true) (hi : i < 12) (g : EntryFlags) :
    (of f g).raw.toNat.testBit i = g.bits.toNat.testBit i := by
  rw [isAligned_iff] at hf
  have split : f = 2 ^ 12 * (f / 4096) := by omega
  have clear : f.testBit i = false := by
    rw [split, Nat.testBit_two_pow_mul]
    simp [hi]
  rw [of, UInt32.toNat_or, Nat.testBit_or, UInt32.toNat_ofNat', Nat.testBit_mod_two_pow, clear,
    Bool.and_false, Bool.false_or]

/-- Protections grant writing and user access through the entries that they build. -/
theorem isWritable_of {f : Nat} (hf : isAligned f = true) (p : Protection) :
    (of f p.entryFlags).isWritable = p.grantsWrite := by
  rw [isWritable_eq, testBit_of hf (by decide)]
  unfold Protection.entryFlags
  cases p.grantsWrite <;> cases p.grantsUser <;> rfl

theorem isUser_of {f : Nat} (hf : isAligned f = true) (p : Protection) :
    (of f p.entryFlags).isUser = p.grantsUser := by
  rw [isUser_eq, testBit_of hf (by decide)]
  unfold Protection.entryFlags
  cases p.grantsWrite <;> cases p.grantsUser <;> rfl

/-! ## Rights -/

/-- An entry has a set of flags if it has each of them. -/
theorem has_iff (e : Entry) (g : EntryFlags) : e.has g = true ↔
    ∀ i, g.bits.toNat.testBit i = true → e.raw.toNat.testBit i = true := by
  rw [has, FlagSet.contains, beq_iff_eq, ← UInt32.toNat_inj, UInt32.toNat_and]
  constructor
  · intro same i set
    rw [← same, Nat.testBit_and, Bool.and_eq_true] at set
    exact set.1
  · intro all
    apply Nat.eq_of_testBit_eq
    intro i
    cases set : g.bits.toNat.testBit i <;> grind

/-- Every right that the second entry grants, the first one grants too. -/
structure Covers (s e : Entry) : Prop where
  write : e.isWritable = true → s.isWritable = true
  user : e.isUser = true → s.isUser = true

theorem Covers.refl (e : Entry) : e.Covers e := ⟨id, id⟩

theorem Covers.trans {s e g : Entry} (h : s.Covers e) (h' : e.Covers g) : s.Covers g :=
  ⟨h.write ∘ h'.write, h.user ∘ h'.user⟩

theorem covers_set (e : Entry) (g : EntryFlags) : (e.set g).Covers e := by
  constructor <;> intro right
  · rw [isWritable_eq] at *
    simp [set, right]
  · rw [isUser_eq] at *
    simp [set, right]

theorem covers_clear_writable (e : Entry) : e.Covers (e.clear EntryFlags.writable) :=
  ⟨by simp, by simp⟩

/-- With its write bit an entry still needs no more than a slot that has one. -/
theorem Covers.set_writable {s e : Entry} (h : s.Covers e) (writable : s.isWritable = true) :
    s.Covers (e.set EntryFlags.writable) := by
  refine ⟨fun _ => writable, fun user => h.user ?_⟩
  rw [isUser_eq, set, UInt32.toNat_or, Nat.testBit_or] at user
  rw [isUser_eq]
  exact (Bool.or_eq_true_iff.1 user).resolve_right (by decide)

/-- The bits in which an entry with these rights can exceed its slot. -/
theorem testBit_needed (p : Protection) :
    (p.entryFlags &&& (EntryFlags.writable ||| EntryFlags.user)).bits.toNat.testBit 1 =
      p.grantsWrite ∧
    (p.entryFlags &&& (EntryFlags.writable ||| EntryFlags.user)).bits.toNat.testBit 2 =
      p.grantsUser := by
  unfold Protection.entryFlags
  cases p.grantsWrite <;> cases p.grantsUser <;> exact ⟨rfl, rfl⟩

/-- A slot that has these bits covers the entry. -/
theorem covers_of {s : Entry} {f : Nat} (hf : isAligned f = true) {p : Protection}
    (has : s.has (p.entryFlags &&& (EntryFlags.writable ||| EntryFlags.user)) = true) :
    s.Covers (of f p.entryFlags) := by
  rw [has_iff] at has
  obtain ⟨write, user⟩ := testBit_needed p
  constructor <;> intro right
  · rw [isWritable_of hf] at right
    rw [isWritable_eq]
    exact has 1 (write.trans right)
  · rw [isUser_of hf] at right
    rw [isUser_eq]
    exact has 2 (user.trans right)

theorem has_set (e : Entry) (g : EntryFlags) : (e.set g).has g = true := by
  rw [has_iff]
  intro i set
  simp [Entry.set, set]

/-- Setting flags that are set changes nothing. -/
theorem set_of_has {e : Entry} {g : EntryFlags} (has : e.has g = true) : e.set g = e := by
  rw [has_iff] at has
  have raw : e.raw ||| g.bits = e.raw := by
    apply UInt32.toNat_inj.1
    apply Nat.eq_of_testBit_eq
    intro i
    rw [UInt32.toNat_or, Nat.testBit_or]
    cases set : g.bits.toNat.testBit i <;> grind
  rw [Entry.set, raw]

/-! ## Slots with the rights of a page -/

/-- A slot's entry, with the rights that a page of this protection needs on it. -/
def widened (e : Entry) (p : Protection) : Entry :=
  e.set (p.entryFlags &&& (EntryFlags.writable ||| EntryFlags.user))

section Widened
variable (e : Entry) (p : Protection)

theorem testBit_widened (i : Nat) : (e.widened p).raw.toNat.testBit i =
    (e.raw.toNat.testBit i ||
      (p.entryFlags &&& (EntryFlags.writable ||| EntryFlags.user)).bits.toNat.testBit i) := by
  rw [widened, set, UInt32.toNat_or, Nat.testBit_or]

@[simp] theorem isPresent_widened : (e.widened p).isPresent = e.isPresent := by
  rw [isPresent_eq, testBit_widened, isPresent_eq]
  unfold Protection.entryFlags
  cases p.grantsWrite <;> cases p.grantsUser <;> exact Bool.or_false _

@[simp] theorem isHuge_widened : (e.widened p).isHuge = e.isHuge := by
  rw [isHuge_eq, testBit_widened, isHuge_eq]
  unfold Protection.entryFlags
  cases p.grantsWrite <;> cases p.grantsUser <;> exact Bool.or_false _

@[simp] theorem frame_widened : (e.widened p).frame = e.frame :=
  frame_set _ (p.low_entryFlags_inter _)

@[simp] theorem isWritable_widened :
    (e.widened p).isWritable = (e.isWritable || p.grantsWrite) := by
  rw [isWritable_eq, testBit_widened, (testBit_needed p).1, isWritable_eq]

@[simp] theorem isUser_widened : (e.widened p).isUser = (e.isUser || p.grantsUser) := by
  rw [isUser_eq, testBit_widened, (testBit_needed p).2, isUser_eq]

theorem covers_widened : (e.widened p).Covers e := covers_set e _

/-- It covers the page too. -/
theorem widened_covers {f : Nat} (hf : isAligned f = true) :
    (e.widened p).Covers (of f p.entryFlags) := covers_of hf (has_set e _)

end Widened

theorem widened_of_has {e : Entry} {p : Protection}
    (has : e.has (p.entryFlags &&& (EntryFlags.writable ||| EntryFlags.user)) = true) :
    e.widened p = e := set_of_has has

/-! ## All but the rights -/

/-- The two agree in all bits but those that grant writing and user access. -/
def SameBesideRights (e e' : Entry) : Prop :=
  ∀ k, k ≠ 1 → k ≠ 2 → e'.raw.toNat.testBit k = e.raw.toNat.testBit k

section Rights
variable {e e' e'' : Entry}

theorem SameBesideRights.refl (e : Entry) : e.SameBesideRights e := fun _ _ _ => rfl

theorem SameBesideRights.trans (h : e.SameBesideRights e') (h' : e'.SameBesideRights e'') :
    e.SameBesideRights e'' := fun k write user => (h' k write user).trans (h k write user)

theorem SameBesideRights.isPresent (h : e.SameBesideRights e') : e'.isPresent = e.isPresent := by
  rw [isPresent_eq, isPresent_eq, h 0 (by decide) (by decide)]

theorem SameBesideRights.frame (h : e.SameBesideRights e') : e'.frame = e.frame :=
  frame_congr fun k high => h k (by omega) (by omega)

theorem sameBesideRights_widened (e : Entry) (prot : Protection) :
    e.SameBesideRights (e.widened prot) := by
  intro k write user
  have below : ∀ k < 12, k ≠ 1 → k ≠ 2 → (prot.entryFlags &&&
      (EntryFlags.writable ||| EntryFlags.user)).bits.toNat.testBit k = false := by
    unfold Protection.entryFlags
    cases prot.grantsWrite <;> cases prot.grantsUser <;> decide
  rw [testBit_widened]
  by_cases high : 12 ≤ k
  · rw [testBit_low (prot.low_entryFlags_inter _) high, Bool.or_false]
  · rw [below k (by omega) write user, Bool.or_false]

end Rights

theorem isPresent_kernelData (f : Nat) : (of f EntryFlags.kernelData).isPresent = true :=
  isPresent_of rfl

theorem isPresent_entryFlags (f : Nat) (p : Protection) : (of f p.entryFlags).isPresent = true := by
  refine isPresent_of ?_
  unfold Protection.entryFlags
  cases p.grantsWrite <;> cases p.grantsUser <;> rfl

end Entry

namespace Mapping

/-- Cutting an entry down to the flags with a name keeps those it is asked for. -/
theorem contains_flags (e : Entry) {g : EntryFlags}
    (named : g.bits &&& entryVocabulary.known = g.bits) :
    (ofEntry e).flags.contains g = e.has g := by
  change ((e.raw &&& entryVocabulary.known) &&& g.bits == _) = _
  rw [UInt32.and_assoc, UInt32.and_comm entryVocabulary.known, named]
  rfl

/-- An entry has the rights that it was made with. -/
theorem contains_entryFlags (f : Nat) (p : Protection) : (Entry.of f p.entryFlags).flags.contains
    (p.entryFlags &&& (EntryFlags.writable ||| EntryFlags.user)) = true := by
  refine (contains_flags _ p.named_entryFlags_inter).trans ((Entry.has_iff _ _).2 fun i set => ?_)
  have both : (p.entryFlags.bits &&&
      (EntryFlags.writable ||| EntryFlags.user).bits).toNat.testBit i = true := set
  rw [UInt32.toNat_and, Nat.testBit_and, Bool.and_eq_true] at both
  simp [Entry.of, both.1]

theorem isWritable_ofEntry (e : Entry) : (ofEntry e).isWritable = e.isWritable :=
  contains_flags e (by decide)
theorem isUser_ofEntry (e : Entry) : (ofEntry e).isUser = e.isUser :=
  contains_flags e (by decide)

end Mapping
end VirtualMemory
