import Mathlib.Order.Interval.Finset.Nat
import Mathlib.Data.Nat.Count
import VirtualMemory.Bookkeeping.Occupancy
import VirtualMemory.Proofs.Frames

/-!
# Counting present entries

How the number of present entries of a table moves when one entry is written, and which tables
have a record of it.
-/
namespace VirtualMemory

open Layout

/-- What holds of the same numbers is counted alike. -/
theorem count_congr {P Q : Nat → Prop} [DecidablePred P] [DecidablePred Q] {n : Nat}
    (h : ∀ i < n, P i ↔ Q i) : Nat.count P n = Nat.count Q n :=
  Nat.le_antisymm (Nat.count_mono_left fun i hi => (h i hi).1)
    (Nat.count_mono_left fun i hi => (h i hi).2)

namespace PerfectTree
variable {α : Type}

theorem count_set (P : α → Bool) {h : Nat} (t : PerfectTree α h) (i : Nat) (b : α) :
    (t.set i b).count P + (P (t.get i)).toNat = t.count P + (P b).toNat := by
  induction t with
  | leaf a =>
    simp only [set, get, count]
    cases P a <;> cases P b <;> rfl
  | @node h l r ihl ihr =>
    simp only [set, get]
    split <;> simp only [count] <;> omega

theorem count_eq_nat_count (P : α → Bool) {h : Nat} (t : PerfectTree α h) :
    t.count P = Nat.count (fun i => P (t.get i) = true) (size h) := by
  induction t with
  | leaf a =>
    rw [show size 0 = 0 + 1 from rfl, Nat.count_succ, Nat.count_zero, Nat.zero_add]
    rfl
  | @node h l r ihl ihr =>
    rw [size_succ, Nat.count_add, count, ihl, ihr, Nat.count_eq_card_filter_range,
      Nat.count_eq_card_filter_range, Nat.count_eq_card_filter_range,
      Nat.count_eq_card_filter_range]
    congr 2
    · apply Finset.filter_congr
      intro i hi
      rw [get, testBit_of_lt_size (Finset.mem_range.1 hi)]
      rfl
    · apply Finset.filter_congr
      intro i hi
      rw [get, testBit_size_add (Finset.mem_range.1 hi), if_pos rfl, ← get_mod r (size h + i),
        Nat.add_mod_left, get_mod]

end PerfectTree

namespace Page

variable {p : Page} {i : Nat}

/-- The indices of the present entries. -/
def presentEntries (p : Page) : Finset Nat :=
  (Finset.range tableEntries).filter fun i => (p.entry i).isPresent = true

theorem presentCount_eq_card (p : Page) : p.presentCount = p.presentEntries.card := by
  rw [presentCount, PerfectTree.count_eq_nat_count, Nat.count_eq_card_filter_range]
  rfl

theorem presentCount_setEntry (p : Page) (i : Nat) (e : Entry) :
    (p.setEntry i e).presentCount + (p.entry i).isPresent.toNat =
      p.presentCount + e.isPresent.toNat :=
  PerfectTree.count_set (fun w => (Entry.mk w).isPresent) p i e.raw

@[simp] theorem presentCount_zero : zero.presentCount = 0 := by
  rw [presentCount_eq_card, Finset.card_eq_zero]
  exact Finset.filter_eq_empty_iff.2 fun i _ => by simp

theorem presentCount_pos (hi : i < tableEntries) (h : (p.entry i).isPresent = true) :
    0 < p.presentCount := by
  rw [presentCount_eq_card, Finset.card_pos]
  exact ⟨i, Finset.mem_filter.2 ⟨Finset.mem_range.2 hi, h⟩⟩

theorem exists_present (h : p.presentCount ≠ 0) :
    ∃ i < tableEntries, (p.entry i).isPresent = true := by
  rw [presentCount_eq_card, Finset.card_ne_zero] at h
  obtain ⟨i, hi⟩ := h
  obtain ⟨bound, present⟩ := Finset.mem_filter.1 hi
  exact ⟨i, Finset.mem_range.1 bound, present⟩

/-- A table with an entry to spare is not full. -/
theorem presentCount_lt (hi : i < tableEntries) (h : (p.entry i).isPresent = false) :
    p.presentCount < tableEntries := by
  rw [presentCount_eq_card, ← Finset.card_range tableEntries]
  refine Finset.card_lt_card (Finset.filter_ssubset.2 ⟨i, Finset.mem_range.2 hi, ?_⟩)
  simp [h]

theorem presentCount_setEntry_of_present {e : Entry} (before : (p.entry i).isPresent = true)
    (after : e.isPresent = true) : (p.setEntry i e).presentCount = p.presentCount := by
  have := p.presentCount_setEntry i e
  rw [before, after] at this
  exact Nat.add_right_cancel this

theorem presentCount_setEntry_fill {e : Entry} (before : (p.entry i).isPresent = false)
    (after : e.isPresent = true) : (p.setEntry i e).presentCount = p.presentCount + 1 := by
  have := p.presentCount_setEntry i e
  rwa [before, after] at this

theorem presentCount_setEntry_drop {e : Entry} (before : (p.entry i).isPresent = true)
    (after : e.isPresent = false) : (p.setEntry i e).presentCount = p.presentCount - 1 := by
  have := p.presentCount_setEntry i e
  rw [before, after] at this
  exact Nat.eq_sub_of_add_eq this

theorem absent_of_presentCount_zero (h : p.presentCount = 0) (hi : i < tableEntries) :
    (p.entry i).isPresent = false := by
  by_contra present
  exact (presentCount_pos hi (by simpa using present)).ne' h

theorem presentCount_le (p : Page) : p.presentCount ≤ tableEntries := by
  rw [presentCount_eq_card, ← Finset.card_range tableEntries]
  exact Finset.card_filter_le _ _

end Page

namespace Occupancy

variable {o : Occupancy} {f g n : Nat}

theorem mem_set : g ∈ (o.set f n).counts ↔ f = g ∨ g ∈ o.counts := by
  simp [set, Std.ExtTreeMap.mem_insert]

theorem mem_forget : g ∈ (o.forget f).counts ↔ f ≠ g ∧ g ∈ o.counts := by
  simp [forget, Std.ExtTreeMap.mem_erase]

theorem mem_seed : g ∈ (o.seed f n).counts ↔ if f = g then n ≠ 0 else g ∈ o.counts := by
  unfold seed
  by_cases none : n = 0
  · simp [none, mem_forget]
  · by_cases same : f = g <;> simp [none, mem_set, same]

theorem get_seed : (o.seed f n).get g = if f = g then n % countLimit else o.get g := by
  unfold seed
  by_cases none : n = 0 <;> simp [none]

theorem get_of_not_mem (h : f ∉ o.counts) : o.get f = 0 := by
  rw [get, Std.ExtTreeMap.getD_eq_fallback h]

/-- The same tables have a record, and of the same number. -/
theorem ext_get {o o' : Occupancy} (get : ∀ f, o.get f = o'.get f)
    (mem : ∀ f, f ∈ o.counts ↔ f ∈ o'.counts) : o = o' := by
  obtain ⟨m⟩ := o
  obtain ⟨m'⟩ := o'
  refine congrArg mk (Std.ExtTreeMap.ext_getElem? fun f => ?_)
  have same := get f
  have both := mem f
  rw [Occupancy.get, Occupancy.get, Std.ExtTreeMap.getD_eq_getD_getElem?,
    Std.ExtTreeMap.getD_eq_getD_getElem?] at same
  rw [Std.ExtTreeMap.mem_iff_isSome_getElem?, Std.ExtTreeMap.mem_iff_isSome_getElem?] at both
  cases first : m[f]? <;> cases second : m'[f]? <;> simp_all

theorem forget_set (o : Occupancy) (f n : Nat) : (o.set f n).forget f = o.forget f := by
  refine ext_get (fun g => ?_) fun g => ?_
  · simp only [get_forget, get_set]
    split <;> rfl
  · rw [mem_forget, mem_forget, mem_set]
    exact and_congr_right fun other => or_iff_right other

/-- The records are as many as the frames that have one. -/
theorem tracked_eq_card {F : Finset Nat} (h : ∀ f, f ∈ o.counts ↔ f ∈ F) : o.tracked = F.card := by
  have keys : F = o.counts.keys.toFinset := by
    ext f
    rw [List.mem_toFinset, Std.ExtTreeMap.mem_keys, h]
  rw [keys, List.toFinset_card_of_nodup o.counts.nodup_keys, Std.ExtTreeMap.length_keys, tracked]

end Occupancy
end VirtualMemory
