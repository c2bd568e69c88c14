import VirtualMemory.Proofs.Wiring

/-!
# Frames, counts and slots

What the primitive operations do to a snapshot. The only failures left are those of exhaustion:
an empty pool, or a counter at the end of its range.
-/
namespace VirtualMemory

open Layout Snapshot

/-- Some counter has no number left to move on to. -/
def Books.AtLimit (b : Books) : Prop :=
  (∃ f, Shares.countLimit ≤ b.shares.get f + 1) ∨ Spaces.countLimit ≤ b.spaces.nextId + 1 ∨
    ∃ p r, b.spaces.find? p = some r ∧ Spaces.countLimit ≤ r.owners + 1

/-- Failures that no caller can rule out. -/
inductive Exhausted : Failure → Books → Prop where
  | frames {b : Books} (empty : b.free = []) : Exhausted (.halt .outOfFrames) b
  | pool {b : Books} (empty : b.free = []) : Exhausted (.violation .poolExhausted) b
  | limit {b : Books} (full : b.AtLimit) : Exhausted (.violation .additionOverflow) b

/-- The kernel stops: a failure of any kind but a refusal. -/
def Stops (f : Failure) (_ : Books) : Prop := ∀ e, f ≠ .argument e

theorem Stops.halt (h : Halt) (b : Books) : Stops (.halt h) b := by
  intro e same
  cases same

theorem Stops.violation (c : Violation) (b : Books) : Stops (.violation c) b := by
  intro e same
  cases same

theorem Exhausted.stops {f : Failure} {b : Books} (h : Exhausted f b) : Stops f b := by
  cases h <;> exact fun _ => by simp

/-- Those of them that an operation which allocates through the kernel can end with. -/
inductive Depleted : Failure → Books → Prop where
  | frames {b : Books} (empty : b.free = []) : Depleted (.halt .outOfFrames) b
  | limit {b : Books} (full : b.AtLimit) : Depleted (.violation .additionOverflow) b

theorem Depleted.stops {f : Failure} {b : Books} (h : Depleted f b) : Stops f b := by
  cases h <;> exact fun _ => by simp

namespace Kernel

variable {E : Failure → Books → Prop} {w : Snapshot} {d f : Nat}

/-! ## The pool -/

theorem acquireRaw_leads {Q : Nat → Snapshot → Prop}
    (out : w.free = [] → E (.halt .outOfFrames) w.toBooks)
    (h : ∀ f rest, w.free = f :: rest → Q f (w.book { w.toBooks with free := rest })) :
    Leads E acquireRaw w Q := by
  refine .get ?_
  intro s hs
  cases hp : s.pool.free with
  | nil =>
    have empty : w.free = [] := hs ▸ hp
    rw [show s.pool.alloc? = none by simp [FramePool.alloc?, hp]]
    exact .halt (out empty)
  | cons f rest =>
    have first : w.free = f :: rest := hs ▸ hp
    rw [show s.pool.alloc? = some (f, ⟨rest⟩) by simp [FramePool.alloc?, hp]]
    refine (modify_yields ?_).bind (.pure (h f rest first))
    rintro t rfl
    rfl

theorem takeFrame_leads {Q : Nat → Snapshot → Prop}
    (h : ∀ f rest, w.free = f :: rest → Q f (w.book { w.toBooks with free := rest })) :
    Leads Exhausted takeFrame w Q := by
  refine .get ?_
  intro s hs
  cases hp : s.pool.free with
  | nil =>
    have empty : w.free = [] := hs ▸ hp
    rw [show s.pool.take = .error .poolExhausted by simp [FramePool.take, FramePool.alloc?, hp]]
    exact .violate (.pool empty)
  | cons f rest =>
    have first : w.free = f :: rest := hs ▸ hp
    rw [show s.pool.take = .ok (f, ⟨rest⟩) by simp [FramePool.take, FramePool.alloc?, hp]]
    refine (modify_yields ?_).bind (.pure (h f rest first))
    rintro t rfl
    rfl

theorem release_yields (hf : f ∉ w.free) :
    Yields (release f) w () (w.book { w.toBooks with free := f :: w.free }) := by
  refine (note_yields _ _).trans (.get ?_)
  intro s hs
  have out : f ∉ s.pool.free := by
    rw [← hs] at hf
    exact hf
  have free : w.free = s.pool.free := hs ▸ rfl
  rw [show s.pool.release f = .ok ⟨f :: s.pool.free⟩ by simp [FramePool.release, out]]
  refine modify_yields ?_
  rintro t rfl
  rw [free]
  rfl

section Aligned
variable (hw : w.Wired) (hf : Ram.IsFrame w.size f) (hm : f ≠ mountTable)
include hw hf hm

theorem zero_yields (hr : f ≠ w.root) :
    Yields (withFrame f Window.zero) w () (w.setPage f Page.zero) :=
  withFrame_yields hw hf.1 (hw.setPage hr _) (entry_setPage_of_ne _ _ _ hm.symm _)
    (windowSetPage_yields hw hf hm _)

theorem entryOf_yields {i : Nat} (hi : i < tableEntries) :
    Yields (withFrame f (Window.entry i)) w (w.entry f i) w :=
  withFrame_yields hw hf.1 hw rfl (windowEntry_yields hw hf hm hi)

theorem presentCount_yields :
    Yields (withFrame f Window.presentCount) w (w.page f).presentCount w :=
  withFrame_yields hw hf.1 hw rfl ((windowPage_yields hw hf hm).trans (.pure _ _))

end Aligned

/-- A frame from the pool comes zeroed. -/
theorem acquire_leads {Q : Nat → Snapshot → Prop} (hw : w.Wired)
    (usable : ∀ f ∈ w.free, Ram.IsFrame w.size f ∧ f ≠ mountTable ∧ f ≠ w.root)
    (out : w.free = [] → E (.halt .outOfFrames) w.toBooks)
    (h : ∀ f rest, w.free = f :: rest →
      Q f ((w.book { w.toBooks with free := rest }).setPage f Page.zero)) :
    Leads E acquire w Q := by
  refine .bind (acquireRaw_leads out ?_)
  intro f rest first
  obtain ⟨inside, hm, hr⟩ := usable f (first ▸ List.mem_cons_self)
  refine (zero_yields (hw.book { w.toBooks with free := rest }) inside hm hr).bind ?_
  exact (note_yields _ _).bind (.pure (h f rest first))

/-! ## Share counts -/

theorem shareCount_yields (f : Nat) (w : Snapshot) :
    Yields (shareCount f) w (w.shares.get f) w := by
  refine .get ?_
  rintro s rfl
  exact .pure _ _

theorem setShareCount_yields (f n : Nat) (w : Snapshot) :
    Yields (setShareCount f n) w () (w.book { w.toBooks with shares := w.shares.set f n }) := by
  refine modify_yields ?_
  rintro s rfl
  rfl

theorem setShareCount_of_ok {n : Nat} {s t : KernelState} (done : setShareCount f n s = .ok () t) :
    t.snapshot = s.snapshot.book
      { s.snapshot.toBooks with shares := s.snapshot.shares.set f n } := by
  obtain ⟨u, done', books⟩ := setShareCount_yields f n s.snapshot s rfl
  rw [done] at done'
  cases done'
  exact books

theorem shareFrame_leads {Q : Unit → Snapshot → Prop}
    (full : Shares.countLimit ≤ w.shares.get f + 1 → E (.violation .additionOverflow) w.toBooks)
    (h : Q () (w.book { w.toBooks with shares := w.shares.set f (w.shares.get f + 1) })) :
    Leads E (shareFrame f) w Q := by
  refine .get ?_
  intro s hs
  have shares : w.shares = s.shares := hs ▸ rfl
  rw [shares] at h
  unfold Shares.increment
  by_cases room : s.shares.get f + 1 < Shares.countLimit
  · rw [if_pos room]
    refine (modify_yields ?_).leads h
    rintro t rfl
    rfl
  · rw [if_neg room]
    refine .violate (full ?_)
    rw [shares]
    exact not_lt.1 room

theorem unshareFrame_yields (hf : w.shares.get f ≠ 0) :
    Yields (unshareFrame f) w ()
      (w.book { w.toBooks with shares := w.shares.set f (w.shares.get f - 1) }) := by
  refine .get ?_
  intro s hs
  have shares : w.shares = s.shares := hs ▸ rfl
  rw [shares] at hf ⊢
  rw [show s.shares.decrement f = .ok (s.shares.set f (s.shares.get f - 1)) by
    simp [Shares.decrement, hf]]
  refine modify_yields ?_
  rintro t rfl
  rfl

theorem unshareFrame_stops {Q : Unit → Snapshot → Prop} (hf : w.shares.get f = 0) :
    Leads Stops (unshareFrame f) w Q := by
  refine .get ?_
  intro s hs
  have none : s.shares.get f = 0 := by
    rw [← hs] at hf
    exact hf
  rw [show s.shares.decrement f = .error (.shareUnderflow f) from if_pos none]
  exact .violate fun _ => by simp

/-! ## Records of tables -/

theorem seedTable_yields (f n : Nat) (w : Snapshot) :
    Yields (seedTable f n) w () (w.book { w.toBooks with occupancy := w.occupancy.seed f n }) := by
  refine modify_yields ?_
  rintro s rfl
  rfl

theorem forgetTable_yields (f : Nat) (w : Snapshot) :
    Yields (forgetTable f) w () (w.book { w.toBooks with occupancy := w.occupancy.forget f }) := by
  refine modify_yields ?_
  rintro s rfl
  rfl

theorem tableOccupancy_yields (f : Nat) (w : Snapshot) :
    Yields (tableOccupancy f) w (w.occupancy.get f) w := by
  refine .get ?_
  rintro s rfl
  exact .pure _ _

theorem countEntry_yields (hf : w.occupancy.get f < tableEntries) :
    Yields (countEntry f) w ()
      (w.book { w.toBooks with occupancy := w.occupancy.set f (w.occupancy.get f + 1) }) := by
  refine .get ?_
  intro s hs
  have records : w.occupancy = s.occupancy := hs ▸ rfl
  rw [records] at hf ⊢
  rw [show s.occupancy.increment f = .ok (s.occupancy.set f (s.occupancy.get f + 1)) from
    if_pos hf]
  refine modify_yields ?_
  rintro t rfl
  rfl

theorem discountEntry_yields (hf : w.occupancy.get f ≠ 0) :
    Yields (discountEntry f) w (w.occupancy.get f - 1)
      (w.book { w.toBooks with occupancy := w.occupancy.set f (w.occupancy.get f - 1) }) := by
  refine .get ?_
  intro s hs
  have records : w.occupancy = s.occupancy := hs ▸ rfl
  rw [records] at hf ⊢
  rw [show s.occupancy.decrement f = .ok (s.occupancy.set f (s.occupancy.get f - 1)) by
    simp [Occupancy.decrement, hf]]
  refine (modify_yields (v := w.book { w.toBooks with
    occupancy := s.occupancy.set f (s.occupancy.get f - 1) }) ?_).trans ?_
  · rintro t rfl
    rfl
  · have now := Yields.pure ((s.occupancy.set f (s.occupancy.get f - 1)).get f)
      (w.book { w.toBooks with occupancy := s.occupancy.set f (s.occupancy.get f - 1) })
    rwa [show (s.occupancy.set f (s.occupancy.get f - 1)).get f = s.occupancy.get f - 1 by simp]
      at now ⊢

/-! ## Binding -/

theorem bindTable_yields (hw : w.Wired) (hf : Ram.IsFrame w.size f) (hm : f ≠ mountTable)
    (hd : d < tableEntries) (prot : Protection) :
    Yields (bindTable f d prot) w ()
      ((w.book { w.toBooks with
        occupancy := w.occupancy.seed f (w.page f).presentCount }).setEntry w.root d
          (.of f prot.entryFlags)) := by
  rw [bindTable, if_neg (Nat.not_le.2 hd), hf.1]
  refine (presentCount_yields hw hf hm).trans ?_
  refine (seedTable_yields _ _ _).trans ?_
  refine (setSlot_yields (hw.book _) hd _).trans ?_
  exact (flush_yields _).trans (note_yields _ _)

theorem unbindTable_yields (hw : w.Wired) (hd : d < tableEntries)
    (present : (w.entry w.root d).isPresent = true) (out : (w.entry w.root d).frame ∉ w.free) :
    Yields (unbindTable d) w ()
      ((w.setEntry w.root d .empty).book { w.toBooks with
        free := (w.entry w.root d).frame :: w.free
        occupancy := w.occupancy.forget (w.entry w.root d).frame }) := by
  rw [unbindTable, if_neg (Nat.not_le.2 hd)]
  refine (slot_yields hw hd).trans ?_
  rw [if_pos present]
  refine (setSlot_yields hw hd _).trans ?_
  refine (forgetTable_yields _ _).trans ?_
  have freed := release_yields (w := (w.setEntry w.root d .empty).book { w.toBooks with
    occupancy := w.occupancy.forget (w.entry w.root d).frame }) out
  refine freed.trans ?_
  exact (note_yields _ _).trans (flush_yields _)

end Kernel
end VirtualMemory
