import VirtualMemory.Proofs.Operations.Steady
import VirtualMemory.Proofs.Outline.Basic

/-!
# Work on the resident space

Mapping, unmapping and changing rights leave a lodged snapshot lodged, whichever frames are mapped
and whatever the tables hold. They may stop the kernel, where a record is full or at zero before its
time. Directories that are stored away keep leading where they led.
-/
namespace VirtualMemory

open Layout

namespace Snapshot

/-- The table `f` is bound at slot `d`, and its entries are counted. -/
def bound (w : Snapshot) (f d : Nat) (prot : Protection) : Snapshot :=
  (w.book { w.toBooks with occupancy := w.occupancy.seed f (w.page f).presentCount }).setEntry
    w.root d (.of f prot.entryFlags)

/-- The table at slot `d` is unbound and goes back to the pool. -/
def unbound (w : Snapshot) (d : Nat) : Snapshot :=
  (w.setEntry w.root d .empty).book { w.toBooks with
    free := (w.entry w.root d).frame :: w.free
    occupancy := w.occupancy.forget (w.entry w.root d).frame }

/-- Only the resident directory, tables and the books beside the register are worked on. -/
structure Edits (w v : Snapshot) : Prop where
  root : v.root = w.root
  size : v.size = w.size
  spaces : v.spaces = w.spaces
  stored : ∀ p r d, w.spaces.find? p = some r → d < userSlots →
    (v.entry r.directory d).SameTarget (w.entry r.directory d)
  placed : ∃ role, v.Placed role

variable {w v u : Snapshot} {role : Nat → Role} {f d t p : Nat} {e : Entry} {r : SpaceRecord}

namespace Edits

theorem refl (h : w.Placed role) : w.Edits w := ⟨rfl, rfl, rfl, fun _ _ _ _ _ => .refl _, _, h⟩

theorem trans (h : w.Edits v) (h' : v.Edits u) : w.Edits u where
  root := h'.root.trans h.root
  size := h'.size.trans h.size
  spaces := h'.spaces.trans h.spaces
  stored p r d hr hd := (h'.stored p r d (h.spaces ▸ hr) hd).trans (h.stored p r d hr hd)
  placed := h'.placed

/-- Where no stored directory is written, the frames' places are all there is to see to. -/
theorem of_page (root : v.root = w.root) (size : v.size = w.size) (spaces : v.spaces = w.spaces)
    (page : ∀ p r, w.spaces.find? p = some r → v.page r.directory = w.page r.directory)
    (h : ∃ role, v.Placed role) : w.Edits v := by
  refine ⟨root, size, spaces, fun p r d hr _ => ?_, h⟩
  rw [entry, page p r hr]
  exact .refl _

/-- An entry of a bound table. -/
theorem setLeaf (h : w.Placed role) {π : Place} (hf : role f = .table π) (i : Nat) (e : Entry) :
    w.Edits (w.setEntry f i e) :=
  have away := h.lodged.not_directory (f := f) (by simp [hf])
  .of_page rfl rfl rfl (fun p r hr => by rw [page_setEntry, if_neg (away p r hr)])
    ⟨_, h.lodged.setPage (by simp [hf]) (by simp [hf]) _, h.rest⟩

/-- Any entry, for the frame that it leads to. -/
theorem retarget (h : w.Placed role) {i : Nat} (hi : i < tableEntries)
    (same : e.SameTarget (w.entry f i)) : w.Edits (w.setEntry f i e) := by
  refine ⟨rfl, rfl, rfl, fun p r d _ hd => ?_, role, h.lodged.retarget hi same, h.rest⟩
  rw [entry_setEntry _ _ _ hi (by simp only [userSlots, tableEntries] at *; omega)]
  split
  · rename_i here
    rw [here.1, here.2]
    exact same
  · exact .refl _

theorem rebook (h : w.Placed role) {b : Books} (free : b.free = w.free)
    (spaces : b.spaces = w.spaces) : w.Edits (w.book b) :=
  .of_page rfl rfl spaces (fun _ _ _ => rfl) ⟨_, h.lodged.rebook free spaces, h.rest⟩

/-- The first free frame, cleared, is bound at a slot. A table that was bound there is left
behind. -/
theorem newTable (h : w.Placed role) (hd : d < mountTableSlot) {rest : List Nat}
    (first : w.free = f :: rest) (prot : Protection) :
    w.Edits (((w.book { w.toBooks with free := rest }).setPage f Page.zero).bound f d prot) := by
  obtain ⟨inside, -, hr⟩ := h.lodged.usable f (first ▸ List.mem_cons_self)
  have free : role f = .free := (h.lodged.free f).2 (first ▸ List.mem_cons_self)
  have taken := (h.lodged.take first).setPage (f := f) (by simp) (by simp) Page.zero
  set u := (w.book { w.toBooks with free := rest }).setPage f Page.zero
  set x := u.book { u.toBooks with occupancy := u.occupancy.seed f (u.page f).presentCount }
  have hx : x.Lodged (Function.update role f .spare) := taken.rebook rfl rfl
  have placed := hx.bindOver hd (e := .of f prot.entryFlags) (Function.update_self ..)
    (fun g other => (Function.update_of_ne other ..).symm ▸ h.rest g)
    (Entry.isPresent_entryFlags f prot) (taken.wired.frame_of inside prot.low_entryFlags)
  refine .of_page rfl rfl rfl (fun p r hr' => ?_) placed
  have other := h.lodged.not_directory (f := f) (by simp [free]) p r hr'
  refine (page_setEntry ..).trans ((if_neg (h.lodged.housed.ne_root p r hr')).trans ?_)
  exact (page_setPage ..).trans (if_neg other)

/-- The table that is bound at a slot goes back to the pool. -/
theorem unbind (h : w.Placed role) (hd : d < mountTableSlot)
    (present : (w.entry w.root d).isPresent = true) : w.Edits (w.unbound d) := by
  have loose := h.lodged.unbind hd present
  have back := (loose.putBack (Function.update_self ..)).rebook (b := { w.toBooks with
    free := (w.entry w.root d).frame :: w.free
    occupancy := w.occupancy.forget (w.entry w.root d).frame }) rfl rfl
  rw [Function.update_idem] at back
  refine .of_page rfl rfl rfl (fun p r hr => ?_) ⟨_, back, fun g => ?_⟩
  · exact (page_setEntry ..).trans (if_neg (h.lodged.housed.ne_root p r hr))
  · rw [Function.update_apply]
    split
    · simp
    · exact h.rest g

end Edits
end Snapshot

open Snapshot

namespace Kernel

variable {E : Failure → Books → Prop} {w : Snapshot} {role : Nat → Role} {f d t va : Nat}
  {prot : Protection}

theorem countEntry_leads (f : Nat) (w : Snapshot) : Leads Stops (countEntry f) w fun _ v =>
    v = w.book { w.toBooks with occupancy := w.occupancy.set f (w.occupancy.get f + 1) } := by
  by_cases room : w.occupancy.get f < tableEntries
  · exact (countEntry_yields room).leads rfl
  · refine .get fun s hs => ?_
    have records : w.occupancy = s.occupancy := hs ▸ rfl
    rw [records] at room
    rw [Occupancy.increment, if_neg room]
    exact .halt (.halt _ _)

theorem discountEntry_books (f : Nat) (w : Snapshot) : Leads Stops (discountEntry f) w fun _ v =>
    ∃ o, v = w.book { w.toBooks with occupancy := o } := by
  refine .get fun s hs => ?_
  cases s.occupancy.decrement f with
  | error h => exact .halt (.halt h _)
  | ok o => exact (modify_yields (by rintro t rfl; rfl)).bind (.pure ⟨o, rfl⟩)

/-- A new table is bound at slot `d`. -/
theorem newTable_edits (h : w.Placed role) (hd : d < mountTableSlot) (prot : Protection) :
    Leads Stops allocateTable w fun f u => ∃ v, Yields (bindTable f d prot) u () v ∧ w.Edits v ∧
      v.entry w.root d = .of f prot.entryFlags ∧ Ram.IsFrame w.size f := by
  refine acquire_leads h.lodged.wired h.lodged.usable (fun _ => .halt _ _) ?_
  intro f rest first
  obtain ⟨inside, hm, hr⟩ := h.lodged.usable f (first ▸ List.mem_cons_self)
  have hd' := Sound.slot_lt hd
  have wired := (h.lodged.wired.book { w.toBooks with free := rest }).setPage hr Page.zero
  exact ⟨_, bindTable_yields wired inside hm hd' prot, .newTable h hd first prot,
    (entry_setEntry _ w.root _ hd' hd').trans (if_pos ⟨rfl, rfl⟩), inside⟩

/-- Mapping any frame where a table is bound. -/
theorem mapAt_edits (h : w.Placed role) (hd : d < mountTableSlot) (ht : t < tableEntries)
    (present : (w.entry w.root d).isPresent = true) (aligned : isAligned f = true) :
    Leads Stops (mapAt f d t prot) w fun _ v => w.Edits v := by
  have hd' := Sound.slot_lt hd
  have wired := h.lodged.wired
  have table := h.lodged.table_here hd present
  refine (slot_yields wired hd').bind ?_
  refine .bind ((widenSlot_leads wired hd' present aligned prot).mono ?_)
  rintro _ _ ⟨e, ⟨present', frame⟩, -, rfl⟩
  have widened : w.Edits (w.setEntry w.root d e) :=
    .retarget h hd' ⟨present'.trans present.symm, fun _ => frame⟩
  obtain ⟨role', placed⟩ := widened.placed
  have slot : (w.setEntry w.root d e).entry (w.setEntry w.root d e).root d = e :=
    (entry_setEntry w w.root e hd' hd').trans (if_pos ⟨rfl, rfl⟩)
  rw [← frame] at table
  have inside : Ram.IsFrame w.size e.frame := h.lodged.isFrame (by simp [table])
  have table' := placed.lodged.table_here hd (slot.symm ▸ present')
  rw [slot] at table'
  refine (leaf_yields placed.lodged.wired hd' slot present' inside ht).bind ?_
  refine (setLeaf_yields placed.lodged.wired hd' slot present' inside ht _).bind ?_
  have written := widened.trans (.setLeaf placed table' t (.of f prot.entryFlags))
  refine .ite (fun _ => ?_) fun _ => .pure written
  obtain ⟨role'', placed'⟩ := written.placed
  refine (countEntry_leads _ _).mono ?_
  rintro _ _ rfl
  exact written.trans (.rebook placed' rfl rfl)

theorem map_edits (h : w.Placed role) (hd : d < mountTableSlot) (ht : t < tableEntries)
    (aligned : isAligned f = true) : Leads Stops (map f d t prot) w fun _ v => w.Edits v := by
  have hd' := Sound.slot_lt hd
  rw [map_eq hd' ht aligned]
  refine (slot_yields h.lodged.wired hd').bind (.ite (fun _ => ?_) fun there => ?_)
  · refine .bind ((newTable_edits h hd prot).mono ?_)
    rintro table u ⟨v, bind, bound, slot, -⟩
    refine bind.bind ?_
    obtain ⟨role', placed⟩ := bound.placed
    have present : (v.entry v.root d).isPresent = true := by
      rw [bound.root, slot]
      exact Entry.isPresent_entryFlags table prot
    exact (mapAt_edits placed hd ht present aligned).mono fun _ _ => bound.trans
  · exact mapAt_edits h hd ht (by simpa using there) aligned

theorem unbindTable_edits (h : w.Placed role) (hd : d < mountTableSlot)
    (present : (w.entry w.root d).isPresent = true) :
    Leads E (unbindTable d) w fun _ v => w.Edits v := by
  have table := h.lodged.table_here hd present
  have out : (w.entry w.root d).frame ∉ w.free := by
    rw [← h.lodged.free, table]
    simp
  exact (unbindTable_yields h.lodged.wired (Sound.slot_lt hd) present out).leads
    (.unbind h hd present)

theorem unmap_edits (h : w.Placed role) (hd : dirIndex va < mountTableSlot) :
    Leads Stops (unmap va) w fun _ v => w.Edits v := by
  have hd' := dirIndex_lt va
  have ht := tableIndex_lt va
  have wired := h.lodged.wired
  have same := Edits.refl h
  refine .ite (fun _ => .pure same) fun _ => ?_
  refine (slot_yields wired hd').bind ?_
  refine .ite (fun present => ?_) fun _ => (invalidatePage_yields _ _).leads same
  have table := h.lodged.table_here hd present
  have inside := h.lodged.isFrame (f := (w.entry w.root (dirIndex va)).frame) (by simp [table])
  refine (leaf_yields wired hd' rfl present inside ht).bind ?_
  refine .ite (fun _ => ?_) fun _ => (invalidatePage_yields _ _).leads same
  refine (setLeaf_yields wired hd' rfl present inside ht _).bind ?_
  have written := Edits.setLeaf h table (tableIndex va) .empty
  obtain ⟨role', placed⟩ := written.placed
  have away := h.lodged.ne_root (f := (w.entry w.root (dirIndex va)).frame) (by simp [table])
  refine .bind ((discountEntry_books _ _).mono ?_)
  rintro n _ ⟨o, rfl⟩
  have counted := written.trans (.rebook placed (b := { w.toBooks with occupancy := o }) rfl rfl)
  obtain ⟨role'', placed'⟩ := counted.placed
  refine .ite (fun _ => .bind ?_) fun _ => (invalidatePage_yields _ _).leads counted
  refine (unbindTable_edits placed' hd ?_).mono fun _ v unbound => ?_
  · exact (congrArg Entry.isPresent (entry_setPage_of_ne _ _ _ away.symm _)).trans present
  · exact (invalidatePage_yields _ _).leads (counted.trans unbound)

theorem protectPage_edits (h : w.Placed role) (hd : dirIndex va < mountTableSlot) :
    Leads E (protectPage prot va) w fun _ v => w.Edits v := by
  have inside (present : (w.entry w.root (dirIndex va)).isPresent = true) :
      Ram.IsFrame w.size (w.entry w.root (dirIndex va)).frame :=
    h.lodged.isFrame (by simp [h.lodged.table_here hd present])
  refine (leafAt?_yields h.lodged.wired rfl inside).bind ?_
  by_cases there : (w.entry w.root (dirIndex va)).isPresent = true ∧
      (w.entry (w.entry w.root (dirIndex va)).frame (tableIndex va)).isPresent = true
  · rw [if_pos there]
    refine (setLeaf_yields h.lodged.wired (dirIndex_lt va) rfl there.1 (inside there.1)
      (tableIndex_lt va) _).bind ((invalidatePage_yields _ _).leads ?_)
    exact .setLeaf h (h.lodged.table_here hd there.1) _ _
  · rw [if_neg there]
    exact .pure (.refl h)

end Kernel
end VirtualMemory
