import VirtualMemory.Proofs.Twins.Tables

/-!
# Two runs of work on pages
-/
namespace VirtualMemory

open Layout Snapshot

namespace Kernel

variable {α : Type} {w v : Snapshot} {K : Finset Nat} {d f t va : Nat} {prot : Protection}

/-- The slot may get more rights, but it leads to the same table. -/
theorem widenSlot_twins (h : w.Paired v K) (hd : d < mountTableSlot)
    (present : (w.entry w.root d).isPresent = true) :
    Twins (widenSlot d (w.entry w.root d) prot.entryFlags) w v fun _ w' v' =>
      w'.Paired v' K ∧ (w'.entry w'.root d).isPresent = true := by
  have hd' := Sound.slot_lt hd
  refine .ite (fun _ => ?_) fun _ => .pure ⟨h, present⟩
  refine .of_yields (setSlot_yields h.wired hd' _) (setSlot_yields h.wired' hd' _) ?_
  have present' : ((w.entry w.root d).set (prot.entryFlags &&& (EntryFlags.writable |||
      EntryFlags.user))).isPresent = true := by rw [Entry.isPresent_set, present, Bool.true_or]
  refine ⟨h.reslot hd ⟨present'.trans present.symm,
    fun _ => Entry.frame_set _ (prot.low_entryFlags_inter _)⟩, ?_⟩
  rw [root_setEntry, entry_setEntry _ _ _ hd' hd', if_pos ⟨rfl, rfl⟩]
  exact present'

theorem mapAt_twins (h : w.Paired v K) (hd : d < mountTableSlot) (ht : t < tableEntries)
    (present : (w.entry w.root d).isPresent = true) :
    Twins (mapAt f d t prot) w v fun _ w' v' => w'.Paired v' K := by
  refine slot_twins h (Sound.slot_lt hd) (.bind ((widenSlot_twins h hd present).mono ?_))
  rintro - w₁ v₁ ⟨h₁, present₁⟩
  refine leaf_twins h₁ hd present₁ ht (setLeaf_twins h₁ hd present₁ ht _ fun h₂ => ?_)
  exact .ite (fun _ => countEntry_twins h₂.alike.books _ fun o => h₂.rebook rfl rfl)
    fun _ => .pure h₂

theorem map_twins (h : w.Paired v K) (hd : d < mountTableSlot) (ht : t < tableEntries)
    (aligned : isAligned f = true) : Twins (map f d t prot) w v fun _ w' v' => w'.Paired v' K := by
  rw [map_eq (Sound.slot_lt hd) ht aligned]
  refine slot_twins h (Sound.slot_lt hd) (.ite (fun _ => ?_) fun there => ?_)
  · refine newTable_twins h hd fun table w' v' h' bound slot => mapAt_twins h' hd ht ?_
    rw [bound.root, slot]
    exact Entry.isPresent_entryFlags table prot
  · exact mapAt_twins h hd ht (by simpa using there)

theorem unbindTable_twins (h : w.Paired v K) (hd : d < mountTableSlot)
    (present : (w.entry w.root d).isPresent = true) :
    Twins (unbindTable d) w v fun _ w' v' => w'.Paired v' K := by
  obtain ⟨role, placed⟩ := h.placed
  have out : (w.entry w.root d).frame ∉ w.free := by
    rw [← placed.lodged.free, (h.table placed hd present).1]
    simp
  refine .of_yields (unbindTable_yields h.wired (Sound.slot_lt hd) present out)
    (unbindTable_yields h.wired' (Sound.slot_lt hd) ?_ ?_) (h.unbind hd present)
  · rwa [h.slot]
  · rwa [h.slot, h.alike.free]

theorem unmap_twins (h : w.Paired v K) (hd : dirIndex va < mountTableSlot) :
    Twins (unmap va) w v fun _ w' v' => w'.Paired v' K := by
  have ht := tableIndex_lt va
  have done {w' v' : Snapshot} (h' : w'.Paired v' K) :
      Twins (invalidatePage va) w' v' fun _ w'' v'' => w''.Paired v'' K :=
    .of_yields (invalidatePage_yields va w') (invalidatePage_yields va v') h'
  refine .ite (fun _ => .pure h) fun _ => slot_twins h (dirIndex_lt va) (.ite (fun present => ?_)
    fun _ => done h)
  refine leaf_twins h hd present ht (.ite (fun _ => ?_) fun _ => done h)
  refine setLeaf_twins h hd present ht _ fun h₁ => ?_
  refine .bind (discountEntry_twins h₁.alike.books _ fun n o => ?_)
  have h₂ := h₁.rebook (b := { w.toBooks with occupancy := o }) rfl rfl
  refine .ite (fun _ => .bind ((unbindTable_twins h₂ hd ?_).mono fun _ _ _ => done))
    fun _ => done h₂
  obtain ⟨role, placed⟩ := h.placed
  have away := placed.lodged.ne_root (by rw [(h.table placed hd present).1]; simp)
  rw [entry_book]
  exact (congrArg Entry.isPresent (entry_setPage_of_ne _ _ _ away.symm _)).trans present

theorem protectPage_twins (h : w.Paired v K) (hd : dirIndex va < mountTableSlot) :
    Twins (protectPage prot va) w v fun _ w' v' => w'.Paired v' K := by
  refine leafAt?_twins h hd ?_
  by_cases there : (w.entry w.root (dirIndex va)).isPresent = true ∧
      (w.entry (w.entry w.root (dirIndex va)).frame (tableIndex va)).isPresent = true
  · rw [if_pos there]
    refine setLeaf_twins h hd there.1 (tableIndex_lt va) _ fun h' => ?_
    exact .of_yields (invalidatePage_yields va _) (invalidatePage_yields va _) h'
  · rw [if_neg there]
    exact .pure h

end Kernel
end VirtualMemory
