import VirtualMemory.Proofs.Operations.Fault
import VirtualMemory.Proofs.Twins.Pages

/-!
# Two runs of a fault

The frame for a private copy comes from the pool as it is, and differs between the runs. It is
mapped before anything is written to it, but all that happens until then is that the copy is made.
-/
namespace VirtualMemory

open Layout

namespace Snapshot

variable {w v : Snapshot} {O : Finset Nat} {role : Nat → Role} {f : Nat}

theorem Settled.paired (h : w.Settled O) (alike : w.Alike v ∅) : w.Paired v ∅ :=
  ⟨h.placed, .none w, alike⟩

/-- A frame that callers hold may be hidden. -/
theorem Settled.paired_hiding (h : w.Settled O) (hf : f ∈ O) (alike : w.Alike v {f}) :
    w.Paired v {f} := by
  obtain ⟨role, stable⟩ := h.stable
  exact ⟨h.placed, .singleton stable.lodged (.inl (stable.data hf)), alike⟩

/-- What callers hold is the same on both sides. -/
theorem Settled.page_eq {K : Finset Nat} (h : w.Settled O) (alike : w.Alike v K) (hf : f ∈ O)
    (hK : f ∉ K) : v.page f = w.page f := by
  obtain ⟨role, stable⟩ := h.stable
  refine alike.page f (fun free => ?_) hK
  have owned := stable.data hf
  rw [(stable.free f).2 free] at owned
  cases owned

end Snapshot

open Snapshot

namespace Kernel

variable {α : Type} {w v : Snapshot} {O K : Finset Nat} {d va : Nat} {e : Entry} {value : UInt8}
  {R : α → Snapshot → Snapshot → Prop}

/-- The page behind an address is the same. -/
theorem pageAt_twins {k : Option Entry → Kernel α} (h : w.Paired v K)
    (hd : dirIndex va < mountTableSlot) (hk : Twins (k (w.pageAt? va)) w v R) :
    Twins (leafAt? va >>= k) w v R := by
  rw [pageAt?, leaf?, Snapshot.leafAt, slotAt_here] at hk
  exact leafAt?_twins h hd hk

theorem lookup_twins {k : Option Mapping → Kernel α} (h : w.Paired v K)
    (hd : dirIndex va < mountTableSlot)
    (hk : Twins (k ((w.pageAt? va).map Mapping.ofEntry)) w v R) :
    Twins (lookup va >>= k) w v R := .bind (pageAt_twins h hd (.pure hk))

theorem delegateFault_twins (h : w.Alike v ∅) (code : UInt32) :
    Twins (delegateFault .recording va code) w v fun _ w' v' => w'.Alike v' ∅ := by
  have recorded (u : Snapshot) :
      Yields (Policy.recording.resolve va (FaultKind.ofTrapCode code)) u () u := by
    refine silent_yields ?_ u
    exact fun _ => rfl
  exact .step (note_yields _ _) (note_yields _ _) (.step (recorded w) (recorded v) (.pure h))

theorem grantWrite_twins (h : w.Paired v ∅) (hd : dirIndex va < mountTableSlot)
    (present : (w.entry w.root (dirIndex va)).isPresent = true) :
    Twins (grantWrite va e) w v fun _ w' v' => w'.Alike v' ∅ := by
  have ht := tableIndex_lt va
  have hd' := dirIndex_lt va
  have grant {w v : Snapshot} (h : w.Paired v ∅)
      (present : (w.entry w.root (dirIndex va)).isPresent = true) :
      Twins (do
        setLeaf (dirIndex va) (tableIndex va) (e.set EntryFlags.writable)
        invalidatePage va
        countWriteGrant
        note (.writeGranted va e.frame)) w v fun _ w' v' => w'.Alike v' ∅ := by
    refine setLeaf_twins h hd present ht _ fun h' => ?_
    refine .step (invalidatePage_yields _ _) (invalidatePage_yields _ _) ?_
    refine .step (countWriteGrant_yields _) (countWriteGrant_yields _) ?_
    exact .of_yields (note_yields _ _) (note_yields _ _) h'.alike
  refine slot_twins h hd' (.ite (fun _ => ?_) fun _ => grant h present)
  have writable : ((w.entry w.root (dirIndex va)).set EntryFlags.writable).isPresent = true := by
    rw [Entry.isPresent_set, present, Bool.true_or]
  refine setSlot_twins h hd' _ (grant (h.reslot hd ⟨writable.trans present.symm, ?_⟩) ?_)
  · exact fun _ => Entry.frame_set_writable _
  · rw [root_setEntry, entry_setEntry _ _ _ hd' hd', if_pos ⟨rfl, rfl⟩]
    exact writable

/-- The table above a page is found in both runs, and the page in it. -/
theorem walk_of_paired (h : w.Paired v K) (settled : w.Settled O)
    (hd : dirIndex va < mountTableSlot) (page : w.pageAt? va = some e) :
    (w.entry w.root (dirIndex va)).isPresent = true ∧
      Ram.IsFrame w.size (w.entry w.root (dirIndex va)).frame ∧
      w.entry (w.entry w.root (dirIndex va)).frame (tableIndex va) = e ∧
      v.entry (w.entry w.root (dirIndex va)).frame (tableIndex va) = e ∧ e.isPresent = true := by
  obtain ⟨role, stable⟩ := settled.stable
  obtain ⟨role', placed⟩ := h.placed
  obtain ⟨present, -, there, shown⟩ := bound_of_leaf? stable.toSound hd page
  obtain ⟨-, inside, same⟩ := h.table placed hd present
  exact ⟨present, inside, there, (congrArg (Page.entry · _) same).trans there, shown⟩

/-- Both runs find the same frame behind an address, and so the same place in it. -/
theorem access_twins {k : Nat → Kernel α} (h : w.Paired v K) (settled : w.Settled O)
    (hd : dirIndex va < mountTableSlot) (page : w.pageAt? va = some e) (mine : e.frame ∈ O)
    (hk : Twins (k (e.frame + offset va)) w v R) : Twins (access va >>= k) w v R := by
  obtain ⟨present, inside, there, there', shown⟩ := walk_of_paired h settled hd page
  have target := settled.isFrame mine
  exact .step (access_yields h.wired rfl present inside there shown target)
    (access_yields h.wired' (h.slot _) present (h.alike.size ▸ inside) there' shown
      (h.alike.size ▸ target)) hk

theorem copyPage_twins (h : w.Settled O) (alike : w.Alike v ∅) (aligned : isAligned va = true)
    (off : offset va = 0) (hd : dirIndex va < mountTableSlot) (mine : e.frame ∈ O) :
    Twins (copyPage .recording va e.frame) w v fun _ w' v' => w'.Alike v' ∅ := by
  obtain ⟨role, stable⟩ := h.stable
  have inside := h.isFrame mine
  have hm := stable.ne_mount mine
  refine .bind (unshareFrame_twins alike.books _ fun _ => ?_)
  have unshared := h.setShare inside hm (w.shares.get e.frame - 1)
  have h₁ := (h.paired alike).rebook (b := { w.toBooks with
    shares := w.shares.set e.frame (w.shares.get e.frame - 1) }) rfl rfl
  refine .bind (((unmap_twins h₁ hd).along (unmap_leads (E := Depleted) unshared aligned hd)).mono
    ?_)
  rintro _ w₂ v₂ ⟨⟨hw₂, removed⟩, h₂⟩
  refine .bind (.bind (acquireRaw_twins h₂.alike.books fun copy rest first => ?_))
  obtain ⟨handed, fresh, inside', hm', -, -⟩ := hw₂.hand first
  refine .bind (shareFrame_twins (by rfl) _ (.pure ?_))
  have counted := handed.setShare inside' hm' (w₂.shares.get copy + 1)
  have taken := (h₂.alike.take first).book (b := { w₂.toBooks with
    free := rest, shares := w₂.shares.set copy (w₂.shares.get copy + 1) }) fun _ => id
  have held := Finset.mem_insert_self copy O
  have h₃ := counted.paired_hiding held taken
  have mapping := map_leads counted hd (tableIndex_lt va) held .userRWX
  refine .bind (.attempt ((map_twins h₃ hd (tableIndex_lt va) inside'.1).along mapping)
    ((mapping.weaken fun _ _ => Depleted.stops).mono fun _ _ _ => trivial) ?_)
  rintro _ y y' ⟨⟨hy, mapped⟩, h₄⟩
  have here : y.pageAt? va = some (.of copy Protection.userRWX.entryFlags) :=
    counted.pageAt?_of hd mapped.spaces fun π t hπ ht => mapped.leaf π t hπ ht
  have frame := counted.frame_of held .userRWX
  refine .step (invalidatePage_yields _ _) (invalidatePage_yields _ _) ?_
  refine access_twins h₄ hy hd here (frame.symm ▸ held) ?_
  rw [frame, off, Nat.add_zero]
  obtain ⟨role', stable'⟩ := hy.stable
  have source := Finset.mem_insert_of_mem (b := copy) mine
  have apart : e.frame ∉ ({copy} : Finset Nat) := by
    rw [Finset.mem_singleton]
    rintro rfl
    exact fresh mine
  have same := hy.page_eq h₄.alike source apart
  have left := copyFrame_yields stable'.wired (hy.isFrame source) (stable'.ne_mount source)
    (hy.isFrame held) (stable'.ne_root held) (stable'.ne_mount held)
  have right := copyFrame_yields h₄.wired' (h₄.alike.size ▸ hy.isFrame source)
    (stable'.ne_mount source) (h₄.alike.size ▸ hy.isFrame held)
    (h₄.alike.root ▸ stable'.ne_root held) (stable'.ne_mount held)
  rw [same] at right
  refine .step left right (.step (countPageCopy_yields _) (countPageCopy_yields _) ?_)
  exact .of_yields (note_yields _ _) (note_yields _ _) (h₄.alike.reveal _)

theorem pageFault_twins (h : w.Settled O) (alike : w.Alike v ∅) (hd : dirIndex va < mountTableSlot)
    (mine : ∀ e, w.pageAt? va = some e → w.shares.get e.frame ≠ 0 → e.frame ∈ O) (code : UInt32) :
    Twins (pageFault .recording va code) w v fun _ w' v' => w'.Alike v' ∅ := by
  have hd' : dirIndex (alignDown va) < mountTableSlot := by rwa [dirIndex_alignDown]
  have paired := h.paired alike
  refine pageAt_twins paired hd' ?_
  rw [w.pageAt?_alignDown va]
  cases page : w.pageAt? va with
  | none => exact delegateFault_twins alike code
  | some e =>
    refine .ite (fun _ => delegateFault_twins alike code) fun _ => ?_
    refine shareCount_twins alike.books e.frame ?_
    rcases count : w.shares.get e.frame with _ | _ | n
    · exact .step (note_yields _ _) (note_yields _ _) (delegateFault_twins alike code)
    · obtain ⟨role, stable⟩ := h.stable
      obtain ⟨present, -⟩ := bound_of_leaf? stable.toSound hd page
      rw [← dirIndex_alignDown] at present
      exact .bind ((grantWrite_twins paired hd' present).mono fun _ _ _ ends => .pure ends)
    · refine .bind ((copyPage_twins h alike (isAligned_alignDown va) (offset_alignDown va) hd'
        (mine e page (by omega))).mono fun _ _ _ ends => .pure ends)

/-! ## Stores -/

theorem retry_twins (h : w.Settled O) (alike : w.Alike v ∅) (hd : dirIndex va < mountTableSlot)
    (held : ∀ e, w.pageAt? va = some e → e.frame ∈ O) (value : UInt8) :
    Twins (retry va value) w v fun _ w' v' => w'.Alike v' ∅ := by
  refine lookup_twins (h.paired alike) hd ?_
  cases page : w.pageAt? va with
  | none => exact .violate _
  | some e =>
    refine .ite (fun _ => ?_) fun _ => .violate _
    have paired := h.paired alike
    obtain ⟨present, inside, there, there', shown⟩ := walk_of_paired paired h hd page
    have target := h.isFrame (held e page)
    refine .of_yields (storeVirtual_yields paired.wired rfl present inside there shown target value)
      (storeVirtual_yields paired.wired' (paired.slot _) present (alike.size ▸ inside) there' shown
        (alike.size ▸ target) value) (alike.setPage fun hf hK => ?_)
    rw [alike.page _ hf hK]

theorem userWrite_twins (h : w.Settled O) (alike : w.Alike v ∅) (hd : dirIndex va < mountTableSlot)
    (held : ∀ e, w.pageAt? va = some e → e.frame ∈ O) (value : UInt8) :
    Twins (userWrite .recording va value) w v fun _ w' v' => w'.Alike v' ∅ := by
  have faulted (code : UInt32) : Twins (do
      discard (pageFault .recording va code)
      retry va value) w v fun _ w' v' => w'.Alike v' ∅ := by
    have fault : Twins (discard (pageFault .recording va code)) w v fun _ w' v' => w'.Alike v' ∅ :=
      .discard (pageFault_twins h alike hd (fun e page _ => held e page) code)
    refine .bind ((fault.along (fault_leads h hd held code)).mono ?_)
    rintro _ w' v' ⟨resolved, alike'⟩
    exact retry_twins (resolved.settled h) alike' hd (fun _ => mem_withPageAt) value
  refine lookup_twins (h.paired alike) hd ?_
  cases w.pageAt? va with
  | none => exact faulted _
  | some e => exact .ite (fun _ => faulted _) fun _ => retry_twins h alike hd held value

end Kernel
end VirtualMemory
