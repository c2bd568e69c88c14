import VirtualMemory.Proofs.Operations.Reactions
import VirtualMemory.Proofs.Outline.Pages

/-!
# Faults and stores on the resident space

A fault rewrites two entries on the way to its page, or it maps another frame there and fills that.
A store changes a page of callers. No directory is written but the resident one, so where the
directories that are stored away lead does not change either.
-/
namespace VirtualMemory

open Layout

namespace Snapshot

variable {w v : Snapshot} {O Q : Finset Nat} {f va : Nat} {e : Entry} {b : Books}

theorem Settled.edits_book (h : (w.book b).Settled Q) (spaces : b.spaces = w.spaces) :
    w.Edits (w.book b) :=
  .of_page rfl rfl spaces (fun _ _ _ => rfl) h.placed

theorem Settled.edits_setPage (h : w.Settled O) (hf : f ∈ O) (g : Page) :
    w.Edits (w.setPage f g) := by
  obtain ⟨role, stable⟩ := h.stable
  refine .of_page rfl rfl rfl (fun p r hr => ?_) (h.setPage hf g).1.placed
  have away := stable.not_directory (f := f) (by simp [stable.data hf]) p r hr
  exact (page_setPage ..).trans (if_neg away)

theorem Settled.edits_grantedAt (h : w.Settled O) (hd : dirIndex va < mountTableSlot)
    (page : w.pageAt? va = some e) : w.Edits (w.grantedAt va e) := by
  obtain ⟨role, stable⟩ := h.stable
  obtain ⟨present, -, -, -⟩ := Kernel.bound_of_leaf? stable.toSound hd page
  have hd' := dirIndex_lt va
  have placed : w.Placed role := ⟨stable.lodged, stable.at_rest⟩
  have widened : w.Edits (w.setEntry w.root (dirIndex va)
      ((w.entry w.root (dirIndex va)).set EntryFlags.writable)) :=
    .retarget placed hd' ⟨by rw [Entry.isPresent_set, present, Bool.true_or],
      fun _ => Entry.frame_set_writable _⟩
  obtain ⟨role', placed'⟩ := widened.placed
  have slot : (w.setEntry w.root (dirIndex va) _).entry w.root (dirIndex va) =
      (w.entry w.root (dirIndex va)).set EntryFlags.writable :=
    (entry_setEntry w w.root _ hd' hd').trans (if_pos ⟨rfl, rfl⟩)
  have table := placed'.lodged.table_here hd (by
    rw [root_setEntry, slot, Entry.isPresent_set, present, Bool.true_or])
  rw [root_setEntry, slot, Entry.frame_set_writable] at table
  exact widened.trans (.setLeaf placed' table _ _)

end Snapshot

open Snapshot

namespace Kernel

variable {w : Snapshot} {O : Finset Nat} {f g va : Nat} {e : Entry}

theorem grantWrite_edits (h : w.Settled O) (hd : dirIndex va < mountTableSlot)
    (page : w.pageAt? va = some e) : Leads Stops (grantWrite va e) w fun _ v => w.Edits v := by
  obtain ⟨role, stable⟩ := h.stable
  exact (grantWrite_yields stable.toSound hd page).leads (h.edits_grantedAt hd page)

theorem installCopy_edits (h : w.Settled O) (off : offset va = 0)
    (hd : dirIndex va < mountTableSlot) (mine : g ∈ O) (inside : Ram.IsFrame w.size f)
    (hm : f ≠ mountTable) : Leads Stops (installCopy va f g) w fun _ v => w.Edits v := by
  obtain ⟨role, placed⟩ := h.placed
  have ht := tableIndex_lt va
  refine .bind (.attempt ((map_edits placed hd ht (h.isFrame mine).1).both
    (map_leads h hd ht mine .userRWX)) (fun _ _ no => no _ rfl) ?_)
  rintro _ y ⟨mapped, hy, pages⟩
  have frame := h.frame_of mine .userRWX
  have now : y.pageAt? va = some (.of g Protection.userRWX.entryFlags) :=
    h.pageAt?_of hd pages.spaces pages.leaf
  refine (invalidatePage_yields _ _).bind ?_
  have reached := accessPage_yields hy hd off now (by rw [frame]; exact hy.isFrame mine)
  rw [frame] at reached
  refine reached.bind ?_
  obtain ⟨role', stable'⟩ := hy.stable
  refine (copyFrame_yields stable'.wired (pages.size ▸ inside) hm (hy.isFrame mine)
    (stable'.ne_root mine) (stable'.ne_mount mine)).bind ?_
  refine (countPageCopy_yields _).bind ((note_yields _ _).leads ?_)
  exact mapped.trans (hy.edits_setPage mine _)

theorem copyPage_edits (h : w.Settled O) (aligned : isAligned va = true) (off : offset va = 0)
    (hd : dirIndex va < mountTableSlot) (several : 2 ≤ w.shares.get e.frame) :
    Leads Stops (copyPage .recording va e.frame) w fun _ v => w.Edits v := by
  obtain ⟨inside, hm⟩ := h.shared e.frame (by omega)
  refine (unshareFrame_yields (by omega)).bind ?_
  have uncounted := h.setShare inside hm (w.shares.get e.frame - 1)
  obtain ⟨role, placed⟩ := uncounted.placed
  have gone := unmap_leads (E := Stops) uncounted aligned hd
  refine .bind (((unmap_edits placed hd).both gone).mono ?_)
  rintro _ v ⟨unmapped, hv, removed⟩
  refine .bind (.bind (acquireRaw_leads (fun _ => .halt _ _) ?_))
  intro copy rest first
  obtain ⟨handed, -, inside', hm', -, -⟩ := hv.hand first
  refine .bind (shareFrame_leads (fun _ => .violation _ _) (.pure ?_))
  have counted := handed.setShare inside' hm' (v.shares.get copy + 1)
  refine (installCopy_edits counted off hd (Finset.mem_insert_self copy O)
    (removed.size ▸ inside) hm).mono fun _ x installed => ?_
  have taken := Settled.edits_book (w := v) counted rfl
  exact (uncounted.edits_book rfl).trans (unmapped.trans (taken.trans installed))

theorem pageFault_edits (h : w.Settled O) (hd : dirIndex va < mountTableSlot) (code : UInt32) :
    Leads Stops (pageFault .recording va code) w fun _ v => w.Edits v := by
  obtain ⟨role, placed⟩ := h.placed
  obtain ⟨role', stable⟩ := h.stable
  have hd' : dirIndex (alignDown va) < mountTableSlot := by rwa [dirIndex_alignDown]
  have delegated : Leads Stops (delegateFault .recording va code) w fun _ v => w.Edits v := by
    refine (delegateFault_leads code).mono ?_
    rintro _ _ ⟨-, rfl⟩
    exact .refl placed
  refine (pageAt_yields stable.toSound hd').bind ?_
  cases page : w.leaf? (w.here (dirIndex (alignDown va))) (tableIndex (alignDown va)) with
  | none => exact delegated
  | some e =>
    refine .ite (fun _ => delegated) fun _ => ?_
    refine (shareCount_yields e.frame w).bind ?_
    rcases count : w.shares.get e.frame with _ | _ | n
    · exact (note_yields _ _).bind delegated
    · exact .bind ((grantWrite_edits h hd' page).mono fun _ _ edits => .pure edits)
    · refine .bind (Leads.mono ?_ fun _ _ edits => .pure edits)
      exact copyPage_edits h (isAligned_alignDown va) (offset_alignDown va) hd' (by omega)

theorem userWrite_edits (h : w.Settled O) (user : va < kernelStart) (value : UInt8) :
    Leads Stops (userWrite .recording va value) w fun _ v => w.Edits v := by
  obtain ⟨role, placed⟩ := h.placed
  obtain ⟨role', stable⟩ := h.stable
  have hd := dirIndex_user_lt user
  have store (u : Snapshot) (Q : Finset Nat) (hu : u.Settled Q) :
      Leads Stops (retry va value) u fun _ v => u.Edits v := by
    have held (e : Entry) := hu.pageAt?_owned (e := e) user
    refine (retry_leads hu hd held value fun _ c => .violation c _).mono ?_
    rintro _ _ ⟨e, page, -, rfl⟩
    exact hu.edits_setPage (hu.pageAt?_owned user page) _
  have fault (code : UInt32) : Leads Stops (do
      discard (pageFault .recording va code)
      retry va value) w fun _ v => w.Edits v := by
    refine .bind (.discard (((pageFault_edits h hd code).both (pageFault_leads h hd code)).mono ?_))
    rintro _ u ⟨edits, resolved⟩
    exact (store u _ (resolved.settled h)).mono fun _ _ => edits.trans
  refine (lookup_yields stable.toSound hd).bind ?_
  cases w.pageAt? va with
  | none => exact fault _
  | some e => exact .ite (fun _ => fault _) fun _ => store w O h

end Kernel
end VirtualMemory
