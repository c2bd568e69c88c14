import VirtualMemory.Proofs.Mounts.Shielded
import VirtualMemory.Proofs.Operations.Pages
import VirtualMemory.Proofs.Operations.Fault

/-!
# Shielded pages

Mapping and unmapping write to tables that slots below the window lead to, and clear frames from the
pool; so they never touch what is shielded. Neither do faults: a private copy is made in a frame
from the pool.
-/
namespace VirtualMemory.Kernel

open Layout Snapshot

variable {α : Type} {s : KernelState} {c : Entry} {d f t va : Nat} {e : Entry} {prot : Protection}

/-! ## Counting -/

theorem Counts.guards {x : Kernel α} (counts : Counts x) (h : s.snapshot.Shields c) :
    Guards c x s fun _ v => v.Shields c ∧ v.page = s.snapshot.page := by
  have kept {t : KernelState} (ht : Recounts s t) :
      t.snapshot.Shields c ∧ t.snapshot.page = s.snapshot.page := by
    rw [snapshot_of_machine ht.machine]
    exact ⟨h.rebook ht.spaces ht.free, rfl⟩
  exact ((counts s).mono fun _ _ ht => kept ht).weaken fun _ ht => (kept ht).1.toKeeps

/-! ## Mapping and unmapping -/

theorem mapAt_guards (h : s.snapshot.Shields c) (hd : d < mountTableSlot)
    (aligned : isAligned f = true)
    (present : (s.snapshot.entry s.snapshot.root d).isPresent = true) :
    Guards c (mapAt f d t prot) s fun _ v => v.Shields c ∧
      v.entry (v.entry v.root d).frame t = .of f prot.entryFlags := by
  have hd' : d < tableEntries := hd.trans (by decide)
  refine .bind (.slot h.wired hd' (.bind ?_))
  refine (Ends.of_leads (widenSlot_leads h.wired hd' present aligned prot)).mono ?_
  rintro _ u ⟨e, ⟨present', frame⟩, -, hu⟩
  have shields : u.snapshot.Shields c :=
    hu ▸ h.setSlot hd fun _ => frame.symm ▸ h.slot d hd present
  have slot : u.snapshot.entry u.snapshot.root d = e := by
    rw [hu, root_setEntry, Snapshot.entry_setEntry _ _ _ hd' hd', if_pos ⟨rfl, rfl⟩]
  refine .bind (.leaf shields.wired hd' shields.toKeeps fun ht _ _ => .bind ?_)
  refine (setLeaf_guards shields hd).mono ?_
  rintro _ v ⟨kept, hv, -⟩
  have apart := shields.apart_ne_root (shields.slot d hd (slot.symm ▸ present'))
  have mapped : v.snapshot.entry (v.snapshot.entry v.snapshot.root d).frame t =
      .of f prot.entryFlags := by
    rw [hv, root_setEntry, Snapshot.entry_setEntry _ _ _ ht hd', if_neg fun no => apart no.1.symm,
      Snapshot.entry_setEntry _ _ _ ht ht, if_pos ⟨rfl, rfl⟩]
  refine .ite (fun _ => ?_) fun _ => .pure ⟨kept, mapped⟩
  refine ((countEntry_counts _).guards kept).mono ?_
  rintro _ x ⟨counted, pages⟩
  refine ⟨counted, ?_⟩
  have root : x.snapshot.root = v.snapshot.root := counted.wired.root.trans kept.wired.root.symm
  rw [root, Snapshot.entry, Snapshot.entry, pages]
  exact mapped

theorem map_guards (h : s.snapshot.Shields c) (hd : d < mountTableSlot) :
    Guards c (map f d t prot) s fun _ v => v.Shields c ∧
      v.entry (v.entry v.root d).frame t = .of f prot.entryFlags := by
  have hd' : d < tableEntries := hd.trans (by decide)
  by_cases fits : d < tableEntries ∧ t < tableEntries ∧ isAligned f = true
  · obtain ⟨-, ht, aligned⟩ := fits
    rw [map_eq hd' ht aligned]
    refine .bind (.slot h.wired hd' (.ite (fun _ => .bind ?_) fun there => ?_))
    · refine (acquire_guards h).mono ?_
      rintro table u ⟨apart, taken⟩
      refine .bind ((bindTable_shields taken hd apart).mono ?_)
      exact fun _ v hv => mapAt_guards hv.1 hd aligned hv.2
    · exact mapAt_guards h hd aligned (by simpa using there)
  · obtain ⟨r, refused⟩ := map_eq_refuse fits prot
    rw [refused]
    exact .refuse h.toKeeps

theorem unmap_guards (h : s.snapshot.Shields c) (hd : dirIndex va < mountTableSlot) :
    Guards c (unmap va) s fun _ v => v.Shields c := by
  have hd' := dirIndex_lt va
  have drops {t : KernelState} (ht : t.snapshot.Shields c) :
      Guards c (invalidatePage va) t fun _ v => v.Shields c :=
    .invalidatePage fun u hu => hu.snapshot ▸ ht
  refine .ite (fun _ => .pure h) fun _ => .bind (.slot h.wired hd' ?_)
  refine .ite (fun _ => .bind (.leaf h.wired hd' h.toKeeps fun _ _ _ => ?_)) fun _ => drops h
  refine .ite (fun _ => .bind ?_) fun _ => drops h
  refine (setLeaf_guards h hd).mono fun _ t ht => .bind ?_
  refine ((discountEntry_counts _).guards ht.1).mono fun n u hu => ?_
  refine .ite (fun _ => .bind ?_) fun _ => drops hu.1
  exact (unbindTable_guards hu.1 hd).mono fun _ v => drops

theorem protectPage_guards (h : s.snapshot.Shields c) (hd : dirIndex va < mountTableSlot) :
    Guards c (protectPage prot va) s fun _ v => v.Shields c := by
  refine .bind ((leafAt?_looks va).ends h.toKeeps fun found _ => ?_)
  cases found with
  | none => exact .pure h
  | some e =>
    refine .bind ((setLeaf_guards h hd).mono fun _ t ht => ?_)
    exact .invalidatePage fun u hu => hu.snapshot ▸ ht.1

/-! ## Faults -/

theorem grantWrite_guards (h : s.snapshot.Shields c) (hd : dirIndex va < mountTableSlot) :
    Guards c (grantWrite va e) s fun _ v => v.Shields c := by
  have hd' := dirIndex_lt va
  have grants {t : KernelState} (ht : t.snapshot.Shields c) : Guards c (do
      setLeaf (dirIndex va) (tableIndex va) (e.set EntryFlags.writable)
      invalidatePage va
      countWriteGrant
      note (.writeGranted va e.frame)) t fun _ v => v.Shields c := by
    refine .bind ((setLeaf_guards ht hd).mono fun _ u hu => .bind ?_)
    exact .invalidatePage fun v hv => .bind (.modify (.modify (hv.snapshot ▸ hu.1)))
  refine .bind (.slot h.wired hd' (.ite (fun _ => .bind ?_) fun _ => grants h))
  refine .setSlot h.wired hd' fun t ht => grants (ht.snapshot ▸ h.setSlot hd fun present => ?_)
  rw [Entry.isPresent_set, show EntryFlags.writable.bits.toNat.testBit 0 = false by decide,
    Bool.or_false] at present
  rw [Entry.frame_set_writable]
  exact h.slot _ hd present

theorem freshFrame_guards (h : s.snapshot.Shields c) :
    Guards c Policy.freshFrame s fun f v => Apart (shown f) ∧ v.Shields c := by
  refine .bind ((acquireRaw_guards h).mono fun f t ht => .bind ?_)
  exact ((shareFrame_counts f).guards ht.2).mono fun _ u hu => .pure ⟨ht.1, hu.1⟩

theorem installCopy_guards {copy : Nat} (h : s.snapshot.Shields c)
    (hd : dirIndex va < mountTableSlot) (off : offset va = 0) (apart : Apart (shown copy)) :
    Guards c (installCopy va f copy) s fun _ v => v.Shields c := by
  refine .bind (.attempt ((map_guards h hd).mono ?_) fun _ u hu => .bind (.halt hu))
  rintro _ t ⟨mapped, leaf⟩
  refine .bind (.invalidatePage fun u hu => .bind ?_)
  have shields : u.snapshot.Shields c := hu.snapshot ▸ mapped
  refine .access shields.wired.isFrame_root shields.toKeeps fun target maps => ?_
  have there : shown copy = target := by
    have frame := maps.frame
    rwa [hu.snapshot, leaf, Entry.frame_of_low _ (Protection.low_entryFlags _)] at frame
  rw [off, Nat.add_zero, ← there]
  refine .bind ((withFrame_shields shields fun v hv => ?_).mono fun _ v hv => ?_)
  · refine .bind (.windowPage hv.wired hv.wired fun _ => ?_)
    refine .storePage_of_aligned (Entry.frame_aligned _) hv.wired fun x hx => ?_
    exact ⟨_, hx.snapshot ▸ hv.setPage apart _⟩
  · exact .bind (.modify (.modify hv))

theorem copyPage_guards (h : s.snapshot.Shields c) (hd : dirIndex va < mountTableSlot)
    (off : offset va = 0) : Guards c (copyPage .recording va f) s fun _ v => v.Shields c := by
  rw [copyPage_eq]
  refine .bind (((unshareFrame_counts f).guards h).mono fun _ t ht => .bind ?_)
  refine (unmap_guards ht.1 hd).mono fun _ u hu => .bind ?_
  exact (freshFrame_guards hu).mono fun copy v hv => installCopy_guards hv.2 hd off hv.1

theorem pageFault_guards (h : s.snapshot.Shields c) (hd : dirIndex va < mountTableSlot)
    (code : UInt32) : Guards c (pageFault .recording va code) s fun _ v => v.Shields c := by
  have hd' : dirIndex (alignDown va) < mountTableSlot := by rwa [dirIndex_alignDown]
  have delegates {t : KernelState} (ht : t.snapshot.Shields c) :
      Guards c (delegateFault .recording va code) t fun _ v => v.Shields c :=
    .bind (.modify (.bind (.modify (.pure ht))))
  refine .bind ((leafAt?_looks _).ends h.toKeeps fun found _ => ?_)
  cases found with
  | none => exact delegates h
  | some e =>
    refine .ite (fun _ => delegates h) fun _ => ?_
    refine .bind ((shareCount_looks e.frame).ends h.toKeeps fun n _ => ?_)
    rcases n with _ | _ | n
    · exact .bind (.modify (delegates h))
    · exact .bind ((grantWrite_guards h hd').mono fun _ t ht => .pure ht)
    · refine .bind ((copyPage_guards h hd' (offset_alignDown va)).mono fun _ t ht => .pure ht)

end VirtualMemory.Kernel
