import VirtualMemory.Proofs.Mounts.Pages
import VirtualMemory.Proofs.Translations.Basic

/-!
# Translations of the resident space

An entry is written, and the page dropped right after; a slot is written, and everything dropped.
Only widening a slot is left without an order, and that takes nothing away. For this to be all,
each table must be bound at one slot, and frames from the pool must not be tables: clearing them
would change walks that nobody is told of.
-/
namespace VirtualMemory

open Layout Snapshot Kernel

namespace Snapshot

/-- Slot `d`, below the window's, leads to the table `f`. -/
def Binds (w : Snapshot) (d f : Nat) : Prop :=
  d < mountTableSlot ∧ (w.entry w.root d).isPresent = true ∧ (w.entry w.root d).frame = f

/-- Every table of the resident directory is bound at one slot, and the frames in `I` are idle. -/
structure Distinct (w : Snapshot) (I : Set Nat) : Prop extends w.Reserves where
  single : ∀ d d' f, w.Binds d f → w.Binds d' f → d = d'
  unbound : ∀ f ∈ I, Apart f ∧ ∀ d, ¬ w.Binds d f

/-- The frames that the pool names. -/
def stock (w : Snapshot) : Set Nat := {f | ∃ g ∈ w.free, shown g = f}

/-- No table is bound twice, and none is free. -/
abbrev Spares (w : Snapshot) : Prop := w.Distinct w.stock

variable {w v : Snapshot} {I J : Set Nat} {f d i va : Nat} {e : Entry} {b : Books}

theorem stock_subset (free : ∀ f ∈ v.free, f ∈ w.free) : v.stock ⊆ w.stock := by
  rintro _ ⟨g, hg, rfl⟩
  exact ⟨g, free g hg, rfl⟩

theorem Reserves.apart (h : w.Reserves) (bound : w.Binds d f) : Apart f := by
  obtain ⟨hd, present, rfl⟩ := bound
  exact h.slot d hd present

/-- The words of a walk are one slot, and one entry of the table that it leads to. -/
theorem Reserves.reads_cases (h : w.Reserves) (aligned : isAligned f = true) (hi : i < tableEntries)
    (reads : w.Reads va (f + 4 * i)) : f = w.root ∧ i = dirIndex va ∨
      i = tableIndex va ∧ (w.Binds (dirIndex va) f ∨ dirIndex va = mountTableSlot ∧ f = mountTable ∨
        dirIndex va = selfMapSlot ∧ f = w.root) := by
  have small := dirIndex_lt va
  have small' := tableIndex_lt va
  have root := (isAligned_iff _).1 h.wired.isFrame_root.1
  rw [isAligned_iff] at aligned
  obtain same | ⟨present, same⟩ := reads
  · simp only [tableEntries] at *
    omega
  · have table := (isAligned_iff _).1 (w.entry w.root (dirIndex va)).frame_aligned
    have frame : f = (w.entry w.root (dirIndex va)).frame := by
      simp only [tableEntries] at *
      omega
    refine .inr ⟨by omega, ?_⟩
    obtain low | window | self := slot_cases small
    · exact .inl ⟨low, present, frame.symm⟩
    · exact .inr (.inl ⟨window, by rw [frame, window, h.wired.mount_frame]⟩)
    · exact .inr (.inr ⟨self, by rw [frame, self, h.wired.self_frame]⟩)

/-- The window's page is the only one whose walk comes to the window's entry. -/
theorem Reserves.reads_window (h : w.Reserves) (reads : w.Reads va (mountTable + 4 * mountEntry)) :
    SamePage windowView va := by
  have away := h.wired.mountTable_ne_root
  obtain ⟨root, -⟩ | ⟨leaf, bound | ⟨slot, -⟩ | ⟨-, root⟩⟩ :=
    h.reads_cases (by decide) (by decide) reads
  · exact absurd root away
  · exact absurd rfl (h.apart bound).2
  · exact ⟨slot, leaf.symm⟩
  · exact absurd root away

theorem binds_setSlot (hd : d < mountTableSlot) (bound : (w.setEntry w.root d e).Binds i f) :
    i = d ∧ e.isPresent = true ∧ e.frame = f ∨ i ≠ d ∧ w.Binds i f := by
  obtain ⟨hi, present, frame⟩ := bound
  rw [root_setEntry, entry_setEntry _ _ _ (hd.trans (by decide)) (hi.trans (by decide))]
    at present frame
  split at present
  · rw [if_pos ‹_›] at frame
    exact .inl ⟨‹_ ∧ _›.2, present, frame⟩
  · rename_i other
    rw [if_neg other] at frame
    exact .inr ⟨fun same => other ⟨rfl, same⟩, hi, present, frame⟩

namespace Distinct

/-- Slots that lead where they led. -/
theorem of_slots (h : w.Distinct I) (wired : v.Wired) (slots : ∀ d < mountTableSlot,
    (v.entry v.root d).SameTarget (w.entry w.root d)) : v.Distinct I := by
  have binds (d f : Nat) (bound : v.Binds d f) : w.Binds d f := by
    obtain ⟨hd, present, frame⟩ := bound
    have same := slots d hd
    exact ⟨hd, same.present ▸ present, (same.frame present).symm.trans frame⟩
  refine ⟨⟨wired, fun d hd present => ?_⟩, fun d d' f here there => ?_, fun f hf => ?_⟩
  · obtain ⟨-, there, frame⟩ := binds d _ ⟨hd, present, rfl⟩
    exact frame ▸ h.slot d hd there
  · exact h.single d d' f (binds d f here) (binds d' f there)
  · exact ⟨(h.unbound f hf).1, fun d bound => (h.unbound f hf).2 d (binds d f bound)⟩

theorem mono (h : w.Distinct I) (less : J ⊆ I) : w.Distinct J :=
  ⟨h.toReserves, h.single, fun f hf => h.unbound f (less hf)⟩

theorem setPage (h : w.Distinct I) (hf : f ≠ w.root) (q : Page) : (w.setPage f q).Distinct I := by
  refine h.of_slots (h.wired.setPage hf q) fun d _ => ?_
  rw [root_setPage, entry_setPage_of_ne _ _ _ hf.symm]
  exact .refl _

theorem book (h : w.Distinct I) (b : Books) : (w.book b).Distinct I :=
  ⟨h.toReserves.book b, h.single, h.unbound⟩

theorem setWindow (h : w.Distinct I) (c : Entry) :
    (w.setEntry mountTable mountEntry c).Distinct I :=
  h.setPage h.wired.mountTable_ne_root _

theorem widen (h : w.Distinct I) (hd : d < mountTableSlot)
    (same : e.SameTarget (w.entry w.root d)) : (w.setEntry w.root d e).Distinct I := by
  refine h.of_slots (h.wired.setSlot hd e) fun i hi => ?_
  rw [root_setEntry, entry_setEntry _ _ _ (hd.trans (by decide)) (hi.trans (by decide))]
  split
  · rename_i here
    rw [here.2]
    exact same
  · exact .refl _

/-- An idle frame is bound. -/
theorem bind (h : w.Distinct I) (hd : d < mountTableSlot) (idle : e.frame ∈ I) :
    (w.setEntry w.root d e).Distinct (I \ {e.frame}) := by
  obtain ⟨apart, loose⟩ := h.unbound _ idle
  have binds (i g : Nat) (bound : (w.setEntry w.root d e).Binds i g) :
      i = d ∧ g = e.frame ∨ w.Binds i g := by
    obtain ⟨rfl, -, rfl⟩ | ⟨-, old⟩ := binds_setSlot hd bound
    · exact .inl ⟨rfl, rfl⟩
    · exact .inr old
  refine ⟨h.toReserves.setSlot hd fun _ => apart, fun i j g here there => ?_, fun g hg => ?_⟩
  · obtain ⟨rfl, rfl⟩ | old := binds i g here
    · obtain ⟨rfl, -⟩ | old := binds j _ there
      · rfl
      · exact absurd old (loose j)
    · obtain ⟨-, rfl⟩ | old' := binds j g there
      · exact absurd old (loose i)
      · exact h.single i j g old old'
  · refine ⟨(h.unbound g hg.1).1, fun i bound => ?_⟩
    obtain ⟨-, same⟩ | old := binds i g bound
    · exact hg.2 same
    · exact (h.unbound g hg.1).2 i old

/-- A table is unbound, and its frame is idle then. -/
theorem unbind (h : w.Distinct I) (hd : d < mountTableSlot)
    (present : (w.entry w.root d).isPresent = true) :
    (w.setEntry w.root d .empty).Distinct (insert (w.entry w.root d).frame I) := by
  have binds (i g : Nat) (there : (w.setEntry w.root d .empty).Binds i g) :
      i ≠ d ∧ w.Binds i g := by
    obtain ⟨-, no, -⟩ | old := binds_setSlot hd there
    · simp at no
    · exact old
  refine ⟨h.toReserves.setSlot hd (by simp), fun i j g here there => ?_, fun g hg => ?_⟩
  · exact h.single i j g (binds i g here).2 (binds j g there).2
  · obtain rfl | old := hg
    · refine ⟨h.slot d hd present, fun i there => ?_⟩
      obtain ⟨other, old⟩ := binds i _ there
      exact other (h.single i d _ old ⟨hd, present, rfl⟩)
    · exact ⟨(h.unbound g old).1, fun i there => (h.unbound g old).2 i (binds i g there).2⟩

/-- The walk that comes to an entry of a table is the walk to its page. -/
theorem reads_leaf (h : w.Distinct I) (bound : w.Binds d f) (hi : i < tableEntries)
    (reads : w.Reads va (f + 4 * i)) : dirIndex va = d ∧ tableIndex va = i := by
  have apart := h.apart bound
  have aligned : isAligned f = true := bound.2.2 ▸ Entry.frame_aligned _
  obtain ⟨root, -⟩ | ⟨leaf, here | ⟨-, mount⟩ | ⟨-, root⟩⟩ := h.reads_cases aligned hi reads
  · exact absurd (root.trans h.wired.root) apart.1
  · exact ⟨h.single _ _ f here bound, leaf.symm⟩
  · exact absurd mount apart.2
  · exact absurd (root.trans h.wired.root) apart.1

/-- No slot at all leads to an idle frame. -/
theorem frame_ne (h : w.Distinct I) (idle : f ∈ I) (hd : d < tableEntries)
    (present : (w.entry w.root d).isPresent = true) : (w.entry w.root d).frame ≠ f := by
  obtain ⟨apart, loose⟩ := h.unbound f idle
  obtain low | rfl | rfl := slot_cases hd
  · exact fun same => loose d ⟨low, present, same⟩
  · rw [h.wired.mount_frame]
    exact apart.2.symm
  · rw [h.wired.self_frame]
    exact (h.apart_ne_root apart).symm

end Distinct
end Snapshot

namespace Kernel

open KernelState

variable {α : Type} {w : Snapshot} {s t : KernelState} {P R I J : Set Nat} {d f i va : Nat}
  {e : Entry} {prot : Protection}

/-- Run from `s`, the action ends in `Q` if it succeeds. -/
abbrev Completes (x : Kernel α) (s : KernelState) (Q : α → KernelState → Prop) : Prop :=
  Ends (fun _ => True) x s Q

theorem Ends.completes {F : KernelState → Prop} {x : Kernel α} {Q : α → KernelState → Prop}
    (h : Ends F x s Q) : Completes x s Q := h.weaken fun _ _ => trivial

theorem distinct_of_machine (same : t.machine = s.machine) (h : s.snapshot.Distinct I) :
    t.snapshot.Distinct I := by
  rw [snapshot_of_machine same]
  exact h.book _

theorem Aside.spares (h : Aside s t) (spares : s.snapshot.Spares) : t.snapshot.Spares :=
  (distinct_of_machine h.machine spares).mono (stock_subset fun _ hf => h.free ▸ hf)

/-! ## Mounting -/

/-- A new word behind the window is followed by an order to drop the window's page. -/
theorem current_setWindow (h : s.snapshot.Reserves) (c : Current w P s) (sets : s.SetsWindow t e) :
    Current w P t := by
  intro va out
  by_cases reads : s.snapshot.Reads va (mountTable + 4 * mountEntry)
  · exact .inr (.of_head sets.trace (h.reads_window reads))
  · have same : s.snapshot.SameWalk t.snapshot va :=
      sets.snapshot ▸ sameWalk_setEntry (by decide) reads
    refine (c va out).imp (·.trans same.retains) fun dropped => ?_
    refine dropped.later [_, _] same sets.trace ?_
    rintro y hy pa read touches
    obtain rfl | hy := List.mem_cons.1 hy
    · exact touches
    · obtain rfl := List.mem_singleton.1 hy
      exact reads (touches ▸ read)

theorem withFrame_current {body : Kernel α} {Q : α → Snapshot → Prop} (h : s.snapshot.Reserves)
    (c : Current w P s) (work : ∀ t : KernelState, t.snapshot = s.snapshot.mount f →
      Current w P t → Completes body t fun a u => u.snapshot.Reserves ∧ Current w P u ∧
        Q a (u.snapshot.setEntry mountTable mountEntry s.snapshot.window)) :
    Completes (withFrame f body) s fun a v => Current w P v ∧ Q a v.snapshot := by
  refine .withFrame trivial (.mountAligned h.wired fun t ht => ?_)
  refine ((work t ht.snapshot (current_setWindow h c ht)).weaken fun u _ => .any _ _).mono ?_
  rintro a u ⟨reserves, current, q⟩
  exact ⟨reserves.wired, fun v hv => ⟨current_setWindow reserves current hv, hv.snapshot ▸ q⟩⟩

/-- A body that only looks leaves nothing behind. -/
theorem withFrame_current_looks {body : Kernel α} (h : s.snapshot.Reserves) (c : Current w P s)
    (looks : Looks body) :
    Completes (withFrame f body) s fun _ v => Current w P v ∧ v.snapshot = s.snapshot := by
  refine withFrame_current (Q := fun _ v => v = s.snapshot) h c fun t ht current => ?_
  refine looks.ends trivial fun a _ => ⟨ht ▸ h.setWindow _, current, ?_⟩
  rw [ht]
  exact unmount _ _

/-! ## Frames and tables -/

theorem acquireRaw_takes (s : KernelState) : Completes acquireRaw s fun f t =>
    s.snapshot.free = f :: t.snapshot.free ∧ t.machine = s.machine :=
  .acquireRaw trivial fun _ _ free => ⟨free, rfl⟩

theorem mem_stock_of_cons {v : Snapshot} (free : w.free = f :: v.free) : shown f ∈ w.stock :=
  ⟨f, free ▸ List.mem_cons_self, rfl⟩

theorem stock_subset_of_cons {v : Snapshot} (free : w.free = f :: v.free) : v.stock ⊆ w.stock :=
  stock_subset fun _ hg => free ▸ List.mem_cons_of_mem _ hg

/-- No walk comes through an idle frame. -/
theorem storePage_current {p : Page} (h : s.snapshot.Distinct I) (idle : f ∈ I)
    (aligned : isAligned f = true) (c : Current w P s)
    (moves : s.Moves t (.storePage f) (s.snapshot.setPage f p)) :
    t.snapshot.Distinct I ∧ Current w P t := by
  have root := h.apart_ne_root (h.unbound f idle).1
  refine ⟨moves.snapshot ▸ h.setPage root _, ?_⟩
  exact c.storePage aligned h.wired.isFrame_root.1 moves root.symm
    fun d hd present => h.frame_ne idle hd present

/-- Clearing a frame of the pool changes no walk. -/
theorem acquire_current (h : s.snapshot.Distinct I) (stock : s.snapshot.stock ⊆ I)
    (c : Current w P s) : Completes acquire s fun f v =>
      Current w P v ∧ v.snapshot.Distinct I ∧ s.snapshot.free = f :: v.snapshot.free := by
  refine .bind ((acquireRaw_takes s).mono ?_)
  rintro f t ⟨free, machine⟩
  have distinct := distinct_of_machine machine h
  have idle : shown f ∈ I := stock (mem_stock_of_cons free)
  refine .bind ((withFrame_current (Q := fun _ v => v.Distinct I ∧ v.free = t.snapshot.free)
    distinct.toReserves (c.aside machine) fun u hu current => ?_).mono ?_)
  · have mounted : u.snapshot.Distinct I := hu ▸ distinct.setWindow _
    have shows : u.snapshot.window.frame = shown f := by rw [hu, window_mount]; rfl
    refine .windowSetPage mounted.wired trivial fun inside v hv => ?_
    rw [shows] at inside hv
    obtain ⟨cleared, current⟩ := storePage_current mounted idle inside.1 current hv
    refine ⟨cleared.toReserves, current, cleared.setWindow _, ?_⟩
    rw [hv.snapshot, hu]
    rfl
  · rintro _ v ⟨current, distinct, same⟩
    exact .bind (.modify (.pure ⟨current.aside rfl, distinct, free.trans (congrArg _ same.symm)⟩))

/-- Whatever was bound there before: nothing is written after the flush. -/
theorem bindTable_flushed (f d : Nat) (prot : Protection) (s : KernelState) :
    Completes (bindTable f d prot) s fun _ t => t.Flushed := by
  refine .ite (fun _ => .refuse trivial) fun _ => .ite (fun _ => .refuse trivial) fun _ => ?_
  refine .bind ((Ends.any _ _).mono fun n t _ => .bind ((Ends.any _ _).mono fun _ u _ => ?_))
  refine .bind ((Ends.any _ _).mono fun _ v _ => .bind (.flush fun x hx => .modify ?_))
  exact ⟨_, hx.trace⟩

theorem unbindTable_flushed (hd : d < tableEntries) (s : KernelState) :
    Completes (unbindTable d) s fun _ t => t.Flushed := by
  refine .ite (fun past => absurd hd past.not_gt) fun _ => ?_
  refine .bind ((Ends.any _ _).mono fun e t _ => ?_)
  have flushes (u : KernelState) : Completes flush u fun _ v => v.Flushed :=
    .flush fun v hv => ⟨_, hv.trace⟩
  refine .ite (fun _ => .bind ?_) fun _ => flushes t
  refine (Ends.any _ _).mono fun _ u _ => .bind ((Ends.any _ _).mono fun _ v _ => .bind ?_)
  exact (Ends.any _ _).mono fun _ x _ => .bind ((Ends.any _ _).mono fun _ y _ => flushes y)

theorem bindTable_distinct (h : s.snapshot.Distinct I) (hd : d < mountTableSlot)
    (idle : shown f ∈ I) : Completes (bindTable f d prot) s fun _ v =>
      v.snapshot.Distinct (I \ {shown f}) ∧
        v.snapshot.entry v.snapshot.root d = .of f prot.entryFlags := by
  refine (bindTable_guards h.wired.keeps hd).completes.mono ?_
  rintro _ v ⟨o, hv⟩
  have hd' : d < tableEntries := hd.trans (by decide)
  have frame : (Entry.of f prot.entryFlags).frame = shown f :=
    Entry.frame_of_low f prot.low_entryFlags
  rw [hv]
  refine ⟨frame ▸ (h.book _).bind hd (frame ▸ idle), ?_⟩
  rw [root_setEntry, Snapshot.entry_setEntry _ _ _ hd' hd', if_pos ⟨rfl, rfl⟩]

/-- The table is the frame that the pool hands out next. -/
theorem unbindTable_distinct (h : s.snapshot.Distinct I) (hd : d < mountTableSlot)
    (present : (s.snapshot.entry s.snapshot.root d).isPresent = true) :
    Completes (unbindTable d) s fun _ v =>
      v.snapshot.Distinct (insert (s.snapshot.entry s.snapshot.root d).frame I) ∧
        v.snapshot.free = (s.snapshot.entry s.snapshot.root d).frame :: s.snapshot.free ∧
        (v.snapshot.entry v.snapshot.root d).isPresent = false := by
  have hd' : d < tableEntries := hd.trans (by decide)
  refine .ite (fun past => absurd hd' past.not_gt) fun _ => .bind (.slot h.wired hd' ?_)
  refine .ite (fun _ => .bind ?_) fun no => absurd present no
  refine .setSlot h.wired hd' fun t ht => .bind ?_
  refine (Ends.of_yields (forgetTable_yields _ _)).mono ?_
  rintro _ u ⟨-, hu⟩
  have wired : t.snapshot.Wired := ht.snapshot ▸ h.wired.setSlot hd _
  have kept : u.snapshot.Keeps u.snapshot.window := Wired.keeps (hu ▸ wired.book _)
  refine .bind ((release_guards kept).completes.mono fun _ v hv => ?_)
  refine .bind (.modify (.flush fun x hx => ?_))
  rw [hx.snapshot]
  change v.snapshot.Distinct _ ∧ v.snapshot.free = _ ∧
    (v.snapshot.entry v.snapshot.root d).isPresent = false
  rw [hv, hu, ht.snapshot]
  refine ⟨((h.unbind hd present).book _).book _, rfl, ?_⟩
  exact (congrArg Entry.isPresent ((Snapshot.entry_setEntry _ _ _ hd' hd').trans
    (if_pos ⟨rfl, rfl⟩))).trans (by simp)

/-- One page waits for an order then. -/
theorem setLeaf_current (h : s.snapshot.Distinct I) (c : Current w P s) (hd : d < mountTableSlot) :
    Completes (setLeaf d i e) s fun _ v => v.snapshot.Distinct I ∧
      Current w (P ∪ {va | dirIndex va = d ∧ tableIndex va = i}) v ∧
      v.snapshot.free = s.snapshot.free ∧
      v.snapshot.entry v.snapshot.root d = s.snapshot.entry s.snapshot.root d ∧
      v.snapshot.entry (v.snapshot.entry v.snapshot.root d).frame i = e ∧
      (∀ va, ¬ (dirIndex va = d ∧ tableIndex va = i) → s.snapshot.Retains v.snapshot va) := by
  have hd' : d < tableEntries := hd.trans (by decide)
  refine .setLeaf h.wired hd' trivial fun hi present _ v hv => ?_
  have bound : s.snapshot.Binds d (s.snapshot.entry s.snapshot.root d).frame := ⟨hd, present, rfl⟩
  have root := h.apart_ne_root (h.apart bound)
  have other {va : Nat} (out : ¬ (dirIndex va = d ∧ tableIndex va = i)) :
      ¬ s.snapshot.Reads va ((s.snapshot.entry s.snapshot.root d).frame + 4 * i) :=
    fun reads => out (h.reads_leaf bound hi reads)
  have slot : v.snapshot.entry v.snapshot.root d = s.snapshot.entry s.snapshot.root d := by
    rw [hv.snapshot, root_setEntry]
    exact entry_setPage_of_ne _ _ _ root.symm _
  refine ⟨hv.snapshot ▸ h.setPage root _, c.storeEntry hi hv fun va out => .inr ⟨?_, other ?_⟩,
    hv.snapshot ▸ rfl, slot, ?_, ?_⟩
  · exact fun before => out (.inl before)
  · exact fun page => out (.inr page)
  · rw [slot, hv.snapshot, Snapshot.entry_setEntry _ _ _ hi hi, if_pos ⟨rfl, rfl⟩]
  · intro va out
    rw [hv.snapshot]
    exact (sameWalk_setEntry hi (other out)).retains

/-! ## Mapping and unmapping -/

/-- A slot may be widened where no order is still remembered: the pages outside `P` have all that
they had, unless the slot is wide enough. -/
theorem widenSlot_current (h : s.snapshot.Distinct I) (c : Current w P s) (hd : d < mountTableSlot)
    (present : (s.snapshot.entry s.snapshot.root d).isPresent = true)
    (keep : (s.snapshot.entry s.snapshot.root d).flags.contains
        (prot.entryFlags &&& (EntryFlags.writable ||| EntryFlags.user)) = false →
      ∀ va ∉ P, w.Retains s.snapshot va) :
    Completes (widenSlot d (s.snapshot.entry s.snapshot.root d) prot.entryFlags) s fun _ v =>
      v.snapshot.Distinct I ∧ Current w P v := by
  have hd' : d < tableEntries := hd.trans (by decide)
  refine .ite (fun narrow => ?_) fun _ => .pure ⟨h, c⟩
  refine .setSlot h.wired hd' fun v hv => ?_
  have same : ((s.snapshot.entry s.snapshot.root d).set
      (prot.entryFlags &&& (EntryFlags.writable ||| EntryFlags.user))).SameTarget
        (s.snapshot.entry s.snapshot.root d) :=
    ⟨by rw [Entry.isPresent_set, present, Bool.true_or],
      fun _ => Entry.frame_set _ (prot.low_entryFlags_inter _)⟩
  refine ⟨hv.snapshot ▸ h.widen hd same, c.storeEntry hd' hv fun va out => .inl ?_⟩
  refine (keep (by simpa using narrow) va out).trans ?_
  exact retains_setEntry hd' same (Entry.covers_set _ _) va

theorem mapAt_current (h : s.snapshot.Distinct I) (c : Current w P s) (hd : d < mountTableSlot)
    (present : (s.snapshot.entry s.snapshot.root d).isPresent = true)
    (keep : (s.snapshot.entry s.snapshot.root d).flags.contains
        (prot.entryFlags &&& (EntryFlags.writable ||| EntryFlags.user)) = false →
      ∀ va ∉ P, w.Retains s.snapshot va) :
    Completes (mapAt f d i prot) s fun _ v => v.snapshot.Distinct I ∧
      Current w (P ∪ {va | dirIndex va = d ∧ tableIndex va = i}) v ∧
      v.snapshot.entry (v.snapshot.entry v.snapshot.root d).frame i = .of f prot.entryFlags := by
  have hd' : d < tableEntries := hd.trans (by decide)
  refine .bind (.slot h.wired hd' (.bind ((widenSlot_current h c hd present keep).mono ?_)))
  rintro _ u ⟨distinct, current⟩
  refine .bind ((leaf_looks d i).ends trivial fun _ _ => ?_)
  refine .bind ((setLeaf_current distinct current hd).mono ?_)
  rintro _ v ⟨distinct, current, -, -, leaf, -⟩
  refine .ite (fun _ => ?_) fun _ => .pure ⟨distinct, current, leaf⟩
  refine (countEntry_counts _ v).completes.mono fun _ x hx => ?_
  refine ⟨distinct_of_machine hx.machine distinct, current.aside hx.machine, ?_⟩
  rw [snapshot_of_machine hx.machine]
  exact leaf

/-- Only the page itself waits for an order after it was mapped. If there was no table for it, a
frame of the pool is one then. -/
theorem map_current (h : s.snapshot.Distinct I) (stock : s.snapshot.stock ⊆ I) (less : J ⊆ I)
    (fresh : (s.snapshot.entry s.snapshot.root d).isPresent = false →
      ∀ f ∈ s.snapshot.stock, f ∉ J) (c : Current w P s) (hd : d < mountTableSlot)
    (keep : (s.snapshot.entry s.snapshot.root d).isPresent = true → ∀ va ∉ P,
      w.Retains s.snapshot va) :
    Completes (map f d i prot) s fun _ v => v.snapshot.Distinct J ∧
      Current w (P ∪ {va | dirIndex va = d ∧ tableIndex va = i}) v ∧
      v.snapshot.entry (v.snapshot.entry v.snapshot.root d).frame i = .of f prot.entryFlags := by
  have hd' : d < tableEntries := hd.trans (by decide)
  by_cases fits : d < tableEntries ∧ i < tableEntries ∧ isAligned f = true
  · obtain ⟨-, hi, aligned⟩ := fits
    rw [map_eq hd' hi aligned]
    refine .bind (.slot h.wired hd' (.ite (fun absent => .bind ?_) fun there => ?_))
    · refine (acquire_current h stock c).mono ?_
      rintro table u ⟨-, distinct, free⟩
      have free' := mem_stock_of_cons free
      refine .bind (((bindTable_distinct distinct hd (stock free')).both
        (bindTable_flushed table d prot u)).mono ?_)
      rintro _ v ⟨⟨distinct, slot⟩, flushed⟩
      -- the flush that comes with a new table leaves nothing waiting but the page that follows
      have rest : v.snapshot.Distinct J := distinct.mono fun g hg =>
        ⟨less hg, fun same => fresh (by simpa using absent) _ free' (same ▸ hg)⟩
      refine mapAt_current rest (.of_flushed flushed) hd ?_ fun narrow => ?_
      · rw [slot]
        exact Entry.isPresent_entryFlags table prot
      · rw [slot, Mapping.contains_entryFlags] at narrow
        cases narrow
    · have present : (s.snapshot.entry s.snapshot.root d).isPresent = true := by simpa using there
      exact mapAt_current (h.mono less) c hd present fun _ => keep present
  · obtain ⟨r, refused⟩ := map_eq_refuse fits prot
    rw [refused]
    exact .refuse trivial

/-- What an unmapping of the page at `va` leaves of the other pages, if their table is still bound,
and of the pool, if the table went there. -/
structure Unmapped (w v : Snapshot) (va : Nat) : Prop where
  rest : (v.entry v.root (dirIndex va)).isPresent = true → ∀ va', ¬ SamePage va va' →
    w.Retains v va'
  next : (w.entry w.root (dirIndex va)).isPresent = true →
    (v.entry v.root (dirIndex va)).isPresent = false → ∀ f free, v.free = f :: free →
      ∀ g ∈ free, shown g ≠ shown f

theorem Unmapped.refl (w : Snapshot) (va : Nat) : Unmapped w w va where
  rest _ va' _ := .refl w va'
  next present absent := by simp [present] at absent

/-- After an order to drop the page, or everything, nothing waits. -/
theorem unmap_current (h : s.snapshot.Spares) (c : Current w ∅ s)
    (hd : dirIndex va < mountTableSlot) :
    Completes (unmap va) s fun _ v => v.snapshot.Spares ∧ Current w ∅ v ∧
      Unmapped s.snapshot v.snapshot va := by
  have hd' := dirIndex_lt va
  have drops {t : KernelState} (spares : t.snapshot.Spares)
      (current : Current w (∅ ∪ {va' | SamePage va va'}) t)
      (unmapped : Unmapped s.snapshot t.snapshot va) :
      Completes (invalidatePage va) t fun _ v => v.snapshot.Spares ∧ Current w ∅ v ∧
        Unmapped s.snapshot v.snapshot va :=
    .invalidatePage fun v hv => ⟨hv.snapshot ▸ spares, current.drop hv, hv.snapshot ▸ unmapped⟩
  have same := drops h (c.mono Set.subset_union_left) (.refl _ va)
  refine .ite (fun _ => .pure ⟨h, c, .refl _ va⟩) fun _ => ?_
  refine .bind (.slot h.wired hd' (.ite (fun present => .bind ?_) fun _ => same))
  refine (leaf_looks _ _).ends trivial fun _ _ => ?_
  refine .ite (fun _ => .bind ((setLeaf_current h c hd).mono ?_)) fun _ => same
  rintro _ t ⟨distinct, current, free, slot, -, rest⟩
  have spares : t.snapshot.Spares := distinct.mono (stock_subset fun _ hf => free ▸ hf)
  refine .bind ((discountEntry_counts _ t).completes.mono fun n u hu => ?_)
  have spares' := hu.spares spares
  have current' := current.aside hu.machine
  have bound : (u.snapshot.entry u.snapshot.root (dirIndex va)).isPresent = true := by
    rw [snapshot_of_machine hu.machine]
    exact slot.symm ▸ present
  refine .ite (fun _ => .bind ?_) fun _ => drops spares' current' ⟨?_, fun _ absent => ?_⟩
  · -- it was the table's last entry, so that everything is dropped before the page is
    refine ((unbindTable_distinct spares' hd bound).both (unbindTable_flushed hd' u)).mono ?_
    rintro _ v ⟨⟨distinct, free, absent⟩, flushed⟩
    refine drops (distinct.mono ?_) (.of_flushed flushed) ⟨?_, ?_⟩
    · rintro _ ⟨g, hg, rfl⟩
      rw [free] at hg
      obtain rfl | old := List.mem_cons.1 hg
      · exact .inl (shown_frame _)
      · exact .inr ⟨g, old, rfl⟩
    · intro there
      simp [absent] at there
    · intro _ _ f rest cons g hg same
      obtain ⟨rfl, rfl⟩ := List.cons.inj (free.symm.trans cons)
      rw [shown_frame] at same
      exact (spares'.unbound _ ⟨g, hg, rfl⟩).2 _ ⟨hd, bound, same.symm⟩
  · intro _ va' other
    rw [snapshot_of_machine hu.machine]
    exact rest va' other
  · simp [bound] at absent

theorem protectPage_current (h : s.snapshot.Spares) (c : Current w ∅ s)
    (hd : dirIndex va < mountTableSlot) :
    Completes (protectPage prot va) s fun _ v => v.snapshot.Spares ∧ Current w ∅ v := by
  refine .bind ((leafAt?_looks va).ends trivial fun found _ => ?_)
  cases found with
  | none => exact .pure ⟨h, c⟩
  | some e =>
    refine .bind ((setLeaf_current h c hd).mono ?_)
    rintro _ t ⟨distinct, current, free, -⟩
    refine .invalidatePage fun v hv => ⟨?_, current.drop hv⟩
    rw [hv.snapshot]
    exact distinct.mono (stock_subset fun _ hf => free ▸ hf)

/-! ## Faults -/

theorem grantWrite_current (h : s.snapshot.Distinct I) (keep : ∀ va, w.Retains s.snapshot va)
    (hd : dirIndex va < mountTableSlot) :
    Completes (grantWrite va e) s fun _ v => Current w ∅ v := by
  have hd' := dirIndex_lt va
  have grants {t : KernelState} (distinct : t.snapshot.Distinct I) (current : Current w ∅ t) :
      Completes (do
        setLeaf (dirIndex va) (tableIndex va) (e.set EntryFlags.writable)
        invalidatePage va
        countWriteGrant
        note (.writeGranted va e.frame)) t fun _ v => Current w ∅ v := by
    refine .bind ((setLeaf_current distinct current hd).mono ?_)
    rintro _ u ⟨-, current, -⟩
    refine .bind (.invalidatePage fun v hv => .bind (.modify (.modify ?_)))
    exact Current.aside (current.drop hv) rfl
  refine .bind (.slot h.wired hd' (.ite (fun _ => .bind ?_) fun _ => grants h (.start keep)))
  refine .setSlot h.wired hd' fun t ht => ?_
  have same : ((s.snapshot.entry s.snapshot.root (dirIndex va)).set EntryFlags.writable).SameTarget
      (s.snapshot.entry s.snapshot.root (dirIndex va)) := by
    refine ⟨?_, fun _ => Entry.frame_set_writable _⟩
    rw [Entry.isPresent_set, show EntryFlags.writable.bits.toNat.testBit 0 = false by decide,
      Bool.or_false]
  refine grants (ht.snapshot ▸ h.widen hd same) (.start fun va' => (keep va').trans ?_)
  rw [ht.snapshot]
  exact retains_setEntry hd' same (Entry.covers_set _ _) va'

theorem freshFrame_takes (s : KernelState) : Completes Policy.freshFrame s fun f t =>
    s.snapshot.free = f :: t.snapshot.free ∧ t.machine = s.machine := by
  refine .bind ((acquireRaw_takes s).mono ?_)
  rintro f t ⟨free, machine⟩
  refine .bind ((shareFrame_counts f t).completes.mono
    fun _ u hu => .pure ⟨?_, hu.machine.trans machine⟩)
  rw [hu.free, free]

/-- The copy is mapped, its page dropped, and what is written then is no part of any walk, unless
the copy was free still and became the table. -/
theorem installCopy_current {copy : Nat} (h : s.snapshot.Distinct I)
    (stock : s.snapshot.stock ⊆ I) (idle : shown copy ∈ I)
    (fresh : (s.snapshot.entry s.snapshot.root (dirIndex va)).isPresent = false →
      ∀ g ∈ s.snapshot.free, shown g ≠ shown copy) (c : Current w ∅ s)
    (hd : dirIndex va < mountTableSlot) (off : offset va = 0)
    (keep : (s.snapshot.entry s.snapshot.root (dirIndex va)).isPresent = true →
      ∀ va', ¬ SamePage va va' → w.Retains s.snapshot va') :
    Completes (installCopy va f copy) s fun _ v => Current w ∅ v := by
  have other : (s.snapshot.entry s.snapshot.root (dirIndex va)).isPresent = false →
      ∀ f ∈ s.snapshot.stock, f ∉ ({shown copy} : Set Nat) := by
    rintro absent _ ⟨g, hg, rfl⟩ same
    exact fresh absent g hg same
  -- the page was given up on purpose: until it is dropped, nothing is said of it
  have waits : Current w {va' | SamePage va va'} s := c.mono fun _ => False.elim
  refine .bind (.attempt ((map_current h stock (Set.singleton_subset_iff.2 idle) other waits hd
    keep).mono ?_) fun _ u _ => .bind (.halt trivial))
  rintro _ t ⟨distinct, current, leaf⟩
  refine .bind (.invalidatePage fun u hu => .bind ?_)
  have distinct' : u.snapshot.Distinct {shown copy} := hu.snapshot ▸ distinct
  have current' : Current w ∅ u :=
    (current.mono fun va' page => .inr (page.elim id id)).drop hu
  refine .access distinct'.wired.isFrame_root trivial fun target maps => ?_
  -- the address that the copy is written through leads to the copy now
  have there : shown copy = target := by
    have frame := maps.frame
    rwa [hu.snapshot, leaf, Entry.frame_of_low _ (Protection.low_entryFlags _)] at frame
  rw [off, Nat.add_zero, ← there]
  refine .bind ((withFrame_current (Q := fun _ _ => True) distinct'.toReserves current' ?_).mono ?_)
  · intro v hv current
    have open' : v.snapshot.Distinct {shown copy} := hv ▸ distinct'.setWindow _
    refine .bind (.windowPage open'.wired trivial fun _ => ?_)
    refine .storePage_of_aligned (Entry.frame_aligned _) trivial fun x hx => ?_
    obtain ⟨distinct, current⟩ := storePage_current open' rfl (Entry.frame_aligned _) current hx
    exact ⟨distinct.toReserves, current, trivial⟩
  · rintro _ v ⟨current, -⟩
    exact .bind (.modify (.modify (current.aside rfl)))

/-- The page is dropped twice: once unmapped, and once mapped anew. -/
theorem copyPage_current (h : s.snapshot.Spares) (keep : ∀ va, w.Retains s.snapshot va)
    (hd : dirIndex va < mountTableSlot) (off : offset va = 0)
    (present : (s.snapshot.entry s.snapshot.root (dirIndex va)).isPresent = true) :
    Completes (copyPage .recording va f) s fun _ v => Current w ∅ v := by
  rw [copyPage_eq]
  refine .bind ((unshareFrame_counts f s).completes.mono fun _ t ht => .bind ?_)
  have keep' (va' : Nat) : w.Retains t.snapshot va' := by
    rw [snapshot_of_machine ht.machine]
    exact keep va'
  have present' : (t.snapshot.entry t.snapshot.root (dirIndex va)).isPresent = true := by
    rw [snapshot_of_machine ht.machine]
    exact present
  refine (unmap_current (ht.spares h) (.start keep') hd).mono ?_
  rintro _ u ⟨spares, current, unmapped⟩
  refine .bind ((freshFrame_takes u).mono ?_)
  rintro copy v ⟨free, machine⟩
  refine installCopy_current (distinct_of_machine machine spares) (stock_subset_of_cons free)
    (mem_stock_of_cons free) ?_ (current.aside machine) hd off ?_
  all_goals rw [snapshot_of_machine machine]
  · exact fun absent => unmapped.next present' absent copy _ free
  · exact fun bound va' other => (keep' va').trans (unmapped.rest bound va' other)

/-- A page that is found has a table. -/
theorem leafAt?_finds (h : s.snapshot.Wired) :
    Completes (leafAt? va) s fun found t => t = s ∧ (found.isSome = true →
      (s.snapshot.entry s.snapshot.root (dirIndex va)).isPresent = true) := by
  refine .bind (.slot h (dirIndex_lt va) (.ite (fun present => ?_) fun _ => .pure ⟨rfl, nofun⟩))
  exact .bind ((leaf_looks _ _).ends trivial fun e _ => .pure ⟨rfl, fun _ => present⟩)

theorem pageFault_current (h : s.snapshot.Spares) (keep : ∀ va, w.Retains s.snapshot va)
    (hd : dirIndex va < mountTableSlot) (code : UInt32) :
    Completes (pageFault .recording va code) s fun _ v => Current w ∅ v := by
  have hd' : dirIndex (alignDown va) < mountTableSlot := by rwa [dirIndex_alignDown]
  have delegates {t : KernelState} (current : Current w ∅ t) :
      Completes (delegateFault .recording va code) t fun _ v => Current w ∅ v :=
    .bind (.modify (.bind (.modify (.pure (current.aside rfl)))))
  have current : Current w ∅ s := .start keep
  refine .bind ((leafAt?_finds h.wired).mono ?_)
  rintro found _ ⟨rfl, present⟩
  cases found with
  | none => exact delegates current
  | some e =>
    refine .ite (fun _ => delegates current) fun _ => ?_
    refine .bind ((shareCount_looks e.frame).ends trivial fun n _ => ?_)
    rcases n with _ | _ | n
    · exact .bind (.modify (delegates (current.aside rfl)))
    · exact .bind ((grantWrite_current h keep hd').mono fun _ t ht => .pure ht)
    · exact .bind ((copyPage_current h keep hd' (offset_alignDown va) (present rfl)).mono
        fun _ t ht => .pure ht)

end Kernel
end VirtualMemory
