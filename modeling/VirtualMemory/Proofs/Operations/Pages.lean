import VirtualMemory.AddressSpace.Range
import VirtualMemory.Fault.Resolve
import VirtualMemory.Proofs.Operations.Frames
import VirtualMemory.Proofs.Ownership.Pages

/-!
# Pages of the resident space

Mapping, unmapping and changing the rights of a page each change what is seen at one entry of one
place. Only mapping can fail, when it needs a table and the pool is empty.
-/
namespace VirtualMemory

open Layout Snapshot

/-- A slot that is none of the two window slots lies below both. -/
theorem Layout.lt_mountTableSlot {d : Nat} (hd : d < tableEntries) (mount : d ≠ mountTableSlot)
    (self : d ≠ selfMapSlot) : d < mountTableSlot := by
  simp only [mountTableSlot, selfMapSlot, tableEntries] at *
  omega

/-- Slot `d` needs a table, and there is no frame for it. -/
def Snapshot.StarvesTable (w : Snapshot) (d : Nat) (f : Failure) (b : Books) : Prop :=
  f = .halt .outOfFrames ∧ b = w.toBooks ∧ w.free = [] ∧ (w.entry w.root d).isPresent = false

theorem Snapshot.StarvesTable.depleted {w : Snapshot} {d : Nat} {f : Failure} {b : Books}
    (h : w.StarvesTable d f b) : Depleted f b := by
  obtain ⟨rfl, rfl, empty, -⟩ := h
  exact .frames empty

/-- Slot `d`, with the rights that a page of this protection needs on it. -/
def Snapshot.widenedAt (w : Snapshot) (d : Nat) (prot : Protection) : Snapshot :=
  w.setEntry w.root d ((w.entry w.root d).widened prot)

/-- `f` is mapped at entry `t` of the table at slot `d`, and the slot is widened for it. -/
def Snapshot.installed (w : Snapshot) (f d t : Nat) (prot : Protection) : Snapshot :=
  ((w.widenedAt d prot).setEntry (w.entry w.root d).frame t (.of f prot.entryFlags)).book
    { w.toBooks with
      occupancy :=
        if ((w.widenedAt d prot).entry (w.entry w.root d).frame t).isPresent = true then w.occupancy
        else w.occupancy.set (w.entry w.root d).frame
          (w.occupancy.get (w.entry w.root d).frame + 1) }

namespace Kernel

variable {E : Failure → Books → Prop} {w v : Snapshot} {O : Finset Nat} {role : Nat → Role}
  {d f t : Nat} {e : Entry}

/-! ## Binding a new table -/

/-- A new table is empty, so binding it shows no page. -/
theorem newTable_leads (h : w.Stable O role) (hd : d < mountTableSlot)
    (absent : (w.entry w.root d).isPresent = false) (prot : Protection)
    (out : w.free = [] → E (.halt .outOfFrames) w.toBooks) :
    Leads E allocateTable w fun f u => ∃ v, Yields (bindTable f d prot) u () v ∧
      w.TableAdded v O role d f prot := by
  apply acquire_leads h.wired h.usable out
  intro f rest first
  have free : role f = .free := (h.free f).2 (first ▸ List.mem_cons_self)
  obtain ⟨inside, hm, hr⟩ := h.usable f (first ▸ List.mem_cons_self)
  have frame := h.wired.frame_of inside prot.low_entryFlags
  have hd' := Sound.slot_lt hd
  set b : Books := { w.toBooks with free := rest }
  set b' : Books := { b with occupancy := w.occupancy.forget f }
  set u := (w.book b).setPage f Page.zero with hu
  have spare : Function.update role f .spare f = .spare := Function.update_self ..
  have taken : u.Sound (Function.update role f .spare) :=
    (h.take first).setPage (by rw [spare]; trivial) _
  have forgotten := taken.recount spare (o := w.occupancy.forget f)
    (fun g hg => by rw [Occupancy.get_forget, if_neg hg.symm]; rfl)
    (fun g hg => Occupancy.mem_forget.trans (and_iff_right hg.symm))
  have before : ((u.book b').entry u.root d).isPresent = false := by
    change (u.entry w.root d).isPresent = false
    rw [hu, entry_setPage_of_ne _ _ _ hr.symm]
    exact absent
  have present := Entry.isPresent_entryFlags f prot
  have zero : u.page f = Page.zero := page_setPage_self _ f _
  have bound := forgotten.bind hd before spare zero
    (fun mem => (Occupancy.mem_forget.1 mem).1 rfl) present frame
  rw [Function.update_idem] at bound
  have binding := bindTable_yields taken.wired inside hm hd' prot
  rw [zero, Page.presentCount_zero] at binding
  have entry {i : Nat} (hi : i < tableEntries) : ((u.book b').setEntry w.root d
      (.of f prot.entryFlags)).entry w.root i =
        if i = d then .of f prot.entryFlags else w.entry w.root i := by
    refine (entry_setEntry _ _ _ hd' hi).trans ?_
    simp only [true_and]
    exact if_congr Iff.rfl rfl (entry_setPage_of_ne _ _ _ hr.symm _)
  have slot := (entry hd').trans (if_pos rfl)
  refine ⟨_, binding, h.assign_aside bound (by simp [free]) (by simp) (by simp), rfl, first,
    slot, (congrArg Entry.isPresent slot).trans present, (congrArg Entry.frame slot).trans frame,
    ⟨rfl, rfl, rfl, ?_, ?_⟩, ?_, ?_, fun i hi other => (entry hi).trans (if_neg other)⟩
  · intro π t hπ ht
    have idle : (Function.update role f .spare f).Idle := by rw [spare]; trivial
    have old : (u.book b').leaf? π t = w.leaf? π t :=
      (leaf?_book (w := u) rfl π t).trans <|
        ((h.take first).leaf?_setPage idle _ hπ t).trans (leaf?_book (w := w) rfl π t)
    refine (forgotten.leaf?_setSlot hd _ (fun _ => frame.symm ▸ hr) hπ t).trans ?_
    split
    · subst π
      rw [frame, entry_book, Snapshot.entry, zero, Page.entry_zero]
      refine (if_neg (by simp)).trans (leaf?_of_absent ?_ t).symm
      change (w.slotAt (w.here d)).isPresent = false
      rw [slotAt_here]
      exact absent
    · exact old
  · intro g hg
    have other : g ≠ f := by
      rintro rfl
      rw [h.data hg] at free
      cases free
    refine (page_setEntry ..).trans ((if_neg (h.ne_root hg)).trans ?_)
    exact (page_setPage ..).trans (if_neg other)
  · intro π hπ other
    refine (slotAt_setSlot forgotten.housed hd _ hπ).trans ((if_neg other).trans ?_)
    refine (slotAt_book (w := u) rfl π).trans ?_
    refine (slotAt_setPage hr (h.idle_ne_directory (by rw [free]; trivial)) _ π).trans ?_
    exact slotAt_book rfl π
  · intro g away other
    exact (page_setEntry ..).trans ((if_neg away).trans ((page_setPage ..).trans (if_neg other)))

/-! ## Mapping -/

/-- What mapping does where a table is bound. -/
def mapAt (f d t : Nat) (prot : Protection) : Kernel Unit := do
  let e ← slot d
  widenSlot d e prot.entryFlags
  let previous ← leaf d t
  setLeaf d t (.of f prot.entryFlags)
  if !previous.isPresent then countEntry e.frame

/-- Whether it is written or not, the slot has the rights that the page needs on it. -/
theorem widenSlot_yields (hw : w.Wired) (hd : d < tableEntries) (prot : Protection) :
    Yields (widenSlot d (w.entry w.root d) prot.entryFlags) w () (w.widenedAt d prot) := by
  refine Leads.yields (.ite (fun _ => (setSlot_yields hw hd _).leads ⟨rfl, rfl⟩) fun enough => ?_)
  have has : (w.entry w.root d).has
      (prot.entryFlags &&& (EntryFlags.writable ||| EntryFlags.user)) = true := by
    rw [← Mapping.contains_flags _ prot.named_entryFlags_inter]
    change FlagSet.contains (w.entry w.root d).flags _ = true
    simpa using enough
  rw [widenedAt, Entry.widened_of_has has, setEntry_entry _ _ hd]
  exact .pure ⟨rfl, rfl⟩

/-- Nothing but the slot's flags change, and none is lost. -/
theorem widenSlot_leads (hw : w.Wired) (hd : d < tableEntries)
    (present : (w.entry w.root d).isPresent = true) (aligned : isAligned f = true)
    (prot : Protection) :
    Leads E (widenSlot d (w.entry w.root d) prot.entryFlags) w fun _ v => ∃ e,
      (e.isPresent = true ∧ e.frame = (w.entry w.root d).frame) ∧
        (e.Covers (w.entry w.root d) ∧ e.Covers (.of f prot.entryFlags)) ∧
        v = w.setEntry w.root d e :=
  (widenSlot_yields hw hd prot).leads ⟨_, ⟨(Entry.isPresent_widened ..).trans present,
    Entry.frame_widened ..⟩, ⟨Entry.covers_widened .., Entry.widened_covers _ _ aligned⟩, rfl⟩

section MapAt
variable (hw : w.Wired) (hd : d < tableEntries) (ht : t < tableEntries)
  (present : (w.entry w.root d).isPresent = true)
  (inside : Ram.IsFrame w.size (w.entry w.root d).frame)
include hw hd ht present inside

/-- What mapping writes where a table is bound: the slot, with more rights if the page needs them,
and the entry, which is counted if it was free. -/
theorem mapAt_yields (f : Nat) (prot : Protection)
    (room : ((w.widenedAt d prot).entry (w.entry w.root d).frame t).isPresent = false →
      w.occupancy.get (w.entry w.root d).frame < tableEntries) :
    Yields (mapAt f d t prot) w () (w.installed f d t prot) := by
  refine (slot_yields hw hd).trans ((widenSlot_yields hw hd prot).trans ?_)
  set e := (w.entry w.root d).widened prot with he
  set v := w.widenedAt d prot with hv
  have frame : e.frame = (w.entry w.root d).frame := Entry.frame_widened ..
  have present' : e.isPresent = true := (Entry.isPresent_widened ..).trans present
  have slot : v.entry v.root d = e := (entry_setEntry w w.root e hd hd).trans (if_pos ⟨rfl, rfl⟩)
  have wired : v.Wired := hw.reslot hd present' frame
  rw [← frame] at inside
  refine (leaf_yields wired hd slot present' inside ht).trans ?_
  refine (setLeaf_yields wired hd slot present' inside ht _).trans ?_
  rw [frame]
  refine Leads.yields (.ite (fun absent => ?_) fun there => .pure ⟨rfl, ?_⟩)
  · have absent' : (v.entry (w.entry w.root d).frame t).isPresent = false := by simpa using absent
    refine (countEntry_yields (w := v.setEntry _ t _) (room absent')).leads ⟨rfl, ?_⟩
    rw [installed, if_neg (by simp [← hv, absent'])]
    rfl
  · rw [installed, if_pos (by simpa using there)]
    rfl

theorem mapAt_leads (aligned : isAligned f = true) (prot : Protection)
    (room : ∀ e, ((w.setEntry w.root d e).entry (w.entry w.root d).frame t).isPresent = false →
      w.occupancy.get (w.entry w.root d).frame < tableEntries) :
    Leads E (mapAt f d t prot) w fun _ v => ∃ e,
      (e.isPresent = true ∧ e.frame = (w.entry w.root d).frame) ∧
      (e.Covers (w.entry w.root d) ∧ e.Covers (.of f prot.entryFlags)) ∧
      v = ((w.setEntry w.root d e).setEntry e.frame t (.of f prot.entryFlags)).book
        { w.toBooks with occupancy :=
          if ((w.setEntry w.root d e).entry e.frame t).isPresent = true then w.occupancy
          else w.occupancy.set e.frame (w.occupancy.get e.frame + 1) } := by
  refine (mapAt_yields hw hd ht present inside f prot (room _)).leads ⟨_,
    ⟨(Entry.isPresent_widened ..).trans present, Entry.frame_widened ..⟩,
    ⟨Entry.covers_widened .., Entry.widened_covers _ _ aligned⟩, ?_⟩
  rw [Entry.frame_widened]
  rfl

end MapAt

/-- Mapping a caller's frame where a table is bound. -/
theorem mapBound_leads {ex : Option Place} (h : w.Stable O role) (hd : d < mountTableSlot)
    (ht : t < tableEntries) (present : (w.entry w.root d).isPresent = true) (filled : w.Filled ex)
    (ex_eq : ex = none ∨ ex = some (w.here d)) (hf : f ∈ O) (prot : Protection) :
    Leads E (mapAt f d t prot) w fun _ v => v.Stable O role ∧ v.Filled none ∧
      w.Remaps v O (w.pagesWith (w.here d) t (some (.of f prot.entryFlags))) := by
  have table := h.table_here hd present
  have mine : role f = .owned := h.data hf
  have inside := h.isFrame (f := f) (by simp [mine])
  refine (mapAt_leads h.wired (Sound.slot_lt hd) ht present (h.isFrame (by simp [table])) inside.1
    prot ?_).mono ?_
  · exact fun e before => h.room_of_absent hd present ht e before
  rintro _ _ ⟨e, ⟨present', frame⟩, ⟨wider, fits⟩, rfl⟩
  obtain ⟨stable, moved⟩ := h.rewriteSlot hd present present' frame
  have upheld := h.upholds_slot hd present present' frame wider
  set v := w.setEntry w.root d e with hv
  rw [← frame] at table
  have slotAt (π : Place) (hπ : w.Has π) := slotAt_setSlot h.housed hd e hπ
  have here : v.slotAt (w.here d) = e :=
    (slotAt _ (has_here h.live_active hd)).trans (if_pos rfl)
  have filled' : v.Filled ex := by
    refine filled.congr rfl (fun π hπ _ there => ?_) moved.leaf
    rw [slotAt π hπ] at there
    split at there
    · subst π
      rwa [slotAt_here]
    · exact there
  have new := Entry.isPresent_entryFlags f prot
  have owned : role (Entry.of f prot.entryFlags).frame = .owned := by
    rw [h.wired.frame_of inside prot.low_entryFlags]
    exact mine
  have seen (o : Occupancy) : v.Remaps ((v.setEntry e.frame t (.of f prot.entryFlags)).book
      { v.toBooks with occupancy := o }) O
      (v.pagesWith (w.here d) t (some (.of f prot.entryFlags))) := by
    have written := stable.wrote table ht (.of f prot.entryFlags) o
    simp only [new, if_true] at written
    exact ⟨written, stable.upholds_leaf table ht (fun _ _ => here.symm ▸ fits) o⟩
  have remapped : w.Remaps v O w.leaf? := ⟨moved, upheld⟩
  refine ⟨?_, ?_, remapped.pagesWith (seen _)⟩
  · by_cases before : (v.entry e.frame t).isPresent = true
    · rw [if_pos before]
      exact ⟨stable.overwrite table ht before new fun _ _ _ => owned, stable.at_rest, stable.owned⟩
    · rw [if_neg before]
      exact (stable.taken table ht (by simpa using before) new owned).1
  · exact filled'.wrote (π := w.here d) ex_eq rfl (stable.slotAt_wrote table _ _) ht (seen _).leaf

theorem map_eq (hd : d < tableEntries) (ht : t < tableEntries) (aligned : isAligned f = true)
    (prot : Protection) : map f d t prot = (do
      if !(← slot d).isPresent then
        let table ← allocateTable
        bindTable table d prot
      mapAt f d t prot) := by
  rw [map, if_neg (by simp only [Bool.or_eq_true, decide_eq_true_eq]; omega),
    if_neg (by simp [aligned])]
  rfl

theorem map_eq_refuse (no : ¬ (d < tableEntries ∧ t < tableEntries ∧ isAligned f = true))
    (prot : Protection) : ∃ e, map f d t prot = refuse e := by
  unfold map
  split
  · exact ⟨_, rfl⟩
  · rename_i inside
    simp only [Bool.or_eq_true, decide_eq_true_eq] at inside
    rw [if_pos (by grind)]
    exact ⟨_, rfl⟩

theorem map_refuses (no : ¬ (d < tableEntries ∧ t < tableEntries ∧ isAligned f = true))
    (prot : Protection) : ∃ e, Refuses (map f d t prot) w e := by
  obtain ⟨e, eq⟩ := map_eq_refuse no prot
  rw [eq]
  exact ⟨e, .refuse e w⟩

/-- Mapping where a table is bound goes straight to the entry. -/
theorem map_of_present {Q : Unit → Snapshot → Prop} (hw : w.Wired) (hd : d < tableEntries)
    (ht : t < tableEntries) (aligned : isAligned f = true)
    (present : (w.entry w.root d).isPresent = true) (prot : Protection)
    (h : Leads E (mapAt f d t prot) w Q) : Leads E (map f d t prot) w Q := by
  rw [map_eq hd ht aligned]
  exact (slot_yields hw hd).bind (.ite (fun absent => by simp [present] at absent) fun _ => h)

/-- Elsewhere a table is bound first. -/
theorem map_of_absent {Q : Unit → Snapshot → Prop} (h : w.Stable O role) (hd : d < mountTableSlot)
    (ht : t < tableEntries) (aligned : isAligned f = true)
    (absent : (w.entry w.root d).isPresent = false) (prot : Protection)
    (out : w.free = [] → E (.halt .outOfFrames) w.toBooks)
    (rest : ∀ table v, w.TableAdded v O role d table prot → Leads E (mapAt f d t prot) v Q) :
    Leads E (map f d t prot) w Q := by
  have hd' := Sound.slot_lt hd
  rw [map_eq hd' ht aligned]
  refine (slot_yields h.wired hd').bind (.ite ?_ fun there => by simp [absent] at there)
  intro _
  refine .bind ((newTable_leads h hd absent prot out).mono ?_)
  rintro table u ⟨v, bound, added⟩
  exact bound.bind (rest table v added)

/-- Mapping a caller's frame fails only where it needs a table and the pool is empty. -/
theorem map_leads_unless (h : w.Settled O) (hd : d < mountTableSlot) (ht : t < tableEntries)
    (hf : f ∈ O) (prot : Protection) :
    Leads (w.StarvesTable d) (map f d t prot) w fun _ v => v.Settled O ∧
      w.Remaps v O (w.pagesWith (w.here d) t (some (.of f prot.entryFlags))) := by
  obtain ⟨role, stable⟩ := h.stable
  have aligned := (h.isFrame hf).1
  cases slot : (w.entry w.root d).isPresent with
  | false =>
    refine map_of_absent stable hd ht aligned slot prot (fun empty => ⟨rfl, rfl, empty, slot⟩) ?_
    intro table v added
    have here := here_congr added.moved.spaces d
    have filled : v.Filled (some (w.here d)) := by
      have but : w.Filled (some (w.here d)) := fun p d _ => h.filled p d (by simp)
      refine but.congr added.moved.spaces ?_ added.moved.leaf
      intro π hπ other there
      rwa [added.slots π hπ fun eq => other (by rw [eq])] at there
    refine (mapBound_leads added.stable hd ht added.present filled (.inr (by rw [here])) hf
      prot).mono ?_
    rintro _ x ⟨stable'', full, moved'⟩
    rw [here] at moved'
    have bound : w.Remaps v O w.leaf? := ⟨added.moved, added.upholds hd slot⟩
    have both := bound.pagesWith moved'
    exact ⟨h.rewrite both.toRewrites stable'' full, both⟩
  | true =>
    refine map_of_present stable.wired (Sound.slot_lt hd) ht aligned slot prot ?_
    refine (mapBound_leads stable hd ht slot h.filled (.inl rfl) hf prot).mono ?_
    rintro _ v ⟨stable', full, moved⟩
    exact ⟨h.rewrite moved.toRewrites stable' full, moved⟩

theorem map_leads (h : w.Settled O) (hd : d < mountTableSlot) (ht : t < tableEntries)
    (hf : f ∈ O) (prot : Protection) :
    Leads Depleted (map f d t prot) w fun _ v => v.Settled O ∧
      w.Remaps v O (w.pagesWith (w.here d) t (some (.of f prot.entryFlags))) :=
  (map_leads_unless h hd ht hf prot).weaken fun _ _ => StarvesTable.depleted

/-! ## Unmapping -/

theorem unmap_unaligned {va : Nat} (h : isAligned va = false) (w : Snapshot) :
    Yields (unmap va) w () w := by
  rw [unmap, if_pos (by simp [h])]
  exact .pure _ _

theorem unmap_leads (h : w.Settled O) {va : Nat} (aligned : isAligned va = true)
    (hd : dirIndex va < mountTableSlot) :
    Leads E (unmap va) w fun _ v => v.Settled O ∧
      w.Remaps v O (w.pagesWith (w.here (dirIndex va)) (tableIndex va) none) := by
  obtain ⟨role, stable⟩ := h.stable
  have hd' := dirIndex_lt va
  have ht := tableIndex_lt va
  rw [unmap, if_neg (by simp [aligned])]
  generalize dirIndex va = d at hd hd'
  generalize tableIndex va = t at ht
  refine (slot_yields stable.wired hd').bind ?_
  refine .ite ?_ ?_
  · intro present
    have table := stable.table_here hd present
    have inside := stable.isFrame (f := (w.entry w.root d).frame) (by simp [table])
    have away := stable.table_ne_root table
    refine (leaf_yields stable.wired hd' rfl present inside ht).bind ?_
    refine .ite ?_ ?_
    · intro before
      have counted := stable.count _ _ table
      have some := Page.presentCount_pos ht before
      have slot : (w.setEntry (w.entry w.root d).frame t .empty).entry w.root d =
          w.entry w.root d := entry_setPage_of_ne _ _ _ away.symm _
      refine (setLeaf_yields stable.wired hd' rfl present inside ht _).bind ?_
      refine (discountEntry_yields (by
        change w.occupancy.get _ ≠ 0
        omega)).bind ?_
      refine .ite ?_ ?_
      · intro last
        have free : (w.entry w.root d).frame ∉ w.free := by
          rw [← stable.free, table]
          simp
        have wired : (w.setEntry (w.entry w.root d).frame t .empty).Wired :=
          stable.wired.setPage away _
        refine (unbindTable_yields (wired.book _) hd' ?_ ?_).bind ?_
        · exact slot.symm ▸ present
        · exact slot.symm ▸ free
        · refine (invalidatePage_yields _ _).leads
            (h.removedLast stable hd present rfl ht before last
              (n := w.occupancy.get (w.entry w.root d).frame - 1) ?_)
          simp only [entry_book, root_book, root_setEntry, toBooks_book, toBooks_setEntry, slot]
          rfl
      · intro others
        exact (invalidatePage_yields _ _).leads (h.removed stable table ht before others rfl)
    · intro absent
      refine (invalidatePage_yields _ _).leads (h.absent ?_)
      unfold leaf? leafAt
      rw [slotAt_here, if_neg fun both => absent both.2]
  · intro absent
    refine (invalidatePage_yields _ _).leads (h.absent (leaf?_of_absent ?_ t))
    rw [slotAt_here]
    simpa using absent

theorem discountEntry_stops {Q : Nat → Snapshot → Prop} (hf : w.occupancy.get f = 0) :
    Leads Stops (discountEntry f) w Q := by
  refine .get ?_
  intro s hs
  have none : s.occupancy.get f = 0 := by
    rw [← hs] at hf
    exact hf
  rw [show s.occupancy.decrement f = .error (.tableUnderflow f) from if_pos none]
  exact .halt fun _ => by simp

/-- Removing an entry of the window's table or of the directory itself does nothing, or it stops
the kernel: neither has a record. -/
theorem unmap_above (h : w.Settled O) {va : Nat} (aligned : isAligned va = true)
    (high : ¬ dirIndex va < mountTableSlot) : Leads Stops (unmap va) w fun _ v => v = w := by
  obtain ⟨role, stable⟩ := h.stable
  have bound := dirIndex_lt va
  have ht := tableIndex_lt va
  rw [unmap, if_neg (by simp [aligned])]
  generalize dirIndex va = d at high bound
  generalize tableIndex va = t at ht
  refine (slot_yields stable.wired bound).bind ?_
  obtain rfl | rfl : d = mountTableSlot ∨ d = selfMapSlot := by
    by_contra other
    exact high (lt_mountTableSlot bound (other ∘ .inl) (other ∘ .inr))
  · refine .ite ?_ fun _ => (invalidatePage_yields _ _).leads rfl
    intro _
    refine (leaf_yields stable.wired bound rfl stable.wired.mount_present
      stable.wired.isFrame_mount ht).bind ?_
    refine .ite ?_ fun _ => (invalidatePage_yields _ _).leads rfl
    intro there
    rw [stable.wired.mount_frame, stable.quiet t ht] at there
    cases there
  · refine .ite ?_ fun _ => (invalidatePage_yields _ _).leads rfl
    intro _
    refine (leaf_yields stable.wired bound rfl stable.wired.self_present
      stable.wired.isFrame_self ht).bind ?_
    refine .ite ?_ fun _ => (invalidatePage_yields _ _).leads rfl
    intro there
    refine (setLeaf_yields stable.wired bound rfl stable.wired.self_present
      stable.wired.isFrame_self ht _).bind (.bind (discountEntry_stops ?_))
    have resident := (stable.resident w.root).2 rfl
    refine Occupancy.get_of_not_mem (stable.not_tracked ?_ ?_)
    · rw [stable.wired.self_frame, resident]
      simp
    · intro π
      rw [stable.wired.self_frame, resident]
      simp

/-- Wherever the page lies, it is removed or the kernel stops. -/
theorem unmap_stops (h : w.Settled O) {va : Nat} (aligned : isAligned va = true) :
    Leads Stops (unmap va) w fun _ v => v.Settled O ∧
      w.Remaps v O (w.pagesWith (w.here (dirIndex va)) (tableIndex va) none) := by
  by_cases hd : dirIndex va < mountTableSlot
  · exact unmap_leads h aligned hd
  · refine (unmap_above h aligned hd).mono ?_
    rintro _ _ rfl
    refine ⟨h, (Remaps.refl _ O).congr ?_⟩
    intro π t hπ _
    rw [pagesWith, if_neg]
    rintro ⟨rfl, -⟩
    exact hd (lt_of_has_here hπ)

/-! ## Rights -/

/-- The page at `va` is the one seen at the place that its slot is now. -/
theorem pageAt_yields (h : w.Sound role) {va : Nat} (hd : dirIndex va < mountTableSlot) :
    Yields (leafAt? va) w (w.leaf? (w.here (dirIndex va)) (tableIndex va)) w := by
  unfold leaf? Snapshot.leafAt
  rw [slotAt_here]
  exact leafAt?_yields h.wired rfl fun present => h.isFrame (by simp [h.table_here hd present])

/-- Where a page is seen, its slot and its entry are present. -/
theorem bound_of_leaf? (h : w.Sound role) (hd : d < mountTableSlot)
    (leaf : w.leaf? (w.here d) t = some e) : (w.entry w.root d).isPresent = true ∧
      role (w.entry w.root d).frame = .table (w.here d) ∧
      w.entry (w.entry w.root d).frame t = e ∧ e.isPresent = true := by
  obtain ⟨present, there, at_t⟩ := leaf?_eq_some.1 leaf
  rw [Snapshot.leafAt, slotAt_here] at at_t
  rw [slotAt_here] at present
  exact ⟨present, h.table_here hd present, at_t, there⟩

theorem protectPage_leads (h : w.Settled O) {va : Nat} (hd : dirIndex va < mountTableSlot)
    (prot : Protection) :
    Leads E (protectPage prot va) w fun _ v => v.Settled O ∧
      w.Rewrites v O (w.pagesWith (w.here (dirIndex va)) (tableIndex va)
        ((w.leaf? (w.here (dirIndex va)) (tableIndex va)).map fun e =>
          .of e.frame prot.entryFlags)) := by
  obtain ⟨role, stable⟩ := h.stable
  have ht := tableIndex_lt va
  refine (pageAt_yields stable.toSound hd).bind ?_
  cases leaf : w.leaf? (w.here (dirIndex va)) (tableIndex va) with
  | none =>
    obtain ⟨-, same⟩ := h.absent leaf
    exact .pure ⟨h, same.toRewrites⟩
  | some e =>
    obtain ⟨present, table, there, before⟩ := bound_of_leaf? stable.toSound hd leaf
    have inside := stable.isFrame (f := (w.entry w.root (dirIndex va)).frame) (by simp [table])
    refine (setLeaf_yields stable.wired (dirIndex_lt va) rfl present inside ht _).bind ?_
    refine (invalidatePage_yields _ _).leads ?_
    exact h.rewritten stable table ht (there.symm ▸ before) (Entry.isPresent_entryFlags _ _)
      (by rw [Entry.frame_of_frame, there])

theorem countWriteGrant_yields (w : Snapshot) : Yields countWriteGrant w () w := by
  refine silent_yields ?_ w
  exact fun _ => rfl

/-- The page's own write bit, under a slot that has it. -/
theorem grantLeaf_leads (h : w.Settled O) {va : Nat} (hd : dirIndex va < mountTableSlot)
    (leaf : w.leaf? (w.here (dirIndex va)) (tableIndex va) = some e)
    (writable : (w.entry w.root (dirIndex va)).isWritable = true) :
    Leads E (do
      setLeaf (dirIndex va) (tableIndex va) (e.set EntryFlags.writable)
      invalidatePage va
      countWriteGrant
      note (.writeGranted va e.frame)) w fun _ v => v.Settled O ∧
        w.Remaps v O (w.pagesWith (w.here (dirIndex va)) (tableIndex va)
          (some (e.set EntryFlags.writable))) := by
  obtain ⟨role, stable⟩ := h.stable
  obtain ⟨present, table, there, before⟩ := bound_of_leaf? stable.toSound hd leaf
  have inside := stable.isFrame (f := (w.entry w.root (dirIndex va)).frame) (by simp [table])
  have after : (e.set EntryFlags.writable).isPresent = true := by simp [before]
  refine (setLeaf_yields stable.wired (dirIndex_lt va) rfl present inside
    (tableIndex_lt va) _).bind ?_
  refine (invalidatePage_yields _ _).bind ?_
  refine (countWriteGrant_yields _).bind ?_
  obtain ⟨settled, moved⟩ := h.rewritten stable table (tableIndex_lt va) (there.symm ▸ before) after
    (by rw [Entry.frame_set_writable, there])
  refine (note_yields _ _).leads ⟨settled, moved,
    stable.upholds_leaf table (tableIndex_lt va) ?_ w.occupancy⟩
  intro g _
  have covered := g _ _ e (has_here stable.live_active hd) (tableIndex_lt va) leaf
  exact covered.set_writable (slotAt_here.symm ▸ writable)

theorem grantWrite_leads (h : w.Settled O) {va : Nat} (hd : dirIndex va < mountTableSlot)
    (leaf : w.leaf? (w.here (dirIndex va)) (tableIndex va) = some e) :
    Leads E (grantWrite va e) w fun _ v => v.Settled O ∧
      w.Remaps v O (w.pagesWith (w.here (dirIndex va)) (tableIndex va)
        (some (e.set EntryFlags.writable))) := by
  obtain ⟨role, stable⟩ := h.stable
  obtain ⟨present, -, -, -⟩ := bound_of_leaf? stable.toSound hd leaf
  have hd' := dirIndex_lt va
  refine (slot_yields stable.wired hd').bind ?_
  refine .ite ?_ fun enough => grantLeaf_leads h hd leaf (by simpa using enough)
  intro _
  refine (setSlot_yields stable.wired hd' _).bind ?_
  obtain ⟨h', moved⟩ := h.reslotted stable hd present
    (e := (w.entry w.root (dirIndex va)).set EntryFlags.writable) (by simp [present]) (by simp)
    (Entry.covers_set _ _)
  have leaf' := (moved.leaf _ _ (has_here stable.live_active hd) (tableIndex_lt va)).trans leaf
  refine (grantLeaf_leads h' hd leaf' ?_).mono ?_
  · rw [root_setEntry, entry_setEntry _ _ _ hd' hd', if_pos ⟨rfl, rfl⟩]
    exact Entry.isWritable_set_writable _
  · rintro _ u ⟨h'', moved'⟩
    exact ⟨h'', moved.pagesWith moved'⟩

end Kernel
end VirtualMemory
