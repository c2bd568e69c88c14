import VirtualMemory.Proofs.Charts.Basic

/-!
# Mapping and unmapping, to the word

On a charted snapshot it is known which words mapping and unmapping write, and in which books. So
one page is found afterwards that was not there, or one is gone, and all else is as it was: a frame
for a table leaves the pool or returns to it, and the table's record follows.
-/
namespace VirtualMemory

open Layout

/-! ## Entries of slots and of pages -/

namespace Entry

variable {f : Nat}

/-- An entry that was made with this protection needs no more. -/
theorem widened_of (f : Nat) (prot : Protection) :
    (of f prot.entryFlags).widened prot = of f prot.entryFlags :=
  widened_of_has ((Mapping.contains_flags _ prot.named_entryFlags_inter).symm.trans
    (Mapping.contains_entryFlags f prot))

theorem isHuge_of (hf : isAligned f = true) (prot : Protection) :
    (of f prot.entryFlags).isHuge = false := by
  rw [isHuge_eq, testBit_of hf (by decide)]
  unfold Protection.entryFlags
  cases prot.grantsWrite <;> cases prot.grantsUser <;> rfl

/-- What is found of such an entry is what it was made of. -/
theorem ofEntry_of (hf : isAligned f = true) (small : f < 0x100000000) (prot : Protection) :
    Mapping.ofEntry (of f prot.entryFlags) = ⟨f, prot.entryFlags⟩ := by
  have flags : (of f prot.entryFlags).flags = prot.entryFlags := by
    have bits : ((of f prot.entryFlags).raw &&& entryVocabulary.known) = prot.entryFlags.bits := by
      apply UInt32.toNat_inj.1
      apply Nat.eq_of_testBit_eq
      intro i
      have known : entryVocabulary.known.toNat.testBit i = decide (i < 9) := by
        rw [EntryFlags.known_eq]
        exact Nat.testBit_two_pow_sub_one 9 i
      have low : 9 ≤ i → prot.entryFlags.bits.toNat.testBit i = false := by
        intro high
        refine Nat.testBit_lt_two_pow (lt_of_lt_of_le (b := 2 ^ 9) ?_
          (Nat.pow_le_pow_right (by decide) high))
        unfold Protection.entryFlags
        cases prot.grantsWrite <;> cases prot.grantsUser <;> decide
      rw [UInt32.toNat_and, Nat.testBit_and, known]
      by_cases near : i < 9
      · rw [testBit_of hf (by omega)]
        simp [near]
      · simp [near, low (by omega)]
    exact congrArg FlagSet.mk bits
  rw [Mapping.ofEntry, frame_of hf small prot.low_entryFlags, flags]

end Entry

namespace Snapshot

/-- Widening a slot is not seen in a table. -/
theorem entry_widenedAt {w : Snapshot} {d : Nat} (away : (w.entry w.root d).frame ≠ w.root)
    (prot : Protection) (t : Nat) : (w.widenedAt d prot).entry (w.entry w.root d).frame t =
      w.entry (w.entry w.root d).frame t :=
  entry_setPage_of_ne _ _ _ away t

/-- Entry `t` of the table at slot `d`, which was present, is empty. -/
def cleared (w : Snapshot) (d t : Nat) : Snapshot :=
  (w.setEntry (w.entry w.root d).frame t .empty).book { w.toBooks with
    occupancy := w.occupancy.set (w.entry w.root d).frame
      (w.occupancy.get (w.entry w.root d).frame - 1) }

end Snapshot

open Snapshot

/-! ## What runs -/

namespace Kernel

variable {w : Snapshot} {d f g t va : Nat} {prot : Protection} {rest : List Nat}

section Present
variable (hw : w.Wired) (hd : d < tableEntries) (ht : t < tableEntries)
  (present : (w.entry w.root d).isPresent = true)
  (inside : Ram.IsFrame w.size (w.entry w.root d).frame)
  (away : (w.entry w.root d).frame ≠ w.root)
include hw hd ht present inside away

/-- Mapping where a table is bound. -/
theorem map_present_yields (aligned : isAligned f = true) (prot : Protection)
    (room : (w.entry (w.entry w.root d).frame t).isPresent = false →
      w.occupancy.get (w.entry w.root d).frame < tableEntries) :
    Yields (map f d t prot) w () (w.installed f d t prot) := by
  rw [map_eq hd ht aligned]
  refine Leads.yields ((slot_yields hw hd).bind
    (.ite (fun no => by simp [present] at no) fun _ => ?_))
  exact (mapAt_yields hw hd ht present inside f prot (entry_widenedAt away prot t ▸ room)).leads
    ⟨rfl, rfl⟩

/-- Taking a page away that is not the last one of its table. -/
theorem unmap_yields (aligned : isAligned va = true) (hva : dirIndex va = d)
    (hva' : tableIndex va = t) (before : (w.entry (w.entry w.root d).frame t).isPresent = true)
    (out : (w.entry w.root d).frame ∉ w.free)
    (count : w.occupancy.get (w.entry w.root d).frame ≠ 0) :
    Yields (unmap va) w () (if w.occupancy.get (w.entry w.root d).frame = 1 then
      (w.cleared d t).unbound d else w.cleared d t) := by
  rw [unmap, if_neg (by simp [aligned]), hva, hva']
  have slot : (w.cleared d t).entry w.root d = w.entry w.root d :=
    entry_setPage_of_ne _ _ _ away.symm _
  refine Leads.yields ((slot_yields hw hd).bind (.ite (fun _ => ?_) fun no => absurd present no))
  refine (leaf_yields hw hd rfl present inside ht).bind
    (.ite (fun _ => ?_) fun no => absurd before no)
  refine (setLeaf_yields hw hd rfl present inside ht _).bind ?_
  refine (discountEntry_yields (w := w.setEntry _ t .empty) count).bind
    (.ite (fun last => ?_) fun others => ?_)
  · have wired : (w.cleared d t).Wired := (hw.setPage away _).book _
    have unbinds := unbindTable_yields wired hd (slot.symm ▸ present) (slot.symm ▸ out)
    refine unbinds.bind ((invalidatePage_yields _ _).leads ⟨rfl, ?_⟩)
    have none : w.occupancy.get (w.entry w.root d).frame - 1 = 0 := last
    rw [if_pos (by omega)]
    rfl
  · refine (invalidatePage_yields _ _).leads ⟨rfl, ?_⟩
    have some : w.occupancy.get (w.entry w.root d).frame - 1 ≠ 0 := others
    rw [if_neg (by omega)]
    rfl

end Present

/-- Mapping elsewhere clears a free frame and binds it first. -/
theorem map_absent_yields (h : w.Charted) (hd : d < mountTableSlot) (ht : t < tableEntries)
    (absent : (w.entry w.root d).isPresent = false) (first : w.free = g :: rest)
    (aligned : isAligned f = true) (prot : Protection) :
    Yields (map f d t prot) w () ((w.opened g rest d prot).installed f d t prot) := by
  have hd' := Sound.slot_lt hd
  obtain ⟨inside, unreserved, -⟩ := h.free g (first ▸ List.mem_cons_self)
  have root : g ≠ w.root := fun eq => unreserved (.inl eq)
  have mount : g ≠ mountTable := fun eq => unreserved (.inr (.inl eq))
  have frame : (Entry.of g prot.entryFlags).frame = g :=
    h.wired.frame_of inside prot.low_entryFlags
  obtain ⟨charted, tallied, -⟩ := h.newTable hd absent first prot
  have slot : (w.opened g rest d prot).entry (w.opened g rest d prot).root d =
      .of g prot.entryFlags := (entry_setEntry _ w.root _ hd' hd').trans (if_pos ⟨rfl, rfl⟩)
  rw [map_eq hd' ht aligned]
  refine Leads.yields ((slot_yields h.wired hd').bind
    (.ite (fun _ => ?_) fun there => by simp [absent] at there))
  refine .bind (acquire_leads h.wired (fun f hf => ?_) (by simp [first]) fun g' rest' first' => ?_)
  · obtain ⟨inside, unreserved, -⟩ := h.free f hf
    exact ⟨inside, fun eq => unreserved (.inr (.inl eq)), fun eq => unreserved (.inl eq)⟩
  · obtain ⟨rfl, rfl⟩ := List.cons.inj (first.symm.trans first')
    have wired := (h.wired.book { w.toBooks with free := rest }).setPage root Page.zero
    refine (bindTable_yields wired inside mount hd' prot).bind ?_
    refine Yields.leads (mapAt_yields charted.wired hd' ht ?_ ?_ f prot ?_) ⟨rfl, rfl⟩
    · exact slot ▸ Entry.isPresent_entryFlags g prot
    · rw [slot, frame]
      exact inside
    · rw [entry_widenedAt (by rw [slot, frame]; exact root), slot, frame]
      intro before
      rw [tallied.count]
      exact Page.presentCount_lt ht before

end Kernel

/-! ## What is left -/

namespace Snapshot

/-- The page at entry `t` of slot `d` is `f`, with these rights, and the slot is as wide as it was
and as the page needs it. An empty slot got the first free frame for a table. -/
structure Installs (w v : Snapshot) (f d t : Nat) (prot : Protection) : Prop where
  charted : v.Charted
  look : ∀ ρ u, w.Shown ρ → u < tableEntries → v.look ρ u =
    if ρ = w.here d ∧ u = t then some (some ⟨f, prot.entryFlags⟩) else w.look ρ u
  root : v.root = w.root
  size : v.size = w.size
  spaces : v.spaces = w.spaces
  shares : v.shares = w.shares
  widened : (w.entry w.root d).isPresent = true →
    v.entry w.root d = (w.entry w.root d).widened prot ∧ v.free = w.free
  opened : (w.entry w.root d).isPresent = false →
    v.entry w.root d = .of (v.entry w.root d).frame prot.entryFlags ∧
      w.free = (v.entry w.root d).frame :: v.free
  slots : ∀ i < tableEntries, i ≠ d → v.entry w.root i = w.entry w.root i
  count : v.occupancy.get (v.entry w.root d).frame =
    w.occupancy.get (v.entry w.root d).frame + if w.leaf? (w.here d) t = none then 1 else 0
  counts : ∀ g, g ≠ (v.entry w.root d).frame → v.occupancy.get g = w.occupancy.get g ∧
    (g ∈ v.occupancy.counts ↔ g ∈ w.occupancy.counts)
  pages : ∀ g, g ≠ w.root → g ≠ (v.entry w.root d).frame → v.page g = w.page g

/-- There is no page at entry `t` of slot `d`. A table that it was the last entry of is in the pool
and the slot is empty. -/
structure Clears (w v : Snapshot) (d t : Nat) : Prop where
  charted : v.Charted
  look : ∀ ρ u, w.Shown ρ → u < tableEntries →
    v.look ρ u = if ρ = w.here d ∧ u = t then some none else w.look ρ u
  root : v.root = w.root
  size : v.size = w.size
  spaces : v.spaces = w.spaces
  shares : v.shares = w.shares
  absent : w.leaf? (w.here d) t = none → v = w
  last : w.leaf? (w.here d) t ≠ none → w.occupancy.get (w.entry w.root d).frame = 1 →
    v.entry w.root d = .empty ∧ v.free = (w.entry w.root d).frame :: w.free ∧
      v.occupancy = w.occupancy.forget (w.entry w.root d).frame
  others : w.leaf? (w.here d) t ≠ none → w.occupancy.get (w.entry w.root d).frame ≠ 1 →
    v.entry w.root d = w.entry w.root d ∧ v.free = w.free ∧
      v.occupancy = w.occupancy.set (w.entry w.root d).frame
        (w.occupancy.get (w.entry w.root d).frame - 1)
  slots : ∀ i < tableEntries, i ≠ d → v.entry w.root i = w.entry w.root i
  pages : ∀ g, g ≠ w.root → g ≠ (w.entry w.root d).frame → v.page g = w.page g

variable {w v : Snapshot} {d f g t : Nat} {prot : Protection} {rest : List Nat}

theorem leaf?_here (w : Snapshot) (d t : Nat) : w.leaf? (w.here d) t =
    if (w.entry w.root d).isPresent = true ∧
      (w.entry (w.entry w.root d).frame t).isPresent = true then
      some (w.entry (w.entry w.root d).frame t) else none := by
  rw [leaf?, leafAt, slotAt_here]

/-- A slot that leads nowhere or into memory can be looked at. -/
theorem look_here
    (tallied : (w.entry w.root d).isPresent = true → w.Tallied (w.entry w.root d).frame) (t : Nat) :
    w.look (w.here d) t = some ((w.leaf? (w.here d) t).map .ofEntry) := by
  cases present : (w.entry w.root d).isPresent with
  | false =>
    have absent : (w.slotAt (w.here d)).isPresent = false := by rw [slotAt_here, present]
    rw [look_of_absent absent, leaf?_of_absent absent, Option.map_none]
  | true => exact look_of_inside (by rw [slotAt_here]; exact (tallied present).inside) t

namespace Charted

theorem here_ne_root (h : w.Charted) (hd : d < mountTableSlot)
    (present : (w.entry w.root d).isPresent = true) : (w.entry w.root d).frame ≠ w.root := by
  have apart := h.ne_root (has_here h.active hd)
  rw [slotAt_here] at apart
  exact apart present

theorem here_not_free (h : w.Charted) (hd : d < mountTableSlot)
    (present : (w.entry w.root d).isPresent = true) : (w.entry w.root d).frame ∉ w.free := by
  have apart := h.apart _ (has_here h.active hd)
  rw [slotAt_here] at apart
  exact (apart present).2

theorem widens (h : w.Charted) (hd : d < mountTableSlot)
    (present : (w.entry w.root d).isPresent = true) (prot : Protection) :
    (w.widenedAt d prot).Charted ∧
      ∀ ρ t, w.Shown ρ → (w.widenedAt d prot).look ρ t = w.look ρ t :=
  h.reslot hd present ((Entry.isPresent_widened ..).trans present) (Entry.frame_widened ..)
    ((Entry.isHuge_widened ..).symm.trans ·)

section Present
variable (h : w.Charted) (hd : d < mountTableSlot) (ht : t < tableEntries)
  (present : (w.entry w.root d).isPresent = true) (tallied : w.Tallied (w.entry w.root d).frame)
include h hd ht present tallied

theorem installs (aligned : isAligned f = true) (small : f < 0x100000000) (prot : Protection) :
    w.Installs (w.installed f d t prot) f d t prot := by
  have hd' := Sound.slot_lt hd
  have has := has_here h.active hd
  have root := h.here_ne_root hd present
  obtain ⟨charted, same⟩ := h.widens hd present prot
  set v := w.widenedAt d prot with hv
  have slot : v.slotAt (w.here d) = (w.entry w.root d).widened prot :=
    (slotAt_setSlot h.housed hd _ has).trans (if_pos rfl)
  have frame : (v.slotAt (w.here d)).frame = (w.entry w.root d).frame := by
    rw [slot, Entry.frame_widened]
  have page : v.page (w.entry w.root d).frame = w.page (w.entry w.root d).frame := by
    rw [hv, widenedAt, page_setEntry, if_neg root]
  have new := Entry.isPresent_entryFlags f prot
  set o := (w.installed f d t prot).occupancy with ho
  change o = if (v.entry (w.entry w.root d).frame t).isPresent = true then w.occupancy
    else w.occupancy.set (w.entry w.root d).frame
      (w.occupancy.get (w.entry w.root d).frame + 1) at ho
  rw [hv, entry_widenedAt root] at ho
  have off (g : Nat) (away : g ≠ (w.entry w.root d).frame) : o.get g = w.occupancy.get g ∧
      (g ∈ o.counts ↔ g ∈ w.occupancy.counts) := by
    rw [ho]
    split
    · exact ⟨rfl, Iff.rfl⟩
    · rw [Occupancy.get_set, if_neg (Ne.symm away), Occupancy.mem_set]
      exact ⟨rfl, or_iff_right (Ne.symm away)⟩
  have written := charted.setLeaf (o := o) (t := t) (has_congr (v := v) rfl _ |>.2 has)
    (by rw [slot, Entry.isPresent_widened, present]) (frame.symm ▸ tallied.inside) ht
    (.of f prot.entryFlags) ?_ (by rw [frame]; exact off)
  · rw [frame] at written
    obtain ⟨charted', look⟩ := written
    have entry {i : Nat} (hi : i < tableEntries) : (w.installed f d t prot).entry w.root i =
        if i = d then (w.entry w.root d).widened prot else w.entry w.root i := by
      refine (entry_setPage_of_ne _ _ _ root.symm i).trans ?_
      refine (entry_setEntry _ w.root _ hd' hi).trans ?_
      simp only [true_and]
    have table : ((w.installed f d t prot).entry w.root d).frame = (w.entry w.root d).frame := by
      rw [entry hd', if_pos rfl, Entry.frame_widened]
    refine ⟨charted', fun ρ u hρ hu => ?_, rfl, rfl, rfl, rfl, fun _ => ?_, ?_, ?_, ?_, ?_, ?_⟩
    · rw [new, if_pos rfl, Entry.ofEntry_of aligned small] at look
      rw [← same ρ u hρ]
      exact look ρ u ((shown_congr (v := v) rfl ρ).2 hρ) hu
    · exact ⟨(entry hd').trans (if_pos rfl), rfl⟩
    · simp [present]
    · exact fun i hi other => (entry hi).trans (if_neg other)
    · rw [table, leaf?_here]
      change o.get _ = _
      simp only [present, true_and]
      rw [ho]
      split <;> simp [*]
    · rw [table]
      exact off
    · intro g away away'
      rw [table] at away'
      exact (page_setEntry ..).trans ((if_neg away').trans ((page_setEntry ..).trans (if_neg away)))
  · rw [frame, page, ho]
    split
    · rename_i before
      rw [Page.presentCount_setEntry_of_present before new, tallied.count]
    · rename_i before
      rw [Page.presentCount_setEntry_fill (Bool.eq_false_iff.2 before) new, Occupancy.get_set,
        if_pos rfl, tallied.count]

theorem clears (before : (w.entry (w.entry w.root d).frame t).isPresent = true) :
    w.Clears (if w.occupancy.get (w.entry w.root d).frame = 1 then (w.cleared d t).unbound d
      else w.cleared d t) d t := by
  have has := has_here h.active hd
  have root := h.here_ne_root hd present
  have drop : ((w.page (w.entry w.root d).frame).setEntry t .empty).presentCount =
      w.occupancy.get (w.entry w.root d).frame - 1 := by
    rw [tallied.count]
    exact Page.presentCount_setEntry_drop before Entry.isPresent_empty
  set o := w.occupancy.set (w.entry w.root d).frame
    (w.occupancy.get (w.entry w.root d).frame - 1) with ho
  have off (g : Nat) (away : g ≠ (w.entry w.root d).frame) : o.get g = w.occupancy.get g ∧
      (g ∈ o.counts ↔ g ∈ w.occupancy.counts) := by
    rw [ho, Occupancy.get_set, if_neg (Ne.symm away), Occupancy.mem_set]
    exact ⟨rfl, or_iff_right (Ne.symm away)⟩
  have written := h.setLeaf (o := o) (t := t) has (by rw [slotAt_here, present])
    (by rw [slotAt_here]; exact tallied.inside) ht .empty
    (by rw [slotAt_here, drop, ho, Occupancy.get_set, if_pos rfl]) (by rw [slotAt_here]; exact off)
  rw [slotAt_here] at written
  simp only [Entry.isPresent_empty, Bool.false_eq_true, if_false] at written
  change (w.cleared d t).Charted ∧ ∀ ρ u, w.Shown ρ → u < tableEntries →
    (w.cleared d t).look ρ u = _ at written
  obtain ⟨charted, look⟩ := written
  have there : w.leaf? (w.here d) t ≠ none := by simp [leaf?_here, present, before]
  have slot (i : Nat) : (w.cleared d t).entry w.root i = w.entry w.root i :=
    entry_setPage_of_ne _ _ _ root.symm i
  have page (g : Nat) (away : g ≠ (w.entry w.root d).frame) :
      (w.cleared d t).page g = w.page g := (page_setEntry ..).trans (if_neg away)
  by_cases last : w.occupancy.get (w.entry w.root d).frame = 1
  · rw [if_pos last]
    have hd' := Sound.slot_lt hd
    have frame : ((w.cleared d t).entry (w.cleared d t).root d).frame =
      (w.entry w.root d).frame := congrArg Entry.frame (slot d)
    obtain ⟨charted', same⟩ := charted.unbind hd ((congrArg Entry.isPresent (slot d)).trans present)
      (frame.symm ▸ tallied.inside) (by
        rw [frame]
        change ((w.setEntry (w.entry w.root d).frame t .empty).page _).presentCount = 0
        rw [page_setEntry, if_pos rfl, drop, last])
    have entry {i : Nat} (hi : i < tableEntries) : ((w.cleared d t).unbound d).entry w.root i =
        if i = d then .empty else w.entry w.root i := by
      refine (entry_setEntry _ w.root _ hd' hi).trans ?_
      simp only [true_and, slot]
    refine ⟨charted', fun ρ u hρ hu => ?_, rfl, rfl, rfl, rfl, fun no => absurd no there,
      fun _ _ => ⟨(entry hd').trans (if_pos rfl), ?_, ?_⟩, fun _ no => absurd last no,
      fun i hi other => (entry hi).trans (if_neg other), fun g away away' => ?_⟩
    · rw [same ρ u ((shown_congr (v := w.cleared d t) rfl ρ).2 hρ) hu]
      exact look ρ u hρ hu
    · exact congrArg (· :: w.free) frame
    · refine (congrArg o.forget frame).trans ?_
      rw [ho, Occupancy.forget_set]
    · exact (page_setEntry ..).trans ((if_neg away).trans (page g away'))
  · rw [if_neg last]
    exact ⟨charted, look, rfl, rfl, rfl, rfl, fun no => absurd no there,
      fun _ one => absurd one last, fun _ _ => ⟨slot d, rfl, rfl⟩, fun i _ _ => slot i,
      fun g _ => page g⟩

end Present

/-- Where there is no page, none is found, and there is none to take away. -/
theorem clears_absent (h : w.Charted)
    (tallied : (w.entry w.root d).isPresent = true → w.Tallied (w.entry w.root d).frame)
    (no : w.leaf? (w.here d) t = none) : w.Clears w d t := by
  refine ⟨h, fun ρ u _ _ => ?_, rfl, rfl, rfl, rfl, fun _ => rfl, fun some => absurd no some,
    fun some => absurd no some, fun _ _ _ => rfl, fun _ _ _ => rfl⟩
  split
  · rename_i here
    rw [here.1, here.2, look_here tallied, no, Option.map_none]
  · rfl

theorem installs_opened (h : w.Charted) (hd : d < mountTableSlot) (ht : t < tableEntries)
    (absent : (w.entry w.root d).isPresent = false) (first : w.free = g :: rest)
    (aligned : isAligned f = true) (small : f < 0x100000000) (prot : Protection) :
    w.Installs ((w.opened g rest d prot).installed f d t prot) f d t prot := by
  have hd' := Sound.slot_lt hd
  obtain ⟨inside, unreserved, unrecorded⟩ := h.free g (first ▸ List.mem_cons_self)
  have root : g ≠ w.root := fun eq => unreserved (.inl eq)
  have frame : (Entry.of g prot.entryFlags).frame = g :=
    h.wired.frame_of inside prot.low_entryFlags
  obtain ⟨charted, tallied, same⟩ := h.newTable hd absent first prot
  set v := w.opened g rest d prot with hv
  have slot : v.entry v.root d = .of g prot.entryFlags :=
    (entry_opened root rest hd' prot hd').trans (if_pos rfl)
  have present : (v.entry v.root d).isPresent = true := by
    rw [slot, Entry.isPresent_entryFlags]
  have inst := charted.installs hd ht present (by rw [slot, frame]; exact tallied) aligned small
    prot
  have now : (v.installed f d t prot).entry w.root d = .of g prot.entryFlags := by
    refine (inst.widened present).1.trans ?_
    rw [slot, Entry.widened_of]
  have empty : v.leaf? (v.here d) t = none := by
    rw [leaf?_here, slot, frame, entry, page_opened g rest d prot root, if_pos rfl, Page.entry_zero,
      Entry.isPresent_empty, if_neg (by simp)]
  have none : w.leaf? (w.here d) t = none := by rw [leaf?_here, if_neg (by simp [absent])]
  have count := inst.count
  have counts := inst.counts
  have pages := inst.pages
  rw [show v.root = w.root from rfl, now, frame] at count counts pages
  refine ⟨inst.charted, fun ρ u hρ hu => ?_, rfl, rfl, rfl, rfl,
    fun there => by simp [absent] at there,
    fun _ => ⟨by rw [now, frame], by rw [now, frame]; exact first⟩, fun i hi other => ?_,
    ?_, ?_, ?_⟩
  · rw [← same ρ u hρ hu]
    exact inst.look ρ u ((shown_congr (v := v) rfl ρ).2 hρ) hu
  · exact (inst.slots i hi other).trans ((entry_opened root rest hd' prot hi).trans (if_neg other))
  · rw [now, frame, count, if_pos empty, if_pos none, Occupancy.get_of_not_mem unrecorded, hv,
      occupancy_opened, Occupancy.get_forget, if_pos rfl]
  · intro g' away
    rw [now, frame] at away
    rw [(counts g' away).1, (counts g' away).2, hv, occupancy_opened, Occupancy.get_forget,
      if_neg (Ne.symm away), Occupancy.mem_forget]
    exact ⟨rfl, and_iff_right (Ne.symm away)⟩
  · intro g' away away'
    rw [now, frame] at away'
    rw [pages g' away away', hv, page_opened g rest d prot away, if_neg away']

end Charted

/-! Slots of other spaces are out of reach. -/

section Slots
variable {π : Place}

theorem slotAt_of_pages (h : w.Housed) (root : v.root = w.root) (spaces : v.spaces = w.spaces)
    (slots : ∀ i < tableEntries, i ≠ d → v.entry w.root i = w.entry w.root i)
    (pages : ∀ f, f ≠ w.root → f ≠ g → v.page f = w.page f)
    (dirs : ∀ p r, w.spaces.find? p = some r → r.directory ≠ g) (hπ : w.Has π)
    (other : π ≠ w.here d) : v.slotAt π = w.slotAt π := by
  cases π with
  | user p i =>
    have hi : i < tableEntries := by
      have := hπ.2
      simp only [userSlots, tableEntries] at *; omega
    have home : v.home p = w.home p := by rw [home, home, root, spaces]
    rw [slotAt, slotAt, home]
    by_cases active : p = w.spaces.active
    · subst active
      rw [home_active]
      refine slots i hi fun same => other ?_
      rw [same, here, Place.seenBy, if_pos (same ▸ hπ.2)]
    · obtain ⟨r, hr⟩ := Option.isSome_iff_exists.1 hπ.1
      rw [home_of_ne active hr, entry, pages _ (h.ne_root p r hr) (dirs p r hr), entry]
  | kernel i =>
    have hi : i < tableEntries := by
      have := hπ.2
      simp only [mountTableSlot, tableEntries] at *; omega
    rw [slotAt, slotAt, root]
    refine slots i hi fun same => other ?_
    rw [same, here, Place.seenBy, if_neg (Nat.not_lt.2 (same ▸ hπ.1))]

theorem Installs.present (i : w.Installs v f d t prot) : (v.entry w.root d).isPresent = true := by
  cases before : (w.entry w.root d).isPresent with
  | false => rw [(i.opened before).1, Entry.isPresent_entryFlags]
  | true => rw [(i.widened before).1, Entry.isPresent_widened, before]

theorem Installs.plain (i : w.Installs v f d t prot)
    (plain : (w.entry w.root d).isPresent = true → (w.entry w.root d).isHuge = false) :
    (v.entry w.root d).isHuge = false := by
  cases before : (w.entry w.root d).isPresent with
  | false => rw [(i.opened before).1, Entry.isHuge_of (Entry.frame_aligned _)]
  | true => rw [(i.widened before).1, Entry.isHuge_widened, plain before]

/-- The slot has the rights of both, the page and what was there before. -/
theorem Installs.rights (i : w.Installs v f d t prot) :
    (v.entry w.root d).isWritable =
      ((w.entry w.root d).isPresent && (w.entry w.root d).isWritable || prot.grantsWrite) ∧
    (v.entry w.root d).isUser =
      ((w.entry w.root d).isPresent && (w.entry w.root d).isUser || prot.grantsUser) := by
  cases present : (w.entry w.root d).isPresent with
  | false =>
    rw [(i.opened present).1]
    exact ⟨Entry.isWritable_of (Entry.frame_aligned _) prot,
      Entry.isUser_of (Entry.frame_aligned _) prot⟩
  | true =>
    rw [(i.widened present).1]
    exact ⟨Entry.isWritable_widened .., Entry.isUser_widened ..⟩

theorem Installs.slotAt (h : w.Charted) (hd : d < mountTableSlot) (i : w.Installs v f d t prot)
    (hπ : w.Has π) (other : π ≠ w.here d) : v.slotAt π = w.slotAt π := by
  have present : (v.slotAt (v.here d)).isPresent = true := by
    rw [slotAt_here, i.root, i.present]
  have dirs := i.charted.ne_directory (has_here i.charted.active hd) present
  rw [slotAt_here, i.root, i.spaces] at dirs
  exact slotAt_of_pages h.housed i.root i.spaces i.slots i.pages dirs hπ other

theorem Clears.slotAt (h : w.Charted) (hd : d < mountTableSlot) (c : w.Clears v d t)
    (hπ : w.Has π) (other : π ≠ w.here d) : v.slotAt π = w.slotAt π := by
  by_cases none : w.leaf? (w.here d) t = none
  · rw [c.absent none]
  · have present : (w.slotAt (w.here d)).isPresent = true := by
      by_contra absent
      exact none (leaf?_of_absent (by simpa using absent) t)
    have dirs := h.ne_directory (has_here h.active hd) present
    rw [slotAt_here] at dirs
    exact slotAt_of_pages h.housed c.root c.spaces c.slots c.pages dirs hπ other

end Slots

/-! ## There and back -/

section Back
variable {u : Snapshot} {π : Place} {x : Nat} (i : w.Installs v f d t prot) (c : v.Clears u d t)
  (none : w.leaf? (w.here d) t = none)
include i c none

/-- A page that was not there is mapped and taken away again: no lookup tells of it. -/
theorem look_back
    (tallied : (w.entry w.root d).isPresent = true → w.Tallied (w.entry w.root d).frame)
    (hπ : w.Shown π) (hx : x < tableEntries) : u.look π x = w.look π x := by
  rw [c.look π x ((shown_congr i.spaces π).2 hπ) hx, here_congr i.spaces, i.look π x hπ hx]
  split
  · rename_i here
    rw [here.1, here.2, look_here tallied, none, Option.map_none]
  · rfl

/-- The table is back in the pool, or it has the record that it had. -/
theorem books_back (h : w.Charted) (hd : d < mountTableSlot) (ht : t < tableEntries)
    (kept : (w.entry w.root d).isPresent = true → w.Tallied (w.entry w.root d).frame ∧
      ∃ j < tableEntries, (w.entry (w.entry w.root d).frame j).isPresent = true) :
    u.free = w.free ∧ u.occupancy = w.occupancy ∧ u.entry w.root d =
      if (w.entry w.root d).isPresent = true then (w.entry w.root d).widened prot else .empty := by
  have some : v.leaf? (v.here d) t ≠ .none := by
    intro gone
    have found := i.look _ t (has_here h.active hd).shown ht
    rw [if_pos ⟨rfl, rfl⟩, ← here_congr i.spaces] at found
    have leaf := (of_look_here found).2
    rw [gone] at leaf
    cases leaf
  have count := i.count
  have counts := i.counts
  have last := c.last some
  have others := c.others some
  rw [i.root] at last others
  rw [if_pos none] at count
  cases present : (w.entry w.root d).isPresent with
  | false =>
    obtain ⟨-, first⟩ := i.opened present
    set g := (v.entry w.root d).frame
    have unrecorded := (h.free g (first ▸ List.mem_cons_self)).2.2
    rw [Occupancy.get_of_not_mem unrecorded] at count
    obtain ⟨slot, free, occupancy⟩ := last count
    refine ⟨free.trans first.symm, occupancy.trans (Occupancy.ext_get (fun k => ?_) fun k => ?_),
      slot⟩
    · rw [Occupancy.get_forget]
      split
      · subst k
        exact (Occupancy.get_of_not_mem unrecorded).symm
      · exact (counts k (Ne.symm ‹_›)).1
    · rw [Occupancy.mem_forget]
      by_cases same : g = k
      · subst same
        exact iff_of_false (fun both => both.1 rfl) unrecorded
      · exact (and_iff_right same).trans (counts k (Ne.symm same)).2
  | true =>
    obtain ⟨widened, free⟩ := i.widened present
    obtain ⟨tallied, j, hj, there⟩ := kept present
    rw [widened, Entry.frame_widened] at count counts others
    have some : w.occupancy.get (w.entry w.root d).frame ≠ 0 := by
      rw [tallied.count]
      exact (Page.presentCount_pos hj there).ne'
    obtain ⟨slot, free', occupancy⟩ := others (by omega)
    refine ⟨free'.trans free, occupancy.trans (Occupancy.ext_get (fun k => ?_) fun k => ?_), slot⟩
    · rw [Occupancy.get_set]
      split
      · subst k
        rw [count, Nat.add_sub_cancel]
      · exact (counts k (Ne.symm ‹_›)).1
    · rw [Occupancy.mem_set]
      by_cases same : (w.entry w.root d).frame = k
      · subst same
        refine iff_of_true (.inl rfl) ?_
        by_contra unrecorded
        exact some (Occupancy.get_of_not_mem unrecorded)
      · exact (or_iff_right same).trans (counts k (Ne.symm same)).2

end Back
end Snapshot

namespace Kernel

variable {w : Snapshot} {d f t va : Nat}

/-- Mapping can do without a frame for a table, or there is one. -/
theorem map_installs (h : w.Charted) (hd : d < mountTableSlot) (ht : t < tableEntries)
    (tallied : (w.entry w.root d).isPresent = true → w.Tallied (w.entry w.root d).frame)
    (room : (w.entry w.root d).isPresent = false → w.free ≠ []) (aligned : isAligned f = true)
    (small : f < 0x100000000) (prot : Protection) :
    ∃ v, Yields (map f d t prot) w () v ∧ w.Installs v f d t prot := by
  cases present : (w.entry w.root d).isPresent with
  | false =>
    obtain ⟨g, rest, first⟩ := List.exists_cons_of_ne_nil (room present)
    exact ⟨_, map_absent_yields h hd ht present first aligned prot,
      h.installs_opened hd ht present first aligned small prot⟩
  | true =>
    have tallied := tallied present
    refine ⟨_, map_present_yields h.wired (Sound.slot_lt hd) ht present tallied.inside
      (h.here_ne_root hd present) aligned prot fun before => ?_,
      h.installs hd ht present tallied aligned small prot⟩
    rw [tallied.count]
    exact Page.presentCount_lt ht before

theorem unmap_clears (h : w.Charted) (hd : dirIndex va < mountTableSlot)
    (tallied : (w.entry w.root (dirIndex va)).isPresent = true →
      w.Tallied (w.entry w.root (dirIndex va)).frame) (aligned : isAligned va = true) :
    ∃ v, Yields (unmap va) w () v ∧ w.Clears v (dirIndex va) (tableIndex va) := by
  have hd' := dirIndex_lt va
  have ht := tableIndex_lt va
  by_cases there : (w.entry w.root (dirIndex va)).isPresent = true ∧
      (w.entry (w.entry w.root (dirIndex va)).frame (tableIndex va)).isPresent = true
  · obtain ⟨present, before⟩ := there
    have tallied := tallied present
    refine ⟨_, unmap_yields h.wired hd' ht present tallied.inside (h.here_ne_root hd present)
      aligned rfl rfl before (h.here_not_free hd present) ?_, h.clears hd ht present tallied before⟩
    rw [tallied.count]
    exact (Page.presentCount_pos ht before).ne'
  · refine ⟨w, ?_, h.clears_absent tallied (by rw [leaf?_here, if_neg there])⟩
    rw [unmap, if_neg (by simp [aligned])]
    refine Leads.yields ((slot_yields h.wired hd').bind (.ite (fun present => ?_) fun _ =>
      (invalidatePage_yields _ _).leads ⟨rfl, rfl⟩))
    refine (leaf_yields h.wired hd' rfl present (tallied present).inside ht).bind
      (.ite (fun before => absurd ⟨present, before⟩ there) fun _ =>
        (invalidatePage_yields _ _).leads ⟨rfl, rfl⟩)

end Kernel
end VirtualMemory
