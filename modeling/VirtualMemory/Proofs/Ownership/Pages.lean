import VirtualMemory.Proofs.Ownership.Rights

/-!
# Pages come and go

What a write to a slot or to an entry of a bound table does to the pages that can be seen: nothing
moves where a slot changes its flags, and one page changes where an entry is written. A table that
loses its last page goes with it. The roles of frames and the rights of pages follow.
-/
namespace VirtualMemory

open Layout

namespace Snapshot

variable {w v : Snapshot} {O : Finset Nat} {role : Nat → Role} {π : Place} {d f t : Nat} {e : Entry}

namespace Stable

/-- The slot of a bound table changes its flags: nothing moves. -/
theorem rewriteSlot (h : w.Stable O role) (hd : d < mountTableSlot)
    (before : (w.entry w.root d).isPresent = true) (present : e.isPresent = true)
    (frame : e.frame = (w.entry w.root d).frame) :
    (w.setEntry w.root d e).Stable O role ∧ w.Rewrites (w.setEntry w.root d e) O w.leaf? where
  left := { h.toSound.rewriteSlot hd before present frame with
    at_rest := h.at_rest
    owned := h.owned }
  right :=
    { size := rfl
      spaces := rfl
      shares := rfl
      leaf := fun π t hπ ht => by
        have away : e.isPresent = true → e.frame ≠ w.root := fun _ => by
          rw [frame]
          exact h.table_ne_root (h.table_here hd before)
        rw [h.leaf?_setSlot hd e away hπ]
        split
        · subst π
          unfold leaf? leafAt
          rw [slotAt_here, frame]
          simp [before, present]
        · rfl
      data := fun g hg => by rw [page_setEntry, if_neg (h.ne_root hg)] }

/-- What is seen after an entry of a table was written. -/
theorem wrote (h : w.Stable O role) (hf : role f = .table π) (ht : t < tableEntries) (e : Entry)
    (o : Occupancy) :
    w.Rewrites ((w.setEntry f t e).book { w.toBooks with occupancy := o }) O
      (w.pagesWith π t (if e.isPresent = true then some e else none)) where
  size := rfl
  spaces := rfl
  shares := rfl
  leaf ρ u hρ hu := (leaf?_book (w := w.setEntry f t e)
    (b := { w.toBooks with occupancy := o }) rfl ρ u).trans (h.leaf?_setLeaf hf ht e hρ hu)
  data g hg := (page_setEntry w f t e g).trans (if_neg (h.ne_table hg hf))

theorem slotAt_wrote (h : w.Stable O role) (hf : role f = .table π) (e : Entry) (o : Occupancy)
    (ρ : Place) :
    ((w.setEntry f t e).book { w.toBooks with occupancy := o }).slotAt ρ = w.slotAt ρ := by
  refine (slotAt_book (w := w.setEntry f t e) rfl ρ).trans
    (slotAt_setPage (h.table_ne_root hf) ?_ _ ρ)
  exact h.not_directory fun p eq => by rw [hf] at eq; cases eq

/-- A table with a free entry counts fewer than it has, whatever its slot holds. -/
theorem room_of_absent (h : w.Stable O role) (hd : d < mountTableSlot)
    (present : (w.entry w.root d).isPresent = true) (ht : t < tableEntries) (e : Entry)
    (free : ((w.setEntry w.root d e).entry (w.entry w.root d).frame t).isPresent = false) :
    w.occupancy.get (w.entry w.root d).frame < tableEntries := by
  have table := h.table_here hd present
  rw [setEntry, entry_setPage_of_ne _ _ _ (h.table_ne_root table)] at free
  rw [h.count _ _ table]
  exact Page.presentCount_lt ht free

/-- A slot that is given more rights upholds those of its entries. -/
theorem upholds_slot (h : w.Stable O role) (hd : d < mountTableSlot)
    (before : (w.entry w.root d).isPresent = true) (present : e.isPresent = true)
    (frame : e.frame = (w.entry w.root d).frame) (covers : e.Covers (w.entry w.root d)) :
    w.Upholds (w.setEntry w.root d e) where
  root := rfl
  window i low hi := by
    rw [entry_setEntry _ _ _ (Sound.slot_lt hd) hi, if_neg]
    rintro ⟨-, rfl⟩
    omega
  rights g := by
    obtain ⟨-, moved⟩ := h.rewriteSlot hd before present frame
    refine g.of_pages ?_
    intro π u x hπ hu page
    rw [moved.leaf π u hπ hu] at page
    refine ⟨hπ, ?_, x, page, .refl x⟩
    rw [slotAt_setSlot h.housed hd e hπ]
    split
    · subst π
      rwa [slotAt_here]
    · exact .refl _

/-- So does an entry that its slot covers. -/
theorem upholds_leaf (h : w.Stable O role) (hf : role f = .table π) (ht : t < tableEntries)
    (fits : w.Granting → e.isPresent = true → (w.slotAt π).Covers e) (o : Occupancy) :
    w.Upholds ((w.setEntry f t e).book { w.toBooks with occupancy := o }) where
  root := rfl
  window i _ _ := entry_setPage_of_ne _ _ _ (h.table_ne_root hf).symm i
  rights g := by
    intro ρ u x hρ hu page
    rw [h.slotAt_wrote hf]
    rw [(h.wrote hf ht e o).leaf ρ u hρ hu, pagesWith] at page
    split at page
    · rename_i here
      obtain ⟨rfl, rfl⟩ := here
      split at page <;> cases page
      exact fits g ‹_›
    · exact g ρ u x hρ hu page

end Stable

/-- A page that is present leaves no table empty. -/
theorem Filled.wrote {ex : Option Place} (filled : w.Filled ex) (ex_eq : ex = none ∨ ex = some π)
    (same : v.spaces = w.spaces) (slots : ∀ ρ, v.slotAt ρ = w.slotAt ρ) (ht : t < tableEntries)
    (pages : ∀ ρ u, w.Has ρ → u < tableEntries → v.leaf? ρ u = w.pagesWith π t (some e) ρ u) :
    v.Filled none := by
  intro p d _ hp present
  have hp' := (has_congr same _).1 hp
  rw [slots] at present
  by_cases here : Place.user p d = π
  · refine ⟨t, ht, ?_⟩
    rw [pages _ _ hp' ht, pagesWith, if_pos ⟨here, rfl⟩]
    simp
  · obtain ⟨u, hu, some⟩ := filled p d (by rcases ex_eq with rfl | rfl <;> simp [here]) hp' present
    refine ⟨u, hu, ?_⟩
    rw [pages _ _ hp' hu, pagesWith, if_neg fun both => here both.1]
    exact some

/-- Where no page is, none is removed. -/
theorem Settled.absent (h : w.Settled O) {π : Place} (none : w.leaf? π t = none) :
    w.Settled O ∧ w.Remaps w O (w.pagesWith π t Option.none) := by
  refine ⟨h, (Remaps.refl w O).congr ?_⟩
  intro ρ u _ _
  unfold pagesWith
  split
  · rename_i same
    rw [same.1, same.2, none]
  · rfl

/-- One of several pages of a table is removed. -/
theorem Settled.removed (h : w.Settled O) (stable : w.Stable O role) (hf : role f = .table π)
    (ht : t < tableEntries) (before : (w.entry f t).isPresent = true)
    (others : w.occupancy.get f - 1 ≠ 0)
    (hv : v = (w.setEntry f t .empty).book { w.toBooks with
      occupancy := w.occupancy.set f (w.occupancy.get f - 1) }) :
    v.Settled O ∧ w.Remaps v O (w.pagesWith π t none) := by
  subst hv
  have moved := stable.wrote hf ht .empty (w.occupancy.set f (w.occupancy.get f - 1))
  have slots := stable.slotAt_wrote (t := t) hf .empty
    (w.occupancy.set f (w.occupancy.get f - 1))
  refine ⟨h.rewrite moved ⟨stable.drop hf ht before others, stable.at_rest, stable.owned⟩ ?_,
    moved, stable.upholds_leaf hf ht (fun _ no => by cases no) _⟩
  intro p d _ hp present
  have hp' := (has_congr moved.spaces _).1 hp
  by_cases here : Place.user p d = π
  · have left : ((w.page f).setEntry t .empty).presentCount ≠ 0 := by
      rw [Page.presentCount_setEntry_drop before Entry.isPresent_empty, ← stable.count f π hf]
      exact others
    obtain ⟨u, hu, there⟩ := Page.exists_present left
    refine ⟨u, hu, ?_⟩
    rw [leaf?_eq_some.2 ⟨present, there, ?_⟩]
    · simp
    · rw [leafAt, slots, here, ((stable.table f π).1 hf).2.2]
      exact congrArg (Page.entry · u) ((page_setEntry w f t .empty f).trans (if_pos rfl))
  · rw [slots] at present
    obtain ⟨u, hu, some⟩ := h.filled p d (by simp) hp' present
    refine ⟨u, hu, ?_⟩
    rwa [moved.leaf _ _ hp' hu, pagesWith, if_neg fun both => here both.1]

/-- The last page of a table is removed, and the table with it. -/
theorem Settled.removedLast (h : w.Settled O) (stable : w.Stable O role) (hd : d < mountTableSlot)
    (present : (w.entry w.root d).isPresent = true) (hf : (w.entry w.root d).frame = f)
    (ht : t < tableEntries) (before : (w.entry f t).isPresent = true) {n : Nat}
    (last : w.occupancy.get f - 1 = 0)
    (hv : v = ((w.setEntry f t .empty).setEntry w.root d .empty).book { w.toBooks with
      free := f :: w.free
      occupancy := (w.occupancy.set f n).forget f }) :
    v.Settled O ∧ w.Remaps v O (w.pagesWith (w.here d) t none) := by
  have table : role f = .table (w.here d) := hf ▸ stable.table_here hd present
  have away := stable.table_ne_root table
  have only (u : Nat) (hu : u < tableEntries) (other : u ≠ t) :
      (w.entry f u).isPresent = false := by
    have left : ((w.page f).setEntry t .empty).presentCount = 0 := by
      rw [Page.presentCount_setEntry_drop before Entry.isPresent_empty, ← stable.count f _ table]
      exact last
    have gone := Page.absent_of_presentCount_zero left hu
    rwa [Page.entry_setEntry _ _ ht hu, if_neg other] at gone
  have spaces : v.spaces = w.spaces := hv ▸ rfl
  have pages (π : Place) (u : Nat) (hπ : w.Has π) :
      v.leaf? π u = if π = w.here d then none else w.leaf? π u := by
    rw [hv, leaf?_book (by rfl)]
    exact stable.leaf?_dropLast hd present hf hπ u
  have slots (π : Place) (hπ : w.Has π) :
      v.slotAt π = if π = w.here d then .empty else w.slotAt π := by
    rw [hv, slotAt_book (by rfl)]
    exact stable.slotAt_dropLast hd present hf hπ
  have moved : w.Rewrites v O (w.pagesWith (w.here d) t none) := by
    refine ⟨hv ▸ rfl, spaces, hv ▸ rfl, ?_, ?_⟩
    · intro π u hπ hu
      rw [pages π u hπ, pagesWith]
      by_cases here : π = w.here d
      · subst here
        by_cases same : u = t
        · simp [same]
        · rw [if_pos rfl, if_neg (by simp [same]), leaf?, if_neg]
          unfold leafAt
          rw [slotAt_here, hf, only u hu same]
          simp
      · rw [if_neg here, if_neg (by simp [here])]
    · intro g hg
      rw [hv]
      refine (page_setEntry ..).trans ((if_neg (stable.ne_root hg)).trans ?_)
      exact (page_setEntry ..).trans (if_neg (stable.ne_table hg table))
  have stable' : v.Stable O (Function.update role f .free) :=
    stable.assign_aside (hv ▸ stable.dropLast hd present hf) (by simp [table]) (by simp) (by simp)
  have upheld : w.Upholds v := by
    refine ⟨hv ▸ rfl, fun i low hi => ?_, fun g => g.of_pages fun π u e hπ hu page => ?_⟩
    · rw [hv, entry_book]
      refine (entry_setEntry _ _ _ (Sound.slot_lt hd) hi).trans ((if_neg ?_).trans ?_)
      · rintro ⟨-, rfl⟩
        omega
      · exact entry_setPage_of_ne _ _ _ away.symm i
    · have hπ' := (has_congr spaces π).1 hπ
      rw [pages π u hπ'] at page
      rw [slots π hπ']
      split at page
      · cases page
      · rw [if_neg ‹_›]
        exact ⟨hπ', .refl _, e, page, .refl e⟩
  refine ⟨h.rewrite moved stable' ?_, moved, upheld⟩
  intro p i _ hp there
  have hp' := (has_congr spaces _).1 hp
  rw [slots _ hp'] at there
  by_cases here : Place.user p i = w.here d
  · simp [here] at there
  · rw [if_neg here] at there
    obtain ⟨u, hu, some⟩ := h.filled p i (by simp) hp' there
    exact ⟨u, hu, by rwa [pages _ _ hp', if_neg here]⟩

/-- A bound slot is given more rights: no page changes. -/
theorem Settled.reslotted (h : w.Settled O) (stable : w.Stable O role) (hd : d < mountTableSlot)
    (before : (w.entry w.root d).isPresent = true) (present : e.isPresent = true)
    (frame : e.frame = (w.entry w.root d).frame) (covers : e.Covers (w.entry w.root d)) :
    (w.setEntry w.root d e).Settled O ∧ w.Remaps (w.setEntry w.root d e) O w.leaf? := by
  obtain ⟨stable', moved⟩ := stable.rewriteSlot hd before present frame
  refine ⟨h.rewrite moved stable' (h.filled.congr rfl ?_ moved.leaf), moved,
    stable.upholds_slot hd before present frame covers⟩
  intro π hπ _ there
  rw [slotAt_setSlot stable.housed hd e hπ] at there
  split at there
  · subst π
    rwa [slotAt_here]
  · exact there

/-- A present page gives way to another. -/
theorem Stable.rewritten (stable : w.Stable O role) (hf : role f = .table π)
    (ht : t < tableEntries) (before : (w.entry f t).isPresent = true)
    (after : e.isPresent = true) (frame : e.frame = (w.entry f t).frame) :
    (w.setEntry f t e).Stable O role ∧
      w.Rewrites (w.setEntry f t e) O (w.pagesWith π t (some e)) := by
  have moved := stable.wrote hf ht e w.occupancy
  simp only [after, if_true] at moved
  have user (p d : Nat) (hπ : π = .user p d) : role e.frame = .owned := by
    obtain ⟨bound, present, slot⟩ := (stable.table f π).1 hf
    rw [frame]
    subst hπ
    exact stable.leaf p d t _ bound ht (leaf?_eq_some.2 ⟨present, before, by rw [leafAt, slot]⟩)
  exact ⟨⟨stable.overwrite hf ht before after user, stable.at_rest, stable.owned⟩, moved⟩

theorem Settled.rewritten (h : w.Settled O) (stable : w.Stable O role) (hf : role f = .table π)
    (ht : t < tableEntries) (before : (w.entry f t).isPresent = true)
    (after : e.isPresent = true) (frame : e.frame = (w.entry f t).frame) :
    (w.setEntry f t e).Settled O ∧ w.Rewrites (w.setEntry f t e) O (w.pagesWith π t (some e)) := by
  obtain ⟨stable', moved⟩ := stable.rewritten hf ht before after frame
  refine ⟨h.rewrite moved stable' ?_, moved⟩
  exact h.filled.wrote (.inl rfl) rfl (stable.slotAt_wrote hf e w.occupancy) ht moved.leaf

/-- A free entry is taken. -/
theorem Stable.taken (stable : w.Stable O role) (hf : role f = .table π) (ht : t < tableEntries)
    (before : (w.entry f t).isPresent = false) (after : e.isPresent = true)
    (owned : role e.frame = .owned) :
    ((w.setEntry f t e).book { w.toBooks with
      occupancy := w.occupancy.set f (w.occupancy.get f + 1) }).Stable O role ∧
    w.Rewrites ((w.setEntry f t e).book { w.toBooks with
      occupancy := w.occupancy.set f (w.occupancy.get f + 1) }) O (w.pagesWith π t (some e)) := by
  have moved := stable.wrote hf ht e (w.occupancy.set f (w.occupancy.get f + 1))
  simp only [after, if_true] at moved
  exact ⟨⟨stable.fill hf ht before after fun _ _ _ => owned, stable.at_rest, stable.owned⟩, moved⟩

/-- The first frame of the pool has become a table at slot `d`, and nothing else has changed. -/
structure TableAdded (w v : Snapshot) (O : Finset Nat) (role : Nat → Role) (d f : Nat)
    (prot : Protection) : Prop where
  stable : v.Stable O (Function.update role f (.table (w.here d)))
  root : v.root = w.root
  free : w.free = f :: v.free
  slot : v.entry v.root d = .of f prot.entryFlags
  present : (v.entry v.root d).isPresent = true
  frame : (v.entry v.root d).frame = f
  moved : w.Rewrites v O w.leaf?
  slots : ∀ π, w.Has π → π ≠ w.here d → v.slotAt π = w.slotAt π
  page : ∀ g, g ≠ w.root → g ≠ f → v.page g = w.page g
  rest : ∀ i, i < tableEntries → i ≠ d → v.entry w.root i = w.entry w.root i

theorem TableAdded.upholds {prot : Protection} (added : w.TableAdded v O role d f prot)
    (hd : d < mountTableSlot) (absent : (w.entry w.root d).isPresent = false) : w.Upholds v where
  root := added.root
  window i low hi := added.rest i hi (by omega)
  rights g := by
    refine g.of_pages ?_
    intro π u e hπ hu page
    have hπ' := (has_congr added.moved.spaces π).1 hπ
    rw [added.moved.leaf π u hπ' hu] at page
    have other : π ≠ w.here d := by
      rintro rfl
      rw [leaf?_of_absent (slotAt_here.symm ▸ absent)] at page
      cases page
    exact ⟨hπ', added.slots π hπ' other ▸ .refl _, e, page, .refl e⟩

end Snapshot

end VirtualMemory
