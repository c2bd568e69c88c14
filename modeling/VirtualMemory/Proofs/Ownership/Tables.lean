import VirtualMemory.Proofs.Ownership.Basic

/-!
# Tables change hands

Binding a spare frame at a slot of the resident directory makes it a table, unbinding makes it
spare again, and the record of a table follows the entries written to it.
-/
namespace VirtualMemory.Snapshot.Sound

open Layout

variable {w : Snapshot} {role : Nat → Role} {f d t : Nat} {π : Place} {p : Page} {e : Entry}

/-! ## Slots of the resident directory -/

theorem slot_lt (hd : d < mountTableSlot) : d < tableEntries := by
  simp only [mountTableSlot, tableEntries] at *
  omega

theorem live_active (h : w.Sound role) : w.Live w.spaces.active := h.regular.active

theorem table_here (h : w.Sound role) (hd : d < mountTableSlot)
    (present : (w.entry w.root d).isPresent = true) :
    role (w.entry w.root d).frame = .table (w.here d) := by
  rw [← slotAt_here] at present ⊢
  exact h.table_slotAt (has_here h.live_active hd) present

theorem table_ne_root (h : w.Sound role) (hf : role f = .table π) : f ≠ w.root := by
  rintro rfl
  rw [(h.resident _).2 rfl] at hf
  cases hf

theorem table_ne_mount (h : w.Sound role) (hf : role f = .table π) : f ≠ mountTable := by
  rintro rfl
  rw [(h.window _).2 rfl] at hf
  cases hf

/-- The pages seen after slot `d` has been written. -/
theorem leaf?_setSlot (h : w.Sound role) (hd : d < mountTableSlot) (e : Entry)
    (away : e.isPresent = true → e.frame ≠ w.root) (hπ : w.Has π) (t : Nat) :
    (w.setEntry w.root d e).leaf? π t = if π = w.here d then
      if e.isPresent = true ∧ (w.entry e.frame t).isPresent = true then some (w.entry e.frame t)
      else none
    else w.leaf? π t := by
  unfold leaf? leafAt
  rw [slotAt_setSlot h.housed hd e hπ]
  by_cases same : π = w.here d
  · simp only [if_pos same]
    by_cases present : e.isPresent = true
    · rw [setEntry, entry_setPage_of_ne _ _ _ (away present)]
    · simp [present]
  · simp only [if_neg same]
    by_cases present : (w.slotAt π).isPresent = true
    · rw [setEntry, entry_setPage_of_ne _ _ _ (h.table_ne_root (h.table_slotAt hπ present))]
    · simp [present]

/-- What writing slot `d` keeps, wherever the frames of tables go. -/
theorem setSlot_of (h : w.Sound role) (hd : d < mountTableSlot) {e : Entry}
    {role' : Nat → Role} (away : e.isPresent = true → e.frame ≠ w.root)
    (others : ∀ g k, (∀ π, k ≠ .table π) → k ≠ .spare → (role' g = k ↔ role g = k))
    (table : ∀ g π, role' g = .table π ↔
      if π = w.here d then e.isPresent = true ∧ e.frame = g else role g = .table π)
    (leaf : ∀ p t, w.here d = .user p d → t < tableEntries → e.isPresent = true →
      (w.entry e.frame t).isPresent = true → role (w.entry e.frame t).frame = .owned)
    (count : ∀ g, role' g = .table (w.here d) →
      w.occupancy.get g = (w.page g).presentCount ∧
        (g ∈ w.occupancy.counts ↔ (w.page g).presentCount ≠ 0))
    (moved : ∀ g, role g = .spare ∨ role g = .table (w.here d) →
      role' g = .spare ∨ role' g = .table (w.here d)) :
    (w.setEntry w.root d e).Sound role' := by
  have rest {g : Nat} {π : Place} (hπ : π ≠ w.here d) : role' g = .table π ↔ role g = .table π := by
    rw [table, if_neg hπ]
  have away' {g : Nat} {π : Place} (hg : role' g = .table π) : g ≠ w.root := by
    rintro rfl
    rw [(others _ .resident (by simp) (by simp)).2 ((h.resident _).2 rfl)] at hg
    cases hg
  have page {g : Nat} {π : Place} (hg : role' g = .table π) :
      (w.setEntry w.root d e).page g = w.page g := by
    rw [page_setEntry, if_neg (away' hg)]
  exact
    { wired := h.wired.setSlot hd e
      regular := h.regular
      outside := fun g => (others g _ (by simp) (by simp)).trans (h.outside g)
      resident := fun g => (others g _ (by simp) (by simp)).trans (h.resident g)
      window := fun g => (others g _ (by simp) (by simp)).trans (h.window g)
      free := fun g => (others g _ (by simp) (by simp)).trans (h.free g)
      nodup := h.nodup
      directory := fun g p => (others g _ (by simp) (by simp)).trans (h.directory g p)
      table := fun g π => by
        rw [table]
        by_cases hπ : w.Has π
        · rw [slotAt_setSlot h.housed hd e hπ]
          by_cases same : π = w.here d
          · simp only [if_pos same]
            exact ⟨fun both => ⟨hπ, both⟩, fun all => all.2⟩
          · simp only [if_neg same]
            exact h.table g π
        · have other : π ≠ w.here d := by
            rintro rfl
            exact hπ (has_here h.live_active hd)
          rw [if_neg other]
          refine iff_of_false (fun hg => hπ ((h.table g π).1 hg).1) fun all => hπ all.1
      leaf := fun p i t e' hp ht he => by
        have hp' : w.Has (.user p i) := hp
        rw [others _ .owned (by simp) (by simp)]
        rw [h.leaf?_setSlot hd e away hp'] at he
        split at he
        · rename_i same
          split at he
          · rename_i present
            cases he
            have slot : i = d := by
              unfold here Place.seenBy at same
              split at same <;> cases same
              rfl
            subst slot
            exact leaf p t same.symm ht present.1 present.2
          · cases he
        · exact h.leaf p i t e' hp' ht he
      count := fun g π hg => by
        rw [page hg]
        by_cases same : π = w.here d
        · exact (count g (same ▸ hg)).1
        · exact h.count g π ((rest same).1 hg)
      tracked := fun g hg => by
        by_cases bound : role' g = .table (w.here d)
        · change g ∈ w.occupancy.counts ↔ _
          rw [(count g bound).2, page bound]
          exact ⟨fun ne => ⟨_, bound, ne⟩, fun ⟨_, _, ne⟩ => ne⟩
        · have old : role g ≠ .spare := fun hs => (moved g (.inl hs)).elim hg bound
          refine (h.tracked g old).trans ⟨?_, ?_⟩
          · rintro ⟨π, hπ, ne⟩
            have other : π ≠ w.here d := by
              rintro rfl
              exact (moved g (.inr hπ)).elim hg bound
            have kept := (rest other).2 hπ
            exact ⟨π, kept, by rwa [page kept]⟩
          · rintro ⟨π, hπ, ne⟩
            have other : π ≠ w.here d := fun same => bound (same ▸ hπ)
            exact ⟨π, (rest other).1 hπ, page hπ ▸ ne⟩
      quiet := fun t ht => by
        rw [setEntry, entry_setPage_of_ne _ _ _ h.wired.mountTable_ne_root]
        exact h.quiet t ht }

/-- An empty spare frame is bound as a table. -/
theorem bind (h : w.Sound role) (hd : d < mountTableSlot)
    (absent : (w.entry w.root d).isPresent = false) (hf : role f = .spare)
    (zero : w.page f = Page.zero) (record : f ∉ w.occupancy.counts)
    (present : e.isPresent = true) (frame : e.frame = f) :
    (w.setEntry w.root d e).Sound (Function.update role f (.table (w.here d))) := by
  subst frame
  have none (g : Nat) : role g ≠ .table (w.here d) := fun hg => by
    have := ((h.table g _).1 hg).2.1
    rw [slotAt_here, absent] at this
    cases this
  have away : e.frame ≠ w.root := fun eq => by
    rw [(h.resident _).2 eq] at hf
    cases hf
  refine h.setSlot_of hd (fun _ => away) ?_ ?_ ?_ ?_ ?_
  · intro g k table spare
    rw [Function.update_apply]
    split
    · subst_vars
      exact iff_of_false (table _ ·.symm) (fun eq => spare (eq ▸ hf))
    · rfl
  · intro g π
    rw [Function.update_apply]
    by_cases same : π = w.here d
    · subst same
      by_cases here : g = e.frame
      · simp [here, present]
      · simp [here, none, Ne.symm here]
    · rw [if_neg same]
      split
      · subst_vars
        simp [hf, Ne.symm same]
      · rfl
  · intro p t _ _ _ here
    rw [entry, zero] at here
    simp at here
  · intro g hg
    have here : g = e.frame := by
      by_contra ne
      rw [Function.update_of_ne ne] at hg
      exact none g hg
    subst here
    simp [zero, record, Occupancy.get_of_not_mem record]
  · intro g hg
    rw [Function.update_apply]
    split
    · exact .inr rfl
    · exact hg.imp_right fun hg => absurd hg (none g)

/-- The slot of a bound table changes its flags. -/
theorem rewriteSlot (h : w.Sound role) (hd : d < mountTableSlot)
    (before : (w.entry w.root d).isPresent = true) (present : e.isPresent = true)
    (frame : e.frame = (w.entry w.root d).frame) : (w.setEntry w.root d e).Sound role := by
  have here := h.table_here hd before
  rw [← frame] at here
  have bound (g : Nat) : role g = .table (w.here d) ↔ e.frame = g := by
    rw [h.table, slotAt_here, frame]
    exact ⟨fun all => all.2.2, fun eq => ⟨has_here h.live_active hd, before, eq⟩⟩
  refine h.setSlot_of hd (fun _ => h.table_ne_root here) (fun _ _ _ _ => Iff.rfl) ?_
    ?_ (fun g hg => ⟨h.count g _ hg, ?_⟩) (fun g hg => hg)
  · intro g π
    split
    · subst_vars
      simp [bound, present]
    · rfl
  · intro p t hp ht _ here
    have user := has_here h.live_active hd
    rw [hp] at user
    refine h.leaf p d t _ user ht (leaf?_eq_some.2 ⟨?_, here, ?_⟩)
    · rw [← hp, slotAt_here]
      exact before
    · rw [leafAt, ← hp, slotAt_here, frame]
  · rw [h.tracked g (by rw [hg]; simp)]
    constructor
    · rintro ⟨-, -, ne⟩
      exact ne
    · exact fun ne => ⟨_, hg, ne⟩

/-- The table at a slot is let go. -/
theorem unbind (h : w.Sound role) (hd : d < mountTableSlot)
    (before : (w.entry w.root d).isPresent = true) :
    (w.setEntry w.root d .empty).Sound (Function.update role (w.entry w.root d).frame .spare) := by
  have here := h.table_here hd before
  refine h.setSlot_of hd (fun no => by cases no) ?_ ?_
    (fun _ _ _ _ no => by cases no) ?_ ?_
  · intro g k table spare
    rw [Function.update_apply]
    split
    · subst_vars
      exact iff_of_false (spare ·.symm) (fun eq => table _ (eq ▸ here))
    · rfl
  · intro g π
    rw [Function.update_apply]
    by_cases same : π = w.here d
    · subst same
      have : role g = .table (w.here d) → g = (w.entry w.root d).frame := fun hg => by
        rw [← ((h.table g _).1 hg).2.2, slotAt_here]
      simp only [if_true, Entry.isPresent_empty, Bool.false_eq_true, false_and, iff_false]
      split
      · simp
      · exact fun hg => ‹¬ _› (this hg)
    · rw [if_neg same]
      split
      · subst_vars
        simp [here, Ne.symm same]
      · rfl
  · intro g hg
    rw [Function.update_apply] at hg
    split at hg
    · cases hg
    · rename_i ne
      have := ((h.table g _).1 hg).2.2
      rw [slotAt_here] at this
      exact absurd this.symm ne
  · intro g hg
    rw [Function.update_apply]
    split
    · exact .inl rfl
    · exact hg

/-! ## Entries of tables -/

theorem bound_iff (h : w.Sound role) (hf : role f = .table π) {ρ : Place} (hρ : w.Has ρ)
    (present : (w.slotAt ρ).isPresent = true) : (w.slotAt ρ).frame = f ↔ ρ = π := by
  constructor
  · intro eq
    have := h.table_slotAt hρ present
    rw [eq, hf] at this
    cases this
    rfl
  · rintro rfl
    exact ((h.table f ρ).1 hf).2.2

theorem leaf?_setLeaf (h : w.Sound role) (hf : role f = .table π) (ht : t < tableEntries)
    (e : Entry) {ρ : Place} (hρ : w.Has ρ) {u : Nat} (hu : u < tableEntries) :
    (w.setEntry f t e).leaf? ρ u =
      if ρ = π ∧ u = t then if e.isPresent = true then some e else none else w.leaf? ρ u :=
  Snapshot.leaf?_setLeaf (h.table_ne_root hf)
    (h.not_directory fun p eq => by rw [hf] at eq; cases eq) ht
    (fun _ hρ present => h.bound_iff hf hρ present) ((h.table f π).1 hf).2.1 hρ hu

/-- An entry of a table is written, and the table's record follows. -/
theorem setLeaf (h : w.Sound role) (hf : role f = .table π) (ht : t < tableEntries)
    {o : Occupancy} (user : ∀ p d, π = .user p d → e.isPresent = true → role e.frame = .owned)
    (get : o.get f = ((w.page f).setEntry t e).presentCount)
    (mem : f ∈ o.counts ↔ ((w.page f).setEntry t e).presentCount ≠ 0)
    (off : ∀ g, g ≠ f → o.get g = w.occupancy.get g ∧ (g ∈ o.counts ↔ g ∈ w.occupancy.counts)) :
    ((w.setEntry f t e).book { w.toBooks with occupancy := o }).Sound role := by
  have hroot := h.table_ne_root hf
  have slots := slotAt_setPage hroot (h.not_directory fun p eq => by rw [hf] at eq; cases eq)
    ((w.page f).setEntry t e)
  have page (g : Nat) : (w.setEntry f t e).page g =
      if g = f then (w.page f).setEntry t e else w.page g := page_setEntry ..
  exact
    { wired := (h.wired.setPage hroot _).book _
      regular := h.regular
      outside := h.outside
      resident := h.resident
      window := h.window
      free := h.free
      nodup := h.nodup
      directory := h.directory
      table := fun g ρ => (h.table g ρ).trans (by rw [← slots ρ]; rfl)
      leaf := fun p d u e' hp hu he => by
        have hp' : w.Has (.user p d) := hp
        rw [leaf?_book (w := w.setEntry f t e) (b := { w.toBooks with occupancy := o }) rfl,
          h.leaf?_setLeaf hf ht e hp' hu] at he
        split at he
        · rename_i here
          split at he
          · cases he
            exact user p d here.1.symm ‹_›
          · cases he
        · exact h.leaf p d u e' hp' hu he
      count := fun g ρ hg => by
        change o.get g = ((w.setEntry f t e).page g).presentCount
        rw [page]
        split
        · subst_vars
          exact get
        · exact (off g ‹_›).1.trans (h.count g ρ hg)
      tracked := fun g hg => by
        change g ∈ o.counts ↔ ∃ ρ, role g = .table ρ ∧ ((w.setEntry f t e).page g).presentCount ≠ 0
        rw [page]
        split
        · subst_vars
          exact mem.trans ⟨fun ne => ⟨_, hf, ne⟩, fun ⟨_, _, ne⟩ => ne⟩
        · exact (off g ‹_›).2.trans (h.tracked g hg)
      quiet := fun u hu => by
        change ((w.setEntry f t e).entry mountTable u).isPresent = false
        rw [setEntry, entry_setPage_of_ne _ _ _ (h.table_ne_mount hf).symm]
        exact h.quiet u hu }

/-- A present entry gives way to another. -/
theorem overwrite (h : w.Sound role) (hf : role f = .table π) (ht : t < tableEntries)
    (before : (w.entry f t).isPresent = true) (after : e.isPresent = true)
    (user : ∀ p d, π = .user p d → role e.frame = .owned) : (w.setEntry f t e).Sound role := by
  have same := Page.presentCount_setEntry_of_present before after
  refine h.setLeaf hf ht (o := w.occupancy) (fun p d hπ _ => user p d hπ) ?_ ?_
    fun _ _ => ⟨rfl, Iff.rfl⟩
  · rw [same, h.count f π hf]
  · rw [same, h.tracked f (by simp [hf])]
    exact ⟨fun ⟨_, _, ne⟩ => ne, fun ne => ⟨π, hf, ne⟩⟩

/-- A free entry is taken, and counted. -/
theorem fill (h : w.Sound role) (hf : role f = .table π) (ht : t < tableEntries)
    (before : (w.entry f t).isPresent = false) (after : e.isPresent = true)
    (user : ∀ p d, π = .user p d → role e.frame = .owned) :
    ((w.setEntry f t e).book { w.toBooks with
      occupancy := w.occupancy.set f (w.occupancy.get f + 1) }).Sound role := by
  have more := Page.presentCount_setEntry_fill before after
  refine h.setLeaf hf ht (fun p d hπ _ => user p d hπ) ?_ ?_ fun g hg => ⟨?_, ?_⟩
  · rw [more, Occupancy.get_set, if_pos rfl, h.count f π hf]
  · rw [more, Occupancy.mem_set]
    simp
  · rw [Occupancy.get_set, if_neg hg.symm]
  · rw [Occupancy.mem_set, or_iff_right hg.symm]

/-- One of several entries is dropped, and the record follows. -/
theorem drop (h : w.Sound role) (hf : role f = .table π) (ht : t < tableEntries)
    (before : (w.entry f t).isPresent = true) (others : w.occupancy.get f - 1 ≠ 0) :
    ((w.setEntry f t .empty).book { w.toBooks with
      occupancy := w.occupancy.set f (w.occupancy.get f - 1) }).Sound role := by
  have less := Page.presentCount_setEntry_drop before Entry.isPresent_empty
  refine h.setLeaf hf ht (fun _ _ _ no => by cases no) ?_ ?_ fun g hg => ⟨?_, ?_⟩
  · rw [less, Occupancy.get_set, if_pos rfl, h.count f π hf]
  · rw [less, Occupancy.mem_set, ← h.count f π hf]
    simp [others]
  · rw [Occupancy.get_set, if_neg hg.symm]
  · rw [Occupancy.mem_set, or_iff_right hg.symm]

/-- Clearing an entry of a table and then its slot is letting the table go, and then changing a
frame that is no table. -/
theorem setEntry_setSlot (away : f ≠ w.root) (a b : Entry) :
    (w.setEntry f t a).setEntry w.root d b =
      (w.setEntry w.root d b).setPage f ((w.page f).setEntry t a) := by
  rw [setEntry, setEntry, setEntry, setPage_comm _ _ _ away.symm, page_setPage,
    if_neg away.symm]

/-- The last entry is dropped, and the table goes back to the pool with it. -/
theorem dropLast (h : w.Sound role) (hd : d < mountTableSlot)
    (before : (w.entry w.root d).isPresent = true) (hf : (w.entry w.root d).frame = f) {n : Nat} :
    (((w.setEntry f t .empty).setEntry w.root d .empty).book { w.toBooks with
      free := f :: w.free
      occupancy := (w.occupancy.set f n).forget f }).Sound (Function.update role f .free) := by
  subst hf
  set f := (w.entry w.root d).frame with hf
  have spare : Function.update role f .spare f = .spare := Function.update_self ..
  have loose := (h.unbind hd before).setPage (f := f) (by rw [spare]; trivial)
    ((w.page f).setEntry t .empty)
  have forgotten := loose.recount spare (o := (w.occupancy.set f n).forget f) (fun g hg => ?_)
    fun g hg => ?_
  · have back := forgotten.putBack spare fun mem => (Occupancy.mem_forget.1 mem).1 rfl
    rw [Function.update_idem] at back
    rw [setEntry_setSlot (h.table_ne_root (h.table_here hd before))]
    exact back
  · rw [Occupancy.get_forget, if_neg hg.symm, Occupancy.get_set, if_neg hg.symm]
    rfl
  · rw [Occupancy.mem_forget, Occupancy.mem_set, or_iff_right hg.symm]
    exact and_iff_right hg.symm

theorem slotAt_dropLast (h : w.Sound role) (hd : d < mountTableSlot)
    (before : (w.entry w.root d).isPresent = true) (hf : (w.entry w.root d).frame = f)
    (hπ : w.Has π) :
    ((w.setEntry f t .empty).setEntry w.root d .empty).slotAt π =
      if π = w.here d then .empty else w.slotAt π := by
  subst hf
  have table := h.table_here hd before
  rw [setEntry_setSlot (h.table_ne_root table),
    slotAt_setPage (w := w.setEntry w.root d .empty) (h.table_ne_root table)
      (h.not_directory fun p eq => by rw [table] at eq; cases eq),
    slotAt_setSlot h.housed hd _ hπ]

theorem leaf?_dropLast (h : w.Sound role) (hd : d < mountTableSlot)
    (before : (w.entry w.root d).isPresent = true) (hf : (w.entry w.root d).frame = f)
    (hπ : w.Has π) (u : Nat) :
    ((w.setEntry f t .empty).setEntry w.root d .empty).leaf? π u =
      if π = w.here d then none else w.leaf? π u := by
  subst hf
  have loose := h.unbind hd before
  rw [setEntry_setSlot (h.table_ne_root (h.table_here hd before)),
    loose.leaf?_setPage (by rw [Function.update_self]; trivial) _ hπ,
    h.leaf?_setSlot hd _ (fun no => by cases no) hπ]
  simp

end VirtualMemory.Snapshot.Sound
