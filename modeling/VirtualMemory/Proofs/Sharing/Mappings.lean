import VirtualMemory.Proofs.Calls.TableCounts
import VirtualMemory.Proofs.Sharing.Ledger

/-!
# Mappings

The entries that refer to a frame, over the tables of all spaces and of the kernel. Memory bounds
how many there are. A call moves them one entry at a time, save for a fork, which adds those of the
parent's pages once more; and what is mapped is always in the hands of a caller, because tables are
not filled before the boot unless the loader fills them.
-/
namespace VirtualMemory.Snapshot

open Layout

/-- The entries of user and kernel tables that refer to a frame. -/
def mappings (w : Snapshot) (f : Nat) : Set (Place × Nat) :=
  {x | w.Has x.1 ∧ x.2 < tableEntries ∧ (w.leaf? x.1 x.2).map Entry.frame = some f}

/-- Callers hold what the kernel's tables refer to. -/
def KernelHeld (w : Snapshot) (O : Finset Nat) : Prop :=
  ∀ d t e, w.Has (.kernel d) → t < tableEntries → w.leaf? (.kernel d) t = some e → e.frame ∈ O

variable {w v : Snapshot} {O Q : Finset Nat} {π ρ : Place} {x : Place × Nat}
  {parent child p d t f : Nat} {e : Entry} {new : Option Entry}

theorem mem_mappings : x ∈ w.mappings f ↔
    w.Has x.1 ∧ x.2 < tableEntries ∧ ∃ e, w.leaf? x.1 x.2 = some e ∧ e.frame = f := by
  rw [mappings, Set.mem_ofPred_eq, Option.map_eq_some_iff]

theorem mem_mappings_of_userPages {y : Position} (page : w.userPages y = some e) :
    y.entry ∈ w.mappings e.frame := by
  obtain ⟨p, d, t⟩ := y
  obtain ⟨has, ht, leaf⟩ := userPages_eq_some.1 page
  exact mem_mappings.2 ⟨has, ht, e, leaf, rfl⟩

theorem mem_mappings_of_page (hπ : w.Has π) (ht : t < tableEntries)
    (leaf : w.leaf? π t = some e) : (π, t) ∈ w.mappings e.frame :=
  mem_mappings.2 ⟨hπ, ht, e, leaf, rfl⟩

/-! ## How many there are -/

/-- Where an entry is in memory: the frame of its table, and its index. -/
def cell (w : Snapshot) (x : Place × Nat) : Nat × Nat := (w.tableAt x.1, x.2)

/-- The entries that memory has room for. -/
def cells (w : Snapshot) : Finset (Nat × Nat) :=
  (Finset.range w.size).image Ram.frameAddress ×ˢ Finset.range tableEntries

theorem card_cells_le (w : Snapshot) : w.cells.card ≤ w.size * tableEntries := by
  have images := Finset.card_image_le (s := Finset.range w.size) (f := Ram.frameAddress)
  rw [Finset.card_range] at images
  rw [cells, Finset.card_product, Finset.card_range]
  exact Nat.mul_le_mul_right _ images

theorem Stable.role_of_mapping {role : Nat → Role} (stable : w.Stable O role) {x : Place × Nat}
    (hx : x ∈ w.mappings f) : role (w.tableAt x.1) = .table x.1 := by
  obtain ⟨e, leaf, -⟩ := Option.map_eq_some_iff.1 hx.2.2
  exact stable.table_slotAt hx.1 (leaf?_eq_some.1 leaf).1

theorem Settled.mapsTo_cells (h : w.Settled O) (f : Nat) :
    Set.MapsTo w.cell (w.mappings f) w.cells := by
  obtain ⟨role, stable⟩ := h.stable
  intro x hx
  have inside := stable.isFrame (f := w.tableAt x.1) (by simp [stable.role_of_mapping hx])
  obtain ⟨k, hk, there⟩ := Ram.exists_frameAddress inside
  simp only [cells, cell, Finset.coe_product, Set.mem_prod, Finset.mem_coe, Finset.mem_image,
    Finset.mem_range]
  exact ⟨⟨k, hk, there⟩, hx.2.1⟩

/-- No two tables are in one frame. -/
theorem Settled.injOn_cell (h : w.Settled O) (f : Nat) : Set.InjOn w.cell (w.mappings f) := by
  obtain ⟨role, stable⟩ := h.stable
  intro x hx y hy same
  obtain ⟨table, index⟩ := Prod.mk.inj same
  have place := stable.role_of_mapping hx
  rw [table, stable.role_of_mapping hy] at place
  exact Prod.ext (Role.table.inj place).symm index

theorem Settled.finite_mappings (h : w.Settled O) (f : Nat) : (w.mappings f).Finite :=
  Set.Finite.of_injOn (h.mapsTo_cells f) (h.injOn_cell f) (Finset.finite_toSet _)

theorem Settled.ncard_mappings_le (h : w.Settled O) (f : Nat) :
    (w.mappings f).ncard ≤ w.size * tableEntries :=
  calc (w.mappings f).ncard
    _ ≤ (w.cells : Set (Nat × Nat)).ncard :=
      Set.ncard_le_ncard_of_injOn _ (h.mapsTo_cells f) (h.injOn_cell f) (Finset.finite_toSet _)
    _ = w.cells.card := Set.ncard_coe_finset _
    _ ≤ w.size * tableEntries := w.card_cells_le

/-- References from user pages are mappings. -/
theorem Settled.card_references_le (h : w.Settled O) (f : Nat) :
    (w.references f).card ≤ (w.mappings f).ncard := by
  rw [← Set.ncard_coe_finset]
  refine Set.ncard_le_ncard_of_injOn Position.entry ?_ Position.entry_injective.injOn
    (h.finite_mappings f)
  intro x hx
  obtain ⟨e, page, rfl⟩ := mem_references.1 (Finset.mem_coe.1 hx)
  exact mem_mappings_of_userPages page

/-! ## How they move -/

theorem mappings_congr (has : ∀ π, v.Has π ↔ w.Has π)
    (frames : ∀ π t, w.Has π → t < tableEntries →
      (v.leaf? π t).map Entry.frame = (w.leaf? π t).map Entry.frame) (f : Nat) :
    v.mappings f = w.mappings f := by
  ext ⟨π, t⟩
  constructor
  · rintro ⟨hπ, ht, there⟩
    have hπ' := (has π).1 hπ
    exact ⟨hπ', ht, frames π t hπ' ht ▸ there⟩
  · rintro ⟨hπ, ht, there⟩
    exact ⟨(has π).2 hπ, ht, (frames π t hπ ht).trans there⟩

theorem mappings_switched (h : w.Settled O) (s : w.Switched v p) (f : Nat) :
    v.mappings f = w.mappings f :=
  mappings_congr s.has (fun π t hπ _ => by rw [h.leaf?_switched s hπ]) f

/-- What callers write into their frames is no table. -/
theorem mappings_setPage {g : Nat} (h : w.Settled O) (hg : g ∈ O) (page : Page) (f : Nat) :
    (w.setPage g page).mappings f = w.mappings f :=
  mappings_congr (w := w) (v := w.setPage g page) (fun _ => Iff.rfl)
    (fun π t hπ _ => by rw [(h.setPage hg page).2 π t hπ]) f

/-- Where one entry is written, the others refer to what they did. -/
theorem mem_mappings_with (spaces : v.spaces = w.spaces) (leaf : ∀ π i, w.Has π →
      i < tableEntries → v.leaf? π i = w.pagesWith ρ t new π i) (hx : x ∈ v.mappings f) :
    x ≠ (ρ, t) ∧ x ∈ w.mappings f ∨ x = (ρ, t) ∧ new.map Entry.frame = some f := by
  obtain ⟨π, i⟩ := x
  obtain ⟨hπ, hi, there⟩ := hx
  have hπ' := (has_congr spaces π).1 hπ
  rw [leaf π i hπ' hi, pagesWith] at there
  by_cases here : π = ρ ∧ i = t
  · rw [if_pos here] at there
    exact .inr ⟨Prod.ext here.1 here.2, there⟩
  · rw [if_neg here] at there
    exact .inl ⟨fun same => here (Prod.mk.inj same), hπ', hi, there⟩

/-- The only entry for a frame that was mapped nowhere before. -/
theorem mappings_put (spaces : v.spaces = w.spaces) (leaf : ∀ π i, w.Has π →
      i < tableEntries → v.leaf? π i = w.pagesWith ρ t (some e) π i)
    (fresh : w.mappings e.frame = ∅) : v.mappings e.frame ⊆ {(ρ, t)} := by
  intro x hx
  obtain ⟨-, old⟩ | ⟨here, -⟩ := mem_mappings_with spaces leaf hx
  · simp [fresh] at old
  · exact here

/-- The frame that was there is mapped once less. -/
theorem mappings_put_of_ne (spaces : v.spaces = w.spaces) (leaf : ∀ π i, w.Has π →
      i < tableEntries → v.leaf? π i = w.pagesWith ρ t (some e) π i) (other : f ≠ e.frame) :
    v.mappings f ⊆ w.mappings f \ {(ρ, t)} := by
  intro x hx
  obtain ⟨elsewhere, old⟩ | ⟨-, frame⟩ := mem_mappings_with spaces leaf hx
  · exact ⟨old, elsewhere⟩
  · exact absurd (Option.some.inj frame).symm other

/-- A new page in the frame of the old one. -/
theorem mappings_replaced (spaces : v.spaces = w.spaces) (leaf : ∀ π i, w.Has π →
      i < tableEntries → v.leaf? π i = w.pagesWith ρ t new π i)
    (frame : new.map Entry.frame = (w.leaf? ρ t).map Entry.frame) (f : Nat) :
    v.mappings f = w.mappings f :=
  mappings_congr (has_congr spaces)
    (fun π i hπ hi => by rw [leaf π i hπ hi, frame_pagesWith frame]) f

/-- A fork adds an entry of the child for every page of the parent. -/
theorem Forked.mem_mappings (forked : w.Forked v O parent child) (live : w.Live parent)
    (hx : x ∈ v.mappings f) : x ∈ w.mappings f ∨
      ∃ y ∈ (w.references f).filter fun y => y.1 = parent, x = (.user child y.2.1, y.2.2) := by
  obtain ⟨π, t⟩ := x
  obtain ⟨hπ, ht, there⟩ := hx
  have has : w.Has π := by
    cases π with
    | user p d => exact ⟨by simpa [Live, forked.spaces, Spaces.find?] using hπ.1, hπ.2⟩
    | kernel d => exact hπ
  rw [forked.leaf π t has ht] at there
  cases π with
  | kernel d => exact .inl ⟨has, ht, there⟩
  | user p d =>
    rw [forkedPages] at there
    split at there
    · rename_i here
      have frames : (w.leaf? (.user parent d) t).map Entry.frame = some f := by
        rw [← there, Option.map_map]
        exact congrArg (Option.map · _) (funext fun e => (Entry.frame_clear_writable e).symm)
      obtain rfl | rfl := here.1
      · exact .inl ⟨has, ht, frames⟩
      · refine .inr ⟨(parent, d, t), Finset.mem_filter.2 ⟨mem_references_iff.2 ?_, rfl⟩, rfl⟩
        rwa [userPages_of_has ⟨live, has.2⟩ ht]
    · exact .inl ⟨has, ht, there⟩

theorem Forked.ncard_mappings_le (h : w.Settled O) (forked : w.Forked v O parent child)
    (live : w.Live parent) (f : Nat) : (v.mappings f).ncard ≤
      (w.mappings f).ncard + w.pagesIn parent (userSlots * tableEntries) f := by
  let copy : Position → Place × Nat := fun y => (.user child y.2.1, y.2.2)
  let mine := (w.references f).filter fun y => y.1 = parent
  have sub : v.mappings f ⊆ w.mappings f ∪ (mine.image copy : Set (Place × Nat)) := by
    intro x hx
    obtain old | ⟨y, hy, rfl⟩ := forked.mem_mappings live hx
    · exact .inl old
    · exact .inr (Finset.mem_coe.2 (Finset.mem_image_of_mem copy hy))
  calc (v.mappings f).ncard
    _ ≤ (w.mappings f ∪ (mine.image copy : Set (Place × Nat))).ncard :=
      Set.ncard_le_ncard sub ((h.finite_mappings f).union (Finset.finite_toSet _))
    _ ≤ (w.mappings f).ncard + (mine.image copy : Set (Place × Nat)).ncard :=
      Set.ncard_union_le _ _
    _ ≤ (w.mappings f).ncard + mine.card := by
      rw [Set.ncard_coe_finset]
      exact Nat.add_le_add_left Finset.card_image_le _
    _ = (w.mappings f).ncard + w.pagesIn parent (userSlots * tableEntries) f := by
      rw [pagesIn_eq_card live]

/-! ## Whose they are -/

/-- Callers hold whatever is mapped. -/
theorem Settled.mapping_held (h : w.Settled O) (held : w.KernelHeld O) (hx : x ∈ w.mappings f) :
    f ∈ O := by
  obtain ⟨π, t⟩ := x
  obtain ⟨hπ, ht, e, leaf, rfl⟩ := Snapshot.mem_mappings.1 hx
  cases π with
  | user p d => exact h.leaf_owned hπ ht leaf
  | kernel d => exact held d t e hπ ht leaf

theorem Settled.mappings_fresh (h : w.Settled O) (held : w.KernelHeld O) (fresh : f ∉ O) :
    w.mappings f = ∅ := Set.eq_empty_of_forall_notMem fun _ hx => fresh (h.mapping_held held hx)

namespace KernelHeld

theorem of_leaf (held : w.KernelHeld O) (sub : O ⊆ Q)
    (leaf : ∀ d t, w.Has (.kernel d) → t < tableEntries →
      v.leaf? (.kernel d) t = w.leaf? (.kernel d) t) : v.KernelHeld Q := by
  intro d t e hd ht page
  rw [leaf d t hd ht] at page
  exact sub (held d t e hd ht page)

/-- One entry is written. -/
theorem write (held : w.KernelHeld O) (sub : O ⊆ Q) (mine : ∀ e, new = some e → e.frame ∈ Q)
    (leaf : ∀ π i, w.Has π → i < tableEntries → v.leaf? π i = w.pagesWith ρ t new π i) :
    v.KernelHeld Q := by
  intro d i e hd hi page
  rw [leaf (.kernel d) i hd hi, pagesWith] at page
  split at page
  · exact mine e page
  · exact sub (held d i e hd hi page)

/-- Entries are taken away, or written without a change of frame. -/
theorem keeps_frames (held : w.KernelHeld O) {hit : Place → Nat → Prop}
    [∀ π t, Decidable (hit π t)] {g : Option Entry → Option Entry}
    (frames : ∀ o e, g o = some e → ∃ e', o = some e' ∧ e'.frame = e.frame)
    (leaf : ∀ π i, w.Has π → i < tableEntries → v.leaf? π i = w.pagesOver hit g π i) :
    v.KernelHeld O := by
  intro d i e hd hi page
  rw [leaf (.kernel d) i hd hi, pagesOver] at page
  split at page
  · obtain ⟨e', old, same⟩ := frames _ e page
    exact same ▸ held d i e' hd hi old
  · exact held d i e hd hi page

theorem resolved {va : Nat} (h : w.Settled O) (held : w.KernelHeld O)
    (hd : dirIndex va < mountTableSlot) (r : w.Resolved O va v Q) : v.KernelHeld Q := by
  cases r with
  | untouched => exact held
  | @granted v e page lone settled pages =>
    obtain ⟨role, stable⟩ := h.stable
    have there := mem_mappings_of_page (has_here stable.live_active hd) (tableIndex_lt va) page
    refine held.write (Finset.Subset.refl _) ?_ pages.leaf
    rintro _ ⟨⟩
    rw [Entry.frame_set_writable]
    exact h.mapping_held held there
  | @copied v e copy page several replaced =>
    refine held.write (Finset.subset_insert _ _) ?_ replaced.leaf
    rintro _ ⟨⟩
    rw [replaced.frame]
    exact Finset.mem_insert_self _ _

theorem removed {first last : Nat} (held : w.KernelHeld O)
    (pages : w.Rewrites v O (w.pagesBut p first last)) : v.KernelHeld O :=
  held.keeps_frames (fun _ _ none => by cases none) pages.leaf

theorem reprotected {first last : Nat} {prot : Protection} (held : w.KernelHeld O)
    (pages : w.Rewrites v O (w.pagesOver (hits p first ((last - first) / pageSize))
      (Option.map fun e => .of e.frame prot.entryFlags))) : v.KernelHeld O := by
  refine held.keeps_frames ?_ pages.leaf
  intro o e new
  obtain ⟨e', old, rfl⟩ := Option.map_eq_some_iff.1 new
  exact ⟨e', old, (Entry.frame_of_frame e' _).symm⟩

end KernelHeld

/-- Nothing is mapped by the kernel after a boot without tables. -/
theorem Booted.kernelHeld (h : w.Booted 0) (O : Finset Nat) : w.KernelHeld O := by
  intro d t e hd _ page
  obtain ⟨present, -, -⟩ := leaf?_eq_some.1 page
  obtain ⟨k, hk, -⟩ := h.tables.reserved d hd.1 hd.2 present
  omega

/-- Calls map only what callers hold, and take back only what is mapped nowhere. -/
theorem KernelHeld.effect {c : Call} {r : Except ArgumentError Answer} (h : w.Settled O)
    (held : w.KernelHeld O) (permitted : w.Permits O c) (effect : w.Effect O c r v Q) :
    v.KernelHeld Q := by
  have subset := Finset.Subset.refl O
  cases effect with
  | refused => exact held
  | created _ admitted => exact held.of_leaf subset fun d t hd _ => admitted.leaf _ t hd
  | reowned _ record => exact held.of_leaf subset fun d t _ _ => leaf?_owning record _ _ t
  | vacated _ _ gone => exact held.of_leaf subset fun d t hd _ => gone.leaf (.kernel d) t hd
  | switched _ _ switched =>
    exact held.of_leaf subset fun d t hd _ => h.leaf?_switched switched hd t
  | added _ settled pages =>
    refine held.write subset ?_ pages.leaf
    rintro _ ⟨⟩
    rw [h.frame_of permitted.2]
    exact permitted.2
  | removed _ _ pages => exact held.removed pages.toRewrites
  | reprotected _ _ pages => exact held.reprotected pages
  | mapped _ pages =>
    refine held.write subset ?_ pages.leaf
    rintro _ ⟨⟩
    rw [h.frame_of permitted.2]
    exact permitted.2
  | unmapped _ pages only =>
    obtain rfl | rfl := only
    · exact held.of_leaf subset fun d t hd ht => pages.leaf _ t hd ht
    · exact held.write subset (fun _ none => by cases none) pages.leaf
  | minted fresh _ settled pages =>
    refine held.write (Finset.subset_insert _ _) ?_ pages.leaf
    rintro _ ⟨⟩
    rw [settled.frame_of (Finset.mem_insert_self _ _)]
    exact Finset.mem_insert_self _ _
  | dropped _ _ pages =>
    exact (held.removed pages.toRewrites).of_leaf subset fun d t _ _ => leaf?_book (by rfl) _ t
  | forked _ _ _ _ _ forked => exact held.of_leaf subset fun d t hd ht => forked.leaf _ t hd ht
  | faulted resolved => exact held.resolved h permitted resolved
  | stored user resolved page =>
    have settled := resolved.settled h
    have low : dirIndex _ < mountTableSlot := (dirIndex_user user).trans (by decide)
    have owned := settled.pageAt?_owned user page
    exact (held.resolved h low resolved).of_leaf (Finset.Subset.refl _)
      fun d t hd _ => (settled.setPage owned _).2 _ t hd
  | taken _ _ _ pages =>
    exact held.of_leaf (Finset.subset_insert _ _) fun d t hd ht => pages.leaf _ t hd ht
  | returned _ pages =>
    intro d t e hd ht page
    rw [pages.leaf (.kernel d) t hd ht] at page
    exact Finset.mem_erase.2 ⟨permitted.2 (.kernel d) t e hd ht page, held d t e hd ht page⟩

end VirtualMemory.Snapshot
