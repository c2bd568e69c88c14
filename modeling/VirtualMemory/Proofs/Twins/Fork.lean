import VirtualMemory.Proofs.Twins.Spaces

/-!
# Two runs of a fork

The tables that a fork reads are bound in the parent's stored half, and the tables that it writes
are cleared before they are bound. No frame that was free has a part in it.
-/
namespace VirtualMemory

open Layout

namespace Snapshot

variable {w v u : Snapshot} {role : Nat → Role} {p d : Nat} {r : SpaceRecord}

/-- A table of a space that is not resident stays its table. -/
theorem Edits.source (edits : w.Edits u) (placed : u.Placed role)
    (hr : w.spaces.find? p = some r) (other : p ≠ w.spaces.active) (hd : d < userSlots)
    (present : (w.entry r.directory d).isPresent = true) :
    role (w.entry r.directory d).frame = .table (.user p d) := by
  have same := edits.stored p r d hr hd
  have hr' : u.spaces.find? p = some r := by
    rw [edits.spaces]
    exact hr
  have home : u.home p = r.directory := home_of_ne (by rwa [edits.spaces]) hr'
  have slot : u.slotAt (.user p d) = u.entry r.directory d := by rw [slotAt, home]
  have table := placed.lodged.table_slotAt (π := .user p d)
    ⟨Option.isSome_iff_exists.2 ⟨r, hr'⟩, hd⟩ (by rw [slot, same.present]; exact present)
  rwa [slot, same.frame (same.present ▸ present)] at table

end Snapshot

open Snapshot

namespace Kernel

variable {w v : Snapshot} {role : Nat → Role} {f d t p table parent child : Nat} {r : SpaceRecord}

theorem shareLeaf_twins {u u' : Snapshot} (h : w.Copying u d) (paired : u.Paired u' ∅)
    (placed : u.Placed role) {π : Place} (source : role f = .table π) (hd : d < mountTableSlot)
    (ht : t < tableEntries) (present : (w.entry w.root d).isPresent = true) :
    Twins (shareLeaf table d t) (u.mount f) (u'.mount f) fun _ x x' => ∃ y y',
      x = y.mount f ∧ x' = y'.mount f ∧ w.Copying y d ∧ y.Paired y' ∅ := by
  have inside := placed.lodged.isFrame (f := f) (by simp [source])
  have hm := placed.lodged.ne_mount (f := f) (by simp [source])
  have hr := placed.lodged.ne_root (f := f) (by simp [source])
  have inside' : Ram.IsFrame u'.size f := paired.alike.size ▸ inside
  have page := paired.page placed (f := f) (by simp [source]) (Finset.notMem_empty f)
  have right := windowEntry_yields paired.wired' inside' hm ht
  rw [entry, page, ← entry] at right
  refine .step (windowEntry_yields paired.wired inside hm ht) right (.ite (fun _ => ?_) fun _ =>
    .pure ⟨u, u', rfl, rfl, h, paired⟩)
  set e := (u.entry f t).clear EntryFlags.writable with he
  refine .step (windowSetEntry_yields paired.wired inside hm ht e)
    (windowSetEntry_yields paired.wired' inside' hm ht e) ?_
  have narrowed := h.narrow ht hm hr
  have paired₁ := paired.setLeaf placed source t e
  obtain ⟨bound, table_inside, table_mount⟩ := narrowed.table hd present
  rw [← he] at narrowed bound table_inside table_mount
  have slot := paired₁.slot d
  refine .step (mountedSetLeaf_yields paired₁.wired (Sound.slot_lt hd) rfl bound table_inside
    table_mount ht e) (mountedSetLeaf_yields paired₁.wired' (Sound.slot_lt hd) slot bound
    (paired₁.alike.size ▸ table_inside) table_mount ht e) ?_
  obtain ⟨role₁, placed₁⟩ := paired₁.placed
  have written := narrowed.setLeaf hd present t e
  have paired₂ := paired₁.setLeaf placed₁ (placed₁.lodged.table_here hd bound) t e
  refine .bind (countEntry_twins (by exact paired₂.alike.books) _ fun o => ?_)
  refine .bind (shareFrame_twins (by rfl) _ (.pure ?_))
  have counted := written.rebook (b := { u.toBooks with
    occupancy := o
    shares := u.shares.set e.frame (u.shares.get e.frame + 1) }) rfl rfl
  exact ⟨_, _, rfl, rfl, counted, paired₂.rebook rfl rfl⟩

/-- A table of a stored half is shared on both sides. -/
theorem shareTable_twins (h : w.Paired v ∅) (hr : w.spaces.find? p = some r)
    (other : p ≠ w.spaces.active) (hd : d < userSlots) :
    Twins (shareTable r.directory d) w v fun _ w' v' => w.Edits w' ∧ w'.Paired v' ∅ := by
  obtain ⟨role, placed⟩ := h.placed
  have housed := placed.lodged.housed
  have hd' : d < mountTableSlot := hd.trans_le (by decide)
  have right := entryOf_yields h.wired' (h.alike.size ▸ housed.isFrame _ _ hr)
    (housed.ne_mount _ _ hr) (Sound.slot_lt hd')
  rw [entry, h.page_directory hr, ← entry] at right
  refine .step (entryOf_yields h.wired (housed.isFrame _ _ hr) (housed.ne_mount _ _ hr)
    (Sound.slot_lt hd')) right (.ite (fun present => ?_) fun _ => .pure ⟨.refl placed, h⟩)
  refine newTable_twins h hd' fun table x x' paired bound slot => ?_
  have source (y : Snapshot) (role : Nat → Role) (edits : x.Edits y) (placed : y.Placed role) :=
    (bound.trans edits).source placed hr other hd present
  obtain ⟨role₁, placed₁⟩ := paired.placed
  have there : (x.entry x.root d).isPresent = true := by
    rw [bound.root, slot]
    exact Entry.isPresent_entryFlags table _
  have aligned := (placed₁.lodged.isFrame (f := (w.entry r.directory d).frame)
    (by simp [source x role₁ (.refl placed₁) placed₁])).1
  have window := congrArg (Page.entry · mountEntry) (paired.page placed₁ (f := mountTable)
    (by simp [(placed₁.lodged.window mountTable).2 rfl]) (Finset.notMem_empty _))
  refine withFrame_twins paired.wired paired.wired' aligned window (Twins.mono (Twins.sumEach
    (fun _ y y' => ∃ u u', y = u.mount (w.entry r.directory d).frame ∧
      y' = u'.mount (w.entry r.directory d).frame ∧ x.Copying u d ∧ u.Paired u' ∅)
    ⟨x, x', rfl, rfl, .refl placed₁ d, paired⟩ ?_) ?_)
  · rintro t _ _ ht ⟨u, u', rfl, rfl, copying, paired⟩
    rw [Nat.zero_add]
    obtain ⟨role₂, placed₂⟩ := paired.placed
    exact shareLeaf_twins copying paired placed₂ (source u role₂ copying.edits placed₂) hd' ht there
  · rintro _ _ _ ⟨u, u', rfl, rfl, copying, paired'⟩
    obtain ⟨role₂, placed₂⟩ := paired'.placed
    have same : u.entry mountTable mountEntry = x.entry mountTable mountEntry :=
      congrArg (Page.entry · mountEntry) copying.window
    have same' := congrArg (Page.entry · mountEntry) (paired'.page placed₂ (f := mountTable)
      (by simp [(placed₂.lodged.window mountTable).2 rfl]) (Finset.notMem_empty _))
    exact ⟨u, u', rfl, rfl, ⟨paired'.wired, same⟩, ⟨paired'.wired', same'.trans same⟩,
      bound.trans copying.edits, paired'⟩

/-- A fork of one space into another. -/
theorem fork_twins (h : w.Paired v ∅) (live : w.Live parent) (live' : w.Live child)
    (ne : parent ≠ child) : Twins (fork parent child) w v fun _ w' v' => w'.Alike v' ∅ := by
  obtain ⟨r, hr⟩ := Option.isSome_iff_exists.1 live
  obtain ⟨c, hc⟩ := Option.isSome_iff_exists.1 live'
  refine .step (space_yields hr) (space_yields (h.alike.spaces ▸ hr)) ?_
  refine .bind (.discard (.of_yields (space_yields hc) (space_yields (h.alike.spaces ▸ hc)) ?_))
  refine .bind (.discard ((switch_twins h live').mono ?_))
  rintro _ x x' ⟨-, paired, spaces⟩
  obtain ⟨role, placed⟩ := paired.placed
  have find : x.spaces.find? parent = some r := by
    rw [spaces]
    exact hr
  have away : parent ≠ x.spaces.active := by
    rw [spaces]
    exact ne
  refine .bind (Twins.mono (Twins.sumEach (fun _ y y' => x.Edits y ∧ y.Paired y' ∅)
    ⟨.refl placed, paired⟩ ?_) ?_)
  · rintro d y y' hd ⟨edits, paired⟩
    rw [Nat.zero_add]
    refine (shareTable_twins paired (edits.spaces ▸ find) (edits.spaces ▸ away) hd).mono ?_
    exact fun _ z z' ⟨moved, ends⟩ => ⟨edits.trans moved, ends⟩
  · rintro _ y y' ⟨edits, paired⟩
    have alive : y.Live parent := by
      rw [Live, edits.spaces, find]
      rfl
    refine .step (flush_yields _) (flush_yields _) (.bind (.discard
      ((switch_twins paired alive).mono ?_)))
    rintro _ z z' ⟨-, ends, -⟩
    exact .of_yields (note_yields _ _) (note_yields _ _) ends.alike

end Kernel
end VirtualMemory
