import VirtualMemory.Proofs.Operations.Ranges

/-!
# The window slots

The kernel reaches its tables through the last slot of the directory and any frame through the slot
below it. Mapping and unmapping at other slots leaves both alone, whatever frame is mapped. But a
page can be mapped at a window slot like at any other. At the last slot this replaces a slot of the
directory. At the slot below it counts an entry of the window's table, which has no record, so that
removing the page again takes the table for empty: it is unbound and goes to the pool, and no frame
can be mounted from then on.
-/
namespace VirtualMemory

open Layout Snapshot

/-- Any frame of memory can be mounted, and is what the window then shows. -/
def KernelState.Mounts (s : KernelState) : Prop :=
  ∀ f, Ram.IsFrame s.snapshot.size f →
    ∃ t, Kernel.mount f Kernel.Window.base s = .ok f t ∧ t.snapshot = s.snapshot

/-- No mount is answered any more. -/
def KernelState.MountsNothing (s : KernelState) : Prop :=
  ∀ (α : Type) (f : Nat) (body : Kernel α) (a : α) (t : KernelState),
    Kernel.mount f body s ≠ .ok a t

namespace Snapshot

variable {w v u : Snapshot} {O : Finset Nat} {role : Nat → Role} {d f t p : Nat}

/-- The two window slots of `v` are those of `w`, and what they lead to is in use. -/
structure Windows (w v : Snapshot) : Prop where
  root : v.root = w.root
  size : v.size = w.size
  slots : ∀ d, mountTableSlot ≤ d → d < tableEntries → v.entry v.root d = w.entry w.root d
  directory : v.root ∉ v.free
  table : mountTable ∉ v.free

theorem Windows.trans (h : w.Windows v) (h' : v.Windows u) : w.Windows u where
  root := h'.root.trans h.root
  size := h'.size.trans h.size
  slots d low hd := (h'.slots d low hd).trans (h.slots d low hd)
  directory := h'.directory
  table := h'.table

theorem Windows.wired (h : w.Windows v) (hw : w.Wired) : v.Wired := by
  refine hw.congr h.root h.size ?_ ?_
  · rw [← h.root, h.slots _ (by decide) (by decide), h.root]
  · rw [← h.root, h.slots _ (by decide) (by decide), h.root]

theorem Stable.root_not_free (h : w.Stable O role) : w.root ∉ w.free := by
  rw [← h.free, (h.resident _).2 rfl]
  simp

theorem Stable.mountTable_not_free (h : w.Stable O role) : mountTable ∉ w.free := by
  rw [← h.free, (h.window _).2 rfl]
  simp

/-- A kernel at rest whose slots were left alone. -/
theorem Stable.windows (h : v.Stable O role) (upheld : w.Upholds v) (size : v.size = w.size) :
    w.Windows v where
  root := upheld.root
  size := size
  slots d low hd := by
    rw [upheld.root]
    exact upheld.window d low hd
  directory := h.root_not_free
  table := h.mountTable_not_free

theorem Settled.windows (h : v.Settled O) (upheld : w.Upholds v) (size : v.size = w.size) :
    w.Windows v := by
  obtain ⟨role, stable⟩ := h.stable
  exact stable.windows upheld size

theorem Windows.switched (h : w.Windows v) (s : v.Switched u p) : w.Windows u where
  root := s.root.trans h.root
  size := s.size.trans h.size
  slots d low hd := by
    rw [s.root, s.kernel _ d (low.trans' (by decide)) hd]
    exact h.slots d low hd
  directory := by
    rw [s.root, s.books]
    exact h.directory
  table := by
    rw [s.books]
    exact h.table

theorem Windows.switchable (h : w.Windows v) (same : v.spaces = w.spaces) (hw : w.Switchable) :
    v.Switchable where
  wired := h.wired hw.wired
  housed := hw.housed.congr h.root h.size fun p => by rw [same]
  active := by
    unfold Live
    rw [same]
    exact hw.active

/-- An entry of a bound table is written, and its slot is not one of the two. -/
theorem Stable.windows_wrote (h : w.Stable O role) (hd : d < mountTableSlot) (away : f ≠ w.root)
    (e x : Entry) (o : Occupancy) :
    w.Windows (((w.setEntry w.root d e).setEntry f t x).book
      { w.toBooks with occupancy := o }) := by
  refine ⟨rfl, rfl, ?_, h.root_not_free, h.mountTable_not_free⟩
  intro i low hi
  refine (entry_setPage_of_ne _ _ _ away.symm i).trans ?_
  rw [entry_setEntry _ _ _ (Sound.slot_lt hd) hi, if_neg]
  rintro ⟨-, rfl⟩
  omega

end Snapshot

namespace Kernel

variable {α : Type} {E : Failure → Books → Prop} {w : Snapshot} {O : Finset Nat}
  {role : Nat → Role} {d f t p va : Nat} {prot : Protection}

theorem mount_of_wired {s : KernelState} (hw : s.snapshot.Wired) : s.Mounts := by
  intro f inside
  have same : Kernel.mount f Window.base = withFrame f Window.base := by
    rw [Kernel.mount, withFrame, if_pos inside.1, if_pos inside.1]
  rw [same]
  exact withFrame_yields hw inside.1 hw rfl (Window.base_yields hw inside) s rfl

/-! ## Frames that nobody has accounted for -/

/-- Whatever is mapped below the window slots, they stay. -/
theorem mapAt_windows (h : w.Stable O role) (hd : d < mountTableSlot) (ht : t < tableEntries)
    (aligned : isAligned f = true) (present : (w.entry w.root d).isPresent = true) :
    Leads E (mapAt f d t prot) w fun _ v => w.Windows v ∧ v.spaces = w.spaces := by
  have table := h.table_here hd present
  refine (mapAt_leads h.wired (Sound.slot_lt hd) ht present (h.isFrame (by simp [table])) aligned
    prot (h.room_of_absent hd present ht)).mono ?_
  rintro _ _ ⟨e, ⟨-, frame⟩, -, rfl⟩
  have away : e.frame ≠ w.root := by
    rw [frame]
    exact h.table_ne_root table
  exact ⟨h.windows_wrote hd away e _ _, by rw [toBooks_book]⟩

theorem map_windows (h : w.Settled O) (hd : d < mountTableSlot) (ht : t < tableEntries)
    (aligned : isAligned f = true) :
    Leads Depleted (map f d t prot) w fun _ v => w.Windows v ∧ v.spaces = w.spaces := by
  obtain ⟨role, stable⟩ := h.stable
  cases slot : (w.entry w.root d).isPresent with
  | true =>
    refine map_of_present stable.wired (Sound.slot_lt hd) ht aligned slot prot ?_
    exact mapAt_windows stable hd ht aligned slot
  | false =>
    refine map_of_absent stable hd ht aligned slot prot .frames ?_
    intro table v added
    refine (mapAt_windows added.stable hd ht aligned added.present).mono ?_
    rintro _ u ⟨windows, spaces⟩
    have bound := added.stable.windows (added.upholds hd slot) added.moved.size
    exact ⟨bound.trans windows, spaces.trans added.moved.spaces⟩

theorem add_windows (h : w.Settled O) (live : w.Live p) (hd : dirIndex va < mountTableSlot)
    (alignedVa : isAligned va = true) (aligned : isAligned f = true) :
    Leads Depleted (add p va f prot) w fun _ v => w.Windows v := by
  obtain ⟨role, stable⟩ := h.stable
  have switchable := stable.toSound.switchable
  obtain ⟨v, there, s⟩ := switch_yields switchable live
  have settled := h.switched live s
  rw [add_eq alignedVa aligned]
  refine there.bind (.bind (.bind ((map_windows settled hd (tableIndex_lt va) aligned).mono ?_)))
  rintro _ u ⟨windows, spaces⟩
  refine (invalidatePage_yields _ _).leads ?_
  have alive : u.Live w.spaces.active := by
    unfold Live
    rw [spaces, s.find?]
    exact switchable.active
  have again := windows.switchable spaces (switchable.switched live s)
  obtain ⟨x, back, s'⟩ := switch_yields again alive
  have first := settled.windows (h.upholds_switched s) s.size
  exact .discard (back.leads ((first.trans windows).switched s'))

/-- An entry of a bound table is no slot. -/
theorem protectPage_windows (h : w.Settled O) (hd : dirIndex va < mountTableSlot) :
    Leads E (protectPage prot va) w fun _ v => w.Windows v := by
  obtain ⟨role, stable⟩ := h.stable
  refine (pageAt_yields stable.toSound hd).bind ?_
  cases leaf : w.leaf? (w.here (dirIndex va)) (tableIndex va) with
  | none => exact .pure (h.windows (.refl w) rfl)
  | some e =>
    obtain ⟨present, table, -, -⟩ := bound_of_leaf? stable.toSound hd leaf
    have inside := stable.isFrame (f := (w.entry w.root (dirIndex va)).frame) (by simp [table])
    have away := stable.table_ne_root table
    refine (setLeaf_yields stable.wired (dirIndex_lt va) rfl present inside (tableIndex_lt va)
      _).bind ?_
    refine (invalidatePage_yields _ _).leads ⟨rfl, rfl, fun i _ _ => ?_, stable.root_not_free,
      stable.mountTable_not_free⟩
    exact entry_setPage_of_ne w _ _ away.symm i

theorem protect_windows {first last : Nat} (h : w.Settled O) (live : w.Live p)
    (firstAligned : isAligned first = true) (lastAligned : isAligned last = true)
    (ordered : first ≤ last) (prot : Protection)
    (low : ∀ i < (last - first) / pageSize, dirIndex (first + i * pageSize) < mountTableSlot) :
    Leads E (protect p first last prot) w fun _ v => w.Windows v := by
  refine (forPages_leads (I := w.Windows) (fun va => dirIndex va < mountTableSlot)
    (f := Option.map fun e => .of e.frame prot.entryFlags) ?_ h live firstAligned lastAligned
    ordered low (h.windows (.refl w) rfl) (fun _ _ _ _ s kept => kept.switched s) ?_).mono
    fun _ _ out => out.2
  · intro x
    cases x <;> simp
  · intro v va hv kept _ hd
    exact ((protectPage_leads hv hd prot).both (F := E) (protectPage_windows hv hd)).mono
      fun _ u both => ⟨both.1, kept.trans both.2⟩

end Kernel

/-! ## Pages in the window slots -/

namespace Snapshot

/-- The window's table has a record, of the one page in its entry `t`. -/
structure Counted (w : Snapshot) (t : Nat) : Prop where
  wired : w.Wired
  page : (w.entry mountTable t).isPresent = true
  record : w.occupancy.get mountTable = 1
  kept : mountTable ∉ w.free

/-- The window's slot is empty, and its table is in the pool. -/
structure Severed (w : Snapshot) : Prop where
  root : Ram.IsFrame w.size w.root
  self_present : (w.entry w.root selfMapSlot).isPresent = true
  self_frame : (w.entry w.root selfMapSlot).frame = w.root
  slot : (w.entry w.root mountTableSlot).isPresent = false
  table : mountTable ∈ w.free

/-- The window's slot has been cleared, and the table put into the pool. -/
theorem Wired.severed {w : Snapshot} (h : w.Wired) {b : Books} (hb : mountTable ∈ b.free) :
    ((w.setEntry w.root mountTableSlot .empty).book b).Severed := by
  have slots {i : Nat} (hi : i < tableEntries) : (w.setEntry w.root mountTableSlot .empty).entry
      w.root i = if i = mountTableSlot then .empty else w.entry w.root i := by
    simp [entry_setEntry w w.root .empty (by decide : mountTableSlot < tableEntries) hi]
  have self := (slots (i := selfMapSlot) (by decide)).trans (if_neg (by decide))
  have cleared := (slots (i := mountTableSlot) (by decide)).trans (if_pos rfl)
  exact ⟨h.isFrame_root, (congrArg Entry.isPresent self).trans h.self_present,
    (congrArg Entry.frame self).trans h.self_frame, congrArg Entry.isPresent cleared, hb⟩

/-- The frames behind the window slots have no record. -/
theorem Stable.window_uncounted {w : Snapshot} {O : Finset Nat} {role : Nat → Role}
    (h : w.Stable O role) {f : Nat} (hf : f = mountTable ∨ f = w.root) :
    w.occupancy.get f = 0 := by
  have special : role f = .window ∨ role f = .resident := hf.imp (h.window f).2 (h.resident f).2
  refine Occupancy.get_of_not_mem (h.not_tracked ?_ fun π => ?_) <;>
    rcases special with eq | eq <;> simp [eq]

end Snapshot

namespace Kernel

variable {α : Type} {E : Failure → Books → Prop} {w : Snapshot} {O : Finset Nat}
  {role : Nat → Role} {d f t va : Nat}

/-- The window's slot takes a page like any other, and its table gets a record. -/
theorem mapMount_leads (h : w.Stable O role) (ht : t < tableEntries)
    (aligned : isAligned f = true) (prot : Protection) :
    Leads E (map f mountTableSlot t prot) w fun _ v => v.Counted t := by
  have table := h.wired.mount_frame
  have none := h.window_uncounted (.inl rfl)
  have away := h.wired.mountTable_ne_root
  have hd : mountTableSlot < tableEntries := by decide
  refine map_of_present h.wired hd ht aligned h.wired.mount_present prot ?_
  refine (mapAt_leads h.wired hd ht h.wired.mount_present h.wired.isFrame_mount aligned prot
    ?_).mono ?_
  · intro _ _
    rw [table, none]
    decide
  rintro _ _ ⟨e, ⟨present, frame⟩, -, rfl⟩
  have wired := h.wired.reslot hd present frame
  rw [table] at frame
  rw [frame]
  have free : ((w.setEntry w.root mountTableSlot e).entry mountTable t).isPresent = false := by
    rw [setEntry, entry_setPage_of_ne _ _ _ away]
    exact h.quiet t ht
  rw [if_neg (by simp [free]), none]
  refine ⟨(wired.setPage away _).book _, ?_, ?_, h.mountTable_not_free⟩
  · rw [entry_book, entry_setEntry _ _ _ ht ht, if_pos ⟨rfl, rfl⟩]
    exact Entry.isPresent_entryFlags f prot
  · simp

/-- Once that page is removed, the table is taken for empty and freed. -/
theorem unmapMount_leads (h : w.Counted (tableIndex va)) (hd : dirIndex va = mountTableSlot)
    (aligned : isAligned va = true) : Leads E (unmap va) w fun _ v => v.Severed := by
  have ht := tableIndex_lt va
  have top : mountTableSlot < tableEntries := by decide
  have away := h.wired.mountTable_ne_root
  obtain ⟨g, slot⟩ : ∃ g, w.entry w.root mountTableSlot = g := ⟨_, rfl⟩
  have present : g.isPresent = true := slot ▸ h.wired.mount_present
  have frame : g.frame = mountTable := slot ▸ h.wired.mount_frame
  have inside : Ram.IsFrame w.size g.frame := frame ▸ h.wired.isFrame_mountTable
  rw [unmap, if_neg (by simp [aligned]), hd]
  refine (slot ▸ slot_yields h.wired top : Yields _ w g w).bind ?_
  refine .ite ?_ fun no => absurd present no
  intro _
  refine (leaf_yields h.wired top slot present inside ht).bind ?_
  refine .ite ?_ fun no => absurd (frame.symm ▸ h.page) no
  intro _
  refine (setLeaf_yields h.wired top slot present inside ht _).bind ?_
  rw [frame]
  refine (discountEntry_yields (w := w.setEntry mountTable _ .empty) ?_).bind ?_
  · change w.occupancy.get mountTable ≠ 0
    rw [h.record]
    decide
  refine .ite ?_ fun no => absurd (congrArg (· - 1) h.record) no
  intro _
  set v := (w.setEntry mountTable (tableIndex va) .empty).book { w.toBooks with
    occupancy := w.occupancy.set mountTable (w.occupancy.get mountTable - 1) }
  have wired : v.Wired := (h.wired.setPage away _).book _
  have bound : v.entry v.root mountTableSlot = g :=
    (entry_setPage_of_ne w _ _ away.symm _).trans slot
  have out : (v.entry v.root mountTableSlot).frame ∉ v.free := by
    rw [bound, frame]
    exact h.kept
  refine (unbindTable_yields wired top (bound.symm ▸ present) out).bind ?_
  refine (invalidatePage_yields _ _).leads (wired.severed ?_)
  rw [bound, frame]
  exact List.mem_cons_self

/-- The walk to the window's table ends at the directory. -/
theorem tableBase_severed {Q : Nat → Snapshot → Prop} (h : w.Severed) :
    Leads (fun _ _ => True) (tableBase mountTableSlot) w Q := by
  rintro s rfl
  have top : mountTableSlot < tableEntries := by decide
  obtain ⟨inside, self_present, self_frame, slot, -⟩ := h
  simp only [KernelState.snapshot, Snapshot.entry] at inside self_present self_frame slot
  have leaf := Machine.loadEntry_eq inside top
  have unmapped : s.machine.access (tableView mountTableSlot) =
      .error (.unmapped (tableView mountTableSlot)) := by
    simp [Machine.access, Machine.walk_eq inside, dirIndex_tableView top,
      tableIndex_tableView top, self_present, self_frame, leaf, slot, bind, Except.bind, pure,
      Except.pure, throw, throwThe, MonadExceptOf.throw]
  simp only [tableBase, access, inspect, unmapped]

theorem mount_severed {s : KernelState} (h : s.snapshot.Severed) : s.MountsNothing := by
  intro α f body a t mounted
  have stops : Leads (fun _ _ => True) (Kernel.mount f body) s.snapshot fun _ _ => False :=
    .ite (fun _ => .bind (.bind (tableBase_severed h))) fun _ _ _ => trivial
  have ends := stops s rfl
  rwa [mounted] at ends

/-- Behind the slot of the self-map, the entries are the directory's own. -/
theorem mapSelf_leads (h : w.Stable O role) (hd : d < tableEntries)
    (aligned : isAligned f = true) (prot : Protection) :
    Leads E (map f selfMapSlot d prot) w fun _ v =>
      v.entry v.root d = .of f prot.entryFlags := by
  have none := h.window_uncounted (.inr rfl)
  have top : selfMapSlot < tableEntries := by decide
  refine map_of_present h.wired top hd aligned h.wired.self_present prot ?_
  refine (mapAt_leads h.wired top hd h.wired.self_present h.wired.isFrame_self aligned prot
    ?_).mono ?_
  · intro _ _
    rw [h.wired.self_frame, none]
    decide
  · rintro _ _ ⟨e, ⟨-, frame⟩, -, rfl⟩
    rw [h.wired.self_frame] at frame
    rw [frame, entry_book]
    exact (entry_setEntry _ _ _ hd hd).trans (if_pos ⟨rfl, rfl⟩)

end Kernel
end VirtualMemory
