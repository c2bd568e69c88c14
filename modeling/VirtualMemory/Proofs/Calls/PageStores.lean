import VirtualMemory.Proofs.Calls.Supervision
import VirtualMemory.Proofs.Calls.Windows
import VirtualMemory.Proofs.Mounts.Shielded

/-!
# What is behind an address

A kernel at rest shows a page or none behind every address, and the two window slots are no
exception: a walk through the last one ends at a table, taken for a page. Where the page is not one
of the two frames that the walk reads, it can be stored in, or given its write right, without
anything else being seen there afterwards. And a fault that gives a page up and then fails has
removed it, but has not touched its frame.
-/
namespace VirtualMemory

open Layout Snapshot Kernel

namespace Snapshot

/-- A walk to `va` ends at the page `e`. -/
structure Shows (w : Snapshot) (va : Nat) (e : Entry) : Prop where
  wired : w.Wired
  bound : (w.entry w.root (dirIndex va)).isPresent = true
  table : Ram.IsFrame w.size (w.entry w.root (dirIndex va)).frame
  leaf : w.entry (w.entry w.root (dirIndex va)).frame (tableIndex va) = e
  present : e.isPresent = true

/-- A walk to `va` ends at no page. -/
structure Lacks (w : Snapshot) (va : Nat) : Prop where
  wired : w.Wired
  absent : (w.entry w.root (dirIndex va)).isPresent = true →
    Ram.IsFrame w.size (w.entry w.root (dirIndex va)).frame ∧
      (w.entry (w.entry w.root (dirIndex va)).frame (tableIndex va)).isPresent = false

/-- A walk to `va` does not read the frame `f`. -/
def OffPath (w : Snapshot) (va f : Nat) : Prop :=
  f ≠ w.root ∧ f ≠ (w.entry w.root (dirIndex va)).frame

/-- The page `e` at `va` is in memory, off its own path, and has both rights of a store. -/
structure Storable (w : Snapshot) (va : Nat) (e : Entry) : Prop extends w.Shows va e where
  inside : Ram.IsFrame w.size e.frame
  off : w.OffPath va e.frame
  writable : e.isWritable = true
  user : e.isUser = true

variable {w v : Snapshot} {O : Finset Nat} {va d f i : Nat} {e : Entry}

/-! Which byte of the page is meant plays no part. -/

theorem Lacks.of_alignDown (h : w.Lacks (alignDown va)) : w.Lacks va := by
  obtain ⟨wired, absent⟩ := h
  simp only [dirIndex_alignDown, tableIndex_alignDown] at absent
  exact ⟨wired, absent⟩

theorem offPath_alignDown : w.OffPath (alignDown va) f ↔ w.OffPath va f := by
  rw [OffPath, OffPath, dirIndex_alignDown]

theorem Storable.of_alignDown (h : w.Storable (alignDown va) e) : w.Storable va e := by
  obtain ⟨⟨wired, bound, table, leaf, present⟩, inside, off, writable, user⟩ := h
  rw [offPath_alignDown] at off
  simp only [dirIndex_alignDown, tableIndex_alignDown] at bound table leaf
  exact ⟨⟨wired, bound, table, leaf, present⟩, inside, off, writable, user⟩

/-- Every slot that is present leads to a frame of memory. -/
theorem Settled.isFrame_slot (h : w.Settled O) (hd : d < tableEntries)
    (present : (w.entry w.root d).isPresent = true) :
    Ram.IsFrame w.size (w.entry w.root d).frame := by
  obtain ⟨role, stable⟩ := h.stable
  obtain low | rfl | rfl := slot_cases hd
  · exact (h.tallied low present).inside
  · exact stable.wired.isFrame_mount
  · exact stable.wired.isFrame_self

theorem Settled.shows (h : w.Settled O) (page : w.pageAt? va = some e) : w.Shows va e := by
  obtain ⟨role, stable⟩ := h.stable
  rw [pageAt?, leaf?_here] at page
  split at page
  · rename_i both
    obtain rfl := Option.some.inj page
    exact ⟨stable.wired, both.1, h.isFrame_slot (dirIndex_lt va) both.1, rfl, both.2⟩
  · cases page

theorem Settled.lacks (h : w.Settled O) (page : w.pageAt? va = none) : w.Lacks va := by
  obtain ⟨role, stable⟩ := h.stable
  rw [pageAt?, leaf?_here] at page
  refine ⟨stable.wired, fun present => ⟨h.isFrame_slot (dirIndex_lt va) present, ?_⟩⟩
  simpa [present] using page

/-- The mount table is empty at rest, so nothing is seen through its slot. -/
theorem Settled.dirIndex_ne_mount (h : w.Settled O) (page : w.pageAt? va = some e) :
    dirIndex va ≠ mountTableSlot := by
  obtain ⟨role, stable⟩ := h.stable
  have shows := h.shows page
  intro mount
  have leaf := shows.leaf
  rw [mount, stable.wired.mount_frame] at leaf
  have quiet := stable.quiet _ (tableIndex_lt va)
  rw [leaf, shows.present] at quiet
  cases quiet

/-- What is written into a frame off the path changes no walk. -/
theorem Shows.setPage (h : w.Shows va e) (off : w.OffPath va f) (p : Page) :
    (w.setPage f p).Shows va e := by
  have slot : (w.setPage f p).entry w.root (dirIndex va) = w.entry w.root (dirIndex va) :=
    entry_setPage_of_ne w f p off.1.symm _
  refine ⟨h.wired.setPage off.1 p, ?_, ?_, ?_, h.present⟩ <;> rw [root_setPage, slot]
  · exact h.bound
  · exact h.table
  · exact (entry_setPage_of_ne w f p off.2.symm _).trans h.leaf

/-- A private copy can be stored in. -/
theorem Copied.storable {copy : Nat} (h : w.Settled O) (hd : dirIndex va < mountTableSlot)
    (replaced : w.Copied v O va e copy) :
    v.Storable va (.of copy Protection.userRWX.entryFlags) := by
  have settled := replaced.settled
  obtain ⟨role, stable⟩ := settled.stable
  have mine := Finset.mem_insert_self copy O
  have shows := settled.shows (h.pageAt?_of hd replaced.spaces replaced.leaf)
  have copied := Entry.frame_aligned (.of copy Protection.userRWX.entryFlags)
  rw [replaced.frame] at copied
  refine ⟨shows, ?_, ⟨?_, ?_⟩, ?_, ?_⟩
  · rw [replaced.frame]
    exact settled.isFrame mine
  · rw [replaced.frame]
    exact stable.ne_root mine
  · rw [replaced.frame]
    exact stable.ne_table mine (stable.table_here hd shows.bound)
  · exact (Entry.isWritable_of copied _).trans rfl
  · exact (Entry.isUser_of copied _).trans rfl

/-! ## The write right -/

/-- An entry may be rewritten for the frame that it leads to, wherever it is. -/
theorem Wired.reentry (h : w.Wired) (f : Nat) (hi : i < tableEntries) (present : e.isPresent = true)
    (frame : e.frame = (w.entry f i).frame) : (w.setEntry f i e).Wired := by
  by_cases root : f = w.root
  · subst root
    exact h.reslot hi present frame
  · exact h.setPage root _

/-- A page off its own path is seen with the write right once it is granted. -/
theorem Shows.granted (h : w.Shows va e) (off : w.OffPath va e.frame) :
    (w.grantedAt va e).Shows va (e.set EntryFlags.writable) ∧
      (w.grantedAt va e).OffPath va e.frame := by
  have hd := dirIndex_lt va
  have hi := tableIndex_lt va
  obtain ⟨s, hs⟩ : ∃ s, w.entry w.root (dirIndex va) = s := ⟨_, rfl⟩
  obtain ⟨wired, bound, table, leaf, present⟩ := h
  obtain ⟨away, away'⟩ := off
  rw [hs] at bound table leaf away'
  have frame : (s.set EntryFlags.writable).frame = s.frame := Entry.frame_set_writable s
  have there : (s.set EntryFlags.writable).isPresent = true := by simp [bound]
  set u := w.setEntry w.root (dirIndex va) (s.set EntryFlags.writable) with hu
  have slot : u.entry w.root (dirIndex va) = s.set EntryFlags.writable :=
    (entry_setEntry _ _ _ hd hd).trans (if_pos ⟨rfl, rfl⟩)
  -- the entry of the page is another word than the slot, whose frame is read on the way
  have apart : ¬ (s.frame = w.root ∧ tableIndex va = dirIndex va) := by
    rintro ⟨top, same⟩
    rw [top, same, hs] at leaf
    exact away' (leaf ▸ rfl)
  have old : u.entry s.frame (tableIndex va) = e :=
    (entry_setEntry _ _ _ hd hi).trans ((if_neg apart).trans leaf)
  have granted : w.grantedAt va e =
      u.setEntry s.frame (tableIndex va) (e.set EntryFlags.writable) := by rw [grantedAt, hs]
  have slot' : (w.grantedAt va e).entry w.root (dirIndex va) = s.set EntryFlags.writable := by
    rw [granted, entry_setEntry _ _ _ hi hd, if_neg fun both => apart ⟨both.1.symm, both.2.symm⟩,
      slot]
  have root : (w.grantedAt va e).root = w.root := by rw [granted, root_setEntry, hu, root_setEntry]
  have wired' : u.Wired := wired.reslot hd there (by rw [frame, hs])
  refine ⟨⟨?_, ?_, ?_, ?_, by simp [present]⟩, ?_⟩
  · rw [granted]
    exact wired'.reentry _ hi (by simp [present]) (by rw [Entry.frame_set_writable, old])
  · rw [root, slot']
    exact there
  · rw [root, slot', frame, granted]
    exact table
  · rw [root, slot', frame, granted, entry_setEntry _ _ _ hi hi, if_pos ⟨rfl, rfl⟩]
  · rw [OffPath, root, slot', frame]
    exact ⟨away, away'⟩

end Snapshot

/-! ## Looking, reading and storing -/

namespace Kernel

variable {s t : KernelState} {O : Finset Nat} {va : Nat} {e : Entry} {value : UInt8}

/-- The kernel finds what is shown, at whichever address. -/
theorem leafAt?_of_settled (h : s.snapshot.Settled O) (va : Nat) :
    leafAt? va s = .ok (s.snapshot.pageAt? va) s := by
  obtain ⟨role, stable⟩ := h.stable
  have found := leafAt?_yields stable.wired rfl (h.isFrame_slot (dirIndex_lt va))
  rw [pageAt?, leaf?_here]
  exact (leafAt?_looks va).run_eq found

theorem pageFault_of_settled (h : s.snapshot.Settled O) (policy : Policy) (code : UInt32) :
    pageFault policy va code s = (s.snapshot.reaction va code).action policy va code s := by
  refine pageFault_of_found ?_ policy code
  rw [leafAt?_of_settled h, pageAt?_alignDown]

theorem lookup_of_lacks (h : s.snapshot.Lacks va) : lookup va s = .ok none s := by
  have self := h.wired.selfMapped
  cases present : (s.snapshot.entry s.snapshot.root (dirIndex va)).isPresent with
  | false => exact lookup_of_absent self present
  | true =>
    obtain ⟨inside, absent⟩ := h.absent present
    rw [lookup_of_inside self rfl present inside rfl, absent]
    rfl

theorem access_of_lacks (h : s.snapshot.Lacks va) :
    s.machine.access va = .error (.unmapped va) := by
  have walked : s.machine.walk va = .ok none := by
    cases present : (s.snapshot.entry s.snapshot.root (dirIndex va)).isPresent with
    | false => exact Machine.walk_of_absent h.wired.isFrame_root present
    | true =>
      obtain ⟨inside, absent⟩ := h.absent present
      rw [Machine.walk_of_inside h.wired.isFrame_root rfl present inside rfl]
      exact congrArg Except.ok (if_neg (Bool.eq_false_iff.1 absent))
  rw [Machine.access, walked]
  rfl

section Shown
variable (h : s.snapshot.Shows va e)
include h

theorem lookup_of_shows : lookup va s = .ok (some (.ofEntry e)) s := by
  rw [lookup_of_inside h.wired.selfMapped rfl h.bound h.table h.leaf, if_pos h.present]

theorem lookup?_of_shows : s.lookup? va = some (some (.ofEntry e)) :=
  KernelState.run'_of_ok (lookup_of_shows h)

/-- The page is in memory if its address can be reached, and then at its own place there. -/
theorem of_access_of_shows {pa : Nat} (reached : s.machine.access va = .ok pa) :
    Ram.IsFrame s.snapshot.size e.frame ∧ pa = e.frame + offset va := by
  obtain ⟨f, maps, rfl⟩ := Machine.maps_of_access h.wired.isFrame_root reached
  obtain rfl : e.frame = f := h.leaf ▸ maps.frame
  exact ⟨maps.inside, rfl⟩

section Inside
variable (inside : Ram.IsFrame s.snapshot.size e.frame)
include inside

theorem access_of_shows : s.machine.access va = .ok (e.frame + offset va) :=
  access_eq h.wired rfl h.bound h.table h.leaf h.present inside rfl

theorem loadVirtual_of_shows :
    s.machine.loadVirtual va = .ok ((s.snapshot.page e.frame).byte (offset va)) := by
  rw [Machine.loadVirtual, access_of_shows h inside]
  exact Machine.loadByte_eq inside (Nat.mod_lt _ (by decide))

/-- A store changes one byte of the page. -/
theorem store_of_shows (value : UInt8) : ∃ t, drive (·.storeVirtual va value) s = .ok () t ∧
    s.machine.storeVirtual va value = .ok t.machine ∧ t.snapshot = s.snapshot.setPage e.frame
      ((s.snapshot.page e.frame).setByte (offset va) value) := by
  obtain ⟨t, run, ht⟩ := storeVirtual_yields h.wired rfl h.bound h.table h.leaf h.present inside
    value s rfl
  refine ⟨t, run, ?_, ht⟩
  unfold drive at run
  split at run
  · cases run
    assumption
  · cases run

/-- What was stored in a page off its own path is seen there. -/
theorem seen_of_stored (off : s.snapshot.OffPath va e.frame)
    (ht : t.snapshot = s.snapshot.setPage e.frame
      ((s.snapshot.page e.frame).setByte (offset va) value)) :
    t.lookup? va = some (some (.ofEntry e)) ∧ t.machine.loadVirtual va = .ok value := by
  have shows : t.snapshot.Shows va e := ht ▸ h.setPage off _
  have near : offset va < pageSize := Nat.mod_lt _ (by decide)
  refine ⟨lookup?_of_shows shows, ?_⟩
  rw [loadVirtual_of_shows shows (ht ▸ inside), ht, page_setPage_self,
    Page.byte_setByte _ _ near near, if_pos rfl]

end Inside

/-- Outside memory nothing is stored. -/
theorem store_of_outside (outside : ¬ Ram.IsFrame s.snapshot.size e.frame) (value : UInt8) :
    ∃ v, drive (·.storeVirtual va value) s = .error (.violation v) s := by
  cases reached : s.machine.access va with
  | ok pa => exact absurd (of_access_of_shows h reached).1 outside
  | error v =>
    have fails : s.machine.storeVirtual va value = .error v := by
      rw [Machine.storeVirtual, reached]
      rfl
    exact ⟨v, by rw [drive, fails]⟩

end Shown

/-! ## Pages that are given up -/

/-- The page `e` is no longer seen at `va`, and its frame holds what it held. -/
structure Removes (s t : KernelState) (va : Nat) (e : Entry) : Prop where
  lacks : t.snapshot.Lacks va
  size : t.snapshot.size = s.snapshot.size
  page : t.snapshot.page e.frame = s.snapshot.page e.frame

theorem Removes.of_machine {u : KernelState} (h : Removes s t va e)
    (same : u.machine = t.machine) : Removes s u va e := by
  have books := snapshot_of_machine same
  refine ⟨⟨?_, ?_⟩, ?_, ?_⟩ <;> rw [books]
  · exact h.lacks.wired.book _
  · exact h.lacks.absent
  · exact h.size
  · exact h.page

theorem Removes.of_alignDown (h : Removes s t (alignDown va) e) : Removes s t va e :=
  ⟨h.lacks.of_alignDown, h.size, h.page⟩

/-- A frame from the pool, and either way the machine is as it was. -/
theorem freshFrame_ends (h : s.snapshot.Settled O) :
    Ends (fun t => t.machine = s.machine) Policy.freshFrame s fun g t =>
      t.machine = s.machine ∧ t.snapshot.Settled (insert g O) := by
  refine .bind (.acquireRaw rfl fun g rest first => .bind ?_)
  obtain ⟨handed, -, inside, hm, -, -⟩ := h.hand first
  set u : KernelState := { s with pool := ⟨rest⟩ }
  have handed' : u.snapshot.Settled (insert g O) := handed
  have counts := (shareFrame_counts g u).weaken fun _ kept => kept.machine
  have shares : Leads (fun _ _ => True) (shareFrame g) u.snapshot fun _ v =>
      v.Settled (insert g O) :=
    shareFrame_leads (fun _ => trivial) (handed'.setShare inside hm _)
  exact (counts.both (.of_leads_unless shares)).mono fun _ t both => .pure ⟨both.1.machine, both.2⟩

/-- Mapping where there is neither a table nor a frame for one leaves the machine alone. -/
theorem map_starved {f d i : Nat} (hw : s.snapshot.Wired) (hd : d < tableEntries)
    (hi : i < tableEntries) (aligned : isAligned f = true)
    (absent : (s.snapshot.entry s.snapshot.root d).isPresent = false)
    (empty : s.snapshot.free = []) (prot : Protection) :
    Ends (fun t => t.machine = s.machine) (map f d i prot) s fun _ _ => False := by
  rw [map_eq hd hi aligned]
  refine .bind (.slot hw hd (.ite (fun _ => ?_) fun there => by simp [absent] at there))
  refine .bind (.bind (.acquireRaw rfl fun g rest first => ?_))
  rw [empty] at first
  cases first

/-- A copy that cannot be put in place for want of a frame leaves the machine alone. -/
theorem installCopy_keeps {f copy : Nat} (h : s.snapshot.Settled O) (off : offset va = 0)
    (hd : dirIndex va < mountTableSlot) (mine : copy ∈ O) (inside : Ram.IsFrame s.snapshot.size f)
    (hm : f ≠ mountTable) : Ends (fun t => t.machine = s.machine) (installCopy va f copy) s
      fun _ _ => True := by
  have installed := installCopy_leads h off hd mine inside hm s rfl
  obtain ⟨role, stable⟩ := h.stable
  cases run : installCopy va f copy s with
  | ok a t => exact .of_ok run trivial
  | error x t =>
    rw [run] at installed
    obtain ⟨-, -, empty, absent⟩ := installed
    have starved := map_starved stable.wired (dirIndex_lt va) (tableIndex_lt va)
      (h.isFrame mine).1 absent empty .userRWX
    exact .bind (.attempt (starved.mono fun _ _ => False.elim) fun _ _ kept => .bind (.halt kept))

/-- Where a page is given up for a copy it is replaced, or it is removed and nothing is changed in
its frame. -/
theorem copyPage_replaces (h : s.snapshot.Settled O) (aligned : isAligned va = true)
    (hd : dirIndex va < mountTableSlot) (several : 2 ≤ s.snapshot.shares.get e.frame)
    (off : s.snapshot.OffPath va e.frame) :
    Ends (fun t => Removes s t va e) (copyPage .recording va e.frame) s fun _ t =>
      ∃ copy, s.snapshot.Copied t.snapshot O va e copy := by
  obtain ⟨inside, hm⟩ := h.shared e.frame (by omega)
  have start : offset va = 0 := by rw [← alignDown_eq_self aligned, offset_alignDown]
  have counted := h.setShare inside hm (s.snapshot.shares.get e.frame - 1)
  obtain ⟨v, unmaps, clears⟩ := unmap_clears counted.charted hd (counted.tallied hd) aligned
  have unmapped := unmaps.also (E := fun _ _ => False) (unmap_leads counted aligned hd)
  have replaced := Ends.of_leads_unless (copyPage_leads h aligned start hd several)
  refine (Ends.both (Q := fun _ _ => True) ?_ replaced).mono fun _ _ both => both.2
  rw [copyPage_eq]
  refine .bind ((Ends.of_yields (unshareFrame_yields (by omega))).mono ?_)
  rintro _ a ⟨-, ha⟩
  refine .bind ((Ends.of_leads (ha ▸ unmapped)).mono ?_)
  rintro _ u ⟨⟨settled, removed⟩, hu⟩
  have gone : u.snapshot.pageAt? va = none :=
    (ha ▸ counted : a.snapshot.Settled O).pageAt?_of hd removed.spaces removed.leaf
  have removes : Removes s u va e := by
    refine ⟨settled.lacks gone, ?_, ?_⟩ <;> rw [hu]
    · exact clears.size
    · exact clears.pages _ off.1 off.2
  refine .bind (((freshFrame_ends settled).weaken fun _ => removes.of_machine).mono ?_)
  rintro copy x ⟨same, rest⟩
  have size : x.snapshot.size = u.snapshot.size :=
    congrArg (fun m : Machine => m.ram.frames.size) same
  refine (installCopy_keeps rest start hd (Finset.mem_insert_self copy O) ?_ hm).weaken
    fun _ same' => removes.of_machine (same'.trans same)
  rw [size, removes.size]
  exact inside

/-- What has no record cannot be counted down. -/
theorem discountEntry_halts {F : KernelState → Prop} {Q : Nat → KernelState → Prop} {f : Nat}
    (none : s.occupancy.get f = 0)
    (halted : F { s with events := .fatal (.tableUnderflow f) :: s.events }) :
    Ends F (discountEntry f) s Q := by
  refine .get ?_
  rw [show s.occupancy.decrement f = .error (.tableUnderflow f) from if_pos none]
  exact .halt halted

/-- A slot of the directory that is cleared takes its table out of the self-map's view, and nothing
else with it. -/
theorem removes_of_cleared {t : KernelState} (shows : s.snapshot.Shows va e)
    (self : dirIndex va = selfMapSlot) (low : tableIndex va < mountTableSlot)
    (away : e.frame ≠ s.snapshot.root)
    (ht : t.snapshot = s.snapshot.setEntry s.snapshot.root (tableIndex va) .empty) :
    Removes s t va e := by
  have wired := shows.wired
  have hi := tableIndex_lt va
  have root : t.snapshot.root = s.snapshot.root := ht ▸ rfl
  have slot : t.snapshot.entry s.snapshot.root (dirIndex va) =
      s.snapshot.entry s.snapshot.root (dirIndex va) := by
    rw [ht, entry_setEntry _ _ _ hi (dirIndex_lt va), if_neg fun same => ?_]
    rw [self] at same
    exact (low.trans (by decide)).ne' same.2
  have frame : (t.snapshot.entry t.snapshot.root (dirIndex va)).frame = s.snapshot.root := by
    rw [root, slot, self, wired.self_frame]
  refine ⟨⟨ht ▸ wired.setSlot low _, fun _ => ?_⟩, ht ▸ rfl, ?_⟩
  · rw [frame]
    refine ⟨ht ▸ wired.isFrame_root, ?_⟩
    rw [ht, entry_setEntry _ _ _ hi hi, if_pos ⟨rfl, rfl⟩]
    rfl
  · rw [ht, page_setEntry, if_neg away]

/-- The directory has no record, so that unmapping one of the tables that the self-map shows stops
the kernel, with its slot cleared. -/
theorem unmap_self (h : s.snapshot.Settled O) (aligned : isAligned va = true)
    (self : dirIndex va = selfMapSlot) (shows : s.snapshot.Shows va e)
    (away : e.frame ≠ s.snapshot.root) (low : tableIndex va < mountTableSlot) :
    Ends (fun t => Removes s t va e) (unmap va) s fun _ _ => False := by
  obtain ⟨role, stable⟩ := h.stable
  have wired := stable.wired
  have hd := dirIndex_lt va
  have hi := tableIndex_lt va
  have frame : (s.snapshot.entry s.snapshot.root (dirIndex va)).frame = s.snapshot.root := by
    rw [self, wired.self_frame]
  have read := (leaf_looks _ _).run_eq (leaf_yields wired hd rfl shows.bound shows.table hi)
  have written := setLeaf_yields wired hd rfl shows.bound shows.table hi .empty
  rw [frame] at written
  refine .ite (fun no => by simp [aligned] at no) fun _ => .bind (.slot wired hd ?_)
  refine .ite (fun _ => .bind (.of_ok read ?_)) fun no => absurd shows.bound no
  refine .ite (fun _ => .bind ?_) fun no => absurd (shows.leaf ▸ shows.present) no
  refine (Ends.of_yields written).mono fun _ u hu => .bind ?_
  have removes := removes_of_cleared shows self low away hu.2
  have uncounted : u.occupancy.get s.snapshot.root = 0 := by
    change u.snapshot.occupancy.get s.snapshot.root = 0
    rw [hu.2]
    exact stable.window_uncounted (.inr rfl)
  rw [frame]
  exact .bind (discountEntry_halts uncounted (removes.of_machine rfl))

/-- Such a table cannot be given up for a copy. -/
theorem copyPage_self (h : s.snapshot.Settled O) (aligned : isAligned va = true)
    (self : dirIndex va = selfMapSlot) (shows : s.snapshot.Shows va e)
    (off : s.snapshot.OffPath va e.frame) (several : 2 ≤ s.snapshot.shares.get e.frame) :
    Ends (fun t => Removes s t va e) (copyPage .recording va e.frame) s fun _ _ => False := by
  obtain ⟨inside, hm⟩ := h.shared e.frame (by omega)
  have leaf := shows.leaf
  rw [self, shows.wired.self_frame] at leaf
  -- the window's table is never shared, and the directory is on the path
  have low : tableIndex va < mountTableSlot := by
    obtain low | mount | top := slot_cases (tableIndex_lt va)
    · exact low
    · rw [mount] at leaf
      exact absurd (leaf ▸ shows.wired.mount_frame) hm
    · rw [top] at leaf
      exact absurd (leaf ▸ shows.wired.self_frame) off.1
  rw [copyPage_eq]
  refine .bind ((Ends.of_yields (unshareFrame_yields (by omega))).mono ?_)
  rintro _ a ⟨-, ha⟩
  have settled := ha ▸ h.setShare inside hm (s.snapshot.shares.get e.frame - 1)
  have shows' : a.snapshot.Shows va e :=
    ha ▸ ⟨shows.wired.book _, shows.bound, shows.table, shows.leaf, shows.present⟩
  have unmapped := unmap_self settled aligned self shows' (ha ▸ off.1) low
  refine .bind ((unmapped.weaken fun t gone => ⟨gone.lacks, ?_, ?_⟩).mono fun _ _ => False.elim)
  · rw [gone.size, ha]
    rfl
  · rw [gone.page, ha]
    rfl

/-- A page that is counted twice or more is replaced by a copy that can be stored in, or it is
removed and nothing is changed in its frame. -/
theorem copyPage_ends (h : s.snapshot.Settled O) (aligned : isAligned va = true)
    (page : s.snapshot.pageAt? va = some e) (off : s.snapshot.OffPath va e.frame)
    (several : 2 ≤ s.snapshot.shares.get e.frame) :
    Ends (fun t => Removes s t va e) (copyPage .recording va e.frame) s fun _ t =>
      ∃ e', t.snapshot.Storable va e' := by
  obtain low | mount | self := slot_cases (dirIndex_lt va)
  · refine (copyPage_replaces h aligned low several off).mono ?_
    rintro _ t ⟨copy, replaced⟩
    exact ⟨_, Copied.storable h low replaced⟩
  · exact absurd mount (h.dirIndex_ne_mount page)
  · exact (copyPage_self h aligned self (h.shows page) off several).mono fun _ _ => False.elim

end Kernel
end VirtualMemory
