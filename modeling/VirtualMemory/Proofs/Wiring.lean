import VirtualMemory.Kernel.Sharing
import VirtualMemory.Kernel.Tables
import VirtualMemory.Proofs.Snapshot

/-!
# The self-map and the mount window

While the last directory slot maps the directory itself and the slot below it binds the mount
table, the resident directory, the tables bound in it and any mounted frame can be read and
written through their fixed addresses. Mounting leaves nothing behind: the window's entry gets
its old word back, so an action inside a mount does to memory what it would do to the frame.
-/
namespace VirtualMemory

open Layout

theorem Layout.offset_tableView (d : Nat) : offset (tableView d) = 0 := by
  simp only [offset, tableView, tablesView, pageSize]
  omega

namespace Snapshot

/-- The frame of the mount table. -/
def mountTable : Nat := Ram.frameAddress 1

/-- The directory is the first frame, its two window slots are in place, and every frame has an
address that fits an entry. -/
structure Wired (w : Snapshot) : Prop where
  root : w.root = Ram.base
  room : 2 ≤ w.size
  addressable : Ram.Addressable w.size
  self_present : (w.entry w.root selfMapSlot).isPresent = true
  self_frame : (w.entry w.root selfMapSlot).frame = w.root
  mount_present : (w.entry w.root mountTableSlot).isPresent = true
  mount_frame : (w.entry w.root mountTableSlot).frame = mountTable

namespace Wired

variable {w v : Snapshot}

theorem congr (h : w.Wired) (root : v.root = w.root) (size : v.size = w.size)
    (self : v.entry w.root selfMapSlot = w.entry w.root selfMapSlot)
    (mount : v.entry w.root mountTableSlot = w.entry w.root mountTableSlot) : v.Wired where
  root := root.trans h.root
  room := size ▸ h.room
  addressable := size ▸ h.addressable
  self_present := by rw [root, self]; exact h.self_present
  self_frame := by rw [root, self]; exact h.self_frame
  mount_present := by rw [root, mount]; exact h.mount_present
  mount_frame := by rw [root, mount]; exact h.mount_frame

theorem book (h : w.Wired) (b : Books) : (w.book b).Wired := h.congr rfl rfl rfl rfl

theorem setPage (h : w.Wired) {f : Nat} (hf : f ≠ w.root) (p : Page) : (w.setPage f p).Wired :=
  h.congr rfl rfl (entry_setPage_of_ne w f p (Ne.symm hf) _)
    (entry_setPage_of_ne w f p (Ne.symm hf) _)

theorem setSlot (h : w.Wired) {d : Nat} (hd : d < mountTableSlot) (e : Entry) :
    (w.setEntry w.root d e).Wired := by
  simp only [mountTableSlot] at hd
  have apart {j : Nat} (hj : j < tableEntries) (hne : j ≠ d) :
      (w.setEntry w.root d e).entry w.root j = w.entry w.root j := by
    rw [entry_setEntry _ _ _ (by simp only [tableEntries]; omega) hj, if_neg (by simp [hne])]
  exact h.congr rfl rfl (apart (by decide) (by simp only [selfMapSlot]; omega))
    (apart (by decide) (by simp only [mountTableSlot]; omega))

/-- Any slot may be rewritten for the frame that it leads to. -/
theorem reslot (h : w.Wired) {d : Nat} (hd : d < tableEntries) {e : Entry}
    (present : e.isPresent = true) (frame : e.frame = (w.entry w.root d).frame) :
    (w.setEntry w.root d e).Wired := by
  have slot {j : Nat} (hj : j < tableEntries) : (w.setEntry w.root d e).entry w.root j =
      if j = d then e else w.entry w.root j := by
    simp [entry_setEntry w w.root e hd hj]
  refine ⟨h.root, h.room, h.addressable, ?_, ?_, ?_, ?_⟩ <;> rw [root_setEntry, slot (by decide)]
  · split
    · exact present
    · exact h.self_present
  · split
    · subst d
      exact frame.trans h.self_frame
    · exact h.self_frame
  · split
    · exact present
    · exact h.mount_present
  · split
    · subst d
      exact frame.trans h.mount_frame
    · exact h.mount_frame

theorem isFrame_root (h : w.Wired) : Ram.IsFrame w.size w.root := by
  have := h.room
  rw [h.root]
  refine ⟨rfl, Nat.le_refl _, ?_⟩
  simp only [Ram.frameAddress, pageSize]
  omega

theorem isFrame_mountTable (h : w.Wired) : Ram.IsFrame w.size mountTable :=
  Ram.isFrame_frameAddress.2 (by have := h.room; omega)

theorem mountTable_ne_root (h : w.Wired) : mountTable ≠ w.root := by
  rw [h.root]
  decide

theorem isFrame_self (h : w.Wired) :
    Ram.IsFrame w.size (w.entry w.root selfMapSlot).frame := by
  rw [h.self_frame]
  exact h.isFrame_root

theorem isFrame_mount (h : w.Wired) :
    Ram.IsFrame w.size (w.entry w.root mountTableSlot).frame := by
  rw [h.mount_frame]
  exact h.isFrame_mountTable

theorem lt_limit (h : w.Wired) {f : Nat} (hf : Ram.IsFrame w.size f) : f < 0x100000000 :=
  hf.2.2.trans_le h.addressable

theorem frame_of (h : w.Wired) {f : Nat} (hf : Ram.IsFrame w.size f) {g : EntryFlags}
    (hg : g.Low) : (Entry.of f g).frame = f :=
  Entry.frame_of hf.1 (h.lt_limit hf) hg

end Wired

/-- The snapshot while the window shows `f`. -/
def mount (w : Snapshot) (f : Nat) : Snapshot :=
  w.setEntry mountTable mountEntry (.of f EntryFlags.kernelData)

theorem page_mount (w : Snapshot) (f : Nat) {g : Nat} (hg : g ≠ mountTable) :
    (w.mount f).page g = w.page g := by
  rw [mount, page_setEntry, if_neg hg]

theorem setPage_mount (w : Snapshot) (f : Nat) {g : Nat} (hg : g ≠ mountTable) (p : Page) :
    (w.mount f).setPage g p = (w.setPage g p).mount f := by
  rw [mount, mount, setEntry, setEntry, page_setPage, if_neg hg.symm, setPage_comm _ _ _ hg.symm]

theorem setEntry_mount (w : Snapshot) (f : Nat) {g : Nat} (hg : g ≠ mountTable) (i : Nat)
    (e : Entry) : (w.mount f).setEntry g i e = (w.setEntry g i e).mount f := by
  rw [setEntry, page_mount w f hg, setPage_mount w f hg, setEntry]

theorem Wired.mount {w : Snapshot} (h : w.Wired) (f : Nat) : (w.mount f).Wired :=
  h.setPage h.mountTable_ne_root _

theorem unmount (w : Snapshot) (f : Nat) :
    (w.mount f).setEntry mountTable mountEntry (w.entry mountTable mountEntry) = w := by
  rw [Snapshot.mount, setEntry_setEntry _ _ (by decide), setEntry_entry _ _ (by decide)]

end Snapshot

open Snapshot

namespace Kernel

variable {α : Type} {E : Failure → Books → Prop} {w : Snapshot} {d t f i : Nat}

section Walk
variable {va : Nat} {slot leaf : Entry} (hw : w.Wired)
  (hs : w.entry w.root (dirIndex va) = slot) (present : slot.isPresent = true)
  (inside : Ram.IsFrame w.size slot.frame) (hl : w.entry slot.frame (tableIndex va) = leaf)
  (mapped : leaf.isPresent = true) (target : Ram.IsFrame w.size leaf.frame)
include hw hs present inside hl mapped target

/-- Both steps of the walk find a present entry, so the address can be reached. -/
theorem access_eq {s : KernelState} (h : s.snapshot = w) :
    s.machine.access va = .ok (leaf.frame + offset va) := by
  subst h hs hl
  have top := hw.isFrame_root
  have near : offset va < pageSize := Nat.mod_lt _ (by decide)
  simp only [KernelState.snapshot, Snapshot.entry] at *
  have leaf := Machine.loadEntry_eq inside (tableIndex_lt va)
  simp [Machine.access, Machine.walk_eq top, present, leaf, mapped,
    Machine.checkRam_add target near, bind, Except.bind, pure, Except.pure]

theorem access_yields : Yields (access va) w (leaf.frame + offset va) w :=
  inspect_yields fun _ h => access_eq hw hs present inside hl mapped target h

theorem storeVirtual_yields (b : UInt8) :
    Yields (drive (·.storeVirtual va b)) w ()
      (w.setPage leaf.frame ((w.page leaf.frame).setByte (offset va) b)) := by
  apply drive_yields
  intro s h
  have reached := access_eq hw hs present inside hl mapped target h
  have near : offset va < pageSize := Nat.mod_lt _ (by decide)
  subst h
  have stored := Machine.storeByte_eq target near b
  refine ⟨_, by rw [Machine.storeVirtual, reached]; exact stored, ?_⟩
  simp only [KernelState.snapshot, Snapshot.setPage, Ram.size_modifyPage,
    Ram.pageAt_modifyPage target near]

end Walk

theorem tableBase_yields (hw : w.Wired) (hd : d < tableEntries) {e : Entry}
    (he : w.entry w.root d = e) (present : e.isPresent = true)
    (inside : Ram.IsFrame w.size e.frame) : Yields (tableBase d) w e.frame w := by
  have entry : w.entry (w.entry w.root selfMapSlot).frame (tableIndex (tableView d)) = e := by
    rw [hw.self_frame, tableIndex_tableView hd, he]
  have walk : Yields (access (tableView d)) w (e.frame + offset (tableView d)) w :=
    access_yields hw (dirIndex_tableView hd ▸ rfl) hw.self_present hw.isFrame_self entry present
      inside
  rwa [offset_tableView, Nat.add_zero] at walk

theorem directoryBase_yields (hw : w.Wired) : Yields directoryBase w w.root w := by
  have walk := tableBase_yields hw (d := selfMapSlot) (by decide) rfl hw.self_present
    hw.isFrame_self
  rwa [hw.self_frame] at walk

theorem checkSlot_yields (hd : d < tableEntries) (w : Snapshot) : Yields (checkSlot d) w () w := by
  rw [checkSlot, if_pos hd]
  exact .pure _ _

theorem checkLeaf_yields (ht : t < tableEntries) (w : Snapshot) : Yields (checkLeaf t) w () w := by
  rw [checkLeaf, if_pos ht]
  exact .pure _ _

theorem slot_yields (hw : w.Wired) (hd : d < tableEntries) :
    Yields (slot d) w (w.entry w.root d) w :=
  (checkSlot_yields hd w).trans ((directoryBase_yields hw).trans
    (loadEntry_yields hw.isFrame_root hd))

theorem setSlot_yields (hw : w.Wired) (hd : d < tableEntries) (e : Entry) :
    Yields (setSlot d e) w () (w.setEntry w.root d e) :=
  (checkSlot_yields hd w).trans ((directoryBase_yields hw).trans
    (storeEntry_yields hw.isFrame_root hd e))

section Bound
variable {g : Entry} (hw : w.Wired) (hd : d < tableEntries) (hg : w.entry w.root d = g)
  (present : g.isPresent = true) (inside : Ram.IsFrame w.size g.frame)
include hw hd hg present inside

theorem leaf_yields (ht : t < tableEntries) : Yields (leaf d t) w (w.entry g.frame t) w :=
  (checkLeaf_yields ht w).trans ((tableBase_yields hw hd hg present inside).trans
    (loadEntry_yields inside ht))

theorem setLeaf_yields (ht : t < tableEntries) (e : Entry) :
    Yields (setLeaf d t e) w () (w.setEntry g.frame t e) :=
  (checkLeaf_yields ht w).trans ((tableBase_yields hw hd hg present inside).trans
    (storeEntry_yields inside ht e))

theorem table_yields : Yields (table d) w (w.page g.frame) w :=
  (checkSlot_yields hd w).trans ((tableBase_yields hw hd hg present inside).trans
    (loadPage_yields inside))

end Bound

/-- The present entry for `va` in the resident space, if any. -/
theorem leafAt?_yields {va : Nat} {g : Entry} (hw : w.Wired)
    (hg : w.entry w.root (dirIndex va) = g)
    (inside : g.isPresent = true → Ram.IsFrame w.size g.frame) :
    Yields (leafAt? va) w
      (if g.isPresent = true ∧ (w.entry g.frame (tableIndex va)).isPresent = true then
        some (w.entry g.frame (tableIndex va)) else none) w := by
  refine (hg ▸ slot_yields hw (dirIndex_lt va)).trans ?_
  by_cases present : g.isPresent = true
  · simp only [present, if_true, true_and]
    refine (leaf_yields hw (dirIndex_lt va) hg present (inside present)
      (tableIndex_lt va)).trans ?_
    exact .pure _ _
  · rw [if_neg present, if_neg fun both => present both.1]
    exact .pure _ _

/-! ## The window -/

theorem windowSlot_yields (hw : w.Wired) :
    Yields windowSlot w (mountTable + 4 * mountEntry) w := by
  have table := tableBase_yields hw (d := mountTableSlot) (by decide) rfl hw.mount_present
    hw.isFrame_mount
  rw [hw.mount_frame] at table
  exact table.trans (.pure _ _)

theorem setWindow_yields (hw : w.Wired) (e : Entry) :
    Yields (setWindow e) w () (w.setEntry mountTable mountEntry e) :=
  (windowSlot_yields hw).trans ((storeEntry_yields hw.isFrame_mountTable (by decide) e).trans
    (invalidatePage_yields _ _))

/-- The action leaves the books alone, also where it fails. -/
def KeepsBooks (x : Kernel α) : Prop := ∀ s : KernelState, match x s with
  | .ok _ t => t.snapshot.toBooks = s.snapshot.toBooks
  | .error _ t => t.snapshot.toBooks = s.snapshot.toBooks

theorem KeepsBooks.bind {β : Type} {x : Kernel α} {f : α → Kernel β} (hx : KeepsBooks x)
    (hf : ∀ a, KeepsBooks (f a)) : KeepsBooks (x >>= f) := by
  intro s
  have first := hx s
  cases e : x s with
  | ok a t =>
    rw [e] at first
    have second := hf a t
    rw [bind_of_ok e]
    rw [first] at second
    exact second
  | error f t =>
    rw [e] at first
    rw [bind_of_error e]
    exact first

theorem keepsBooks_inspect (f : Machine → Except Violation α) : KeepsBooks (inspect f) := by
  intro s
  unfold inspect
  cases f s.machine <;> exact rfl

theorem keepsBooks_drive (f : Machine → Except Violation Machine) : KeepsBooks (drive f) := by
  intro s
  unfold drive
  cases f s.machine <;> exact rfl

theorem keepsBooks_setWindow (e : Entry) : KeepsBooks (setWindow e) :=
  .bind (.bind (keepsBooks_inspect fun m => m.access _) fun _ _ => rfl) fun _ =>
    .bind (keepsBooks_drive _) fun _ => keepsBooks_drive _

theorem Leads.ensuring {x : Kernel α} {cleanup : Kernel Unit} {Q : α → Snapshot → Prop}
    (keeps : KeepsBooks cleanup)
    (h : Leads E x w fun a v => ∃ u, Yields cleanup v () u ∧ Q a u) :
    Leads E (ensuring x cleanup) w Q := by
  intro s hs
  have hx := h s hs
  unfold Kernel.ensuring
  cases e : x s with
  | ok a t =>
    rw [e] at hx
    obtain ⟨u, hc, hq⟩ := hx
    obtain ⟨t', ht', rfl⟩ := hc t rfl
    simp only [SeqRight.seqRight, EStateM.seqRight, ht']
    exact hq
  | error f t =>
    rw [e] at hx
    have := keeps t
    cases c : cleanup t <;> simp_all

/-- An action on the mounted frame is an action on memory: what it leaves in the window's entry
does not stay. -/
theorem withFrame_leads {Q : α → Snapshot → Prop} {body : Kernel α} (hw : w.Wired)
    (hf : isAligned f = true)
    (h : Leads E body (w.mount f) fun a v => ∃ u, v = u.mount f ∧ u.Wired ∧
      u.entry mountTable mountEntry = w.entry mountTable mountEntry ∧ Q a u) :
    Leads E (withFrame f body) w Q := by
  rw [withFrame, if_pos hf]
  refine (windowSlot_yields hw).bind ?_
  refine (loadEntry_yields hw.isFrame_mountTable (by decide)).bind ?_
  refine (storeEntry_yields hw.isFrame_mountTable (by decide) _).bind ?_
  refine (invalidatePage_yields _ _).bind ?_
  refine .ensuring (keepsBooks_setWindow _) (h.mono ?_)
  rintro a _ ⟨u, rfl, hu, same, hq⟩
  refine ⟨u, ?_, hq⟩
  have restored := setWindow_yields (hu.mount f) (u.entry mountTable mountEntry)
  rwa [unmount, same] at restored

theorem withFrame_yields {a : α} {u : Snapshot} {body : Kernel α} (hw : w.Wired)
    (hf : isAligned f = true) (hu : u.Wired)
    (same : u.entry mountTable mountEntry = w.entry mountTable mountEntry)
    (h : Yields body (w.mount f) a (u.mount f)) : Yields (withFrame f body) w a u :=
  Leads.yields (withFrame_leads hw hf (h.leads ⟨u, rfl, hu, same, rfl, rfl⟩))

namespace Window

theorem base_yields (hw : w.Wired) (hf : Ram.IsFrame w.size f) :
    Yields base (w.mount f) f (w.mount f) := by
  have here : (w.mount f).entry mountTable (tableIndex windowView) =
      .of f EntryFlags.kernelData := by
    rw [Snapshot.mount, Snapshot.entry_setEntry _ _ _ (by decide) (by decide)]
    exact if_pos ⟨rfl, rfl⟩
  have bound := (hw.mount f).mount_frame
  have frame := hw.frame_of hf EntryFlags.low_kernelData
  have walk : Yields (access windowView) (w.mount f) _ (w.mount f) :=
    access_yields (hw.mount f) rfl (hw.mount f).mount_present (bound ▸ hw.isFrame_mountTable)
      (bound ▸ here) (Entry.isPresent_kernelData f) (frame.symm ▸ hf)
  rw [frame] at walk
  exact walk

end Window

section Mounted
variable (hw : w.Wired) (hf : Ram.IsFrame w.size f) (hm : f ≠ mountTable)
include hw hf hm

theorem windowEntry_yields (hi : i < tableEntries) :
    Yields (Window.entry i) (w.mount f) (w.entry f i) (w.mount f) := by
  have load := loadEntry_yields (w := w.mount f) hf hi
  rw [Snapshot.entry, page_mount w f hm] at load
  refine Yields.trans (a := ()) ?_ ((Window.base_yields hw hf).trans load)
  rw [Window.checkIndex, if_pos hi]
  exact .pure _ _

theorem windowSetEntry_yields (hi : i < tableEntries) (e : Entry) :
    Yields (Window.setEntry i e) (w.mount f) () ((w.setEntry f i e).mount f) := by
  have store := storeEntry_yields (w := w.mount f) hf hi e
  rw [setEntry_mount w f hm] at store
  refine Yields.trans (a := ()) ?_ ((Window.base_yields hw hf).trans store)
  rw [Window.checkIndex, if_pos hi]
  exact .pure _ _

theorem windowPage_yields : Yields Window.page (w.mount f) (w.page f) (w.mount f) := by
  have load := loadPage_yields (w := w.mount f) hf
  rw [page_mount w f hm] at load
  exact (Window.base_yields hw hf).trans load

theorem windowSetPage_yields (p : Page) :
    Yields (Window.setPage p) (w.mount f) () ((w.setPage f p).mount f) := by
  have store := storePage_yields (w := w.mount f) hf p
  rw [setPage_mount w f hm] at store
  exact (Window.base_yields hw hf).trans store

end Mounted

/-- Bound tables are written during a mount as they are otherwise. -/
theorem mountedSetLeaf_yields {g : Entry} (hw : w.Wired) (hd : d < tableEntries)
    (hg : w.entry w.root d = g) (present : g.isPresent = true) (inside : Ram.IsFrame w.size g.frame)
    (hm : g.frame ≠ mountTable) (ht : t < tableEntries) (e : Entry) :
    Yields (setLeaf d t e) (w.mount f) () ((w.setEntry g.frame t e).mount f) := by
  have slot : (w.mount f).entry (w.mount f).root d = g :=
    (entry_setPage_of_ne _ _ _ hw.mountTable_ne_root.symm d).trans hg
  have written := setLeaf_yields (hw.mount f) hd slot present inside ht e
  rwa [setEntry_mount _ _ hm] at written

end Kernel
end VirtualMemory
