import VirtualMemory.AddressSpace.Fork
import VirtualMemory.AddressSpace.Lifecycle
import VirtualMemory.AddressSpace.Range
import VirtualMemory.Fault.Resolve
import VirtualMemory.Proofs.Bus
import VirtualMemory.Proofs.Operations.Frames

/-!
# The window's entry

The resident directory and the mount table are shielded if nothing but the window slots leads to
them: no other slot, no space's own frame, and no free frame. Then no operation writes to the mount
table but through the window, and what it writes there it takes back. An operation that fails may
leave anything behind but a changed window; so beside what is kept along the way, `Keeps`, which
failures keep as well.
-/
namespace VirtualMemory

open Layout Snapshot Kernel

/-- The frame that the window shows once `f` is mounted. -/
def Layout.shown (f : Nat) : Nat := (Entry.of f EntryFlags.kernelData).frame

/-- It is `f` itself, as far as entries have names for frames. -/
theorem Layout.shown_eq {f : Nat} (aligned : isAligned f = true) (small : f < 0x100000000) :
    shown f = f :=
  Entry.frame_of aligned small EntryFlags.low_kernelData

@[simp] theorem Layout.shown_frame (e : Entry) : shown e.frame = e.frame :=
  shown_eq e.frame_aligned e.frame_lt

/-- All entries for `f` lead to the same frame. -/
theorem Entry.frame_of_low (f : Nat) {g : EntryFlags} (hg : g.Low) : (of f g).frame = shown f :=
  frame_congr fun i hi => by
    simp [of, Nat.testBit_or, testBit_low hg hi, testBit_low EntryFlags.low_kernelData hi]

/-- The window slots are the two last. -/
theorem Layout.slot_cases {d : Nat} (hd : d < tableEntries) :
    d < mountTableSlot ∨ d = mountTableSlot ∨ d = selfMapSlot := by
  simp only [mountTableSlot, selfMapSlot, tableEntries] at *
  omega

namespace Snapshot

variable {w : Snapshot} {c c' : Entry} {f d i p : Nat} {e : Entry} {b : Books}

/-- The frame is neither the resident directory nor the mount table. -/
def Apart (f : Nat) : Prop := f ≠ Ram.base ∧ f ≠ mountTable

/-- The window can be used, and its entry is `c`. -/
structure Keeps (c : Entry) (w : Snapshot) : Prop where
  wired : w.Wired
  window : w.window = c

/-- Besides, no space's own frame and no free frame is the directory or the mount table. -/
structure Hosts (c : Entry) (w : Snapshot) : Prop extends w.Keeps c where
  directory : ∀ p r, w.spaces.find? p = some r → Apart (shown r.directory)
  free : ∀ f ∈ w.free, Apart (shown f)

/-- The window can be used, and no slot of the resident directory leads to the directory or the
mount table but the two window slots. -/
structure Reserves (w : Snapshot) : Prop where
  wired : w.Wired
  slot : ∀ d < mountTableSlot, (w.entry w.root d).isPresent = true →
    Apart (w.entry w.root d).frame

/-- Nothing leads there. -/
structure Shields (c : Entry) (w : Snapshot) : Prop extends w.Hosts c, w.Reserves

theorem window_mount (w : Snapshot) (f : Nat) :
    (w.mount f).window = .of f EntryFlags.kernelData :=
  (entry_setEntry _ _ _ (by decide) (by decide)).trans (if_pos ⟨rfl, rfl⟩)

theorem Wired.keeps (h : w.Wired) : w.Keeps w.window := ⟨h, rfl⟩

namespace Keeps

theorem apart_ne_root (h : w.Keeps c) (apart : Apart f) : f ≠ w.root := h.wired.root ▸ apart.1

theorem book (h : w.Keeps c) (b : Books) : (w.book b).Keeps c := ⟨h.wired.book b, h.window⟩

theorem setPage (h : w.Keeps c) (apart : Apart f) (q : Page) : (w.setPage f q).Keeps c :=
  ⟨h.wired.setPage (h.apart_ne_root apart) q,
    (entry_setPage_of_ne _ _ _ apart.2.symm _).trans h.window⟩

theorem setSlot (h : w.Keeps c) (hd : d < mountTableSlot) (e : Entry) :
    (w.setEntry w.root d e).Keeps c :=
  ⟨h.wired.setSlot hd e, (entry_setPage_of_ne _ _ _ h.wired.mountTable_ne_root _).trans h.window⟩

end Keeps

theorem Wired.setWindow (h : w.Wired) (c : Entry) :
    (w.setEntry mountTable mountEntry c).Keeps c :=
  ⟨h.setPage h.mountTable_ne_root _,
    (entry_setEntry _ _ _ (by decide) (by decide)).trans (if_pos ⟨rfl, rfl⟩)⟩

namespace Hosts

theorem setPage (h : w.Hosts c) (apart : Apart f) (q : Page) : (w.setPage f q).Hosts c :=
  ⟨h.toKeeps.setPage apart q, h.directory, h.free⟩

theorem setWindow (h : w.Hosts c') (c : Entry) :
    (w.setEntry mountTable mountEntry c).Hosts c :=
  ⟨h.wired.setWindow c, h.directory, h.free⟩

theorem book (h : w.Hosts c) (directory : ∀ p r, b.spaces.find? p = some r →
    Apart (shown r.directory)) (free : ∀ f ∈ b.free, Apart (shown f)) : (w.book b).Hosts c :=
  ⟨h.toKeeps.book b, directory, free⟩

end Hosts

namespace Reserves

theorem apart_ne_root (h : w.Reserves) (apart : Apart f) : f ≠ w.root := h.wired.root ▸ apart.1

theorem book (h : w.Reserves) (b : Books) : (w.book b).Reserves := ⟨h.wired.book b, h.slot⟩

theorem setPage (h : w.Reserves) (hf : f ≠ w.root) (q : Page) : (w.setPage f q).Reserves where
  wired := h.wired.setPage hf q
  slot d hd := by
    rw [root_setPage, entry_setPage_of_ne _ _ _ hf.symm]
    exact h.slot d hd

theorem setWindow (h : w.Reserves) (c : Entry) : (w.setEntry mountTable mountEntry c).Reserves :=
  h.setPage h.wired.mountTable_ne_root _

theorem setSlot (h : w.Reserves) (hd : d < mountTableSlot)
    (he : e.isPresent = true → Apart e.frame) : (w.setEntry w.root d e).Reserves where
  wired := h.wired.setSlot hd e
  slot i hi present := by
    have small (j : Nat) (hj : j < mountTableSlot) : j < tableEntries := hj.trans (by decide)
    rw [root_setEntry, Snapshot.entry_setEntry _ _ _ (small d hd) (small i hi)] at present ⊢
    split at present
    · rw [if_pos ‹_›]
      exact he present
    · rw [if_neg ‹_›]
      exact h.slot i hi present

end Reserves

namespace Shields

theorem setPage (h : w.Shields c) (apart : Apart f) (q : Page) : (w.setPage f q).Shields c where
  toHosts := h.toHosts.setPage apart q
  slot := (h.toReserves.setPage (h.apart_ne_root apart) q).slot

theorem setEntry (h : w.Shields c) (apart : Apart f) (i : Nat) (e : Entry) :
    (w.setEntry f i e).Shields c := h.setPage apart _

theorem setMountTable (h : w.Shields c') (q : Page) :
    (w.setPage mountTable q).Shields (w.setPage mountTable q).window where
  toHosts := ⟨(h.wired.setPage h.wired.mountTable_ne_root q).keeps, h.directory, h.free⟩
  slot := (h.toReserves.setPage h.wired.mountTable_ne_root q).slot

theorem setWindow (h : w.Shields c') (c : Entry) :
    (w.setEntry mountTable mountEntry c).Shields c where
  toHosts := h.toHosts.setWindow c
  slot := (h.toReserves.setWindow c).slot

theorem mount (h : w.Shields c) (f : Nat) : (w.mount f).Shields (.of f EntryFlags.kernelData) :=
  h.setWindow _

theorem setSlot (h : w.Shields c) (hd : d < mountTableSlot)
    (he : e.isPresent = true → Apart e.frame) : (w.setEntry w.root d e).Shields c where
  toHosts := ⟨h.toKeeps.setSlot hd e, h.directory, h.free⟩
  slot := (h.toReserves.setSlot hd he).slot

theorem book (h : w.Shields c) (directory : ∀ p r, b.spaces.find? p = some r →
    Apart (shown r.directory)) (free : ∀ f ∈ b.free, Apart (shown f)) : (w.book b).Shields c :=
  ⟨h.toHosts.book directory free, h.slot⟩

theorem rebook (h : w.Shields c) (spaces : b.spaces = w.spaces) (free : b.free = w.free) :
    (w.book b).Shields c :=
  h.book (spaces ▸ h.directory) (free ▸ h.free)

/-- An entry that loses its write right leads where it led, wherever it is. -/
theorem thin (h : w.Shields c) (f : Nat) (hi : i < tableEntries) :
    ∃ c', (w.setEntry f i ((w.entry f i).clear EntryFlags.writable)).Shields c' := by
  by_cases root : f = w.root
  · subst root
    by_cases hd : i < mountTableSlot
    · refine ⟨c, h.setSlot hd fun present => ?_⟩
      rw [Entry.isPresent_clear_writable] at present
      rw [Entry.frame_clear_writable]
      exact h.slot i hd present
    · have present : (w.entry w.root i).isPresent = true := by
        obtain rfl | rfl := (slot_cases hi).resolve_left hd
        · exact h.wired.mount_present
        · exact h.wired.self_present
      have wired := h.wired.reslot hi (e := (w.entry w.root i).clear EntryFlags.writable)
        (by rwa [Entry.isPresent_clear_writable]) (Entry.frame_clear_writable _)
      have away := h.wired.mountTable_ne_root
      refine ⟨c, ⟨⟨wired, (entry_setPage_of_ne _ _ _ away _).trans h.window⟩, h.directory, h.free⟩,
        fun j hj => ?_⟩
      rw [root_setEntry, Snapshot.entry_setEntry _ _ _ hi (hj.trans (by decide)), if_neg (by omega)]
      exact h.slot j hj
  · by_cases mount : f = mountTable
    · subst mount
      exact ⟨_, h.setMountTable _⟩
    · exact ⟨c, h.setEntry ⟨h.wired.root ▸ root, mount⟩ _ _⟩

end Shields
end Snapshot

namespace Kernel

variable {α : Type} {s : KernelState} {c : Entry} {d f t : Nat} {e : Entry} {prot : Protection}

/-- The action ends in `Q`, or it fails and the window's entry is still `c`. -/
abbrev Guards (c : Entry) (x : Kernel α) (s : KernelState) (Q : α → Snapshot → Prop) : Prop :=
  Ends (fun t => t.snapshot.Keeps c) x s fun a t => Q a t.snapshot

/-! ## Mounting -/

/-- After the mount the window's entry is `c` again, whatever the body did to it. -/
theorem withFrame_guards {body : Kernel α} {Q : α → Snapshot → Prop} (h : s.snapshot.Keeps c)
    (work : ∀ t : KernelState, t.snapshot = s.snapshot.mount f →
      Ends (fun u => u.snapshot.Wired) body t fun a u => u.snapshot.Wired ∧
        Q a (u.snapshot.setEntry mountTable mountEntry c)) : Guards c (withFrame f body) s Q := by
  refine .withFrame h (.mountAligned h.wired fun t ht => ?_)
  rw [h.window]
  refine ((work t ht.snapshot).weaken ?_).mono ?_
  · rintro u wired
    refine .setWindow wired fun v hv => ?_
    rw [hv.snapshot]
    exact wired.setWindow c
  · rintro a u ⟨wired, q⟩
    exact ⟨wired, fun v hv => hv.snapshot ▸ q⟩

/-- A body that only looks leaves nothing behind. -/
theorem withFrame_looks {body : Kernel α} (h : s.snapshot.Keeps c) (looks : Looks body) :
    Guards c (withFrame f body) s fun _ v => v = s.snapshot := by
  refine withFrame_guards h fun t ht => ?_
  have wired : t.snapshot.Wired := ht ▸ h.wired.mount f
  refine looks.ends wired fun a _ => ⟨wired, ?_⟩
  rw [ht, ← h.window]
  exact unmount _ _

/-- A body that keeps the directory and the mount table shielded. -/
theorem withFrame_shields {body : Kernel α} (h : s.snapshot.Shields c)
    (work : ∀ t : KernelState, t.snapshot.Shields (.of f EntryFlags.kernelData) →
      Ends (fun u => u.snapshot.Wired) body t fun _ u => ∃ c', u.snapshot.Shields c') :
    Guards c (withFrame f body) s fun _ v => v.Shields c := by
  refine withFrame_guards h.toKeeps fun t ht => (work t (ht ▸ h.mount f)).mono ?_
  rintro a u ⟨c', shields⟩
  exact ⟨shields.wired, shields.setWindow c⟩

/-! ## Frames and tables -/

/-- The pool's first frame is taken, if there is one. -/
theorem Ends.acquireRaw {F : KernelState → Prop} {Q : Nat → KernelState → Prop}
    (hF : F { s with events := .fatal .outOfFrames :: s.events })
    (h : ∀ f rest, s.snapshot.free = f :: rest → Q f { s with pool := ⟨rest⟩ }) :
    Ends F acquireRaw s Q := by
  refine .get ?_
  cases free : s.pool.free with
  | nil =>
    rw [show s.pool.alloc? = none by simp [FramePool.alloc?, free]]
    exact .halt hF
  | cons f rest =>
    rw [show s.pool.alloc? = some (f, ⟨rest⟩) by simp [FramePool.alloc?, free]]
    exact .bind (.modify (.pure (h f rest free)))

theorem Ends.takeFrame {F : KernelState → Prop} {Q : Nat → KernelState → Prop} (hF : F s)
    (h : ∀ f rest, s.snapshot.free = f :: rest → Q f { s with pool := ⟨rest⟩ }) :
    Ends F takeFrame s Q := by
  refine .get ?_
  cases free : s.pool.free with
  | nil =>
    rw [show s.pool.take = .error .poolExhausted by simp [FramePool.take, FramePool.alloc?, free]]
    exact .violate hF
  | cons f rest =>
    rw [show s.pool.take = .ok (f, ⟨rest⟩) by simp [FramePool.take, FramePool.alloc?, free]]
    exact .bind (.modify (.pure (h f rest free)))

theorem acquireRaw_guards (h : s.snapshot.Shields c) :
    Guards c acquireRaw s fun f v => Apart (shown f) ∧ v.Shields c := by
  refine .acquireRaw h.toKeeps fun f rest free => ?_
  have clear (g : Nat) (hg : g ∈ f :: rest) : Apart (shown g) := h.free g (free ▸ hg)
  refine ⟨clear f List.mem_cons_self, ?_⟩
  exact h.book (b := { s.snapshot.toBooks with free := rest }) h.directory fun g hg =>
    clear g (List.mem_cons_of_mem _ hg)

theorem acquire_guards (h : s.snapshot.Shields c) :
    Guards c acquire s fun f v => Apart (shown f) ∧ v.Shields c := by
  refine .bind ((acquireRaw_guards h).mono fun f t ht => .bind ?_)
  refine (withFrame_shields ht.2 fun u hu => ?_).mono fun _ v hv => ?_
  · refine .windowSetPage hu.wired hu.wired fun _ v hv => ?_
    have set := hu.setPage (f := u.snapshot.window.frame) (hu.window ▸ ht.1) Page.zero
    exact ⟨_, hv.snapshot ▸ set⟩
  · exact .bind (.modify (.pure ⟨ht.1, hv⟩))

theorem release_guards (h : s.snapshot.Keeps c) : Guards c (release f) s fun _ v =>
    v = s.snapshot.book { s.snapshot.toBooks with free := f :: s.snapshot.free } := by
  refine .bind (.modify (.get ?_))
  simp only [FramePool.release]
  by_cases twice : f ∈ s.pool.free
  · rw [if_pos twice]
    exact .violate h
  · rw [if_neg twice]
    exact .modify rfl

theorem bindTable_guards (h : s.snapshot.Keeps c) (hd : d < mountTableSlot) :
    Guards c (bindTable f d prot) s fun _ v => ∃ o,
      v = (s.snapshot.book { s.snapshot.toBooks with occupancy := o }).setEntry s.snapshot.root d
        (.of f prot.entryFlags) := by
  refine .ite (fun _ => .refuse h) fun _ => .ite (fun _ => .refuse h) fun _ => .bind ?_
  have looks : Looks Window.presentCount := windowPage_looks.bind fun _ => .pure _
  refine (withFrame_looks h looks).mono fun n t ht => .bind ?_
  refine (Ends.of_yields (seedTable_yields f n _)).mono ?_
  rintro _ u ⟨-, hu⟩
  rw [ht] at hu
  have wired : u.snapshot.Wired := hu ▸ h.wired.book _
  refine .bind (.setSlot wired (hd.trans (by decide)) fun v hv => .bind (.flush fun x hx => ?_))
  refine .modify ⟨s.snapshot.occupancy.seed f n, (hx.snapshot.trans hv.snapshot).trans ?_⟩
  rw [hu]
  rfl

/-- The slot leads to the new table then. -/
theorem bindTable_shields (h : s.snapshot.Shields c) (hd : d < mountTableSlot)
    (apart : Apart (shown f)) : Guards c (bindTable f d prot) s fun _ v =>
      v.Shields c ∧ (v.entry v.root d).isPresent = true := by
  refine (bindTable_guards h.toKeeps hd).mono ?_
  rintro _ t ⟨o, ht⟩
  have hd' : d < tableEntries := hd.trans (by decide)
  have shields := (h.rebook (b := { s.snapshot.toBooks with occupancy := o }) rfl rfl).setSlot hd
    (e := .of f prot.entryFlags) fun _ => (Entry.frame_of_low f prot.low_entryFlags).symm ▸ apart
  rw [ht]
  refine ⟨shields, ?_⟩
  rw [root_setEntry, Snapshot.entry_setEntry _ _ _ hd' hd', if_pos ⟨rfl, rfl⟩]
  exact Entry.isPresent_entryFlags f prot

theorem unbindTable_guards (h : s.snapshot.Shields c) (hd : d < mountTableSlot) :
    Guards c (unbindTable d) s fun _ v => v.Shields c := by
  have hd' : d < tableEntries := hd.trans (by decide)
  refine .ite (fun _ => .pure h) fun _ => .bind (.slot h.wired hd' ?_)
  have flushes {t : KernelState} (ht : t.snapshot.Shields c) :
      Guards c flush t fun _ v => v.Shields c := .flush fun u hu => hu.snapshot ▸ ht
  refine .ite (fun present => .bind (.setSlot h.wired hd' fun t ht => ?_)) fun _ => flushes h
  have cleared : t.snapshot.Shields c := ht.snapshot ▸ h.setSlot hd (fun no => by simp at no)
  refine .bind ((Ends.of_yields (forgetTable_yields _ _)).mono ?_)
  rintro _ u ⟨-, hu⟩
  have forgotten : u.snapshot.Shields c := hu ▸ cleared.rebook rfl rfl
  refine .bind ((release_guards forgotten.toKeeps).mono ?_)
  intro _ v hv
  refine .bind (.modify (flushes ?_))
  change v.snapshot.Shields c
  rw [hv]
  refine forgotten.book forgotten.directory fun g hg => ?_
  obtain rfl | old := List.mem_cons.1 hg
  · rw [shown_frame]
    exact h.slot d hd present
  · exact forgotten.free g old

theorem setLeaf_guards (h : s.snapshot.Shields c) (hd : d < mountTableSlot) :
    Guards c (setLeaf d t e) s fun _ v => v.Shields c ∧
      v = s.snapshot.setEntry (s.snapshot.entry s.snapshot.root d).frame t e ∧
      t < tableEntries := by
  refine .setLeaf h.wired (hd.trans (by decide)) h.toKeeps fun ht present _ u hu => ?_
  exact ⟨hu.snapshot ▸ h.setEntry (h.slot d hd present) _ _, hu.snapshot, ht⟩

end Kernel
end VirtualMemory
