import VirtualMemory.Proofs.Twins.Basic

/-!
# Two runs through the tables

Tables, the directory and the mount table are neither free nor hidden, so both runs find the same
slots and entries. A frame from the pool is cleared before it is bound.
-/
namespace VirtualMemory

open Layout

namespace Snapshot

/-- No frame that the resident space is reached through is in `K`, and none that may become one. -/
structure Hides (w : Snapshot) (K : Finset Nat) : Prop where
  root : w.root ∉ K
  mount : mountTable ∉ K
  free : ∀ f ∈ w.free, f ∉ K
  table : ∀ d < mountTableSlot, (w.entry w.root d).isPresent = true →
    (w.entry w.root d).frame ∉ K

/-- Two snapshots that are alike, and what the left one is known by. -/
structure Paired (w v : Snapshot) (K : Finset Nat) : Prop where
  placed : ∃ role, w.Placed role
  hides : w.Hides K
  alike : w.Alike v K

variable {w v : Snapshot} {role : Nat → Role} {K : Finset Nat} {d f i p : Nat} {e : Entry}
  {π : Place}

theorem Hides.none (w : Snapshot) : w.Hides ∅ :=
  ⟨Finset.notMem_empty _, Finset.notMem_empty _, fun _ _ => Finset.notMem_empty _,
    fun _ _ _ => Finset.notMem_empty _⟩

/-- A stored directory or a page of callers is none of these frames. -/
theorem Hides.singleton (h : w.Lodged role) (apart : role f = .owned ∨ ∃ p, role f = .directory p) :
    w.Hides {f} := by
  have out {g : Nat} (other : role g ≠ .owned ∧ ∀ p, role g ≠ .directory p) :
      g ∉ ({f} : Finset Nat) := by
    rw [Finset.mem_singleton]
    rintro rfl
    obtain owned | ⟨p, directory⟩ := apart
    · exact other.1 owned
    · exact other.2 p directory
  refine ⟨out ?_, out ?_, fun g hg => out ?_, fun d hd present => out ?_⟩
  · simp [(h.resident w.root).2 rfl]
  · simp [(h.window mountTable).2 rfl]
  · simp [(h.free g).2 hg]
  · simp [h.table_here hd present]

/-- Where the user half of a space is kept, it is all that a switch can change. -/
theorem page_eq_of_home {q : Nat} (home : w.home q = f) (home' : v.home q = f)
    (slots : ∀ d < userSlots, v.slotAt (.user q d) = w.slotAt (.user q d))
    (kernel : ∀ d, userSlots ≤ d → d < tableEntries → v.entry f d = w.entry f d) :
    v.page f = w.page f := by
  refine Page.ext_entry fun d hd => ?_
  by_cases user : d < userSlots
  · have same : v.entry (v.home q) d = w.entry (w.home q) d := slots d user
    rwa [home, home'] at same
  · exact kernel d (not_lt.1 user) hd

/-- Every place shows the same, if only the stored half of the resident space is hidden. -/
theorem Alike.slotAt (h : w.Alike v K) (placed : w.Placed role)
    (hK : ∀ f ∈ K, f ≠ w.root ∧
      ∀ q s, w.spaces.find? q = some s → q ≠ w.spaces.active → s.directory ≠ f)
    (hπ : w.Has π) : v.slotAt π = w.slotAt π := by
  have resident := (placed.lodged.resident w.root).2 rfl
  have root : v.page w.root = w.page w.root :=
    h.page _ (by simp [← placed.lodged.free, resident]) fun mem => (hK _ mem).1 rfl
  cases π with
  | kernel d => exact congrArg (Page.entry · d) (h.root ▸ root)
  | user q d =>
    change v.entry (v.home q) d = w.entry (w.home q) d
    rw [home, h.spaces, h.root, ← home]
    by_cases active : q = w.spaces.active
    · rw [active, home_active]
      exact congrArg (Page.entry · d) root
    · obtain ⟨s, hs⟩ := Option.isSome_iff_exists.1 hπ.1
      have dir := (placed.lodged.directory _ q).2 ⟨s, hs, rfl⟩
      rw [home_of_ne active hs]
      refine congrArg (Page.entry · d) (h.page _ ?_ fun mem => (hK _ mem).2 q s hs active rfl)
      simp [← placed.lodged.free, dir]

namespace Paired

theorem page (h : w.Paired v K) (placed : w.Placed role) (hf : role f ≠ .free) (hK : f ∉ K) :
    v.page f = w.page f :=
  h.alike.page f (fun mem => hf ((placed.lodged.free f).2 mem)) hK

theorem wired (h : w.Paired v K) : w.Wired := by
  obtain ⟨role, placed⟩ := h.placed
  exact placed.lodged.wired

theorem page_root (h : w.Paired v K) : v.page w.root = w.page w.root := by
  obtain ⟨role, placed⟩ := h.placed
  have resident := (placed.lodged.resident w.root).2 rfl
  exact h.page placed (by simp [resident]) h.hides.root

theorem slot (h : w.Paired v K) (d : Nat) : v.entry v.root d = w.entry w.root d := by
  rw [entry, h.alike.root, h.page_root, entry]

theorem wired' (h : w.Paired v K) : v.Wired := by
  have same (d : Nat) : v.entry w.root d = w.entry w.root d := h.alike.root ▸ h.slot d
  exact h.wired.congr h.alike.root h.alike.size (same _) (same _)

/-- The right side can switch where the left one can. -/
theorem switchable' (h : w.Paired v K) : v.Switchable := by
  obtain ⟨role, placed⟩ := h.placed
  refine ⟨h.wired', placed.lodged.housed.congr h.alike.root h.alike.size fun p => ?_, ?_⟩
  · rw [h.alike.spaces]
  · rw [Live, h.alike.spaces]
    exact placed.lodged.live_active

/-- What is known of the table at a slot. -/
theorem table (h : w.Paired v K) (placed : w.Placed role) (hd : d < mountTableSlot)
    (present : (w.entry w.root d).isPresent = true) :
    role (w.entry w.root d).frame = .table (w.here d) ∧
      Ram.IsFrame w.size (w.entry w.root d).frame ∧
      v.page (w.entry w.root d).frame = w.page (w.entry w.root d).frame := by
  have table := placed.lodged.table_here hd present
  exact ⟨table, placed.lodged.isFrame (by simp [table]),
    h.page placed (by simp [table]) (h.hides.table d hd present)⟩

/-! ## The same write on both sides -/

theorem reslot (h : w.Paired v K) (hd : d < mountTableSlot)
    (same : e.SameTarget (w.entry w.root d)) :
    (w.setEntry w.root d e).Paired (v.setEntry v.root d e) K := by
  obtain ⟨role, placed⟩ := h.placed
  have hd' := Sound.slot_lt hd
  refine ⟨(Edits.retarget placed hd' same).placed,
    ⟨h.hides.root, h.hides.mount, h.hides.free, fun i hi present => ?_⟩,
    h.alike.root ▸ h.alike.setEntry _ d e⟩
  rw [root_setEntry, entry_setEntry _ _ _ hd' (Sound.slot_lt hi)] at present ⊢
  split at present
  · rename_i here
    rw [if_pos here, same.frame present]
    exact h.hides.table d hd (same.present ▸ present)
  · rw [if_neg ‹_›]
    exact h.hides.table i hi present

theorem setLeaf (h : w.Paired v K) (placed : w.Placed role) (hf : role f = .table π) (i : Nat)
    (e : Entry) : (w.setEntry f i e).Paired (v.setEntry f i e) K := by
  have away := placed.lodged.ne_root (f := f) (by simp [hf])
  have slot (d : Nat) : (w.setEntry f i e).entry w.root d = w.entry w.root d :=
    entry_setPage_of_ne _ _ _ away.symm d
  refine ⟨(Edits.setLeaf placed hf i e).placed,
    ⟨h.hides.root, h.hides.mount, h.hides.free, fun d hd present => ?_⟩, h.alike.setEntry f i e⟩
  rw [root_setEntry, slot] at present ⊢
  exact h.hides.table d hd present

theorem rebook (h : w.Paired v K) {b : Books} (free : b.free = w.free)
    (spaces : b.spaces = w.spaces) : (w.book b).Paired (v.book b) K := by
  obtain ⟨role, placed⟩ := h.placed
  exact ⟨(Edits.rebook placed free spaces).placed,
    ⟨h.hides.root, h.hides.mount, free ▸ h.hides.free, h.hides.table⟩,
    h.alike.book fun f hf => free ▸ hf⟩

/-- The first free frame, cleared, becomes a table on both sides. -/
theorem newTable (h : w.Paired v K) (hd : d < mountTableSlot) {rest : List Nat}
    (first : w.free = f :: rest) (prot : Protection) :
    (((w.book { w.toBooks with free := rest }).setPage f Page.zero).bound f d prot).Paired
      (((v.book { w.toBooks with free := rest }).setPage f Page.zero).bound f d prot) K := by
  obtain ⟨role, placed⟩ := h.placed
  obtain ⟨inside, hm, hr⟩ := placed.lodged.usable f (first ▸ List.mem_cons_self)
  refine ⟨(Edits.newTable placed hd first prot).placed, ⟨h.hides.root, h.hides.mount,
    fun g hg => h.hides.free g (first ▸ List.mem_cons_of_mem f hg), fun i hi present => ?_⟩,
    (h.alike.takeCleared first).bound (by rw [page_setPage_self, page_setPage_self]) d prot⟩
  have slot : (((w.book { w.toBooks with free := rest }).setPage f Page.zero).bound f d prot).entry
      w.root i = if i = d then .of f prot.entryFlags else w.entry w.root i := by
    refine (entry_setEntry _ _ _ (Sound.slot_lt hd) (Sound.slot_lt hi)).trans ?_
    simp only [root_book, root_setPage, true_and]
    exact if_congr Iff.rfl rfl (entry_setPage_of_ne _ _ _ hr.symm i)
  change ((_ : Snapshot).entry w.root i).isPresent = true at present
  change ((_ : Snapshot).entry w.root i).frame ∉ K
  rw [slot] at present ⊢
  split at present
  · rw [if_pos ‹_›, h.wired.frame_of inside prot.low_entryFlags]
    exact h.hides.free f (first ▸ List.mem_cons_self)
  · rw [if_neg ‹_›]
    exact h.hides.table i hi present

/-- The table at a slot goes back to the pool on both sides. -/
theorem unbind (h : w.Paired v K) (hd : d < mountTableSlot)
    (present : (w.entry w.root d).isPresent = true) : (w.unbound d).Paired (v.unbound d) K := by
  obtain ⟨role, placed⟩ := h.placed
  have alike := (h.alike.setEntry w.root d .empty).book (b := { w.toBooks with
    free := (w.entry w.root d).frame :: w.free
    occupancy := w.occupancy.forget (w.entry w.root d).frame }) fun _ => List.mem_cons_of_mem _
  refine ⟨(Edits.unbind placed hd present).placed,
    ⟨h.hides.root, h.hides.mount, fun g hg => ?_, fun i hi there => ?_⟩, ?_⟩
  · obtain rfl | old := List.mem_cons.1 hg
    · exact h.hides.table d hd present
    · exact h.hides.free g old
  · have slot : (w.unbound d).entry w.root i = if i = d then .empty else w.entry w.root i := by
      refine (entry_setEntry _ _ _ (Sound.slot_lt hd) (Sound.slot_lt hi)).trans ?_
      simp only [true_and]
    change ((w.unbound d).entry w.root i).isPresent = true at there
    change ((w.unbound d).entry w.root i).frame ∉ K
    rw [slot] at there ⊢
    split at there
    · cases there
    · rw [if_neg ‹_›]
      exact h.hides.table i hi there
  · rw [unbound, unbound, h.slot, h.alike.root, h.alike.books]
    exact alike

end Paired
end Snapshot

open Snapshot

namespace Kernel

variable {α : Type} {w v : Snapshot} {role : Nat → Role} {K : Finset Nat} {d f t : Nat} {e : Entry}
  {prot : Protection} {R : α → Snapshot → Snapshot → Prop}

/-! ## Slots and entries -/

theorem slot_twins {k : Entry → Kernel α} (h : w.Paired v K) (hd : d < tableEntries)
    (hk : Twins (k (w.entry w.root d)) w v R) : Twins (slot d >>= k) w v R :=
  .step (slot_yields h.wired hd) (h.slot d ▸ slot_yields h.wired' hd) hk

theorem setSlot_twins {k : Unit → Kernel α} (h : w.Paired v K) (hd : d < tableEntries) (e : Entry)
    (hk : Twins (k ()) (w.setEntry w.root d e) (v.setEntry v.root d e) R) :
    Twins (setSlot d e >>= k) w v R :=
  .step (setSlot_yields h.wired hd e) (setSlot_yields h.wired' hd e) hk

section Bound
variable (h : w.Paired v K) (hd : d < mountTableSlot)
  (present : (w.entry w.root d).isPresent = true) (ht : t < tableEntries)
include h hd present ht

theorem leaf_twins {k : Entry → Kernel α}
    (hk : Twins (k (w.entry (w.entry w.root d).frame t)) w v R) : Twins (leaf d t >>= k) w v R := by
  obtain ⟨role, placed⟩ := h.placed
  obtain ⟨-, inside, page⟩ := h.table placed hd present
  have inside' : Ram.IsFrame v.size (w.entry w.root d).frame := h.alike.size ▸ inside
  have right := leaf_yields h.wired' (Sound.slot_lt hd) (h.slot d) present inside' ht
  rw [entry, page] at right
  exact .step (leaf_yields h.wired (Sound.slot_lt hd) rfl present inside ht) right hk

theorem setLeaf_twins {k : Unit → Kernel α} (e : Entry)
    (hk : (w.setEntry (w.entry w.root d).frame t e).Paired
        (v.setEntry (w.entry w.root d).frame t e) K →
      Twins (k ()) (w.setEntry (w.entry w.root d).frame t e)
        (v.setEntry (w.entry w.root d).frame t e) R) : Twins (setLeaf d t e >>= k) w v R := by
  obtain ⟨role, placed⟩ := h.placed
  obtain ⟨table, inside, -⟩ := h.table placed hd present
  exact .step (setLeaf_yields h.wired (Sound.slot_lt hd) rfl present inside ht e)
    (setLeaf_yields h.wired' (Sound.slot_lt hd) (h.slot d) present (h.alike.size ▸ inside) ht e)
    (hk (h.setLeaf placed table t e))

end Bound

/-- The page behind an address, if there is one, is the same. -/
theorem leafAt?_twins {k : Option Entry → Kernel α} {va : Nat} (h : w.Paired v K)
    (hd : dirIndex va < mountTableSlot)
    (hk : Twins (k (if (w.entry w.root (dirIndex va)).isPresent = true ∧
        (w.entry (w.entry w.root (dirIndex va)).frame (tableIndex va)).isPresent = true then
          some (w.entry (w.entry w.root (dirIndex va)).frame (tableIndex va)) else none)) w v R) :
    Twins (leafAt? va >>= k) w v R := by
  obtain ⟨role, placed⟩ := h.placed
  have left := leafAt?_yields h.wired rfl fun present => (h.table placed hd present).2.1
  have right := leafAt?_yields h.wired' (h.slot _)
    fun present => h.alike.size ▸ (h.table placed hd present).2.1
  by_cases present : (w.entry w.root (dirIndex va)).isPresent = true
  · have same : v.entry (w.entry w.root (dirIndex va)).frame (tableIndex va) =
        w.entry (w.entry w.root (dirIndex va)).frame (tableIndex va) :=
      congrArg (Page.entry · _) (h.table placed hd present).2.2
    rw [same] at right
    exact .step left right hk
  · rw [if_neg fun both => present both.1] at left right hk
    exact .step left right hk

/-! ## The books -/

section Books
variable (books : v.toBooks = w.toBooks)
include books

/-- A change to the books that depends on them alone. -/
theorem modify_twins {Q : Unit → Snapshot → Snapshot → Prop} {g : KernelState → KernelState}
    (b : Books → Books) (hg : ∀ s, (g s).snapshot = s.snapshot.book (b s.snapshot.toBooks))
    (hQ : Q () (w.book (b w.toBooks)) (v.book (b w.toBooks))) : Twins (modify g) w v Q := by
  refine .of_yields (modify_yields ?_) (modify_yields ?_) hQ
  · rintro s rfl
    exact hg s
  · rintro t rfl
    rw [hg, books]

/-- The same frame is first in line on both sides. -/
theorem acquireRaw_twins {Q : Nat → Snapshot → Snapshot → Prop}
    (hQ : ∀ f rest, w.free = f :: rest → Q f (w.book { w.toBooks with free := rest })
      (v.book { w.toBooks with free := rest })) : Twins acquireRaw w v Q := by
  refine .get (fun s t hs ht => ?_) fun s hs => ?_
  · subst hs ht
    have pool : t.pool = s.pool := congrArg (fun b : Books => FramePool.mk b.free) books
    rw [pool]
  · cases hp : s.pool.free with
    | nil =>
      rw [show s.pool.alloc? = none by simp [FramePool.alloc?, hp]]
      exact .halt _
    | cons f rest =>
      rw [show s.pool.alloc? = some (f, ⟨rest⟩) by simp [FramePool.alloc?, hp]]
      refine .bind (modify_twins books (fun b => { b with free := rest }) (fun _ => rfl) ?_)
      exact .pure (hQ f rest (hs ▸ hp))

theorem release_twins {Q : Unit → Snapshot → Snapshot → Prop} (f : Nat)
    (hQ : Q () (w.book { w.toBooks with free := f :: w.free })
      (v.book { w.toBooks with free := f :: w.free })) : Twins (release f) w v Q := by
  refine .step (note_yields _ w) (note_yields _ v) (.get (fun s t hs ht => ?_) fun s hs => ?_)
  · subst hs ht
    have pool : t.pool = s.pool := congrArg (fun b : Books => FramePool.mk b.free) books
    rw [pool]
  · cases released : s.pool.release f with
    | error c => exact .violate c
    | ok pool =>
      unfold FramePool.release at released
      split at released
      · cases released
      · cases released
        subst hs
        exact modify_twins books (fun b => { b with free := f :: s.pool.free }) (fun _ => rfl) hQ

/-- A change to the share counts, unless it leaves their range. -/
theorem shares_twins {Q : Unit → Snapshot → Snapshot → Prop} {x : Kernel Unit}
    (g : Shares → Except Violation Shares) (hx : x = do
      match g (← get).shares with
      | .ok shares => modify fun s => { s with shares }
      | .error v => violate v)
    (hQ : ∀ c, g w.shares = .ok c → Q () (w.book { w.toBooks with shares := c })
      (v.book { w.toBooks with shares := c })) : Twins x w v Q := by
  subst hx
  refine .get (fun s t hs ht => ?_) fun s hs => ?_
  · subst hs ht
    have same : t.shares = s.shares := congrArg Books.shares books
    rw [same]
  · have same : s.shares = w.shares := congrArg (fun u : Snapshot => u.shares) hs
    rw [same]
    cases changed : g w.shares with
    | error e => exact .violate e
    | ok c =>
      exact modify_twins books (fun b => { b with shares := c }) (fun _ => rfl) (hQ c changed)

theorem shareFrame_twins {Q : Unit → Snapshot → Snapshot → Prop} (f : Nat)
    (hQ : Q () (w.book { w.toBooks with shares := w.shares.set f (w.shares.get f + 1) })
      (v.book { w.toBooks with shares := w.shares.set f (w.shares.get f + 1) })) :
    Twins (shareFrame f) w v Q := by
  refine shares_twins books (·.increment f) rfl fun c counted => ?_
  simp only [Shares.increment] at counted
  split at counted
  · cases counted
    exact hQ
  · cases counted

theorem unshareFrame_twins {Q : Unit → Snapshot → Snapshot → Prop} (f : Nat)
    (hQ : w.shares.get f ≠ 0 →
      Q () (w.book { w.toBooks with shares := w.shares.set f (w.shares.get f - 1) })
        (v.book { w.toBooks with shares := w.shares.set f (w.shares.get f - 1) })) :
    Twins (unshareFrame f) w v Q := by
  refine shares_twins books (·.decrement f) rfl fun c counted => ?_
  simp only [Shares.decrement] at counted
  split at counted
  · cases counted
  · cases counted
    exact hQ ‹_›

theorem countEntry_twins {Q : Unit → Snapshot → Snapshot → Prop} (f : Nat)
    (hQ : ∀ o, Q () (w.book { w.toBooks with occupancy := o })
      (v.book { w.toBooks with occupancy := o })) : Twins (countEntry f) w v Q := by
  refine .get (fun s t hs ht => ?_) fun s hs => ?_
  · subst hs ht
    have same : t.occupancy = s.occupancy := congrArg Books.occupancy books
    rw [same]
  · cases s.occupancy.increment f with
    | error c => exact .halt c
    | ok o => exact modify_twins books (fun b => { b with occupancy := o }) (fun _ => rfl) (hQ o)

theorem discountEntry_twins {Q : Nat → Snapshot → Snapshot → Prop} (f : Nat)
    (hQ : ∀ n o, Q n (w.book { w.toBooks with occupancy := o })
      (v.book { w.toBooks with occupancy := o })) : Twins (discountEntry f) w v Q := by
  refine .get (fun s t hs ht => ?_) fun s hs => ?_
  · subst hs ht
    have same : t.occupancy = s.occupancy := congrArg Books.occupancy books
    rw [same]
  · cases s.occupancy.decrement f with
    | error c => exact .halt c
    | ok o =>
      refine .bind (modify_twins books (fun b => { b with occupancy := o }) (fun _ => rfl) ?_)
      exact .pure (hQ _ o)

theorem tableOccupancy_twins {Q : Nat → Snapshot → Snapshot → Prop} (f : Nat)
    (hQ : Q (w.occupancy.get f) w v) : Twins (tableOccupancy f) w v Q := by
  have right := tableOccupancy_yields f v
  rw [show v.occupancy = w.occupancy from congrArg Books.occupancy books] at right
  exact .of_yields (tableOccupancy_yields f w) right hQ

theorem shareCount_twins {k : Nat → Kernel α} (f : Nat) (hk : Twins (k (w.shares.get f)) w v R) :
    Twins (shareCount f >>= k) w v R := by
  have right := shareCount_yields f v
  rw [show v.shares = w.shares from congrArg Books.shares books] at right
  exact .step (shareCount_yields f w) right hk

end Books

/-! ## The window -/

theorem withFrame_twins {body : Kernel α} (hw : w.Wired) (hv : v.Wired)
    (hf : isAligned f = true)
    (window : v.entry mountTable mountEntry = w.entry mountTable mountEntry)
    (h : Twins body (w.mount f) (v.mount f) fun a w' v' => ∃ u u', w' = u.mount f ∧
      v' = u'.mount f ∧ (u.Wired ∧ u.entry mountTable mountEntry = w.entry mountTable mountEntry) ∧
      (u'.Wired ∧ u'.entry mountTable mountEntry = w.entry mountTable mountEntry) ∧ R a u u') :
    Twins (withFrame f body) w v R := by
  rw [withFrame, if_pos hf]
  refine .step (windowSlot_yields hw) (windowSlot_yields hv) ?_
  refine .step (loadEntry_yields hw.isFrame_mountTable (by decide))
    (window ▸ loadEntry_yields hv.isFrame_mountTable (by decide)) ?_
  refine .step (storeEntry_yields hw.isFrame_mountTable (by decide) _)
    (storeEntry_yields hv.isFrame_mountTable (by decide) _) ?_
  refine .step (invalidatePage_yields _ _) (invalidatePage_yields _ _) (.ensuring (h.mono ?_))
  rintro a _ _ ⟨u, u', rfl, rfl, ⟨hu, same⟩, ⟨hu', same'⟩, ends⟩
  have left := setWindow_yields (hu.mount f) (u.entry mountTable mountEntry)
  have right := setWindow_yields (hu'.mount f) (u'.entry mountTable mountEntry)
  rw [unmount, same] at left
  rw [unmount, same'] at right
  exact ⟨u, u', left, right, ends⟩

/-! ## Binding -/

/-- A frame from the pool comes cleared on both sides. -/
theorem acquire_twins {Q : Nat → Snapshot → Snapshot → Prop} (hw : w.Wired) (alike : w.Alike v K)
    (hv : v.Wired) (usable : ∀ f ∈ w.free, Ram.IsFrame w.size f ∧ f ≠ mountTable ∧ f ≠ w.root)
    (hQ : ∀ f rest, w.free = f :: rest →
      Q f ((w.book { w.toBooks with free := rest }).setPage f Page.zero)
        ((v.book { w.toBooks with free := rest }).setPage f Page.zero)) :
    Twins acquire w v Q := by
  refine .bind (acquireRaw_twins alike.books fun f rest first => ?_)
  obtain ⟨inside, hm, hr⟩ := usable f (first ▸ List.mem_cons_self)
  have right := zero_yields (hv.book { w.toBooks with free := rest }) (alike.size ▸ inside) hm
    (alike.root ▸ hr)
  refine .step (zero_yields (hw.book { w.toBooks with free := rest }) inside hm hr) right ?_
  exact .step (note_yields _ _) (note_yields _ _) (.pure (hQ f rest first))

/-- A new table is bound at slot `d`. -/
theorem newTable_twins {k : Nat → Unit → Kernel α} (h : w.Paired v K) (hd : d < mountTableSlot)
    (hk : ∀ f w' v', w'.Paired v' K → w.Edits w' → w'.entry w.root d = .of f prot.entryFlags →
      Twins (k f ()) w' v' R) :
    Twins (allocateTable >>= fun f => bindTable f d prot >>= k f) w v R := by
  obtain ⟨role, placed⟩ := h.placed
  refine .bind (acquire_twins h.wired h.alike h.wired' placed.lodged.usable fun f rest first => ?_)
  obtain ⟨inside, hm, hr⟩ := placed.lodged.usable f (first ▸ List.mem_cons_self)
  have wired := (h.wired.book { w.toBooks with free := rest }).setPage hr Page.zero
  have wired' := (h.wired'.book { w.toBooks with free := rest }).setPage (f := f)
    (by rw [root_book, h.alike.root]; exact hr) Page.zero
  refine .step (bindTable_yields wired inside hm (Sound.slot_lt hd) prot)
    (bindTable_yields wired' (h.alike.size ▸ inside) hm (Sound.slot_lt hd) prot) ?_
  exact hk f _ _ (h.newTable hd first prot) (.newTable placed hd first prot)
    ((entry_setEntry _ w.root _ (Sound.slot_lt hd) (Sound.slot_lt hd)).trans (if_pos ⟨rfl, rfl⟩))

end Kernel
end VirtualMemory
