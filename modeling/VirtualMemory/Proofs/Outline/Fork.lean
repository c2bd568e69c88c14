import VirtualMemory.AddressSpace.Fork
import VirtualMemory.Proofs.Outline.Spaces

/-!
# Fork without preconditions

A fork may name one space twice, and a child that has tables. It then goes through stale entries of
the stored directory, and leaves behind the tables that it binds over. Entries lose a right there,
but none of them leads elsewhere. Each slot that a fork reads as present gets a table from the pool,
whose entries lead where those of the table read do, and each of them is counted once.
-/
namespace VirtualMemory

open Layout

namespace Snapshot

/-- Work on a table of slot `d` and on a mounted frame. -/
structure Copying (w v : Snapshot) (d : Nat) : Prop where
  edits : w.Edits v
  slot : v.entry v.root d = w.entry w.root d
  window : v.page mountTable = w.page mountTable

namespace Copying

variable {w v : Snapshot} {role : Nat → Role} {f d i : Nat} {e : Entry}

theorem refl (h : w.Placed role) (d : Nat) : w.Copying w d := ⟨.refl h, rfl, rfl⟩

theorem setEntry (h : w.Copying v d) (hm : f ≠ mountTable) (hr : f ≠ v.root)
    (moved : v.Edits (v.setEntry f i e)) : w.Copying (v.setEntry f i e) d where
  edits := h.edits.trans moved
  slot := (entry_setPage_of_ne _ _ _ hr.symm d).trans h.slot
  window := (page_setEntry ..).trans ((if_neg hm.symm).trans h.window)

theorem rebook (h : w.Copying v d) {b : Books} (free : b.free = v.free)
    (spaces : b.spaces = v.spaces) : w.Copying (v.book b) d where
  edits := by
    obtain ⟨role, placed⟩ := h.edits.placed
    exact h.edits.trans (.rebook placed free spaces)
  slot := h.slot
  window := h.window

theorem wired (h : w.Copying v d) : v.Wired := by
  obtain ⟨role, placed⟩ := h.edits.placed
  exact placed.lodged.wired

theorem table (h : w.Copying v d) (hd : d < mountTableSlot)
    (present : (w.entry w.root d).isPresent = true) : (v.entry v.root d).isPresent = true ∧
      Ram.IsFrame v.size (v.entry v.root d).frame ∧ (v.entry v.root d).frame ≠ mountTable := by
  obtain ⟨role, placed⟩ := h.edits.placed
  have bound : (v.entry v.root d).isPresent = true := h.slot.symm ▸ present
  have table := placed.lodged.table_here hd bound
  exact ⟨bound, placed.lodged.isFrame (by simp [table]), placed.lodged.ne_mount (by simp [table])⟩

/-- An entry of the mounted frame loses the write right. -/
theorem narrow (h : w.Copying v d) (hi : i < tableEntries) (hm : f ≠ mountTable) (hr : f ≠ v.root) :
    w.Copying (v.setEntry f i ((v.entry f i).clear EntryFlags.writable)) d := by
  obtain ⟨role, placed⟩ := h.edits.placed
  exact h.setEntry hm hr (.retarget placed hi
    ⟨Entry.isPresent_clear_writable _, fun _ => Entry.frame_clear_writable _⟩)

theorem setLeaf (h : w.Copying v d) (hd : d < mountTableSlot)
    (present : (w.entry w.root d).isPresent = true) (i : Nat) (e : Entry) :
    w.Copying (v.setEntry (v.entry v.root d).frame i e) d := by
  obtain ⟨role, placed⟩ := h.edits.placed
  obtain ⟨bound, -, hm⟩ := h.table hd present
  have table := placed.lodged.table_here hd bound
  exact h.setEntry hm (placed.lodged.ne_root (by simp [table])) (.setLeaf placed table i e)

end Copying

/-- How many of the first `n` entries of frame `f` lead to `g`. -/
def leadsIn (w : Snapshot) (f n g : Nat) : Nat :=
  Nat.count (fun i => (w.entry f i).isPresent = true ∧ (w.entry f i).frame = g) n

/-- The first `n` entries of the mounted frame `source` are in `table`, which is bound at slot `d`
and was empty. Each of them is counted. -/
structure Duplicates (w v : Snapshot) (d n source table : Nat) : Prop extends w.Copying v d where
  free : v.free = w.free
  others : ∀ f i, f ≠ table → i < tableEntries → (v.entry f i).SameTarget (w.entry f i)
  done : ∀ i < n, (v.entry table i).SameTarget (w.entry source i)
  todo : ∀ i, n ≤ i → i < tableEntries → (v.entry table i).isPresent = false
  count : v.occupancy.get table ≤ n
  records : ∀ f, f ≠ table → v.occupancy.get f = w.occupancy.get f ∧
    (f ∈ v.occupancy.counts ↔ f ∈ w.occupancy.counts)
  shares : ∀ f, v.shares.get f = w.shares.get f + w.leadsIn source n f

variable {w v u : Snapshot} {role : Nat → Role} {d f g k n t p source table parent child : Nat}
  {e : Entry} {r : SpaceRecord}

theorem leadsIn_succ (w : Snapshot) (f n g : Nat) : w.leadsIn f (n + 1) g = w.leadsIn f n g +
    if (w.entry f n).isPresent = true ∧ (w.entry f n).frame = g then 1 else 0 := Nat.count_succ ..

theorem Duplicates.start (h : w.Placed role) (d source : Nat)
    (empty : ∀ i < tableEntries, (w.entry table i).isPresent = false)
    (zero : w.occupancy.get table = 0) : w.Duplicates w d 0 source table where
  toCopying := .refl h d
  free := rfl
  others _ _ _ _ := .refl _
  done _ hi := absurd hi (Nat.not_lt_zero _)
  todo i _ hi := empty i hi
  count := zero.le
  records _ _ := ⟨rfl, Iff.rfl⟩
  shares f := by rw [leadsIn, Nat.count_zero, Nat.add_zero]

/-- The entry that is read is one that was there from the start: if the table is its own source,
nothing is ever there to be read. -/
theorem Duplicates.read (h : w.Duplicates v d n source table) (hn : n < tableEntries)
    (empty : ∀ i < tableEntries, (w.entry table i).isPresent = false) :
    (v.entry source n).SameTarget (w.entry source n) := by
  by_cases own : source = table
  · rw [own]
    exact .of_absent (h.todo n (Nat.le_refl n) hn) (empty n hn)
  · exact h.others source n own hn

/-- An absent entry is passed over. -/
theorem Duplicates.skip (h : w.Duplicates v d n source table) (hn : n < tableEntries)
    (empty : ∀ i < tableEntries, (w.entry table i).isPresent = false)
    (absent : (v.entry source n).isPresent = false) : w.Duplicates v d (n + 1) source table where
  toCopying := h.toCopying
  free := h.free
  others := h.others
  done i hi := by
    obtain before | rfl := Nat.lt_succ_iff_lt_or_eq.1 hi
    · exact h.done i before
    · exact .of_absent (h.todo i (Nat.le_refl i) hn) ((h.read hn empty).present ▸ absent)
  todo i hi := h.todo i (Nat.le_of_succ_le hi)
  count := h.count.trans (Nat.le_succ n)
  records := h.records
  shares f := by
    have gone : ¬ ((w.entry source n).isPresent = true ∧ (w.entry source n).frame = f) := by
      rw [← (h.read hn empty).present, absent]
      exact fun both => Bool.false_ne_true both.1
    rw [leadsIn_succ, if_neg gone, Nat.add_zero, h.shares]

/-- A present entry is written to both, and counted in both books. -/
theorem Duplicates.next (h : w.Duplicates v d n source table) (hn : n < tableEntries)
    (empty : ∀ i < tableEntries, (w.entry table i).isPresent = false)
    (present : (v.entry source n).isPresent = true) (same : e.SameTarget (v.entry source n))
    (hu : u = ((v.setEntry source n e).setEntry table n e).book { v.toBooks with
      occupancy := v.occupancy.set table (v.occupancy.get table + 1)
      shares := v.shares.set e.frame (v.shares.get e.frame + 1) })
    (copying : w.Copying u d) : w.Duplicates u d (n + 1) source table := by
  have read := h.read hn empty
  have here := same.trans read
  have own : source ≠ table := by
    rintro rfl
    rw [h.todo n (Nat.le_refl n) hn] at present
    cases present
  have entry (f i : Nat) (hi : i < tableEntries) : u.entry f i =
      if (f = table ∨ f = source) ∧ i = n then e else v.entry f i := by
    rw [hu, entry_book, entry_setEntry _ _ _ hn hi, entry_setEntry _ _ _ hn hi]
    by_cases at_n : i = n <;> by_cases first : f = table <;> simp [at_n, first]
  refine ⟨copying, by rw [hu]; exact h.free, fun f i other hi => ?_, fun i hi => ?_,
    fun i hi hi' => ?_, ?_, fun f other => ?_, fun f => ?_⟩
  · rw [entry f i hi]
    split
    · rename_i both
      obtain ⟨rfl | rfl, rfl⟩ := both
      · exact absurd rfl other
      · exact here
    · exact h.others f i other hi
  · obtain before | rfl := Nat.lt_succ_iff_lt_or_eq.1 hi
    · rw [entry table i (before.trans hn), if_neg fun both => before.ne both.2]
      exact h.done i before
    · rw [entry table i hn, if_pos ⟨.inl rfl, rfl⟩]
      exact here
  · rw [entry table i hi', if_neg fun both => (Nat.lt_of_succ_le hi).ne' both.2]
    exact h.todo i (Nat.le_of_succ_le hi) hi'
  · rw [hu]
    exact (Occupancy.get_set ..).trans_le ((if_pos rfl).trans_le (Nat.succ_le_succ h.count))
  · have records := h.records f other
    rw [hu]
    refine ⟨(Occupancy.get_set ..).trans ((if_neg (Ne.symm other)).trans records.1), ?_⟩
    exact Occupancy.mem_set.trans ((or_iff_right (Ne.symm other)).trans records.2)
  · have there : (w.entry source n).isPresent = true := read.present ▸ present
    have frame : (w.entry source n).frame = e.frame :=
      (here.frame (here.present.trans there)).symm
    rw [hu]
    refine (Shares.get_set ..).trans ?_
    rw [leadsIn_succ, frame, h.shares, h.shares]
    simp only [there, true_and]
    split <;> simp_all [Nat.add_assoc]

/-- A table from the pool is bound at slot `d`, where it hides the table that was bound there. -/
structure Lays (w v : Snapshot) (d table : Nat) : Prop where
  edits : w.Edits v
  free : w.free = table :: v.free
  bound : (v.entry v.root d).isPresent = true
  frame : (v.entry v.root d).frame = table
  slots : ∀ i < tableEntries, i ≠ d → (v.entry v.root i).SameTarget (w.entry w.root i)
  others : ∀ f i, f ≠ w.root → f ≠ table → i < tableEntries →
    (v.entry f i).SameTarget (w.entry f i)
  records : ∀ f, f ≠ table → v.occupancy.get f = w.occupancy.get f ∧
    (f ∈ v.occupancy.counts ↔ f ∈ w.occupancy.counts)
  shares : ∀ f, v.shares.get f = w.shares.get f + v.leadsIn table tableEntries f

/-- How many of the first `n` pages of space `p` in `v` are in frame `f`, with tables that were in
the pool of `w`. -/
def newPagesIn (w v : Snapshot) (p n f : Nat) : Nat :=
  Nat.count (fun i => (v.slotAt (.user p (i / tableEntries))).frame ∈ w.free ∧
    (v.leaf? (.user p (i / tableEntries)) (i % tableEntries)).map Entry.frame = some f) n

/-- Of the first `k` slots of the active space, those that are present in the stored directory `dir`
have tables from the pool. -/
structure Overlays (w v : Snapshot) (dir k : Nat) : Prop where
  edits : w.Edits v
  free : v.free <:+ w.free
  drawn : w.free.length =
    v.free.length + Nat.count (fun d => (w.entry dir d).isPresent = true) k
  slots : ∀ d < tableEntries, ¬ (d < k ∧ (w.entry dir d).isPresent = true) →
    (v.entry v.root d).SameTarget (w.entry w.root d)
  others : ∀ f i, f ≠ w.root → f ∉ w.free → i < tableEntries →
    (v.entry f i).SameTarget (w.entry f i)
  bound : ∀ d < k, (w.entry dir d).isPresent = true → (v.entry v.root d).isPresent = true ∧
    (v.entry v.root d).frame ∈ w.free ∧ (v.entry v.root d).frame ∉ v.free
  records : ∀ f, (∀ d < k, (w.entry dir d).isPresent = true → (v.entry v.root d).frame ≠ f) →
    v.occupancy.get f = w.occupancy.get f ∧ (f ∈ v.occupancy.counts ↔ f ∈ w.occupancy.counts)
  shares : ∀ f, v.shares.get f =
    w.shares.get f + w.newPagesIn v w.spaces.active (k * tableEntries) f

/-- Entries that lead to the same frames are counted alike. -/
theorem leadsIn_congr (same : ∀ i < n, (v.entry g i).SameTarget (w.entry f i)) (a : Nat) :
    v.leadsIn g n a = w.leadsIn f n a := by
  refine count_congr fun i hi => ?_
  rw [(same i hi).present]
  refine and_congr_right fun present => ?_
  rw [(same i hi).frame ((same i hi).present.trans present)]

/-- The table that was bound for it holds all that was read. -/
theorem Duplicates.lays {rest : List Nat} {prot : Protection} (h : w.Placed role)
    (hd : d < mountTableSlot) (first : w.free = table :: rest)
    (copies : (((w.book { w.toBooks with free := rest }).setPage table Page.zero).bound
      table d prot).Duplicates v d tableEntries source table) : w.Lays v d table := by
  obtain ⟨inside, -, away⟩ := h.lodged.usable table (first ▸ List.mem_cons_self)
  have bound := Edits.newTable h hd first prot
  have hd' := Sound.slot_lt hd
  set x := ((w.book { w.toBooks with free := rest }).setPage table Page.zero).bound table d prot
    with hx
  have entry (f i : Nat) (hi : i < tableEntries) : x.entry f i =
      if f = w.root ∧ i = d then .of table prot.entryFlags
      else if f = table then .empty else w.entry f i := by
    refine (entry_setEntry _ _ _ hd' hi).trans (if_congr Iff.rfl rfl ?_)
    rw [entry_book, Snapshot.entry, page_setPage]
    split
    · exact Page.entry_zero i
    · rfl
  have slot : v.entry v.root d = .of table prot.entryFlags := by
    rw [copies.slot, entry _ _ hd', if_pos ⟨bound.root, rfl⟩]
  refine ⟨bound.trans copies.edits, ?_, ?_, ?_, fun i hi other => ?_, fun f i hr other hi => ?_,
    fun f other => ?_, fun f => ?_⟩
  · rw [copies.free, first]
    rfl
  · rw [slot]
    exact Entry.isPresent_entryFlags table prot
  · rw [slot]
    exact h.lodged.wired.frame_of inside prot.low_entryFlags
  · have same := copies.others w.root i away.symm hi
    rw [entry _ _ hi, if_neg (other ·.2), if_neg away.symm] at same
    rwa [copies.edits.root, bound.root]
  · have same := copies.others f i other hi
    rwa [entry _ _ hi, if_neg (hr ·.1), if_neg other] at same
  · have seeded : x.occupancy = w.occupancy.seed table 0 := by
      rw [hx]
      change w.occupancy.seed table (Page.presentCount _) = _
      rw [page_setPage_self, Page.presentCount_zero]
    have records := copies.records f other
    rw [seeded, Occupancy.get_seed, Occupancy.mem_seed, if_neg other.symm, if_neg other.symm]
      at records
    exact records
  · rw [copies.shares, leadsIn_congr copies.done]
    rfl

/-! ## Slot by slot -/

theorem leaf?_frame_iff {π : Place} : (w.leaf? π t).map Entry.frame = some f ↔
    (w.slotAt π).isPresent = true ∧ (w.leafAt π t).isPresent = true ∧
      (w.leafAt π t).frame = f := by
  rw [Option.map_eq_some_iff]
  constructor
  · rintro ⟨e, leaf, rfl⟩
    obtain ⟨slot, present, rfl⟩ := leaf?_eq_some.1 leaf
    exact ⟨slot, present, rfl⟩
  · rintro ⟨slot, present, rfl⟩
    exact ⟨_, leaf?_eq_some.2 ⟨slot, present, rfl⟩, rfl⟩

/-- A page stays in its frame if neither level leads elsewhere. -/
theorem leaf?_frame_congr {π : Place} (slot : (v.slotAt π).SameTarget (w.slotAt π))
    (table : (w.slotAt π).isPresent = true →
      (v.entry (w.slotAt π).frame t).SameTarget (w.leafAt π t)) :
    (v.leaf? π t).map Entry.frame = (w.leaf? π t).map Entry.frame := by
  refine Option.ext fun f => ?_
  rw [leaf?_frame_iff, leaf?_frame_iff, slot.present]
  refine and_congr_right fun present => ?_
  rw [leafAt, slot.frame (slot.present.trans present), (table present).present]
  refine and_congr_right fun there => ?_
  rw [(table present).frame ((table present).present.trans there)]

theorem slotAt_active (w : Snapshot) (d : Nat) :
    w.slotAt (.user w.spaces.active d) = w.entry w.root d := by rw [slotAt, home_active]

theorem newPagesIn_succ (w v : Snapshot) (p k f : Nat) :
    w.newPagesIn v p ((k + 1) * tableEntries) f = w.newPagesIn v p (k * tableEntries) f +
      Nat.count (fun t => (v.slotAt (.user p k)).frame ∈ w.free ∧
        (v.leaf? (.user p k) t).map Entry.frame = some f) tableEntries := by
  rw [newPagesIn, Nat.succ_mul, Nat.count_add, newPagesIn]
  refine congrArg _ (count_congr fun t ht => ?_)
  have slot : (k * tableEntries + t) / tableEntries = k := by
    simp only [tableEntries] at *
    omega
  have index : (k * tableEntries + t) % tableEntries = t := by
    simp only [tableEntries] at *
    omega
  rw [slot, index]

/-- The count is of the places alone. -/
theorem newPagesIn_congr
    (slot : ∀ d < k, (u.slotAt (.user p d)).SameTarget (v.slotAt (.user p d)))
    (page : ∀ d < k, ∀ t < tableEntries,
      (u.leaf? (.user p d) t).map Entry.frame = (v.leaf? (.user p d) t).map Entry.frame)
    (f : Nat) : w.newPagesIn u p (k * tableEntries) f = w.newPagesIn v p (k * tableEntries) f := by
  refine count_congr fun i hi => ?_
  have hd : i / tableEntries < k :=
    Nat.div_lt_of_lt_mul (by rwa [Nat.mul_comm])
  rw [page _ hd _ (Nat.mod_lt _ (by decide))]
  refine and_congr_left fun leaf => ?_
  have same := slot _ hd
  rw [same.frame (same.present.trans (leaf?_frame_iff.1 leaf).1)]

namespace Overlays

variable {dir : Nat}

theorem start (h : w.Placed role) (dir : Nat) : w.Overlays w dir 0 where
  edits := .refl h
  free := List.suffix_refl _
  drawn := by rw [Nat.count_zero, Nat.add_zero]
  others _ _ _ _ _ := .refl _
  slots _ _ _ := .refl _
  bound _ hd := absurd hd (Nat.not_lt_zero _)
  records _ _ := ⟨rfl, Iff.rfl⟩
  shares f := by rw [newPagesIn, Nat.zero_mul, Nat.count_zero, Nat.add_zero]

/-- A slot that is absent there is passed over. -/
theorem skip (h : w.Overlays v dir k) (placed : w.Placed role) (hk : k < userSlots)
    (absent : (w.entry dir k).isPresent = false) : w.Overlays v dir (k + 1) where
  edits := h.edits
  free := h.free
  drawn := by rw [Nat.count_succ, if_neg (by simp [absent]), Nat.add_zero, h.drawn]
  slots d hd out := h.slots d hd fun both => out ⟨Nat.lt_succ_of_lt both.1, both.2⟩
  others := h.others
  bound d hd there := by
    obtain before | rfl := Nat.lt_succ_iff_lt_or_eq.1 hd
    · exact h.bound d before there
    · rw [absent] at there
      cases there
  records f other := h.records f fun d hd => other d (Nat.lt_succ_of_lt hd)
  shares f := by
    have hk' : k < tableEntries := hk.trans (by decide)
    have same := h.slots k hk' fun both => Nat.lt_irrefl _ both.1
    have none : Nat.count (fun t => (v.slotAt (.user w.spaces.active k)).frame ∈ w.free ∧
        (v.leaf? (.user w.spaces.active k) t).map Entry.frame = some f) tableEntries = 0 := by
      refine Nat.count_iff_forall_not.2 fun t _ => ?_
      rintro ⟨mem, page⟩
      have present := (leaf?_frame_iff.1 page).1
      rw [← h.edits.spaces, slotAt_active] at mem present
      rw [same.frame present] at mem
      rw [same.present] at present
      have table := placed.lodged.table_here (hk.trans (by decide)) present
      rw [(placed.lodged.free _).2 mem] at table
      cases table
    rw [newPagesIn_succ, none, Nat.add_zero, h.shares]

/-- A slot that is present there gets a table. -/
theorem next (h : w.Overlays v dir k) (hk : k < userSlots)
    (present : (w.entry dir k).isPresent = true) (lays : v.Lays u k table) :
    w.Overlays u dir (k + 1) := by
  obtain ⟨role', placed'⟩ := h.edits.placed
  have hk' : k < tableEntries := hk.trans (by decide)
  have nodup := placed'.lodged.nodup
  rw [lays.free, List.nodup_cons] at nodup
  have taken : table ∈ w.free := h.free.subset (lays.free ▸ List.mem_cons_self)
  have free : u.free <:+ v.free := lays.free ▸ List.suffix_cons _ _
  refine ⟨h.edits.trans lays.edits, free.trans h.free, ?_, fun d hd out => ?_,
    fun f i hr hf hi => ?_, fun d hd there => ?_, fun f other => ?_, fun f => ?_⟩
  · rw [Nat.count_succ, if_pos present, h.drawn, lays.free, List.length_cons]
    omega
  · have other : d ≠ k := by
      rintro rfl
      exact out ⟨Nat.lt_succ_self d, present⟩
    exact (lays.slots d hd other).trans
      (h.slots d hd fun both => out ⟨Nat.lt_succ_of_lt both.1, both.2⟩)
  · have other : f ≠ table := by
      rintro rfl
      exact hf taken
    exact (lays.others f i (h.edits.root ▸ hr) other hi).trans (h.others f i hr hf hi)
  · obtain before | rfl := Nat.lt_succ_iff_lt_or_eq.1 hd
    · obtain ⟨bound, mem, out⟩ := h.bound d before there
      have same := lays.slots d (before.trans hk') before.ne
      rw [same.present, same.frame (same.present.trans bound)]
      exact ⟨bound, mem, fun mem' => out (free.subset mem')⟩
    · rw [lays.frame]
      exact ⟨lays.bound, taken, nodup.1⟩
  · have apart : f ≠ table := fun same =>
      other k (Nat.lt_succ_self k) present (lays.frame.trans same.symm)
    have earlier := h.records f fun d hd there => by
      have same := lays.slots d (hd.trans hk') hd.ne
      rw [← same.frame (same.present.trans (h.bound d hd there).1)]
      exact other d (Nat.lt_succ_of_lt hd) there
    exact ⟨(lays.records f apart).1.trans earlier.1, (lays.records f apart).2.trans earlier.2⟩
  · have active : u.spaces.active = w.spaces.active := by rw [lays.edits.spaces, h.edits.spaces]
    have active' : v.spaces.active = w.spaces.active := by rw [h.edits.spaces]
    have slot (d : Nat) (hd : d < k) : (u.slotAt (.user w.spaces.active d)).SameTarget
        (v.slotAt (.user w.spaces.active d)) := by
      have same := lays.slots d (hd.trans hk') hd.ne
      rwa [← slotAt_active, ← slotAt_active, active, active'] at same
    have earlier := newPagesIn_congr (w := w) slot (fun d hd t ht =>
      leaf?_frame_congr (slot d hd) fun bound => ?_) f
    · have last : Nat.count (fun t => (u.slotAt (.user w.spaces.active k)).frame ∈ w.free ∧
          (u.leaf? (.user w.spaces.active k) t).map Entry.frame = some f) tableEntries =
          u.leadsIn table tableEntries f := by
        refine count_congr fun t _ => ?_
        rw [leaf?_frame_iff, leafAt, ← active, slotAt_active, lays.frame]
        simp only [taken, lays.bound, true_and]
      rw [newPagesIn_succ, last, earlier, lays.shares, h.shares, Nat.add_assoc]
    · have there := placed'.lodged.table_slotAt
        (π := .user w.spaces.active d) ⟨?_, hd.trans hk⟩ bound
      refine lays.others _ t (placed'.lodged.ne_root (by simp [there])) (fun same => ?_) ht
      rw [same, (placed'.lodged.free _).2 (lays.free ▸ List.mem_cons_self)] at there
      cases there
      exact active' ▸ placed'.lodged.live_active

section
variable (h : w.Overlays v dir userSlots) {π : Place} (hπ : w.Has π)
  (out : ∀ d, π = .user w.spaces.active d → (w.entry dir d).isPresent = false)
include h hπ out

/-- What gets no new table leads where it did. -/
theorem slotAt : (v.slotAt π).SameTarget (w.slotAt π) := by
  cases π with
  | user p d =>
    have hd : d < tableEntries := hπ.2.trans (by decide)
    by_cases active : p = w.spaces.active
    · subst active
      have active' : v.spaces.active = w.spaces.active := by rw [h.edits.spaces]
      rw [slotAt_active, ← active', slotAt_active]
      exact h.slots d hd fun both => by simp [out d rfl] at both
    · obtain ⟨r, hr⟩ := Option.isSome_iff_exists.1 hπ.1
      have hr' : v.spaces.find? p = some r := by
        rw [h.edits.spaces]
        exact hr
      have away : p ≠ v.spaces.active := by
        rw [h.edits.spaces]
        exact active
      rw [Snapshot.slotAt, Snapshot.slotAt, home_of_ne active hr, home_of_ne away hr']
      exact h.edits.stored p r d hr hπ.2
  | kernel d => exact h.slots d (Sound.slot_lt hπ.2) fun both => Nat.not_lt.2 hπ.1 both.1

/-- And so do its pages. -/
theorem page (placed : w.Placed role) (ht : t < tableEntries) :
    (v.leaf? π t).map Entry.frame = (w.leaf? π t).map Entry.frame := by
  refine leaf?_frame_congr (h.slotAt hπ out) fun present => ?_
  have table := placed.lodged.table_slotAt hπ present
  refine h.others _ t (placed.lodged.ne_root (by simp [table])) ?_ ht
  rw [← placed.lodged.free, table]
  simp

end

end Overlays

/-! ## From space to space -/

/-- Slot `d` of the parent as a fork reads it, in the frame where the parent's user half is stored
once the child is resident. If the child is the parent itself, nothing has been stored there for
it. -/
def forkSlot (w : Snapshot) (parent child d : Nat) : Entry :=
  if parent = child then
    w.entry (((w.spaces.find? parent).map SpaceRecord.directory).getD w.root) d
  else w.slotAt (.user parent d)

/-- How many tables of the parent a fork reads. -/
def tablesRead (w : Snapshot) (parent child : Nat) : Nat :=
  Nat.count (fun d => (w.forkSlot parent child d).isPresent = true) userSlots

/-- A fork into any live space: where the parent has a table, the child has a new one. -/
structure ForkedOver (w v : Snapshot) (parent child : Nat) : Prop where
  firm : v.Firm
  spaces : v.spaces = { w.spaces with active := parent }
  free : v.free <:+ w.free
  slot : ∀ π, w.Has π →
    (∀ d, π = .user child d → (w.forkSlot parent child d).isPresent = false) →
    (v.slotAt π).SameTarget (w.slotAt π)
  page : ∀ π t, w.Has π → t < tableEntries →
    (∀ d, π = .user child d → (w.forkSlot parent child d).isPresent = false) →
    (v.leaf? π t).map Entry.frame = (w.leaf? π t).map Entry.frame
  bound : ∀ d < userSlots, (w.forkSlot parent child d).isPresent = true →
    (v.slotAt (.user child d)).isPresent = true ∧
      (v.slotAt (.user child d)).frame ∈ w.free ∧ (v.slotAt (.user child d)).frame ∉ v.free
  records : ∀ f, (∀ d < userSlots, (w.forkSlot parent child d).isPresent = true →
    (v.slotAt (.user child d)).frame ≠ f) → v.occupancy.get f = w.occupancy.get f ∧
      (f ∈ v.occupancy.counts ↔ f ∈ w.occupancy.counts)
  shares : ∀ f, v.shares.get f =
    w.shares.get f + w.newPagesIn v child (userSlots * tableEntries) f

/-- Once the child is resident, the parent's slots are read from its own frame. -/
theorem Switched.forkSlot (h : w.Firm) (s : w.Switched v child)
    (still : child = w.spaces.active → v = w) (hr : w.spaces.find? parent = some r) (d : Nat)
    (hd : d < userSlots) : v.entry r.directory d = w.forkSlot parent child d := by
  obtain ⟨role, placed⟩ := h.placed
  unfold Snapshot.forkSlot
  split
  · subst child
    rw [hr, Option.map_some, Option.getD_some]
    by_cases active : parent = w.spaces.active
    · rw [still active]
    · have housed := placed.lodged.housed
      have page := s.page r.directory (housed.ne_root _ _ hr) fun r' hr' same =>
        active (housed.apart _ _ _ _ hr hr' same)
      rw [entry, page, ← entry]
  · rename_i other
    have away : parent ≠ v.spaces.active := by
      rw [s.books]
      exact other
    have same := s.slotAt (.user parent d) ⟨Option.isSome_iff_exists.2 ⟨r, hr⟩, hd⟩
    rw [← same, Snapshot.slotAt, home_of_ne away ((s.find? parent).trans hr)]

/-- All that a fork does between its two switches. -/
theorem Overlays.forkedOver {x : Snapshot} (overlays : u.Overlays v r.directory userSlots)
    (h : w.Firm) (hr : w.spaces.find? parent = some r) (live' : w.Live child)
    (s : w.Switched u child) (still : child = w.spaces.active → u = w) (firm : u.Firm)
    (s' : v.Switched x parent) (done : x.Firm) : w.ForkedOver x parent child := by
  obtain ⟨role, placed⟩ := h.placed
  obtain ⟨role₁, placed₁⟩ := firm.placed
  obtain ⟨role₂, placed₂⟩ := overlays.edits.placed
  have read := s.forkSlot h still hr
  have spaces : v.spaces = { w.spaces with active := child } := by
    rw [overlays.edits.spaces, s.books]
  have active : u.spaces.active = child := by rw [s.books]
  have has (π : Place) (hπ : w.Has π) : u.Has π ∧ v.Has π := by
    have hπ' := (s.has π).2 hπ
    exact ⟨hπ', (has_congr overlays.edits.spaces π).2 hπ'⟩
  have mine (d : Nat) (hd : d < userSlots) : w.Has (.user child d) := ⟨live', hd⟩
  have free : x.free = v.free := by rw [s'.books]
  have free' : u.free = w.free := by rw [s.books]
  have child_slot (d : Nat) (hd : d < userSlots) :
      x.slotAt (.user child d) = v.entry v.root d := by
    rw [s'.slotAt _ (has _ (mine d hd)).2, ← slotAt_active, spaces]
  have kept (π : Place) (hπ : w.Has π)
      (out : ∀ d, π = .user child d → (w.forkSlot parent child d).isPresent = false) (d : Nat)
      (eq : π = .user u.spaces.active d) : (u.entry r.directory d).isPresent = false := by
    rw [active] at eq
    subst eq
    rw [read d hπ.2]
    exact out d rfl
  refine ⟨done, by rw [s'.books, spaces], ?_, fun π hπ out => ?_, fun π t hπ ht out => ?_,
    fun d hd there => ?_, fun f other => ?_, fun f => ?_⟩
  · rw [free, ← free']
    exact overlays.free
  · rw [s'.slotAt π (has π hπ).2, ← s.slotAt π hπ]
    exact overlays.slotAt (has π hπ).1 (kept π hπ out)
  · rw [placed₂.lodged.leaf?_switched s' (has π hπ).2, ← placed.lodged.leaf?_switched s hπ]
    exact overlays.page (has π hπ).1 (kept π hπ out) placed₁ ht
  · rw [← read d hd] at there
    rw [child_slot d hd, free, ← free']
    exact overlays.bound d hd there
  · have same := overlays.records f fun d hd there => by
      rw [read d hd] at there
      rw [← child_slot d hd]
      exact other d hd there
    rw [s.books] at same
    rw [s'.books]
    exact same
  · have count := overlays.shares f
    have pages := newPagesIn_congr (w := w) (p := child) (k := userSlots) (u := x) (v := v)
      (fun d hd => by rw [s'.slotAt _ (has _ (mine d hd)).2]; exact .refl _)
      (fun d hd t _ => by rw [placed₂.lodged.leaf?_switched s' (has _ (mine d hd)).2]) f
    rw [pages, newPagesIn, ← free', ← newPagesIn, s'.books, ← active]
    rw [s.books] at count ⊢
    exact count

end Snapshot

open Snapshot

namespace Kernel

variable {E : Failure → Books → Prop} {w v : Snapshot} {role : Nat → Role}
  {d f k n p t source table parent child : Nat} {r : SpaceRecord}

theorem shareLeaf_copies (h : w.Duplicates v d t source table) (hd : d < mountTableSlot)
    (ht : t < tableEntries) (present : (w.entry w.root d).isPresent = true)
    (frame : (w.entry w.root d).frame = table)
    (empty : ∀ i < tableEntries, (w.entry table i).isPresent = false)
    (inside : Ram.IsFrame w.size source) (hm : source ≠ mountTable) (hr : source ≠ w.root)
    (full : ∀ f b, Shares.countLimit ≤ v.shares.get f + 1 → E (.violation .additionOverflow) b) :
    Leads E (shareLeaf table d t) (v.mount source) fun _ x => ∃ u, x = u.mount source ∧
      w.Duplicates u d (t + 1) source table := by
  have wired := h.wired
  rw [← h.edits.size] at inside
  rw [← h.edits.root] at hr
  refine (windowEntry_yields wired inside hm ht).bind (.ite (fun there => ?_) fun absent =>
    .pure ⟨v, rfl, h.skip ht empty (by simpa using absent)⟩)
  set e := (v.entry source t).clear EntryFlags.writable with he
  have same : e.SameTarget (v.entry source t) :=
    ⟨Entry.isPresent_clear_writable _, fun _ => Entry.frame_clear_writable _⟩
  refine (windowSetEntry_yields wired inside hm ht e).bind ?_
  have narrowed := h.narrow ht hm hr
  obtain ⟨bound, table_inside, table_mount⟩ := narrowed.table hd present
  refine (mountedSetLeaf_yields narrowed.wired (Sound.slot_lt hd) rfl bound table_inside table_mount
    ht _).bind ?_
  have written := narrowed.setLeaf hd present t e
  have slot : ((v.setEntry source t e).entry (v.setEntry source t e).root d).frame = table := by
    rw [narrowed.slot, frame]
  rw [← he, slot] at written
  rw [← he, slot]
  refine (countEntry_yields ?_).bind (.bind (shareFrame_leads (full _ _) ?_))
  · exact h.count.trans_lt ht
  · exact .pure ⟨_, rfl, h.next ht empty there same rfl (written.rebook rfl rfl)⟩

theorem shareTable_lays (h : w.Firm) (hr : w.spaces.find? p = some r) (hd : d < userSlots)
    (out : (w.entry r.directory d).isPresent = true → w.free = [] →
      E (.halt .outOfFrames) w.toBooks)
    (full : ∀ f b, Shares.countLimit ≤ w.shares.get f + tableEntries →
      E (.violation .additionOverflow) b) :
    Leads E (shareTable r.directory d) w fun _ v =>
      (w.entry r.directory d).isPresent = true ∧ (∃ table, w.Lays v d table) ∨
        (w.entry r.directory d).isPresent = false ∧ v = w := by
  obtain ⟨role, placed⟩ := h.placed
  have housed := placed.lodged.housed
  have wired := placed.lodged.wired
  have hd' : d < mountTableSlot := hd.trans (by decide)
  have slot := Sound.slot_lt hd'
  refine (entryOf_yields wired (housed.isFrame _ _ hr) (housed.ne_mount _ _ hr) slot).bind
    (.ite (fun present => ?_) fun absent => .pure (.inr ⟨by simpa using absent, rfl⟩))
  obtain ⟨inside, hm, away⟩ := h.mountable p r d hr hd present
  refine .bind (acquire_leads wired placed.lodged.usable (out present) ?_)
  intro table rest first
  obtain ⟨inside', hm', hr'⟩ := placed.lodged.usable table (first ▸ List.mem_cons_self)
  have bound := Edits.newTable placed hd' first Protection.userRWX
  have cleared := (wired.book { w.toBooks with free := rest }).setPage hr' Page.zero
  refine (bindTable_yields cleared inside' hm' slot Protection.userRWX).bind ?_
  obtain ⟨role', placed'⟩ := bound.placed
  set v := ((w.book { w.toBooks with free := rest }).setPage table Page.zero).bound table d
    Protection.userRWX with hv
  have there : v.entry v.root d = .of table Protection.userRWX.entryFlags :=
    (entry_setEntry _ _ _ slot slot).trans (if_pos ⟨rfl, rfl⟩)
  have empty (i : Nat) (hi : i < tableEntries) : (v.entry table i).isPresent = false := by
    have zero : v.entry table i = .empty := by
      refine (entry_setEntry _ _ _ slot hi).trans ((if_neg (hr' ·.1)).trans ?_)
      rw [entry_book, entry, page_setPage_self, Page.entry_zero]
    rw [zero, Entry.isPresent_empty]
  have zero : v.occupancy.get table = 0 := by
    change (w.occupancy.seed table (Page.presentCount _)).get table = 0
    rw [page_setPage_self, Page.presentCount_zero, Occupancy.get_seed, if_pos rfl, Nat.zero_mod]
  refine withFrame_leads placed'.lodged.wired inside.1 (Leads.mono (Leads.sumEach
    (fun n y => ∃ u, y = u.mount (w.entry r.directory d).frame ∧
      v.Duplicates u d n (w.entry r.directory d).frame table)
    ⟨v, rfl, .start placed' d _ empty zero⟩ ?_) ?_)
  · rintro t _ ht ⟨u, rfl, copies⟩
    rw [Nat.zero_add]
    refine shareLeaf_copies copies hd' ht ?_ ?_ empty inside hm away fun f b many => full f b ?_
    · rw [there]
      exact Entry.isPresent_entryFlags table _
    · rw [there]
      exact wired.frame_of inside' Protection.userRWX.low_entryFlags
    · have counted : v.leadsIn (w.entry r.directory d).frame t f ≤ t := Nat.count_le _
      have shares : v.shares = w.shares := rfl
      rw [copies.shares, shares] at many
      omega
  · rintro _ _ ⟨u, rfl, copies⟩
    have window : u.entry mountTable mountEntry = v.entry mountTable mountEntry :=
      congrArg (Page.entry · mountEntry) copies.window
    exact ⟨u, rfl, copies.wired, window, .inl ⟨present, table, copies.lays placed hd' first⟩⟩

/-- A fork takes one frame for each table that it reads, and counts no frame more often than there
are user pages. -/
theorem shareTables_overlay (h : w.Firm) (hr : w.spaces.find? p = some r)
    (out : ∀ b, w.free.length < Nat.count (fun d => (w.entry r.directory d).isPresent = true)
      userSlots → E (.halt .outOfFrames) b)
    (full : ∀ f b, Shares.countLimit ≤ w.shares.get f + userSlots * tableEntries →
      E (.violation .additionOverflow) b) :
    Leads E (sumEach (shareTable r.directory) 0 userSlots) w fun _ v =>
      w.Overlays v r.directory userSlots := by
  obtain ⟨role, placed⟩ := h.placed
  refine Leads.sumEach (fun k v => w.Overlays v r.directory k) (.start placed _) ?_
  intro d v hd overlays
  rw [Nat.zero_add]
  have found : v.spaces.find? p = some r := by
    rw [overlays.edits.spaces]
    exact hr
  have same := (overlays.edits.stored p r d hr hd).present
  refine (shareTable_lays (h.edits overlays.edits) found hd (fun present empty => out _ ?_)
    fun f b many => full f b ?_).mono ?_
  · have drawn := overlays.drawn
    rw [empty, List.length_nil, Nat.zero_add] at drawn
    rw [drawn]
    exact Nat.count_strict_mono (same.symm.trans present) hd
  · have counted : w.newPagesIn v w.spaces.active (d * tableEntries) f ≤ d * tableEntries :=
      Nat.count_le _
    rw [overlays.shares] at many
    simp only [userSlots, tableEntries] at *
    omega
  · rintro _ u (⟨present, table, lays⟩ | ⟨absent, rfl⟩)
    · exact overlays.next hd (same.symm.trans present) lays
    · exact overlays.skip placed hd (same.symm.trans absent)

/-- What a fork of any live space into another runs out of, if it does. -/
inductive ForkLacks (w : Snapshot) (parent child : Nat) : Failure → Books → Prop where
  | frames {b : Books} (few : w.free.length < w.tablesRead parent child) :
      ForkLacks w parent child (.halt .outOfFrames) b
  | numbers {b : Books} {f : Nat}
      (many : Shares.countLimit ≤ w.shares.get f + userSlots * tableEntries) :
      ForkLacks w parent child (.violation .additionOverflow) b

theorem ForkLacks.stops {f : Failure} {b : Books} (h : ForkLacks w parent child f b) :
    Stops f b := by
  cases h with
  | frames => exact .halt _ _
  | numbers => exact .violation _ _

/-- A fork between any two live spaces. -/
theorem fork_forkedOver (h : w.Firm) (live : w.Live parent) (live' : w.Live child) :
    Leads (ForkLacks w parent child) (fork parent child) w fun _ v =>
      w.ForkedOver v parent child := by
  obtain ⟨r, hr⟩ := Option.isSome_iff_exists.1 live
  obtain ⟨c, hc⟩ := Option.isSome_iff_exists.1 live'
  refine (space_yields hr).bind (.bind (.discard ((space_yields hc).leads ?_)))
  refine .bind (.discard ((switch_moves h live').mono ?_))
  rintro _ u ⟨-, firm, s, still⟩
  have read := s.forkSlot h still hr
  have free : u.free = w.free := by rw [s.books]
  have shares : u.shares = w.shares := by rw [s.books]
  have tables : Nat.count (fun d => (u.entry r.directory d).isPresent = true) userSlots =
      w.tablesRead parent child := count_congr fun d hd => by rw [read d hd]
  refine .bind ((shareTables_overlay firm ((s.find? parent).trans hr)
    (fun b few => .frames (by rwa [free, tables] at few))
    fun f b many => .numbers (f := f) (shares ▸ many)).mono ?_)
  rintro _ v overlays
  have alive : v.Live parent := by
    rw [Live, overlays.edits.spaces, s.find? parent]
    exact live
  refine (flush_yields _).bind (.bind (.discard ((switch_moves (firm.edits overlays.edits)
    alive).mono ?_)))
  rintro _ x ⟨-, done, s', -⟩
  exact (note_yields _ _).leads (overlays.forkedOver h hr live' s still firm s' done)

end Kernel
end VirtualMemory
