import VirtualMemory.Proofs.Ownership.Rights

/-!
# Spaces with fewer owners, and with none

Another number of owners changes nothing else about a space. A space without any is given up: the
processor leaves it if it has to, and the pool gets back what the space was kept in, the tables of
its user half in the order of their slots and then its directory frame.
-/
namespace VirtualMemory

open Layout

/-- From `b` to `c` these frames went back to the pool, one after the other, and their records are
gone. -/
structure Books.Returns (b c : Books) (frames : List Nat) : Prop where
  free : c.free = frames.reverse ++ b.free
  record : ∀ f, c.occupancy.counts[f]? = if f ∈ frames then none else b.occupancy.counts[f]?

theorem Books.Returns.snoc {b c : Books} {frames : List Nat} (h : b.Returns c frames) (f : Nat) :
    b.Returns { c with free := f :: c.free, occupancy := c.occupancy.forget f }
      (frames ++ [f]) where
  free := by simp [h.free]
  record g := by
    simp only [Occupancy.forget, Std.ExtTreeMap.getElem?_erase, h.record]
    by_cases same : g = f
    · simp [same]
    · simp [same, Ne.symm same]

namespace Snapshot

/-- The tables that the first `n` slots lead to, in their order. -/
def boundTables (slot : Nat → Entry) (n : Nat) : List Nat :=
  ((List.range n).filter fun d => (slot d).isPresent).map fun d => (slot d).frame

theorem boundTables_succ (slot : Nat → Entry) (n : Nat) : boundTables slot (n + 1) =
    boundTables slot n ++ if (slot n).isPresent = true then [(slot n).frame] else [] := by
  unfold boundTables
  rw [List.range_succ, List.filter_append, List.map_append]
  by_cases present : (slot n).isPresent = true <;> simp [present]

theorem boundTables_congr {slot slot' : Nat → Entry} {n : Nat} (h : ∀ d < n, slot d = slot' d) :
    boundTables slot n = boundTables slot' n := by
  unfold boundTables
  have same : (List.range n).filter (fun d => (slot d).isPresent) =
      (List.range n).filter fun d => (slot' d).isPresent :=
    List.filter_congr fun d hd => by rw [h d (List.mem_range.1 hd)]
  rw [same]
  refine List.map_congr_left ?_
  intro d hd
  rw [h d (List.mem_range.1 (List.mem_of_mem_filter hd))]

/-- The tables of the user half of space `p`. -/
def tablesOf (w : Snapshot) (p : Nat) : List Nat :=
  boundTables (fun d => w.slotAt (.user p d)) userSlots

/-- The processor goes to the kernel's space if it is in space `p`. -/
def Leaves (w v : Snapshot) (p : Nat) : Prop :=
  w.spaces.active = p ∧ w.Switched v Spaces.kernelId ∨ w.spaces.active ≠ p ∧ v = w

/-- Space `p`, which had this directory frame, is gone with its tables, and nothing else is. -/
structure Released (w v : Snapshot) (p directory : Nat) : Prop where
  root : v.root = w.root
  size : v.size = w.size
  find : ∀ q, v.spaces.find? q = if p = q then none else w.spaces.find? q
  nextId : v.spaces.nextId = w.spaces.nextId
  active : v.spaces.active = if w.spaces.active = p then Spaces.kernelId else w.spaces.active
  resident : w.spaces.active = p →
    ∀ d < userSlots, v.entry v.root d = w.slotAt (.user Spaces.kernelId d)
  /-- No record but those of the tables is gone: the directory frame had none. -/
  returns : w.toBooks.Returns v.toBooks (w.tablesOf p ++ [directory])
  untracked : directory ∉ w.occupancy.counts
  once : v.free.Nodup
  shares : v.shares = w.shares
  has : ∀ π, v.Has π ↔ w.Has π ∧ ∀ d, π ≠ .user p d
  slotAt : ∀ π, v.Has π → v.slotAt π = w.slotAt π
  tables : ∀ π, v.Has π → (w.slotAt π).isPresent = true →
    v.page (w.slotAt π).frame = w.page (w.slotAt π).frame
  /-- The window slots are part of the kernel half. -/
  kernel : ∀ d, userSlots ≤ d → d < tableEntries → v.entry w.root d = w.entry w.root d
  window : v.page mountTable = w.page mountTable
  /-- Memory changes only where user halves are put when the space has to be left. -/
  page : ∀ f, (w.spaces.active = p → f ≠ w.root ∧ f ≠ directory) → v.page f = w.page f

/-- Space `p` is gone, and nothing else is. -/
structure Vacated (w v : Snapshot) (p : Nat) (O : Finset Nat) : Prop where
  size : v.size = w.size
  find : ∀ q, v.spaces.find? q = if p = q then none else w.spaces.find? q
  active : v.spaces.active = if w.spaces.active = p then Spaces.kernelId else w.spaces.active
  nextId : v.spaces.nextId = w.spaces.nextId
  shares : v.shares = w.shares
  leaf : ∀ π t, v.Has π → v.leaf? π t = w.leaf? π t
  data : ∀ f ∈ O, v.page f = w.page f
  upholds : w.Upholds v

variable {w v x : Snapshot} {O : Finset Nat} {role role' : Nat → Role} {p : Nat}
  {r : SpaceRecord}

/-! ## Owners -/

/-- The same space with another number of owners. -/
def owning (w : Snapshot) (p : Nat) (r : SpaceRecord) (n : Nat) : Snapshot :=
  w.book { w.toBooks with spaces := w.spaces.put p { r with owners := n } }

theorem directory_owning (hr : w.spaces.find? p = some r) (n q : Nat) :
    ((w.owning p r n).spaces.find? q).map SpaceRecord.directory =
      (w.spaces.find? q).map SpaceRecord.directory := by
  refine (congrArg _ (Spaces.find?_put ..)).trans ?_
  split
  · subst q
    rw [hr]
    rfl
  · rfl

theorem slotAt_owning (hr : w.spaces.find? p = some r) (n : Nat) (π : Place) :
    (w.owning p r n).slotAt π = w.slotAt π :=
  slotAt_register (b := { w.toBooks with spaces := w.spaces.put p { r with owners := n } }) rfl
    fun q _ _ => directory_owning hr n q

theorem leaf?_owning (hr : w.spaces.find? p = some r) (n : Nat) (π : Place) (t : Nat) :
    (w.owning p r n).leaf? π t = w.leaf? π t :=
  leaf?_of_slotAt (b := { w.toBooks with spaces := w.spaces.put p { r with owners := n } })
    (slotAt_owning hr n π) t

theorem Sound.reown (h : w.Sound role) (hr : w.spaces.find? p = some r) (n : Nat) :
    (w.owning p r n).Sound role := by
  have some (q : Nat) : ((w.owning p r n).spaces.find? q).isSome = (w.spaces.find? q).isSome := by
    have := congrArg Option.isSome (directory_owning hr n q)
    rwa [Option.isSome_map, Option.isSome_map] at this
  refine h.respace ⟨?_, ?_, ?_⟩ rfl (directory_owning hr n)
  · exact (some _).trans h.regular.active
  · exact (some _).trans h.regular.kernel
  · intro q s hs
    exact h.live_lt ((some q).symm.trans (Option.isSome_iff_exists.2 ⟨s, hs⟩))

theorem Stable.reown (h : w.Stable O role) (hr : w.spaces.find? p = some r) (n : Nat) :
    (w.owning p r n).Stable O role := ⟨h.toSound.reown hr n, h.at_rest, h.owned⟩

theorem find?_owning (w : Snapshot) (p : Nat) (r : SpaceRecord) (n : Nat) :
    (w.owning p r n).spaces.find? p = some { r with owners := n } :=
  (Spaces.find?_put ..).trans (if_pos rfl)

theorem has_owning (hr : w.spaces.find? p = some r) (n : Nat) (π : Place) :
    (w.owning p r n).Has π ↔ w.Has π := by
  cases π with
  | user q d =>
    have := congrArg Option.isSome (directory_owning hr n q)
    rw [Option.isSome_map, Option.isSome_map] at this
    apply and_congr_left
    intro _
    unfold Live
    rw [this]
  | kernel d => rfl

theorem Settled.reown (h : w.Settled O) (hr : w.spaces.find? p = some r) (hn : 0 < n) :
    (w.owning p r n).Settled O := by
  obtain ⟨role, stable⟩ := h.stable
  refine ⟨⟨role, stable.toSound.reown hr n, stable.at_rest, stable.owned⟩, ?_, h.shared, ?_⟩
  · intro q d _ hq present
    have hq' := (has_owning hr n _).1 hq
    rw [slotAt_owning hr] at present
    obtain ⟨t, ht, some⟩ := h.filled q d (by simp) hq' present
    exact ⟨t, ht, by rwa [leaf?_owning hr]⟩
  · intro q s hs
    have hs' := (Spaces.find?_put w.spaces p q { r with owners := n }).symm.trans hs
    split at hs'
    · cases hs'
      exact hn
    · exact h.kept q s hs'

/-! ## Spaces that end -/

/-- Leaving a space writes its user half back to its own frame. -/
theorem tablesOf_stored (hr : w.spaces.find? p = some r) (keep : p ≠ Spaces.kernelId)
    (moved : (w.owning p r 0).Leaves x p) :
    boundTables (x.entry r.directory) userSlots = w.tablesOf p := by
  refine boundTables_congr fun d hd => ?_
  have mine := find?_owning w p r 0
  have live : w.Live p := Option.isSome_iff_exists.2 ⟨r, hr⟩
  rw [← slotAt_owning hr 0]
  obtain ⟨-, s⟩ | ⟨other, rfl⟩ := moved
  · have away : p ≠ x.spaces.active := by
      rw [s.books]
      exact keep
    rw [← s.slotAt _ ((has_owning hr 0 (.user p d)).2 ⟨live, hd⟩), slotAt,
      home_of_ne away ((s.find? p).trans mine)]
  · rw [slotAt, home_of_ne (Ne.symm other) mine]

/-- Once the processor is out of it and its frames are back, a space can be struck out. -/
theorem Stable.released (h : w.Stable O role) (hr : w.spaces.find? p = some r)
    (keep : p ≠ Spaces.kernelId) {b : Books} (moved : (w.owning p r 0).Leaves x p)
    (gone : b.spaces = x.spaces.remove p) (shares : b.shares = x.shares)
    (stable : (x.book b).Stable O role')
    (back : x.toBooks.Returns b (boundTables (x.entry r.directory) userSlots ++ [r.directory])) :
    w.Released (x.book b) p r.directory := by
  have dir := (h.directory r.directory p).2 ⟨r, hr, rfl⟩
  have mine := find?_owning w p r 0
  have page (f : Nat) (hf : w.spaces.active = p → f ≠ w.root ∧ f ≠ r.directory) :
      x.page f = w.page f := by
    obtain ⟨here, s⟩ | ⟨-, rfl⟩ := moved
    · refine s.page f (hf here).1 ?_
      intro r' hr' same
      rw [here, mine] at hr'
      cases hr'
      exact (hf here).2 same
    · rfl
  have register : x.root = w.root ∧ x.size = w.size ∧ x.toBooks = { w.toBooks with
      spaces := { w.spaces.put p { r with owners := 0 } with active :=
        if w.spaces.active = p then Spaces.kernelId else w.spaces.active } } := by
    obtain ⟨here, s⟩ | ⟨other, rfl⟩ := moved
    · change w.spaces.active = p at here
      exact ⟨s.root, s.size, by rw [s.books, if_pos here]; rfl⟩
    · change w.spaces.active ≠ p at other
      exact ⟨rfl, rfl, by rw [if_neg other]; rfl⟩
  obtain ⟨root, size, books⟩ := register
  have spaces : b.spaces = { w.spaces.put p { r with owners := 0 } with active :=
      if w.spaces.active = p then Spaces.kernelId else w.spaces.active }.remove p := by
    rw [gone, books]
  have found (q : Nat) : (x.book b).spaces.find? q =
      if p = q then none else w.spaces.find? q := by
    change b.spaces.find? q = _
    rw [spaces, Spaces.find?_remove]
    split
    · rfl
    · exact (Spaces.find?_put ..).trans (if_neg ‹_›)
  have active : b.spaces.active =
      if w.spaces.active = p then Spaces.kernelId else w.spaces.active := by
    rw [spaces]
    rfl
  have has (π : Place) : (x.book b).Has π ↔ w.Has π ∧ ∀ d, π ≠ .user p d := by
    refine Iff.trans ?_ (Sound.has_evicting π)
    cases π with
    | user q d => exact and_congr_left fun _ => by rw [Live, Live, found, Sound.find?_evicting]
    | kernel d => rfl
  have slot (π : Place) (hπ : (x.book b).Has π) : (x.book b).slotAt π = w.slotAt π := by
    obtain ⟨hπ', out⟩ := (has π).1 hπ
    refine (slotAt_book (w := x.evicting p) (b := b) gone π).trans ?_
    refine (Sound.slotAt_evicting out).trans (Eq.trans ?_ (slotAt_owning hr 0 π))
    obtain ⟨-, s⟩ | ⟨-, rfl⟩ := moved
    · exact s.slotAt π ((has_owning hr 0 π).2 hπ')
    · rfl
  exact
    { root := root
      size := size
      find := found
      nextId := by
        change b.spaces.nextId = _
        rw [spaces]
        rfl
      active := active
      resident := fun here d hd => by
        have now : (x.book b).spaces.active = Spaces.kernelId := active.trans (if_pos here)
        rw [← slot (.user Spaces.kernelId d) ⟨stable.regular.kernel, hd⟩, Snapshot.slotAt, ← now,
          home_active]
      returns := by
        rw [← tablesOf_stored hr keep moved]
        exact ⟨back.free.trans (by rw [books]), fun f => (back.record f).trans (by rw [books])⟩
      untracked := h.not_tracked (by simp [dir]) (by simp [dir])
      once := stable.nodup
      shares := shares.trans (by rw [books])
      has := has
      slotAt := slot
      tables := fun π hπ present => by
        have table := h.table_slotAt ((has π).1 hπ).1 present
        refine page _ fun _ => ⟨fun same => ?_, fun same => ?_⟩
        · rw [(h.resident _).2 same] at table
          cases table
        · rw [same, dir] at table
          cases table
      kernel := fun d low hd => by
        obtain ⟨-, s⟩ | ⟨-, rfl⟩ := moved
        · exact s.kernel w.root d low hd
        · rfl
      window := page _ fun _ =>
        ⟨h.wired.mountTable_ne_root, (h.housed.ne_mount p r hr).symm⟩
      page := page }

namespace Released

variable {directory : Nat} (gone : w.Released v p directory)
include gone

theorem leaf? {π : Place} (hπ : v.Has π) (t : Nat) : v.leaf? π t = w.leaf? π t := by
  unfold Snapshot.leaf? leafAt
  rw [gone.slotAt π hπ]
  by_cases present : (w.slotAt π).isPresent = true
  · rw [entry, gone.tables π hπ present, entry]
  · simp [present]

/-- What is left is at rest if everything was. -/
theorem settled (h : w.Settled O) (stable : v.Stable O role') : v.Settled O where
  stable := ⟨role', stable⟩
  filled q d _ hq present := by
    rw [gone.slotAt _ hq] at present
    obtain ⟨t, ht, some⟩ := h.filled q d (by simp) ((gone.has _).1 hq).1 present
    exact ⟨t, ht, by rwa [gone.leaf? hq]⟩
  shared f hf := by
    rw [gone.shares] at hf
    rw [gone.size]
    exact h.shared f hf
  kept q s hs := by
    rw [gone.find] at hs
    split at hs
    · cases hs
    · exact h.kept q s hs

theorem vacated (h : w.Stable O role) (hr : w.spaces.find? p = some r)
    (own : directory = r.directory) : w.Vacated v p O where
  size := gone.size
  find := gone.find
  active := gone.active
  nextId := gone.nextId
  shares := gone.shares
  leaf π t hπ := gone.leaf? hπ t
  data f hf := gone.page f fun _ =>
    ⟨h.ne_root hf, fun same => h.toSound.idle_ne_directory (by rw [h.data hf]; trivial) p r hr
      (own ▸ same.symm)⟩
  upholds := ⟨gone.root, fun d low hd => gone.kernel d (low.trans' (by decide)) hd, fun g =>
    g.congr (fun π hπ => ((gone.has π).1 hπ).1) gone.slotAt fun π t hπ _ => gone.leaf? hπ t⟩

end Released
end Snapshot
end VirtualMemory
