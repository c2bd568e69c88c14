import VirtualMemory.Proofs.Operations.Pages
import VirtualMemory.Proofs.Operations.Switch

/-!
# In the middle of a fork

The two loops of a fork go through the user pages of the parent in order of address. After `n` of
them those pages are seen in both spaces, without the right to write, every other page is as it
was, and each share count has grown by the pages found in its frame. One step of the inner loop
changes one entry in each of two tables, and counts once in each of two books; one step of the
outer loop takes a frame from the pool if the parent has a table there.
-/
namespace VirtualMemory

open Layout

namespace Snapshot

/-- The user half of the space binds no table. -/
def Vacant (w : Snapshot) (p : Nat) : Prop :=
  ∀ d, d < userSlots → (w.slotAt (.user p d)).isPresent = false

/-- The pages once the first `n` pages of `parent` are shared with `child`. -/
def forkedPages (w : Snapshot) (parent child n : Nat) : Place → Nat → Option Entry
  | .user p d, t =>
    if (p = parent ∨ p = child) ∧ d * tableEntries + t < n then
      (w.leaf? (.user parent d) t).map (·.clear EntryFlags.writable)
    else w.leaf? (.user p d) t
  | .kernel d, t => w.leaf? (.kernel d) t

/-- How many of the first `n` pages of a space are in frame `f`. -/
def pagesIn (w : Snapshot) (p n f : Nat) : Nat :=
  Nat.count (fun i =>
    (w.leaf? (.user p (i / tableEntries)) (i % tableEntries)).map Entry.frame = some f) n

/-- How many of the first `k` slots of a space's user half bind a table. -/
def tablesIn (w : Snapshot) (p k : Nat) : Nat :=
  Nat.count (fun d => (w.slotAt (.user p d)).isPresent = true) k

/-- A space after its fork. -/
structure Forked (w v : Snapshot) (O : Finset Nat) (parent child : Nat) : Prop where
  size : v.size = w.size
  spaces : v.spaces = { w.spaces with active := parent }
  shares : ∀ f, v.shares.get f =
    w.shares.get f + w.pagesIn parent (userSlots * tableEntries) f
  leaf : ∀ π t, w.Has π → t < tableEntries →
    v.leaf? π t = w.forkedPages parent child (userSlots * tableEntries) π t
  data : ∀ f ∈ O, v.page f = w.page f
  upholds : w.Upholds v

/-- Whatever is not the parent's or the child's has stayed as it was, and so have the slots of the
parent. -/
structure Spared (w v : Snapshot) (parent child : Nat) : Prop where
  has : ∀ π, w.Has π → v.Has π
  root : v.root = w.root
  slots : ∀ π, w.Has π → (∀ d, π ≠ .user child d) → v.slotAt π = w.slotAt π
  tables : ∀ π, w.Has π → (w.slotAt π).isPresent = true → (∀ d, π ≠ .user parent d) →
    (∀ d, π ≠ .user child d) → v.page (w.slotAt π).frame = w.page (w.slotAt π).frame
  window : v.page mountTable = w.page mountTable
  kernel : ∀ i, userSlots ≤ i → i < tableEntries → v.entry w.root i = w.entry w.root i

/-- The child's tables below slot `k` are the first frames of the pool, one for each table of the
parent. -/
structure Drawn (w v : Snapshot) (parent child k : Nat) : Prop where
  free : v.free = w.free.drop (w.tablesIn parent k)
  used : ∀ d < k, (w.slotAt (.user parent d)).isPresent = true →
    w.free[w.tablesIn parent d]? = some (v.slotAt (.user child d)).frame

/-- In the middle of a fork, after `n` pages. -/
structure Forking (w v : Snapshot) (O : Finset Nat) (role : Nat → Role) (parent child n : Nat) :
    Prop where
  stable : v.Stable O role
  size : v.size = w.size
  spaces : v.spaces = w.spaces
  shares : ∀ f, v.shares.get f = w.shares.get f + w.pagesIn parent n f
  leaf : ∀ π t, w.Has π → t < tableEntries → v.leaf? π t = w.forkedPages parent child n π t
  data : ∀ f ∈ O, v.page f = w.page f
  spared : w.Spared v parent child
  upholds : w.Upholds v

variable {w v u : Snapshot} {O : Finset Nat} {role : Nat → Role} {parent child k n t : Nat}

/-! ## What a fork leaves alone -/

theorem Spared.refl (w : Snapshot) (parent child : Nat) : w.Spared w parent child := by
  constructor <;> intros <;> first | rfl | assumption

theorem Spared.trans (h : w.Spared v parent child) (h' : v.Spared u parent child) :
    w.Spared u parent child where
  has π hπ := h'.has π (h.has π hπ)
  root := h'.root.trans h.root
  slots π hπ other := (h'.slots π (h.has π hπ) other).trans (h.slots π hπ other)
  tables π hπ present notParent notChild := by
    have same := h.slots π hπ notChild
    have later := h'.tables π (h.has π hπ) (by rwa [same]) notParent notChild
    rw [same] at later
    exact later.trans (h.tables π hπ present notParent notChild)
  window := h'.window.trans h.window
  kernel i low hi := by
    have later := h'.kernel i low hi
    rw [h.root] at later
    exact later.trans (h.kernel i low hi)

theorem Switched.spared {p : Nat} (h : w.Settled O) (s : w.Switched v p) (parent child : Nat) :
    w.Spared v parent child := by
  obtain ⟨role, stable⟩ := h.stable
  refine ⟨fun π => (s.has π).2, s.root, fun π hπ _ => s.slotAt π hπ, ?_, ?_,
    s.kernel w.root⟩
  · intro π hπ present _ _
    have table := stable.table_slotAt hπ present
    exact stable.page_switched s (by simp [table]) (by simp [table])
  · have window := (stable.window mountTable).2 rfl
    exact stable.page_switched s (by simp [window]) (by simp [window])

/-- Binding a new table of the child. -/
theorem TableAdded.spared {f : Nat} {prot : Protection} (h : w.Stable O role)
    (hk : k < userSlots) (here : w.here k = .user child k)
    (added : w.TableAdded v O role k f prot) :
    w.Spared v parent child := by
  have free : role f = .free := (h.free f).2 (added.free ▸ List.mem_cons_self)
  refine ⟨fun π => (has_congr added.moved.spaces π).2, added.root, ?_, ?_, ?_, ?_⟩
  · intro π hπ other
    exact added.slots π hπ (here ▸ other k)
  · intro π hπ present _ _
    have table := h.table_slotAt hπ present
    refine added.page _ (h.table_ne_root table) ?_
    rintro rfl
    simp [free] at table
  · refine added.page _ h.wired.mountTable_ne_root ?_
    rintro rfl
    simp [(h.window mountTable).2 rfl] at free
  · intro i low hi
    exact added.rest i hi (by omega)

/-! ## Frames of the pool -/

theorem tablesIn_succ (w : Snapshot) (p k : Nat) : w.tablesIn p (k + 1) =
    w.tablesIn p k + if (w.slotAt (.user p k)).isPresent = true then 1 else 0 := Nat.count_succ ..

theorem tablesIn_switched {p : Nat} (s : w.Switched v p) (live : w.Live parent)
    (hk : k ≤ userSlots) : v.tablesIn parent k = w.tablesIn parent k := by
  refine count_congr fun d hd => ?_
  rw [s.slotAt (.user parent d) ⟨live, hd.trans_le hk⟩]

theorem Drawn.start (w : Snapshot) (parent child : Nat) : w.Drawn w parent child 0 where
  free := by rw [tablesIn, Nat.count_zero, List.drop_zero]
  used d hd := by omega

theorem Drawn.congr (h : w.Drawn v parent child k) (free : u.free = v.free)
    (slots : ∀ d < k, u.slotAt (.user child d) = v.slotAt (.user child d)) :
    w.Drawn u parent child k where
  free := free.trans h.free
  used d hd present := by
    rw [slots d hd]
    exact h.used d hd present

/-- Nothing is drawn for a slot without a table. -/
theorem Drawn.skip (h : w.Drawn v parent child k)
    (absent : ¬ (w.slotAt (.user parent k)).isPresent = true) :
    w.Drawn v parent child (k + 1) where
  free := by rw [tablesIn_succ, if_neg absent, h.free, Nat.add_zero]
  used d hd present := by
    obtain before | rfl := Nat.lt_succ_iff_lt_or_eq.1 hd
    · exact h.used d before present
    · exact absurd present absent

/-- The next frame is drawn for the next table. -/
theorem Drawn.next {f : Nat} (h : w.Drawn v parent child k)
    (present : (w.slotAt (.user parent k)).isPresent = true) (first : v.free = f :: u.free)
    (bound : (u.slotAt (.user child k)).frame = f)
    (others : ∀ d < k, u.slotAt (.user child d) = v.slotAt (.user child d)) :
    w.Drawn u parent child (k + 1) := by
  have rest : w.free.drop (w.tablesIn parent k) = f :: u.free := h.free.symm.trans first
  constructor
  · rw [tablesIn_succ, if_pos present, ← List.drop_drop, rest, List.drop_one, List.tail_cons]
  · intro d hd there
    obtain before | rfl := Nat.lt_succ_iff_lt_or_eq.1 hd
    · rw [others d before]
      exact h.used d before there
    · have head := congrArg (·[0]?) rest
      simpa [List.getElem?_drop, bound] using head

/-! ## Pages -/

theorem pagesIn_next (w : Snapshot) (p f : Nat) (ht : t < tableEntries)
    (hn : n = k * tableEntries + t) :
    w.pagesIn p (n + 1) f = w.pagesIn p n f +
      if (w.leaf? (.user p k) t).map Entry.frame = some f then 1 else 0 := by
  have slot : n / tableEntries = k := by
    simp only [tableEntries] at *
    omega
  have index : n % tableEntries = t := by
    simp only [tableEntries] at *
    omega
  rw [pagesIn, Nat.count_succ, slot, index, pagesIn]

/-- A page that is still to come is counted by the end. -/
theorem pagesIn_lt {p : Nat} {e : Entry} (hk : k < userSlots) (ht : t < tableEntries)
    (page : w.leaf? (.user p k) t = some e) :
    w.pagesIn p (k * tableEntries + t) e.frame <
      w.pagesIn p (userSlots * tableEntries) e.frame := by
  have next := pagesIn_next (k := k) w p e.frame ht rfl
  rw [page, if_pos (by rfl)] at next
  have most : k * tableEntries + t + 1 ≤ userSlots * tableEntries := by
    simp only [userSlots, tableEntries] at *
    omega
  have grows : w.pagesIn p (k * tableEntries + t + 1) e.frame ≤
      w.pagesIn p (userSlots * tableEntries) e.frame := Nat.count_monotone _ most
  omega

/-- One page more is shared. -/
theorem forkedPages_next (w : Snapshot) (ht : t < tableEntries) (hn : n = k * tableEntries + t)
    (π : Place) {u : Nat} (hu : u < tableEntries) :
    w.forkedPages parent child (n + 1) π u =
      if (π = .user parent k ∨ π = .user child k) ∧ u = t then
        (w.leaf? (.user parent k) t).map (·.clear EntryFlags.writable)
      else w.forkedPages parent child n π u := by
  cases π with
  | kernel d => simp [forkedPages]
  | user p d =>
    have step : d * tableEntries + u < n + 1 ↔ d * tableEntries + u < n ∨ d = k ∧ u = t := by
      simp only [tableEntries] at *
      omega
    simp only [forkedPages, step, Place.user.injEq]
    by_cases here : d = k ∧ u = t
    · obtain ⟨rfl, rfl⟩ := here
      by_cases mine : p = parent ∨ p = child <;> simp [mine]
    · have there : ¬ ((p = parent ∧ d = k ∨ p = child ∧ d = k) ∧ u = t) := fun both =>
        here ⟨both.1.elim And.right And.right, both.2⟩
      simp [here, there]

/-- A frame that is counted holds some page of the space. -/
theorem exists_pageIn {p f : Nat} (h : w.pagesIn p (userSlots * tableEntries) f ≠ 0) :
    ∃ d t e, d < userSlots ∧ t < tableEntries ∧ w.leaf? (.user p d) t = some e ∧ e.frame = f := by
  rw [pagesIn, Nat.count_eq_card_filter_range, Finset.card_ne_zero] at h
  obtain ⟨i, hi⟩ := h
  obtain ⟨bound, page⟩ := Finset.mem_filter.1 hi
  obtain ⟨e, leaf, frame⟩ := Option.map_eq_some_iff.1 page
  refine ⟨_, _, e, ?_, Nat.mod_lt _ (by decide), leaf, frame⟩
  exact Nat.div_lt_of_lt_mul (by rw [Nat.mul_comm]; exact Finset.mem_range.1 bound)

/-- What is seen of a fork does not depend on which space is resident. -/
theorem pagesIn_switched {p : Nat} (h : w.Settled O) (s : w.Switched v p) (live : w.Live parent)
    (f : Nat) : v.pagesIn parent (userSlots * tableEntries) f =
      w.pagesIn parent (userSlots * tableEntries) f := by
  refine count_congr fun i hi => ?_
  have slot : i / tableEntries < userSlots := Nat.div_lt_of_lt_mul (by rwa [Nat.mul_comm])
  rw [h.leaf?_switched s (π := .user parent _) ⟨live, slot⟩]

theorem forkedPages_switched {p : Nat} (h : w.Settled O) (s : w.Switched v p)
    (live : w.Live parent) {π : Place} (hπ : w.Has π) (t : Nat) :
    v.forkedPages parent child n π t = w.forkedPages parent child n π t := by
  cases π with
  | user q d =>
    simp only [forkedPages]
    rw [h.leaf?_switched s hπ, h.leaf?_switched s (π := .user parent d) ⟨live, hπ.2⟩]
  | kernel d => exact h.leaf?_switched s hπ t

/-- Pages that are still to come are as they were. -/
theorem Forking.todo (h : w.Forking v O role parent child n) (ht : t < tableEntries)
    (hn : n ≤ k * tableEntries + t) {p : Nat} (hp : w.Has (.user p k)) :
    v.leaf? (.user p k) t = w.leaf? (.user p k) t := by
  rw [h.leaf _ t hp ht, forkedPages, if_neg (by omega)]

/-- A page that is in neither space is shared by doing nothing. -/
theorem Forking.skip (h : w.Forking v O role parent child n) (ht : t < tableEntries)
    (hn : n = k * tableEntries + t) (none : w.leaf? (.user parent k) t = none)
    (none' : w.leaf? (.user child k) t = Option.none) :
    w.Forking v O role parent child (n + 1) where
  stable := h.stable
  size := h.size
  spaces := h.spaces
  shares f := by
    rw [h.shares, pagesIn_next w parent f ht hn, none]
    simp
  leaf π u hπ hu := by
    rw [h.leaf π u hπ hu, forkedPages_next w ht hn π hu]
    split
    · rename_i here
      obtain ⟨rfl | rfl, rfl⟩ := here <;> simp [forkedPages, none, none']
    · rfl
  data := h.data
  spared := h.spared
  upholds := h.upholds

theorem Forking.skipTable (h : w.Forking v O role parent child n) (hn : n = k * tableEntries)
    (none : ∀ t, w.leaf? (.user parent k) t = none)
    (none' : ∀ t, w.leaf? (.user child k) t = Option.none) :
    w.Forking v O role parent child (n + tableEntries) := by
  have all (t : Nat) (ht : t ≤ tableEntries) : w.Forking v O role parent child (n + t) := by
    induction t with
    | zero => exact h
    | succ t ih => exact (ih (by omega)).skip (by omega) (by rw [hn]) (none t) (none' t)
  exact all tableEntries (Nat.le_refl _)

/-- Between two tables, after `k` slots. -/
structure Rounds (w v : Snapshot) (O : Finset Nat) (role : Nat → Role) (parent child k : Nat) :
    Prop extends w.Forking v O role parent child (k * tableEntries), w.Drawn v parent child k where
  filled : v.Filled none
  ahead : ∀ d, k ≤ d → d < userSlots → (v.slotAt (.user child d)).isPresent = false

/-- Inside a mount of the parent's table `source` at slot `k`, with `table` bound at the child's:
`n` pages are done. -/
structure Sharing (w v : Snapshot) (O : Finset Nat) (role : Nat → Role)
    (parent child k n source table : Nat) : Prop
    extends w.Forking v O role parent child n, w.Drawn v parent child (k + 1) where
  filled : v.Filled (some (.user child k))
  sourceRole : role source = .table (.user parent k)
  tableRole : role table = .table (.user child k)
  slot : (v.entry v.root k).isPresent = true
  frame : (v.entry v.root k).frame = table
  user : (v.slotAt (.user child k)).isUser = true
  ahead : ∀ d, k < d → d < userSlots → (v.slotAt (.user child d)).isPresent = false

/-- A page of one table is written to both tables and counted. -/
theorem Stable.shareBoth {source table : Nat} {e : Entry} (stable : v.Stable O role)
    (hs : role source = .table (.user parent k)) (hc : role table = .table (.user child k))
    (ht : t < tableEntries) (ne : parent ≠ child) (page : v.entry source t = e)
    (present : e.isPresent = true) (room : v.leaf? (.user child k) t = none) {u : Snapshot}
    (hu : u = ((v.setEntry source t (e.clear EntryFlags.writable)).setEntry table t
      (e.clear EntryFlags.writable)).book { v.toBooks with
        occupancy := v.occupancy.set table (v.occupancy.get table + 1)
        shares := v.shares.set e.frame (v.shares.get e.frame + 1) }) :
    u.Stable O role ∧ (∀ π, u.slotAt π = v.slotAt π) ∧
      (∀ π i, v.Has π → i < tableEntries → u.leaf? π i =
        if (π = .user parent k ∨ π = .user child k) ∧ i = t then
          some (e.clear EntryFlags.writable) else v.leaf? π i) ∧
      (∀ g, g ≠ source → g ≠ table → u.page g = v.page g) ∧
      ((v.slotAt (.user child k)).isUser = true → v.Upholds u) := by
  set shared := e.clear EntryFlags.writable with hshared
  have shown : shared.isPresent = true := by rw [hshared, Entry.isPresent_clear_writable, present]
  have frame : shared.frame = e.frame := Entry.frame_clear_writable e
  obtain ⟨bound, there, slot⟩ := (stable.table source _).1 hs
  have seen : v.leaf? (.user parent k) t = some e :=
    leaf?_eq_some.2 ⟨there, present, by rw [leafAt, slot, page]⟩
  have owned : role shared.frame = .owned := by
    rw [frame]
    exact stable.leaf parent k t e bound ht seen
  have apart : Place.user child k ≠ .user parent k := by simp [ne.symm]
  obtain ⟨stable₁, moved₁⟩ := stable.rewritten hs ht (page ▸ present) shown
    (frame.trans (page ▸ rfl))
  set v₁ := v.setEntry source t shared
  have slots₁ (π : Place) : v₁.slotAt π = v.slotAt π :=
    stable.slotAt_wrote hs shared v.occupancy π
  have before : (v₁.entry table t).isPresent = false := by
    refine stable₁.absent_entry hc ((moved₁.leaf _ _ ((stable.table table _).1 hc).1 ht).trans ?_)
    rw [pagesWith, if_neg fun both => apart both.1, room]
  obtain ⟨stable₂, moved₂⟩ := stable₁.taken hc ht before shown owned
  have slots₂ := stable₁.slotAt_wrote (t := t) hc shared
    (v.occupancy.set table (v.occupancy.get table + 1))
  have counted := stable₂.toSound.reshare (v.shares.set e.frame (v.shares.get e.frame + 1))
  refine ⟨⟨hu ▸ counted, stable.at_rest, stable.owned⟩, ?_, ?_, ?_, fun user => ?_⟩
  · intro π
    rw [hu]
    exact (slotAt_book (by rfl) π).trans ((slots₂ π).trans (slots₁ π))
  · intro π i hπ hi
    have last := moved₂.leaf π i hπ hi
    have first := moved₁.leaf π i hπ hi
    rw [hu]
    refine (leaf?_book (by rfl) π i).trans (last.trans ?_)
    unfold pagesWith at *
    rw [first]
    by_cases here : i = t
    · by_cases mine : π = .user child k <;> simp [here, mine]
    · simp [here]
  · intro g notSource notTable
    rw [hu]
    exact (page_setEntry ..).trans ((if_neg notTable).trans
      ((page_setEntry ..).trans (if_neg notSource)))
  · -- Without its write bit the page needs no more than a user slot.
    have first : v.Upholds v₁ := stable.upholds_leaf hs ht
      (fun g _ => (g _ t e bound ht seen).trans e.covers_clear_writable) v.occupancy
    have second := stable₁.upholds_leaf (e := shared) hc ht
      (fun _ _ => ⟨by simp [hshared], fun _ => slots₁ _ ▸ user⟩)
      (v.occupancy.set table (v.occupancy.get table + 1))
    rw [hu]
    exact first.trans (second.trans (.book rfl))

theorem Sharing.next {source table : Nat} {e : Entry}
    (h : w.Sharing v O role parent child k n source table) (ht : t < tableEntries)
    (hn : n = k * tableEntries + t) (ne : parent ≠ child)
    (page : v.entry source t = e) (present : e.isPresent = true)
    (room : w.leaf? (.user child k) t = none) {u : Snapshot}
    (hu : u = ((v.setEntry source t (e.clear EntryFlags.writable)).setEntry table t
      (e.clear EntryFlags.writable)).book { v.toBooks with
        occupancy := v.occupancy.set table (v.occupancy.get table + 1)
        shares := v.shares.set e.frame (v.shares.get e.frame + 1) }) :
    w.Sharing u O role parent child k (n + 1) source table := by
  obtain ⟨bound, there, slot⟩ := (h.stable.table source _).1 h.sourceRole
  have bound' := ((h.stable.table table _).1 h.tableRole).1
  have has := (has_congr h.spaces (.user parent k)).1 bound
  have has' := (has_congr h.spaces (.user child k)).1 bound'
  have seen : v.leaf? (.user parent k) t = some e :=
    leaf?_eq_some.2 ⟨there, present, by rw [leafAt, slot, page]⟩
  have still : w.leaf? (.user parent k) t = some e :=
    (h.todo ht (Nat.le_of_eq hn) has).symm.trans seen
  obtain ⟨stable, slots, pages, rest, upheld⟩ :=
    h.stable.shareBoth h.sourceRole h.tableRole ht ne page
    present ((h.todo ht (Nat.le_of_eq hn) has').trans room) hu
  have spaces : u.spaces = v.spaces := hu ▸ rfl
  have stay : u.entry u.root k = v.entry v.root k := by
    rw [← slotAt_here (w := v), ← slotAt_here (w := u), here_congr spaces, slots]
  -- Both tables are the parent's and the child's own.
  have aside {g : Nat} {π : Place} (table : role g = .table π) (notParent : π ≠ .user parent k)
      (notChild : π ≠ .user child k) : u.page g = v.page g := by
    refine rest g ?_ ?_
    · rintro rfl
      exact notParent (Role.table.inj (table.symm.trans h.sourceRole))
    · rintro rfl
      exact notChild (Role.table.inj (table.symm.trans h.tableRole))
  have root : u.root = v.root := hu ▸ rfl
  have spared : v.Spared u parent child :=
    { has := fun π => (has_congr spaces π).2
      root := root
      slots := fun π _ _ => slots π
      tables := fun π hπ present notParent notChild =>
        aside (h.stable.table_slotAt hπ present) (notParent k) (notChild k)
      window := rest _ (h.stable.table_ne_mount h.sourceRole).symm
        (h.stable.table_ne_mount h.tableRole).symm
      kernel := fun i _ _ => congrArg (Page.entry · i) <|
        rest _ (h.stable.table_ne_root h.sourceRole).symm
          (h.stable.table_ne_root h.tableRole).symm }
  refine ⟨⟨stable, ?_, spaces.trans h.spaces, ?_, ?_, ?_, h.spared.trans spared,
      h.upholds.trans (upheld h.user)⟩,
    h.toDrawn.congr (by rw [hu]; rfl) (fun d _ => slots _), ?_, h.sourceRole, h.tableRole,
    stay ▸ h.slot, stay ▸ h.frame, by rw [slots]; exact h.user, ?_⟩
  · rw [hu]
    exact h.size
  · intro f
    rw [hu]
    refine (Shares.get_set ..).trans ?_
    rw [pagesIn_next w parent f ht hn, still, h.shares, h.shares]
    simp only [Option.map_some, Option.some.injEq]
    split
    · subst f
      omega
    · omega
  · intro π i hπ hi
    rw [pages π i ((has_congr h.spaces π).2 hπ) hi, forkedPages_next w ht hn π hi, still,
      h.leaf π i hπ hi]
    rfl
  · intro g hg
    rw [rest g (h.stable.ne_table hg h.sourceRole) (h.stable.ne_table hg h.tableRole), h.data g hg]
  · refine h.filled.mono spaces (fun π _ _ there => by rwa [slots] at there) ?_
    intro π i hπ hi some
    rw [pages π i hπ hi]
    split
    · simp
    · exact some
  · intro d hd hd'
    rw [slots]
    exact h.ahead d hd hd'

/-- Once the child has a table where the parent has one, the pages of both can be gone through. -/
theorem Rounds.start {x : Snapshot} {f source : Nat} (h : w.Rounds v O role parent child k)
    (hk : k < userSlots) (ne : parent ≠ child) (live : v.Live parent)
    (alive : v.Live child) (present : (v.slotAt (.user parent k)).isPresent = true)
    (hs : (v.slotAt (.user parent k)).frame = source) (here : v.here k = .user child k)
    (added : v.TableAdded x O role k f Protection.userRWX)
    (absent : (v.entry v.root k).isPresent = false) :
    w.Sharing x O (Function.update role f (.table (.user child k))) parent child k
      (k * tableEntries) source f := by
  have stable := added.stable
  have moved := added.moved
  have others := added.slots
  rw [here] at stable others
  have kept := others (.user parent k) ⟨live, hk⟩ (by simp [ne])
  have before : (w.slotAt (.user parent k)).isPresent = true := by
    have same := h.spared.slots (.user parent k) ((has_congr h.spaces _).1 ⟨live, hk⟩)
      (by simp [ne])
    rwa [← same]
  have bound : x.slotAt (.user child k) = x.entry x.root k := by
    rw [← here, ← here_congr moved.spaces, slotAt_here]
  have drawn : w.Drawn x parent child (k + 1) := by
    refine h.toDrawn.next before added.free (bound ▸ added.frame) fun d hd => ?_
    exact others (.user child d) ⟨alive, hd.trans hk⟩ (by simp [hd.ne])
  refine ⟨⟨stable, moved.size.trans h.size, moved.spaces.trans h.spaces, ?_, ?_,
    fun p hp => (moved.data p hp).trans (h.data p hp),
    h.spared.trans (added.spared h.stable hk here),
    h.upholds.trans (added.upholds (hk.trans (by decide)) absent)⟩, drawn, ?_, ?_,
    Function.update_self .., added.present, added.frame, ?_, ?_⟩
  · intro p
    rw [moved.shares, h.shares]
  · intro π t hπ ht
    rw [moved.leaf π t ((has_congr h.spaces π).2 hπ) ht, h.leaf π t hπ ht]
  · refine Filled.congr (w := v) (fun p d _ => h.filled p d (by simp)) moved.spaces ?_ moved.leaf
    intro π hπ other there
    rwa [others π hπ fun eq => other (by rw [eq])] at there
  · exact (stable.table source _).2 ⟨(has_congr moved.spaces _).2 ⟨live, hk⟩, by rwa [kept],
      by rw [kept, hs]⟩
  · have inside := h.stable.usable f (added.free ▸ List.mem_cons_self)
    rw [bound, added.slot, Entry.isUser_of inside.1.1]
    decide
  · intro d hd hd'
    have later : d ≠ k := by omega
    rw [others (.user child d) ⟨alive, hd'⟩ (by simp [later])]
    exact h.ahead d (by omega) hd'

/-- A whole table is shared, and the child's is no longer empty. -/
theorem Sharing.finish {source table : Nat}
    (h : w.Sharing v O role parent child k n source table)
    (hn : n = (k + 1) * tableEntries) (ne : parent ≠ child) :
    w.Rounds v O role parent child (k + 1) := by
  subst hn
  refine ⟨h.toForking, h.toDrawn, ?_, h.ahead⟩
  · intro p d _ hp present
    by_cases here : Place.user p d = .user child k
    · obtain ⟨rfl, rfl⟩ := Place.user.inj here
      obtain ⟨bound, there, -⟩ := (h.stable.table source _).1 h.sourceRole
      obtain ⟨t, ht, some⟩ := h.filled parent d (by simp [ne]) bound there
      refine ⟨t, ht, ?_⟩
      have done : d * tableEntries + t < (d + 1) * tableEntries := by
        simp only [tableEntries] at *
        omega
      rw [h.leaf _ t ((has_congr h.spaces _).1 bound) ht] at some
      rw [h.leaf _ t ((has_congr h.spaces _).1 hp) ht]
      simp only [forkedPages, true_or, or_true, true_and, if_pos done] at some ⊢
      exact some
    · exact h.filled p d (by simpa using here) hp present

/-- What was shared are the callers' frames, so the kernel is at rest between two tables. -/
theorem Rounds.settled (settled : w.Settled O) (live : w.Live parent)
    (h : w.Rounds v O role parent child userSlots) : v.Settled O := by
  obtain ⟨role', stable⟩ := settled.stable
  refine ⟨⟨role, h.stable⟩, h.filled, ?_, ?_⟩
  · intro f hf
    rw [h.size]
    rw [h.shares] at hf
    by_cases old : w.shares.get f = 0
    · rw [old, Nat.zero_add] at hf
      obtain ⟨d, t, e, hd, ht, leaf, rfl⟩ := exists_pageIn hf
      have owned := settled.leaf_owned ⟨live, hd⟩ ht leaf
      exact ⟨settled.isFrame owned, stable.ne_mount owned⟩
    · exact settled.shared f old
  · intro p r hr
    rw [h.spaces] at hr
    exact settled.kept p r hr

/-- A fork, with the frames that it uses and all that it leaves alone. -/
structure Duplicated (w v : Snapshot) (O : Finset Nat) (parent child : Nat) : Prop
    extends w.Forked v O parent child, w.Spared v parent child, w.Drawn v parent child userSlots

/-- Before and after, the spaces are only switched. -/
theorem Rounds.duplicated {x : Snapshot} (h : w.Settled O) (live : w.Live parent)
    (live' : w.Live child) (s : w.Switched u child)
    (rounds : u.Rounds v O role parent child userSlots) (hv : v.Settled O)
    (s' : v.Switched x parent) : w.Duplicated x O parent child where
  size := by rw [s'.size, rounds.size, s.size]
  spaces := by rw [s'.books, rounds.spaces, s.books]
  shares f := by
    have shares : x.shares = v.shares := by rw [s'.books]
    have before : u.shares = w.shares := by rw [s.books]
    rw [shares, rounds.shares, before, pagesIn_switched h s live]
  leaf π t hπ ht := by
    have hπ' := (s.has π).2 hπ
    rw [hv.leaf?_switched s' ((has_congr rounds.spaces π).2 hπ'), rounds.leaf π t hπ' ht,
      forkedPages_switched h s live hπ]
  data f hf := by
    have hu := h.switched live' s
    rw [hv.data_switched s' hf, rounds.data f hf, h.data_switched s hf]
  upholds := (h.upholds_switched s).trans (rounds.upholds.trans (hv.upholds_switched s'))
  toSpared := ((s.spared h parent child).trans rounds.spared).trans (s'.spared hv parent child)
  free := by
    have free : x.free = v.free := by rw [s'.books]
    have before : u.free = w.free := by rw [s.books]
    rw [free, rounds.free, before, tablesIn_switched s live (Nat.le_refl _)]
  used d hd present := by
    have before : u.free = w.free := by rw [s.books]
    have same := s.slotAt (.user parent d) ⟨live, hd⟩
    have used := rounds.used d hd (by rwa [same])
    have has : v.Has (.user child d) := (has_congr rounds.spaces _).2 ((s.has _).2 ⟨live', hd⟩)
    rw [s'.slotAt _ has, ← used, before, tablesIn_switched s live (Nat.le_of_lt hd)]

end Snapshot
end VirtualMemory
