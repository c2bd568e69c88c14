import VirtualMemory.Proofs.Charts.Spaces

/-!
# Pages added one after another

Each addition makes one page be found, and gives its slot the rights that the page needs. What a
list of them leaves is told by the list as a set: which pages are found, which bits the slots have,
and how many frames the tables took. Only which frame became which table is told by the order, and
of that nothing is said here.
-/
namespace VirtualMemory

open Layout

/-- A page of the user's that is to be mapped. -/
structure Addition where
  space : Nat
  va : Nat
  frame : Nat
  prot : Protection

namespace Addition

/-- Where the page's table is, or will be. -/
def place (a : Addition) : Place := .user a.space (dirIndex a.va)

/-- The page is the one at entry `t` of the table. -/
def Hits (a : Addition) (π : Place) (t : Nat) : Prop := π = a.place ∧ t = tableIndex a.va

end Addition

namespace Kernel

/-- Make the additions, one after another. -/
def addAll : List Addition → Kernel Unit
  | [] => pure ()
  | a :: L => do
    add a.space a.va a.frame a.prot
    addAll L

end Kernel

namespace Entry

/-- The named flags are among the low bits. -/
theorem flags_congr {e e' : Entry}
    (low : ∀ i < 12, e.raw.toNat.testBit i = e'.raw.toNat.testBit i) : e.flags = e'.flags := by
  have bits : (e.raw &&& entryVocabulary.known) = e'.raw &&& entryVocabulary.known := by
    apply UInt32.toNat_inj.1
    apply Nat.eq_of_testBit_eq
    intro i
    rw [UInt32.toNat_and, UInt32.toNat_and, Nat.testBit_and, Nat.testBit_and]
    by_cases near : i < 12
    · rw [low i near]
    · have off : entryVocabulary.known.toNat.testBit i = false :=
        Nat.testBit_lt_two_pow (lt_of_lt_of_le (b := 2 ^ 9) (by decide)
          (Nat.pow_le_pow_right (by decide) (by omega)))
      rw [off, Bool.and_false, Bool.and_false]
  exact congrArg FlagSet.mk bits

/-- Beside what a slot is widened by, an entry that is made has only the present bit. -/
theorem testBit_entryFlags (p : Protection) {i : Nat} (hi : i < 12) :
    p.entryFlags.bits.toNat.testBit i = true ↔ i = 0 ∨
      (p.entryFlags &&& (EntryFlags.writable ||| EntryFlags.user)).bits.toNat.testBit i = true := by
  revert i
  unfold Protection.entryFlags
  cases p.grantsWrite <;> cases p.grantsUser <;> decide

end Entry

namespace Snapshot

/-- The places of these pages that have no table yet. -/
def fresh (w : Snapshot) (L : List Addition) : Finset Place :=
  (L.map Addition.place).toFinset.filter fun π => (w.slotAt π).isPresent = false

/-- The pages `L` were added. -/
structure Adds (w v : Snapshot) (L : List Addition) : Prop extends w.Grounds v where
  tabled : v.Tabled
  new : ∀ a ∈ L, v.look a.place (tableIndex a.va) = some (some ⟨a.frame, a.prot.entryFlags⟩)
  look : ∀ π t, w.Shown π → t < tableEntries → (∀ a ∈ L, ¬ a.Hits π t) → v.look π t = w.look π t
  kept : ∀ π, w.Has π → (∀ a ∈ L, a.place ≠ π) → v.slotAt π = w.slotAt π
  present : ∀ a ∈ L, (v.slotAt a.place).isPresent = true
  frame : ∀ π, w.Has π → (w.slotAt π).isPresent = true →
    (v.slotAt π).isPresent = true ∧ (v.slotAt π).frame = (w.slotAt π).frame
  /-- A slot has the bits of all pages behind it, and those that it had. -/
  bits : ∀ π i, w.Has π → i < 12 → (v.slotAt π).isPresent = true →
    ((v.slotAt π).raw.toNat.testBit i = true ↔
      (w.slotAt π).isPresent = true ∧ (w.slotAt π).raw.toNat.testBit i = true ∨
        ∃ a ∈ L, a.place = π ∧ a.prot.entryFlags.bits.toNat.testBit i = true)
  window : ∀ d, mountTableSlot ≤ d → d < tableEntries → v.entry w.root d = w.entry w.root d
  pool : v.free <:+ w.free
  free : v.free.length + (w.fresh L).card = w.free.length
  records : ∀ f, (∀ a ∈ L, (v.slotAt a.place).frame ≠ f) →
    v.occupancy.get f = w.occupancy.get f

variable {w v u : Snapshot} {d f t p q : Nat} {prot : Protection} {L M : List Addition}
  {a : Addition}

theorem mem_fresh {π : Place} :
    π ∈ w.fresh L ↔ (∃ a ∈ L, a.place = π) ∧ (w.slotAt π).isPresent = false := by
  rw [fresh, Finset.mem_filter, List.mem_toFinset, List.mem_map]

theorem card_fresh_le (w : Snapshot) (L : List Addition) : (w.fresh L).card ≤ L.length :=
  (Finset.card_filter_le _ _).trans ((List.toFinset_card_le _).trans_eq (List.length_map _))

theorem fresh_perm (same : L.Perm M) : w.fresh L = w.fresh M := by
  ext π
  simp only [mem_fresh, same.mem_iff]

/-! ## One page more -/

section Installs
variable (i : w.Installs v f d t prot)
include i

theorem Installs.found_here (shown : w.Shown (w.here d)) (ht : t < tableEntries) :
    v.found (w.here d) = insert t (w.found (w.here d)) := by
  ext u
  rw [Finset.mem_insert, mem_found, mem_found]
  by_cases hu : u < tableEntries
  · rw [i.look _ u shown hu]
    by_cases same : u = t <;> simp [same, ht]
  · have other : u ≠ t := fun same => hu (same ▸ ht)
    simp [hu, other]

theorem Installs.slot_here : v.slotAt (w.here d) = v.entry w.root d := by
  rw [← here_congr i.spaces, slotAt_here, i.root]

/-- The table of the new page is a frame of its own. -/
theorem Installs.frame_ne (h : w.Charted) (hd : d < mountTableSlot) {π : Place} (hπ : w.Has π)
    (other : π ≠ w.here d) (present : (w.slotAt π).isPresent = true) :
    (w.slotAt π).frame ≠ (v.entry w.root d).frame := by
  have same := i.slotAt h hd hπ other
  have has := (has_congr i.spaces _).2 (has_here h.active hd)
  have frames := mt (i.charted.frame_eq_iff has (i.slot_here ▸ i.present)
    ((has_congr i.spaces _).2 hπ).shown (same ▸ present)).1 other
  rwa [same, i.slot_here] at frames

/-- The table that a page is added to counts one more, if it was not there. -/
theorem Installs.tabled (h : w.Tabled) (hd : d < userSlots) (ht : t < tableEntries) :
    v.Tabled := by
  have low : d < mountTableSlot := hd.trans (by decide)
  have has := has_here h.active low
  have here : w.here d = .user w.spaces.active d := if_pos hd
  refine ⟨i.charted, fun q e hq present => ?_⟩
  have hq' := (has_congr i.spaces _).1 hq
  by_cases same : .user q e = w.here d
  · rw [same] at present ⊢
    have count := i.count
    have added : (w.leaf? (w.here d) t = none) ↔ t ∉ w.found (w.here d) := by
      rw [here] at has ⊢
      rw [mem_found, ← h.look_eq_none has t]
      simp [ht]
    rw [tallied_iff present, i.slot_here, i.size, count, i.found_here has.shown ht]
    have card : (insert t (w.found (w.here d))).card = (w.found (w.here d)).card +
        if w.leaf? (w.here d) t = none then 1 else 0 := by
      split
      · exact Finset.card_insert_of_notMem (added.1 ‹_›)
      · rw [Finset.insert_eq_of_mem (not_not.1 (mt added.2 ‹_›)), Nat.add_zero]
    rw [card]
    cases before : (w.entry w.root d).isPresent with
    | false =>
      obtain ⟨-, first⟩ := i.opened before
      obtain ⟨inside, -, unrecorded⟩ := h.free _ (first ▸ List.mem_cons_self)
      have empty : w.found (w.here d) = ∅ := by
        refine Finset.filter_eq_empty_iff.2 fun u _ => not_not.2 (look_of_absent ?_ u)
        rw [slotAt_here, before]
      rw [Occupancy.get_of_not_mem unrecorded, empty]
      exact ⟨inside, rfl⟩
    | true =>
      have old := h.tallied_here hd before
      rw [(i.widened before).1, Entry.frame_widened]
      refine ⟨old.inside, ?_⟩
      rw [← slotAt_here] at old before ⊢
      rw [((tallied_iff before).1 old).2]
  · have slot := i.slotAt h.toCharted low hq' same
    rw [slot] at present ⊢
    have other := i.frame_ne h.toCharted low hq' same present
    have old := h.user q e hq' present
    refine ⟨i.size ▸ old.inside, ?_⟩
    rw [(i.counts _ other).1, i.pages _ (h.ne_root hq' present) other, old.count]

theorem Installs.bits {k : Nat} (hk : k < 12) : (v.entry w.root d).raw.toNat.testBit k = true ↔
    (w.entry w.root d).isPresent = true ∧ (w.entry w.root d).raw.toNat.testBit k = true ∨
      prot.entryFlags.bits.toNat.testBit k = true := by
  cases before : (w.entry w.root d).isPresent with
  | false =>
    rw [(i.opened before).1, Entry.testBit_of (Entry.frame_aligned _) hk]
    simp
  | true =>
    rw [(i.widened before).1, Entry.testBit_widened, Entry.testBit_entryFlags prot hk,
      Bool.or_eq_true]
    have first : k = 0 → (w.entry w.root d).raw.toNat.testBit k = true := by
      rintro rfl
      rwa [← Entry.isPresent_eq]
    tauto

end Installs

/-- A page was added to the resident space. -/
theorem Installs.adds (h : w.Tabled) (active : w.spaces.active = a.space)
    (user : dirIndex a.va < userSlots)
    (i : w.Installs v a.frame (dirIndex a.va) (tableIndex a.va) a.prot) : w.Adds v [a] := by
  have low : dirIndex a.va < mountTableSlot := user.trans (by decide)
  have has := has_here h.active low
  have ht := tableIndex_lt a.va
  have place : a.place = w.here (dirIndex a.va) := by
    rw [Addition.place, here, Place.seenBy, if_pos user, active]
  have slots (π : Place) (hπ : w.Has π) (other : π ≠ w.here (dirIndex a.va)) :
      v.slotAt π = w.slotAt π := i.slotAt h.toCharted low hπ other
  have away {π : Place} (other : ∀ b ∈ [a], b.place ≠ π) : π ≠ w.here (dirIndex a.va) :=
    place ▸ (other a (List.mem_singleton_self a)).symm
  refine ⟨.of_spaces i.root i.size i.shares i.spaces, i.tabled h user ht, ?_, ?_,
    fun π hπ other => slots π hπ (away other), ?_, ?_, ?_, ?_, ?_, ?_, ?_⟩
  · simp only [List.mem_singleton, forall_eq]
    rw [place, i.look _ _ has.shown ht, if_pos ⟨rfl, rfl⟩]
  · intro π t hπ ht' other
    rw [i.look π t hπ ht', if_neg]
    rw [← place]
    exact other a (List.mem_singleton_self a)
  · simp only [List.mem_singleton, forall_eq]
    rw [place, i.slot_here]
    exact i.present
  · intro π hπ present
    by_cases same : π = w.here (dirIndex a.va)
    · subst same
      rw [i.slot_here]
      refine ⟨i.present, ?_⟩
      rw [slotAt_here] at present ⊢
      rw [(i.widened present).1, Entry.frame_widened]
    · rw [slots π hπ same]
      exact ⟨present, rfl⟩
  · intro π k hπ hk present
    simp only [List.mem_singleton, exists_eq_left]
    by_cases same : π = w.here (dirIndex a.va)
    · subst same
      rw [i.slot_here, i.bits hk, slotAt_here, place]
      simp only [true_and]
    · rw [slots π hπ same] at present ⊢
      rw [place]
      simp [present, Ne.symm same]
  · exact fun k high hk => i.slots k hk (by simp only [mountTableSlot] at *; omega)
  · cases before : (w.entry w.root (dirIndex a.va)).isPresent with
    | false => rw [(i.opened before).2]; exact List.suffix_cons _ _
    | true => rw [(i.widened before).2]
  · rw [fresh, List.map_singleton, List.toFinset_cons, List.toFinset_nil, insert_empty_eq,
      Finset.filter_singleton, place, slotAt_here]
    cases before : (w.entry w.root (dirIndex a.va)).isPresent with
    | false => rw [(i.opened before).2]; simp
    | true => rw [(i.widened before).2]; simp
  · intro f other
    refine (i.counts f fun same => ?_).1
    refine other a (List.mem_singleton_self a) ?_
    rw [place, i.slot_here, same]

namespace Adds

theorem of_switched (h : w.Tabled) (live : w.Live q) (s : w.Switched v q) : w.Adds v [] := by
  refine ⟨.of_switched s, h.switched live s, nofun, fun π t hπ _ _ => h.look_switched s hπ t,
    fun π hπ _ => s.slotAt π hπ, nofun, fun π hπ present => ?_, fun π k hπ _ present => ?_,
    fun d high hd => s.kernel _ _ (by simp only [userSlots, mountTableSlot] at *; omega) hd,
    by rw [s.books], ?_, fun f _ => by rw [s.books]⟩
  · rw [s.slotAt π hπ]
    exact ⟨present, rfl⟩
  · rw [s.slotAt π hπ] at present ⊢
    simp [present]
  · rw [s.books]
    simp [fresh]

theorem refl (h : w.Tabled) : w.Adds w [] := by
  refine ⟨.refl w, h, nofun, fun _ _ _ _ _ => rfl, fun _ _ _ => rfl, nofun,
    fun _ _ present => ⟨present, rfl⟩, fun π k _ _ present => ?_, fun _ _ _ => rfl,
    List.suffix_refl _, ?_, fun _ _ => rfl⟩
  · simp [present]
  · simp [fresh]

/-- Which places have a table afterwards. -/
theorem present_iff (h : w.Adds v L) {π : Place} (hπ : w.Has π) :
    (v.slotAt π).isPresent = true ↔
      (w.slotAt π).isPresent = true ∨ ∃ a ∈ L, a.place = π := by
  constructor
  · intro present
    by_contra none
    obtain ⟨absent, other⟩ := not_or.1 none
    refine absent ?_
    rwa [h.kept π hπ fun a ha same => other ⟨a, ha, same⟩] at present
  · rintro (present | ⟨a, ha, rfl⟩)
    · exact (h.frame π hπ present).1
    · exact h.present a ha

/-- A table that was made is there for what follows. -/
theorem disjoint_fresh (h : w.Adds v L) (M : List Addition) :
    Disjoint (w.fresh L) (v.fresh M) := by
  refine Finset.disjoint_left.2 fun π first second => ?_
  obtain ⟨⟨a, ha, rfl⟩, -⟩ := mem_fresh.1 first
  have present := h.present a ha
  rw [(mem_fresh.1 second).2] at present
  cases present

/-- The tables that two lists take to make are those of the first and what is then left to make. -/
theorem fresh_append (h : w.Adds v L) (has : ∀ a ∈ L ++ M, w.Has a.place) :
    w.fresh (L ++ M) = w.fresh L ∪ v.fresh M := by
  ext π
  simp only [Finset.mem_union, mem_fresh, List.mem_append, or_and_right, exists_or]
  by_cases there : ∃ a ∈ L ++ M, a.place = π
  · obtain ⟨a, ha, rfl⟩ := there
    have iff := h.present_iff (has a ha)
    simp only [← Bool.not_eq_true, iff]
    by_cases first : ∃ b ∈ L, b.place = a.place
    · simp only [first, true_and, or_true, not_true, and_false, or_false]
      exact or_iff_left_of_imp And.right
    · simp only [first, false_and, false_or, or_false]
  · have left : ¬ ∃ a ∈ L, a.place = π :=
      fun both => there (both.imp fun a ha => ⟨List.mem_append_left M ha.1, ha.2⟩)
    have right : ¬ ∃ a ∈ M, a.place = π :=
      fun both => there (both.imp fun a ha => ⟨List.mem_append_right L ha.1, ha.2⟩)
    simp only [left, right, false_and, or_self]

theorem trans (h : w.Adds v L) (h' : v.Adds u M) (has : ∀ a ∈ L ++ M, w.Has a.place)
    (apart : ∀ a ∈ L, ∀ b ∈ M, ¬ b.Hits a.place (tableIndex a.va)) : w.Adds u (L ++ M) where
  toGrounds := h.toGrounds.trans h'.toGrounds
  tabled := h'.tabled
  new a ha := by
    obtain first | second := List.mem_append.1 ha
    · rw [h'.look _ _ ((h.shown _).2 (has a ha).shown) (tableIndex_lt _) (apart a first)]
      exact h.new a first
    · exact h'.new a second
  look π t hπ ht other := by
    rw [h'.look π t ((h.shown π).2 hπ) ht fun b hb => other b (List.mem_append_right L hb),
      h.look π t hπ ht fun a ha => other a (List.mem_append_left M ha)]
  kept π hπ other := by
    rw [h'.kept π ((h.has π).2 hπ) fun b hb => other b (List.mem_append_right L hb),
      h.kept π hπ fun a ha => other a (List.mem_append_left M ha)]
  present a ha := by
    obtain first | second := List.mem_append.1 ha
    · exact (h'.frame _ ((h.has _).2 (has a ha)) (h.present a first)).1
    · exact h'.present a second
  frame π hπ present := by
    obtain ⟨present', frame⟩ := h.frame π hπ present
    obtain ⟨present'', frame'⟩ := h'.frame π ((h.has π).2 hπ) present'
    exact ⟨present'', frame'.trans frame⟩
  bits π k hπ hk present := by
    have hπ' := (h.has π).2 hπ
    rw [h'.bits π k hπ' hk present]
    simp only [List.mem_append, or_and_right, exists_or]
    by_cases before : (v.slotAt π).isPresent = true
    · rw [h.bits π k hπ hk before]
      simp only [before, true_and, or_assoc]
    · have none := mt (h.present_iff hπ).2 before
      have other : ¬ ∃ a ∈ L, a.place = π ∧ a.prot.entryFlags.bits.toNat.testBit k = true :=
        fun both => none (.inr (both.imp fun a ha => ⟨ha.1, ha.2.1⟩))
      have absent : ¬ (w.slotAt π).isPresent = true := fun there => none (.inl there)
      simp only [before, absent, other, false_and, false_or, Bool.false_eq_true]
  window d high hd := by
    rw [← h.window d high hd, ← h.root]
    exact h'.window d high hd
  pool := h'.pool.trans h.pool
  free := by
    rw [h.fresh_append has, Finset.card_union_of_disjoint (h.disjoint_fresh M), ← h.free,
      ← h'.free]
    omega
  records f other := by
    rw [h'.records f fun b hb => other b (List.mem_append_right L hb), h.records f fun a ha => ?_]
    have all := List.mem_append_left M ha
    rw [← (h'.frame _ ((h.has _).2 (has a all)) (h.present a ha)).2]
    exact other a all

/-- The order of the list does not tell. -/
theorem perm (h : w.Adds v L) (same : L.Perm M) : w.Adds v M where
  toGrounds := h.toGrounds
  tabled := h.tabled
  new a ha := h.new a (same.mem_iff.2 ha)
  look π t hπ ht other := h.look π t hπ ht fun a ha => other a (same.mem_iff.1 ha)
  kept π hπ other := h.kept π hπ fun a ha => other a (same.mem_iff.1 ha)
  present a ha := h.present a (same.mem_iff.2 ha)
  frame := h.frame
  bits π k hπ hk present := by
    simp only [← same.mem_iff]
    exact h.bits π k hπ hk present
  window := h.window
  pool := h.pool
  free := by
    rw [← fresh_perm same]
    exact h.free
  records f other := h.records f fun a ha => other a (same.mem_iff.1 ha)

/-- A directory keeps its record. -/
theorem record_reserved (h : w.Adds v L) (has : ∀ a ∈ L, w.Has a.place) {f : Nat}
    (reserved : w.Reserved f) : v.occupancy.get f = w.occupancy.get f := by
  refine h.records f fun a ha same => ?_
  have apart := (h.tabled.apart _ ((h.has _).2 (has a ha)) (h.present a ha)).1
  rw [same] at apart
  exact apart ((h.reserved f).2 reserved)

/-! ## Two runs -/

section Two
variable (h : w.Adds v L) (h' : w.Adds u L)
include h h'

theorem look_eq {π : Place} (hπ : w.Shown π) (ht : t < tableEntries) :
    v.look π t = u.look π t := by
  by_cases hit : ∃ a ∈ L, a.Hits π t
  · obtain ⟨a, ha, rfl, rfl⟩ := hit
    rw [h.new a ha, h'.new a ha]
  · have other : ∀ a ∈ L, ¬ a.Hits π t := fun a ha both => hit ⟨a, ha, both⟩
    rw [h.look π t hπ ht other, h'.look π t hπ ht other]

theorem isPresent_eq {π : Place} (hπ : w.Has π) :
    (v.slotAt π).isPresent = (u.slotAt π).isPresent :=
  Bool.eq_iff_iff.2 ((h.present_iff hπ).trans (h'.present_iff hπ).symm)

/-- Slots have the same rights, though they may lead to different frames. -/
theorem flags_eq {π : Place} (hπ : w.Has π) : (v.slotAt π).flags = (u.slotAt π).flags := by
  have same := h.isPresent_eq h' hπ
  by_cases present : (v.slotAt π).isPresent = true
  · refine Entry.flags_congr fun k hk => Bool.eq_iff_iff.2 ?_
    rw [h.bits π k hπ hk present, h'.bits π k hπ hk (same ▸ present)]
  · have other : ∀ a ∈ L, a.place ≠ π := fun a ha place => present (place ▸ h.present a ha)
    rw [h.kept π hπ other, h'.kept π hπ other]

/-- Both took the same frames, in whichever order. -/
theorem free_eq : v.free = u.free := by
  have length : v.free.length = u.free.length := by
    have := h.free
    have := h'.free
    omega
  exact (List.suffix_of_suffix_length_le h.pool h'.pool length.le).eq_of_length length

theorem record_eq (has : ∀ a ∈ L, w.Has a.place) {π : Place} (hπ : w.Has π)
    (present : (v.slotAt π).isPresent = true) :
    v.occupancy.get (v.slotAt π).frame = u.occupancy.get (u.slotAt π).frame := by
  have present' := h.isPresent_eq h' hπ ▸ present
  cases π with
  | user p d =>
    have found : v.found (.user p d) = u.found (.user p d) :=
      Finset.filter_congr fun t ht => by rw [h.look_eq h' hπ.shown (Finset.mem_range.1 ht)]
    rw [h.tabled.count ((h.has _).2 hπ) present, h'.tabled.count ((h'.has _).2 hπ) present', found]
  | kernel d =>
    have other (a : Addition) (_ : a ∈ L) : a.place ≠ .kernel d := nofun
    have slot := h.kept _ hπ other
    have slot' := h'.kept _ hπ other
    have kept {x : Snapshot} (hx : w.Adds x L) (same : x.slotAt (.kernel d) = w.slotAt (.kernel d))
        (there : (x.slotAt (.kernel d)).isPresent = true) :
        x.occupancy.get (w.slotAt (.kernel d)).frame =
          w.occupancy.get (w.slotAt (.kernel d)).frame := by
      refine hx.records _ fun a ha frame => other a ha ?_
      rw [← same] at frame
      exact hx.tabled.single _ _ ((hx.has _).2 (has a ha)) ((hx.has _).2 hπ) (hx.present a ha)
        there frame
    rw [slot, slot', kept h slot present, kept h' slot' present']

end Two
end Adds

/-! ## All of them -/

/-- Nothing stands in the way of these additions. -/
structure Addable (w : Snapshot) (L : List Addition) : Prop where
  live : ∀ a ∈ L, w.Live a.space
  user : ∀ a ∈ L, a.va < kernelStart
  aligned : ∀ a ∈ L, isAligned a.va = true
  frames : ∀ a ∈ L, isAligned a.frame = true ∧ a.frame < 0x100000000
  apart : L.Pairwise fun a b => ¬ (a.space = b.space ∧ a.va / pageSize = b.va / pageSize)
  room : (w.fresh L).card ≤ w.free.length

/-- Two pages at one place and entry are one page of a space. -/
theorem Addition.page_of_hits {a b : Addition} (ha : a.va < kernelStart) (hb : b.va < kernelStart)
    (hits : b.Hits a.place (tableIndex a.va)) :
    a.space = b.space ∧ a.va / pageSize = b.va / pageSize := by
  obtain ⟨place, entry⟩ := hits
  obtain ⟨space, slot⟩ := Place.user.inj place
  refine ⟨space, ?_⟩
  simp only [dirIndex, tableIndex, pageSize, kernelStart] at *
  omega

theorem Addable.has (h : w.Addable L) (ha : a ∈ L) : w.Has a.place :=
  ⟨h.live a ha, dirIndex_user (h.user a ha)⟩

/-- What is left to be added can be. -/
theorem Addable.tail (h : w.Addable (a :: L)) (adds : w.Adds v [a]) : v.Addable L where
  live b hb := (adds.live _).2 (h.live b (List.mem_cons_of_mem a hb))
  user b hb := h.user b (List.mem_cons_of_mem a hb)
  aligned b hb := h.aligned b (List.mem_cons_of_mem a hb)
  frames b hb := h.frames b (List.mem_cons_of_mem a hb)
  apart := (List.pairwise_cons.1 h.apart).2
  room := by
    have room := h.room
    have free := adds.free
    have sub : w.fresh [a] ∪ v.fresh L ⊆ w.fresh (a :: L) := by
      refine Finset.union_subset (fun π hπ => ?_) fun π hπ => ?_
      · obtain ⟨there, absent⟩ := mem_fresh.1 hπ
        obtain ⟨b, hb, place⟩ := there
        rw [List.mem_singleton.1 hb] at place
        exact mem_fresh.2 ⟨⟨a, List.mem_cons_self, place⟩, absent⟩
      · obtain ⟨⟨b, hb, rfl⟩, absent⟩ := mem_fresh.1 hπ
        have later := List.mem_cons_of_mem a hb
        refine mem_fresh.2 ⟨⟨b, later, rfl⟩, ?_⟩
        by_contra present
        rw [(adds.frame _ (h.has later) (by simpa using present)).1] at absent
        cases absent
    have disjoint : Disjoint (w.fresh [a]) (v.fresh L) := adds.disjoint_fresh L
    have card := Finset.card_le_card sub
    rw [Finset.card_union_of_disjoint disjoint] at card
    omega

theorem Addable.perm (h : w.Addable L) (same : L.Perm M) : w.Addable M where
  live a ha := h.live a (same.mem_iff.2 ha)
  user a ha := h.user a (same.mem_iff.2 ha)
  aligned a ha := h.aligned a (same.mem_iff.2 ha)
  frames a ha := h.frames a (same.mem_iff.2 ha)
  apart := (same.pairwise_iff fun other both => other ⟨both.1.symm, both.2.symm⟩).1 h.apart
  room := by
    rw [← fresh_perm same]
    exact h.room

end Snapshot

namespace Kernel

open Snapshot

variable {E : Failure → Books → Prop} {w : Snapshot} {a : Addition} {L : List Addition}

/-- Adding one page that is admitted. -/
theorem add_adds (h : w.Tabled) (admits : w.Addable (a :: L)) :
    Leads E (add a.space a.va a.frame a.prot) w fun _ v =>
      w.Adds v [a] ∧ v.spaces = w.spaces := by
  have first : a ∈ a :: L := List.mem_cons_self
  have live := admits.live a first
  have user := dirIndex_user (admits.user a first)
  obtain ⟨aligned, small⟩ := admits.frames a first
  rw [add_eq (admits.aligned a first) aligned]
  refine within_switched h.toSwitchable live fun v s => ?_
  have tabled := h.switched live s
  have there : w.Adds v [] := .of_switched h live s
  have active : v.spaces.active = a.space := by rw [s.books]
  have place : a.place = v.here (dirIndex a.va) := by
    rw [Addition.place, here, Place.seenBy, if_pos user, active]
  have slot : v.entry v.root (dirIndex a.va) = w.slotAt a.place := by
    rw [← slotAt_here, ← place, s.slotAt _ (admits.has first)]
  have room (absent : (v.entry v.root (dirIndex a.va)).isPresent = false) : v.free ≠ [] := by
    intro empty
    rw [s.books] at empty
    have mem : a.place ∈ w.fresh (a :: L) :=
      mem_fresh.2 ⟨⟨a, first, rfl⟩, by rw [← slot, absent]⟩
    have some := (Finset.card_pos.2 ⟨_, mem⟩).trans_le admits.room
    change w.free = [] at empty
    rw [empty] at some
    cases some
  obtain ⟨u, maps, installs⟩ := map_installs tabled.toCharted (user.trans (by decide))
    (tableIndex_lt a.va) (tabled.tallied_here user) room aligned small a.prot
  refine maps.bind ((invalidatePage_yields _ _).leads ?_)
  have mapped := installs.adds tabled active user
  have has : ∀ b ∈ [] ++ [a], w.Has b.place := by
    simp only [List.nil_append, List.mem_singleton, forall_eq]
    exact admits.has first
  have both := there.trans mapped has fun _ none => absurd none List.not_mem_nil
  have back := (both.live _).2 h.active
  refine ⟨both.tabled.toSwitchable, back, fun x s' => ?_⟩
  have all := both.trans (.of_switched both.tabled back s') (by simpa using has)
    fun _ _ _ none => absurd none List.not_mem_nil
  exact ⟨all, all.spaces_eq (by rw [s'.books])⟩

/-- A list of pages that are admitted is added to the last one. -/
theorem addAll_adds (h : w.Tabled) (admits : w.Addable L) :
    Leads E (addAll L) w fun _ v => w.Adds v L ∧ v.spaces = w.spaces := by
  induction L generalizing w with
  | nil => exact .pure ⟨.refl h, rfl⟩
  | cons a L ih =>
    refine .bind ((add_adds h admits).mono ?_)
    rintro _ v ⟨adds, spaces⟩
    refine (ih adds.tabled (admits.tail adds)).mono ?_
    rintro _ u ⟨more, spaces'⟩
    refine ⟨adds.trans more (fun b hb => admits.has hb) ?_, spaces'.trans spaces⟩
    intro b hb c hc hits
    obtain rfl := List.mem_singleton.1 hb
    exact (List.pairwise_cons.1 admits.apart).1 c hc (Addition.page_of_hits
      (admits.user b List.mem_cons_self) (admits.user c (List.mem_cons_of_mem b hc)) hits)

end Kernel
end VirtualMemory
