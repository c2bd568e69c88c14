import VirtualMemory.Proofs.Charts.Spaces

/-!
# Ranges of pages, to the word

A range is worked through page by page, and a table may go while the loop is still among its pages.
So what is left is told of any set of pages that are gone already: nothing is found at these, a user
slot is empty once all that its table held is among them, and the frames that were tables and are
none any more are what the pool has gained. Rights are rewritten in place.
-/
namespace VirtualMemory

open Layout

namespace Snapshot

/-- `f` is bound as a table at a user slot of space `p`. -/
def Tables (w : Snapshot) (p f : Nat) : Prop :=
  ∃ d < userSlots, (w.slotAt (.user p d)).isPresent = true ∧ (w.slotAt (.user p d)).frame = f

/-- Of space `p` the pages `gone` are gone, and the tables that held no others. -/
structure Sweeps (w v : Snapshot) (p : Nat) (gone : Place → Nat → Prop) : Prop
    extends w.Grounds v where
  furnished : v.Furnished
  none : ∀ π t, w.Shown π → t < tableEntries → gone π t → v.look π t = some none
  look : ∀ π t, w.Shown π → t < tableEntries → ¬ gone π t → v.look π t = w.look π t
  slot : ∀ π, w.Has π → v.slotAt π = w.slotAt π ∨
    (w.slotAt π).isPresent = true ∧ v.slotAt π = .empty ∧ ∃ d, π = .user p d
  window : ∀ d, mountTableSlot ≤ d → d < tableEntries → v.entry w.root d = w.entry w.root d
  free : w.free <:+ v.free
  pool : ∀ f, f ∈ v.free ↔ f ∈ w.free ∨ w.Tables p f ∧ ¬ v.Tables p f
  records : ∀ f, ¬ w.Tables p f → v.occupancy.get f = w.occupancy.get f ∧
    (f ∈ v.occupancy.counts ↔ f ∈ w.occupancy.counts)
  pages : ∀ f, ¬ w.Reserved f → ¬ w.Tables p f → v.page f = w.page f

/-- Of space `p` the pages that are `hit` have the rights of `prot`, if they are there. -/
structure Regrants (w v : Snapshot) (p : Nat) (prot : Protection) (hit : Place → Nat → Prop) : Prop
    extends w.Grounds v where
  tabled : v.Tabled
  new : ∀ π t, w.Shown π → t < tableEntries → hit π t →
    v.look π t = (w.look π t).map (·.map fun m => ⟨m.frame, prot.entryFlags⟩)
  look : ∀ π t, w.Shown π → t < tableEntries → ¬ hit π t → v.look π t = w.look π t
  slot : ∀ π, w.Has π → v.slotAt π = w.slotAt π
  window : ∀ d, mountTableSlot ≤ d → d < tableEntries → v.entry w.root d = w.entry w.root d
  free : v.free = w.free
  occupancy : v.occupancy = w.occupancy
  pages : ∀ f, ¬ w.Reserved f → ¬ w.Tables p f → v.page f = w.page f

variable {w v u : Snapshot} {p q d t : Nat} {prot : Protection}
  {gone more hit : Place → Nat → Prop}

/-! ## Taking one page away -/

section Clears
variable (c : w.Clears v d t)
include c

theorem Clears.found_here (shown : w.Shown (w.here d)) :
    v.found (w.here d) = (w.found (w.here d)).erase t := by
  ext u
  rw [Finset.mem_erase, mem_found, mem_found]
  by_cases hu : u < tableEntries
  · rw [c.look _ u shown hu]
    by_cases same : u = t <;> simp [same]
  · simp [hu]

theorem Clears.found_of_ne {π : Place} (hπ : w.Shown π) (other : π ≠ w.here d) :
    v.found π = w.found π := by
  refine Finset.filter_congr fun u hu => ?_
  rw [c.look π u hπ (Finset.mem_range.1 hu), if_neg fun both => other both.1]

theorem Clears.count_of_ne {f : Nat} (other : f ≠ (w.entry w.root d).frame) :
    v.occupancy.get f = w.occupancy.get f ∧ (f ∈ v.occupancy.counts ↔ f ∈ w.occupancy.counts) := by
  by_cases none : w.leaf? (w.here d) t = .none
  · rw [c.absent none]
    exact ⟨rfl, Iff.rfl⟩
  · by_cases one : w.occupancy.get (w.entry w.root d).frame = 1
    · rw [(c.last none one).2.2, Occupancy.get_forget, if_neg (Ne.symm other), Occupancy.mem_forget]
      exact ⟨rfl, and_iff_right (Ne.symm other)⟩
    · rw [(c.others none one).2.2, Occupancy.get_set, if_neg (Ne.symm other), Occupancy.mem_set]
      exact ⟨rfl, or_iff_right (Ne.symm other)⟩

/-- The slot and the pool are as they were, or the table has gone from the one to the other. -/
theorem Clears.cases : v.entry w.root d = w.entry w.root d ∧ v.free = w.free ∨
    (w.entry w.root d).isPresent = true ∧ v.entry w.root d = .empty ∧
      v.free = (w.entry w.root d).frame :: w.free := by
  by_cases none : w.leaf? (w.here d) t = .none
  · rw [c.absent none]
    exact .inl ⟨rfl, rfl⟩
  · by_cases one : w.occupancy.get (w.entry w.root d).frame = 1
    · obtain ⟨slot, free, -⟩ := c.last none one
      refine .inr ⟨?_, slot, free⟩
      by_contra absent
      exact none (leaf?_of_absent (by rw [slotAt_here]; simpa using absent) t)
    · exact .inl ⟨(c.others none one).1, (c.others none one).2.1⟩

/-- The table that a page is taken from is gone with its last page, and counts one less before. -/
theorem Clears.furnished (h : w.Furnished) (hd : d < userSlots) (ht : t < tableEntries) :
    v.Furnished := by
  have low : d < mountTableSlot := hd.trans (by decide)
  have has := has_here h.active low
  have here : w.here d = .user w.spaces.active d := if_pos hd
  by_cases none : w.leaf? (w.here d) t = .none
  · rw [c.absent none]
    exact h
  have there : (w.slotAt (w.here d)).isPresent = true := by
    by_contra absent
    exact none (leaf?_of_absent (by simpa using absent) t)
  have mem : t ∈ w.found (w.here d) := by
    rw [here] at has none ⊢
    exact mem_found.2 ⟨ht, mt (h.look_eq_none has t).1 none⟩
  have kept (q e : Nat) (hq : v.Has (.user q e))
      (present : (v.slotAt (.user q e)).isPresent = true) :
      v.Tallied (v.slotAt (.user q e)).frame ∧ (v.found (.user q e)).Nonempty := by
    have hq' := (has_congr c.spaces _).1 hq
    by_cases same : .user q e = w.here d
    · rw [same, ← here_congr c.spaces, slotAt_here, c.root] at present
      by_cases one : w.occupancy.get (w.entry w.root d).frame = 1
      · rw [(c.last none one).1] at present
        cases present
      · obtain ⟨slot, -, record⟩ := c.others none one
        have slot' : v.slotAt (w.here d) = w.slotAt (w.here d) := by
          rw [← here_congr c.spaces, slotAt_here, here_congr c.spaces, slotAt_here, c.root, slot]
        have count : w.occupancy.get (w.entry w.root d).frame = (w.found (w.here d)).card := by
          have count := h.count (here ▸ has) (here ▸ there)
          rwa [← here, slotAt_here] at count
        have inside := (h.tallied_here hd (slotAt_here (w := w) ▸ there)).inside
        rw [same, tallied_iff (slot' ▸ there), slot', c.size, slotAt_here, record,
          Occupancy.get_set, if_pos rfl, c.found_here has.shown, Finset.card_erase_of_mem mem,
          count]
        refine ⟨⟨inside, rfl⟩, ?_⟩
        rw [← Finset.card_pos, Finset.card_erase_of_mem mem]
        have some := Finset.card_pos.2 ⟨t, mem⟩
        omega
    · have slot := c.slotAt h.toCharted low hq' same
      rw [slot] at present ⊢
      have other : (w.slotAt (.user q e)).frame ≠ (w.entry w.root d).frame := by
        rw [← slotAt_here]
        exact mt (h.frame_eq_iff has there hq'.shown present).1 same
      have old := h.user q e hq' present
      refine ⟨⟨c.size ▸ old.inside, ?_⟩, ?_⟩
      · rw [(c.count_of_ne other).1, c.pages _ (h.ne_root hq' present) other, old.count]
      · rw [c.found_of_ne hq'.shown same]
        exact h.toTabled.filled_iff.1 h.filled q e hq' present
  have tabled : v.Tabled := ⟨c.charted, fun q e hq present => (kept q e hq present).1⟩
  exact ⟨tabled, tabled.filled_iff.2 fun q e hq present => (kept q e hq present).2⟩

/-- The pool has what is no table any more. -/
theorem Clears.pool (h : w.Furnished) (hd : d < userSlots) (f : Nat) : f ∈ v.free ↔
    f ∈ w.free ∨ w.Tables w.spaces.active f ∧ ¬ v.Tables w.spaces.active f := by
  have low : d < mountTableSlot := hd.trans (by decide)
  have has := has_here h.active low
  have here : w.here d = .user w.spaces.active d := if_pos hd
  have slots (e : Nat) (he : e < userSlots) (other : e ≠ d) :
      v.slotAt (.user w.spaces.active e) = w.slotAt (.user w.spaces.active e) :=
    c.slotAt h.toCharted low ⟨h.active, he⟩ (by rw [here]; simpa using other)
  have slot : v.slotAt (.user w.spaces.active d) = v.entry w.root d := by
    rw [← here, ← here_congr c.spaces, slotAt_here, c.root]
  have before : w.slotAt (.user w.spaces.active d) = w.entry w.root d := by rw [← here, slotAt_here]
  obtain ⟨same, free⟩ | ⟨present, gone, free⟩ := c.cases
  · have all (e : Nat) (he : e < userSlots) :
        v.slotAt (.user w.spaces.active e) = w.slotAt (.user w.spaces.active e) := by
      by_cases other : e = d
      · rw [other, slot, before, same]
      · exact slots e he other
    have tables : v.Tables w.spaces.active f ↔ w.Tables w.spaces.active f :=
      exists_congr fun e => and_congr_right fun he => by rw [all e he]
    rw [free, tables, and_not_self_iff, or_false]
  · rw [free, List.mem_cons, or_comm]
    refine or_congr_right ⟨?_, ?_⟩
    · rintro rfl
      refine ⟨⟨d, hd, by rw [before]; exact ⟨present, rfl⟩⟩, ?_⟩
      rintro ⟨e, he, there, frame⟩
      by_cases other : e = d
      · rw [other, slot, gone] at there
        cases there
      · rw [slots e he other] at there frame
        rw [← before] at frame present
        have same := h.single (.user _ e) _ ⟨h.active, he⟩ (here ▸ has) there present frame
        exact other (Place.user.inj same).2
    · rintro ⟨⟨e, he, there, rfl⟩, gone'⟩
      by_cases other : e = d
      · rw [other, before]
      · refine absurd ⟨e, he, ?_⟩ gone'
        rw [slots e he other]
        exact ⟨there, rfl⟩

/-- One page is gone. -/
theorem Clears.sweeps (h : w.Furnished) (hd : d < userSlots) (ht : t < tableEntries) :
    w.Sweeps v w.spaces.active fun π u => π = w.here d ∧ u = t := by
  have low : d < mountTableSlot := hd.trans (by decide)
  have has := has_here h.active low
  have here : w.here d = .user w.spaces.active d := if_pos hd
  have slots (π : Place) (hπ : w.Has π) (other : π ≠ w.here d) : v.slotAt π = w.slotAt π :=
    c.slotAt h.toCharted low hπ other
  have slot : v.slotAt (w.here d) = v.entry w.root d := by
    rw [← here_congr c.spaces, slotAt_here, c.root]
  -- a frame that is no table of the space is not the one that the page is taken from
  have apart (f : Nat) (hf : ¬ w.Tables w.spaces.active f) :
      v = w ∨ f ≠ (w.entry w.root d).frame := by
    by_cases none : w.leaf? (w.here d) t = .none
    · exact .inl (c.absent none)
    · refine .inr fun same => hf ⟨d, hd, ?_⟩
      rw [← here, slotAt_here]
      refine ⟨?_, same.symm⟩
      by_contra absent
      exact none (leaf?_of_absent (by rw [slotAt_here]; simpa using absent) t)
  refine ⟨.of_spaces c.root c.size c.shares c.spaces, c.furnished h hd ht,
    fun π u hπ hu gone => (c.look π u hπ hu).trans (if_pos gone),
    fun π u hπ hu kept => (c.look π u hπ hu).trans (if_neg kept), fun π hπ => ?_,
    fun i high hi => c.slots i hi (by simp only [mountTableSlot] at *; omega), ?_, ?_,
    fun f hf => ?_, fun f hf hf' => ?_⟩
  · by_cases same : π = w.here d
    · subst same
      rw [slot, slotAt_here]
      exact c.cases.imp And.left fun gone => ⟨gone.1, gone.2.1, d, here⟩
    · exact .inl (slots π hπ same)
  · obtain ⟨-, free⟩ | ⟨-, -, free⟩ := c.cases <;> rw [free]
    exact List.suffix_cons _ _
  · exact c.pool h hd
  · obtain rfl | other := apart f hf
    · exact ⟨rfl, Iff.rfl⟩
    · exact c.count_of_ne other
  · obtain rfl | other := apart f hf'
    · rfl
    · exact c.pages f (fun root => hf (.inl root)) other

end Clears

/-! ## Ranges that are swept -/

theorem Switched.tables (s : w.Switched v q) (live : w.Live p) (f : Nat) :
    v.Tables p f ↔ w.Tables p f :=
  exists_congr fun d => and_congr_right fun hd => by rw [s.slotAt (.user p d) ⟨live, hd⟩]

namespace Sweeps

theorem of_switched (h : w.Furnished) (live : w.Live q) (s : w.Switched v q)
    (live' : w.Live p) : w.Sweeps v p fun _ _ => False := by
  refine ⟨.of_switched s, h.switched live s, fun _ _ _ _ => False.elim,
    fun π t hπ _ _ => h.look_switched s hπ t, fun π hπ => .inl (s.slotAt π hπ),
    fun d high hd => s.kernel _ _ (by simp only [userSlots, mountTableSlot] at *; omega) hd,
    by rw [s.books], fun f => ?_, fun f _ => by rw [s.books]; simp,
    fun f hf _ => s.page_of_unreserved hf⟩
  rw [s.books, s.tables live', and_not_self_iff, or_false]

/-- Tables only go. -/
theorem tables (h : w.Sweeps v p gone) (live : w.Live p) {f : Nat} (table : v.Tables p f) :
    w.Tables p f := by
  obtain ⟨d, hd, present, frame⟩ := table
  refine ⟨d, hd, ?_⟩
  obtain same | ⟨-, empty, -⟩ := h.slot (.user p d) ⟨live, hd⟩
  · rw [← same]
    exact ⟨present, frame⟩
  · rw [empty] at present
    cases present

theorem trans (h : w.Sweeps v p gone) (h' : v.Sweeps u p more) (live : w.Live p) :
    w.Sweeps u p fun π t => gone π t ∨ more π t where
  toGrounds := h.toGrounds.trans h'.toGrounds
  furnished := h'.furnished
  none π t hπ ht swept := by
    have hπ' := (h.shown π).2 hπ
    by_cases again : more π t
    · exact h'.none π t hπ' ht again
    · rw [h'.look π t hπ' ht again, h.none π t hπ ht (swept.resolve_right again)]
  look π t hπ ht kept := by
    rw [h'.look π t ((h.shown π).2 hπ) ht fun again => kept (.inr again),
      h.look π t hπ ht fun before => kept (.inl before)]
  slot π hπ := by
    obtain same | ⟨there, empty⟩ := h'.slot π ((h.has π).2 hπ)
    · rw [same]
      exact h.slot π hπ
    · obtain same | ⟨-, gone, -⟩ := h.slot π hπ
      · exact .inr ⟨same ▸ there, empty⟩
      · rw [gone] at there
        cases there
  window d high hd := by
    rw [← h.window d high hd, ← h.root]
    exact h'.window d high hd
  free := h.free.trans h'.free
  pool f := by
    have first : v.Tables p f → w.Tables p f := h.tables live
    have second : u.Tables p f → v.Tables p f := h'.tables ((h.live p).2 live)
    rw [h'.pool, h.pool]
    tauto
  records f hf := by
    have hf' : ¬ v.Tables p f := fun table => hf (h.tables live table)
    obtain ⟨get, mem⟩ := h.records f hf
    rw [(h'.records f hf').1, (h'.records f hf').2]
    exact ⟨get, mem⟩
  pages f hf hf' := by
    rw [h'.pages f (mt (h.reserved f).1 hf) fun table => hf' (h.tables live table),
      h.pages f hf hf']

/-- A table goes just if all that was found in it is gone. -/
theorem slot_user (h : w.Sweeps v p gone) (live : w.Live p) (hd : d < userSlots)
    (present : (w.slotAt (.user p d)).isPresent = true) : v.slotAt (.user p d) = .empty ↔
      ∀ t < tableEntries, w.look (.user p d) t ≠ some .none → gone (.user p d) t := by
  have hπ : w.Has (.user p d) := ⟨live, hd⟩
  constructor
  · intro empty t ht some
    by_contra kept
    refine some ((h.look _ t hπ.shown ht kept).symm.trans (look_of_absent ?_ t))
    rw [empty, Entry.isPresent_empty]
  · intro all
    refine (h.slot _ hπ).elim (fun same => ?_) fun gone => gone.2.1
    have hπ' := (h.has _).2 hπ
    obtain ⟨t, mem⟩ := h.furnished.toTabled.filled_iff.1 h.furnished.filled p d hπ'
      (same ▸ present)
    obtain ⟨ht, some⟩ := mem_found.1 mem
    by_cases swept : gone (.user p d) t
    · exact absurd (h.none _ t hπ.shown ht swept) some
    · rw [h.look _ t hπ.shown ht swept] at some
      exact absurd (all t ht some) swept

/-- The tables that go to the pool are those all of whose pages are gone. -/
theorem mem_free_iff (h : w.Sweeps v p gone) (furnished : w.Furnished) (live : w.Live p) (f : Nat) :
    f ∈ v.free ↔ f ∈ w.free ∨ ∃ d < userSlots, (w.slotAt (.user p d)).isPresent = true ∧
      (∀ t < tableEntries, w.look (.user p d) t ≠ some .none → gone (.user p d) t) ∧
      (w.slotAt (.user p d)).frame = f := by
  refine (h.pool f).trans (or_congr_right ⟨?_, ?_⟩)
  · rintro ⟨⟨d, hd, there, rfl⟩, unbound⟩
    refine ⟨d, hd, there, ?_, rfl⟩
    obtain same | ⟨-, empty, -⟩ := h.slot (.user p d) ⟨live, hd⟩
    · exact absurd ⟨d, hd, by rw [same]; exact ⟨there, rfl⟩⟩ unbound
    · exact (h.slot_user live hd there).1 empty
  · rintro ⟨d, hd, there, all, rfl⟩
    refine ⟨⟨d, hd, there, rfl⟩, ?_⟩
    rintro ⟨d', hd', there', same⟩
    obtain kept | ⟨-, empty, -⟩ := h.slot (.user p d') ⟨live, hd'⟩
    · -- No other slot of the space leads to the table.
      rw [kept] at there' same
      obtain ⟨-, rfl⟩ := Place.user.inj
        (furnished.single (.user p d') (.user p d) ⟨live, hd'⟩ ⟨live, hd⟩ there' there same)
      rw [(h.slot_user live hd there).2 all] at kept
      rw [← kept] at there
      cases there
    · rw [empty] at there'
      cases there'

end Sweeps

/-! ## Ranges that get other rights -/

namespace Regrants

theorem of_switched (h : w.Tabled) (live : w.Live q) (s : w.Switched v q) (p : Nat)
    (prot : Protection) : w.Regrants v p prot fun _ _ => False :=
  ⟨.of_switched s, h.switched live s, fun _ _ _ _ => False.elim,
    fun π t hπ _ _ => h.look_switched s hπ t, s.slotAt,
    fun d high hd => s.kernel _ _ (by simp only [userSlots, mountTableSlot] at *; omega) hd,
    by rw [s.books], by rw [s.books], fun f hf _ => s.page_of_unreserved hf⟩

theorem tables (h : w.Regrants v p prot hit) (live : w.Live p) (f : Nat) :
    v.Tables p f ↔ w.Tables p f :=
  exists_congr fun d => and_congr_right fun hd => by rw [h.slot (.user p d) ⟨live, hd⟩]

theorem trans (h : w.Regrants v p prot hit) (h' : v.Regrants u p prot more) (live : w.Live p) :
    w.Regrants u p prot fun π t => hit π t ∨ more π t where
  toGrounds := h.toGrounds.trans h'.toGrounds
  tabled := h'.tabled
  new π t hπ ht both := by
    have hπ' := (h.shown π).2 hπ
    by_cases before : hit π t <;> by_cases again : more π t
    · rw [h'.new π t hπ' ht again, h.new π t hπ ht before, Option.map_map]
      congr 1
      funext m
      cases m <;> rfl
    · rw [h'.look π t hπ' ht again, h.new π t hπ ht before]
    · rw [h'.new π t hπ' ht again, h.look π t hπ ht before]
    · exact (both.elim before again).elim
  look π t hπ ht kept := by
    rw [h'.look π t ((h.shown π).2 hπ) ht fun again => kept (.inr again),
      h.look π t hπ ht fun before => kept (.inl before)]
  slot π hπ := (h'.slot π ((h.has π).2 hπ)).trans (h.slot π hπ)
  window d high hd := by
    rw [← h.window d high hd, ← h.root]
    exact h'.window d high hd
  free := h'.free.trans h.free
  occupancy := h'.occupancy.trans h.occupancy
  pages f hf hf' := by
    rw [h'.pages f (mt (h.reserved f).1 hf) (mt (h.tables live f).1 hf'), h.pages f hf hf']

/-- Pages are found where they were. -/
theorem found (h : w.Regrants v p prot hit) {π : Place} (hπ : w.Shown π) :
    v.found π = w.found π := by
  refine Finset.filter_congr fun t ht => not_congr ?_
  have ht := Finset.mem_range.1 ht
  by_cases new : hit π t
  · rw [h.new π t hπ ht new]
    cases w.look π t with
    | none => simp
    | some m => cases m <;> simp
  · rw [h.look π t hπ ht new]

theorem furnished (h : w.Regrants v p prot hit) (filled : w.Furnished) : v.Furnished := by
  refine ⟨h.tabled, h.tabled.filled_iff.2 fun q d hq present => ?_⟩
  have hq' := (h.has _).1 hq
  rw [h.slot _ hq'] at present
  rw [h.found hq'.shown]
  exact filled.toTabled.filled_iff.1 filled.filled q d hq' present

end Regrants

/-- An entry is replaced for another of the same frame. -/
theorem Tabled.regrants (h : w.Tabled) (hd : d < userSlots) (ht : t < tableEntries)
    (present : (w.entry w.root d).isPresent = true)
    (there : (w.entry (w.entry w.root d).frame t).isPresent = true) (prot : Protection) :
    w.Regrants (w.setEntry (w.entry w.root d).frame t
        (.of (w.entry (w.entry w.root d).frame t).frame prot.entryFlags))
      w.spaces.active prot fun π u => π = w.here d ∧ u = t := by
  have low : d < mountTableSlot := hd.trans (by decide)
  have has := has_here h.active low
  have root := h.here_ne_root low present
  have tallied := h.tallied_here hd present
  set e := w.entry (w.entry w.root d).frame t with he
  set new : Entry := .of e.frame prot.entryFlags with hnew
  set v := w.setEntry (w.entry w.root d).frame t new with hv
  have now : new.isPresent = true := Entry.isPresent_entryFlags _ prot
  have record : w.occupancy.get (w.entry w.root d).frame =
      ((w.page (w.entry w.root d).frame).setEntry t new).presentCount := by
    rw [Page.presentCount_setEntry_of_present there now, tallied.count]
  have written := h.toCharted.setLeaf (o := w.occupancy) (t := t) has (by rw [slotAt_here, present])
    (by rw [slotAt_here]; exact tallied.inside) ht new (by rw [slotAt_here]; exact record)
    fun _ _ => ⟨rfl, Iff.rfl⟩
  rw [slotAt_here, if_pos now] at written
  change v.Charted ∧ ∀ ρ u, w.Shown ρ → u < tableEntries → v.look ρ u = _ at written
  obtain ⟨charted, look⟩ := written
  have dirs := h.ne_directory has (by rw [slotAt_here, present])
  rw [slotAt_here] at dirs
  have slots (π : Place) : v.slotAt π = w.slotAt π := slotAt_setPage root dirs _ π
  have page (f : Nat) (other : f ≠ (w.entry w.root d).frame) : v.page f = w.page f := by
    rw [hv, page_setEntry, if_neg other]
  refine ⟨.of_spaces rfl rfl rfl rfl, ⟨charted, fun q i hq there' => ?_⟩, ?_,
    fun π u hπ hu kept => (look π u hπ hu).trans (if_neg kept), fun π _ => slots π,
    fun i _ _ => entry_setPage_of_ne _ _ _ root.symm i, rfl, rfl, fun f _ hf => page f ?_⟩
  · rw [slots] at there' ⊢
    have old := h.user q i hq there'
    refine ⟨old.inside, old.count.trans ?_⟩
    by_cases same : (w.slotAt (.user q i)).frame = (w.entry w.root d).frame
    · rw [same, hv, page_setEntry, if_pos rfl, ← record, tallied.count]
    · rw [page _ same]
  · rintro π u hπ hu ⟨rfl, rfl⟩
    rw [look _ _ hπ hu, if_pos ⟨rfl, rfl⟩, look_here (fun _ => tallied), leaf?_here,
      if_pos ⟨present, there⟩, Option.map_some, Option.map_some, Option.map_some, ← he, hnew,
      Entry.ofEntry_of e.frame_aligned e.frame_lt]
    rfl
  · rintro rfl
    refine hf ⟨d, hd, ?_⟩
    rw [show Place.user w.spaces.active d = w.here d from (if_pos hd).symm, slotAt_here]
    exact ⟨present, rfl⟩

end Snapshot

/-! ## What runs -/

namespace Kernel

open Snapshot

variable {E : Failure → Books → Prop} {w : Snapshot} {p va first last : Nat}

/-- A loop over user pages moves a state by what its rounds do and by the two switches around them.
The moves `R` are told by the pages that they hit, and `I` is what they rely on and keep. -/
theorem forPages_moves {R : Snapshot → Snapshot → (Place → Nat → Prop) → Prop}
    {I : Snapshot → Prop} {body : Nat → Kernel Unit} (h : I w) (live : w.Live p)
    (firstAligned : isAligned first = true) (lastAligned : isAligned last = true)
    (ordered : first ≤ last) (user : last ≤ kernelStart) (switchable : ∀ a, I a → a.Switchable)
    (keeps : ∀ a b hit, R a b hit → I b ∧ a.Grounds b)
    (switched : ∀ a b q, I a → a.Live p → a.Live q → a.Switched b q → R a b fun _ _ => False)
    (trans : ∀ a b c hit more, a.Live p → R a b hit → R b c more →
      R a c fun π t => hit π t ∨ more π t)
    (step : ∀ a va, I a → a.spaces.active = p → isAligned va = true → dirIndex va < userSlots →
      Leads E (body va) a fun _ b =>
        R a b (fun π t => π = .seenBy p (dirIndex va) ∧ t = tableIndex va) ∧
          b.spaces = a.spaces) :
    Leads E (forPages p first last body) w fun _ v =>
      R w v (hits p first ((last - first) / pageSize)) ∧ v.spaces = w.spaces := by
  rw [forPages_eq firstAligned lastAligned ordered]
  refine within_switched (switchable w h) live fun v s => ?_
  have start := switched w v p h live live s
  obtain ⟨hv, ground⟩ := keeps _ _ _ start
  have live' : v.Live p := (ground.live p).2 live
  refine Leads.mono (Leads.forEach (fun k a => R v a (hits p first k) ∧ a.spaces.active = p)
    ⟨?_, by rw [s.books]⟩ fun k a hk moved => ?_) fun _ u moved => ?_
  · have none : (fun _ _ => False) = hits p first 0 := by
      funext π t
      exact (eq_false (hits_zero p first π t)).symm
    have active : v.spaces.active = p := by rw [s.books]
    exact none ▸ switched v v p hv live' live' (active ▸ Switched.resident v)
  · obtain ⟨moved, active⟩ := moved
    rw [isAligned_iff] at firstAligned lastAligned
    simp only [pageSize] at hk
    refine (step a _ (keeps _ _ _ moved).1 active ?_ (dirIndex_user ?_)).mono fun _ b next => ?_
    · rw [isAligned_iff]
      simp only [pageSize]
      omega
    · simp only [pageSize, kernelStart] at *
      omega
    · refine ⟨?_, by rw [next.2, active]⟩
      have grown : hits p first (k + 1) = fun π t => hits p first k π t ∨
          (π = .seenBy p (dirIndex (first + k * pageSize)) ∧
            t = tableIndex (first + k * pageSize)) := by
        funext π t
        exact propext (hits_succ p first k π t)
      rw [grown]
      exact trans _ _ _ _ _ live' moved next.1
  · obtain ⟨moved, -⟩ := moved
    obtain ⟨hu, ground'⟩ := keeps _ _ _ moved
    have alive (q : Nat) : u.Live q ↔ w.Live q := (ground'.live q).trans (ground.live q)
    refine ⟨switchable u hu, (alive _).2 (switchable w h).active, fun x s' => ?_⟩
    have back := switched u x _ hu ((alive p).2 live) ((alive _).2 (switchable w h).active) s'
    have all := trans _ _ _ _ _ live (trans _ _ _ _ _ live start moved) back
    simp only [false_or, or_false] at all
    exact ⟨all, (keeps _ _ _ all).2.spaces_eq (by rw [s'.books])⟩

/-- Removing a range of user pages. -/
theorem remove_sweeps (h : w.Furnished) (live : w.Live p) (firstAligned : isAligned first = true)
    (lastAligned : isAligned last = true) (ordered : first ≤ last) (user : last ≤ kernelStart) :
    Leads E (remove p first last) w fun _ v =>
      w.Sweeps v p (hits p first ((last - first) / pageSize)) ∧ v.spaces = w.spaces := by
  refine forPages_moves (R := fun a b => a.Sweeps b p) h live firstAligned lastAligned ordered user
    (fun _ ha => ha.toSwitchable) (fun _ _ _ moved => ⟨moved.furnished, moved.toGrounds⟩)
    (fun _ _ _ ha live live' s => .of_switched ha live' s live)
    (fun _ _ _ _ _ live moved next => moved.trans next live) ?_
  rintro a va ha rfl aligned hd
  obtain ⟨v, unmaps, clears⟩ :=
    unmap_clears ha.toCharted (hd.trans (by decide)) (ha.tallied_here hd) aligned
  exact unmaps.leads ⟨clears.sweeps ha hd (tableIndex_lt va), clears.spaces⟩

theorem protectPage_regrants (h : w.Tabled) (hd : dirIndex va < userSlots) (prot : Protection) :
    Leads E (protectPage prot va) w fun _ v => (w.Regrants v w.spaces.active prot fun π t =>
      π = w.here (dirIndex va) ∧ t = tableIndex va) ∧ v.spaces = w.spaces := by
  have ht := tableIndex_lt va
  have tallied (present : (w.entry w.root (dirIndex va)).isPresent = true) :=
    h.tallied_here hd present
  refine (leafAt?_yields h.wired rfl fun present => (tallied present).inside).bind ?_
  by_cases there : (w.entry w.root (dirIndex va)).isPresent = true ∧
      (w.entry (w.entry w.root (dirIndex va)).frame (tableIndex va)).isPresent = true
  · rw [if_pos there]
    obtain ⟨present, before⟩ := there
    refine (setLeaf_yields h.wired (dirIndex_lt va) rfl present (tallied present).inside ht _).bind
      ((invalidatePage_yields _ _).leads ⟨?_, rfl⟩)
    exact h.regrants hd ht present before prot
  · rw [if_neg there]
    refine .pure ⟨⟨.refl w, h, ?_, fun _ _ _ _ _ => rfl, fun _ _ => rfl, fun _ _ _ => rfl, rfl, rfl,
      fun _ _ _ => rfl⟩, rfl⟩
    rintro π u - - ⟨rfl, rfl⟩
    rw [look_here tallied, leaf?_here, if_neg there]
    rfl

/-- Protecting a range of user pages. -/
theorem protect_regrants (h : w.Tabled) (live : w.Live p) (firstAligned : isAligned first = true)
    (lastAligned : isAligned last = true) (ordered : first ≤ last) (user : last ≤ kernelStart)
    (prot : Protection) : Leads E (protect p first last prot) w fun _ v =>
      w.Regrants v p prot (hits p first ((last - first) / pageSize)) ∧ v.spaces = w.spaces := by
  refine forPages_moves (R := fun a b => a.Regrants b p prot) h live firstAligned lastAligned
    ordered user (fun _ ha => ha.toSwitchable) (fun _ _ _ moved => ⟨moved.tabled, moved.toGrounds⟩)
    (fun _ _ _ ha _ live' s => .of_switched ha live' s p prot)
    (fun _ _ _ _ _ live moved next => moved.trans next live) ?_
  rintro a va ha rfl _ hd
  exact protectPage_regrants ha hd prot

end Kernel
end VirtualMemory
