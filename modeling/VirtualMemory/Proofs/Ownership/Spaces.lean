import VirtualMemory.Proofs.Ownership.Tables

/-!
# Spaces come, go and move

A new space takes a zeroed spare frame for its directory; a space that goes leaves its directory
and its tables spare. A switch moves two user halves and changes no role, because every place is
read where its space now is.
-/
namespace VirtualMemory

open Layout

namespace Snapshot

/-- What a switch to space `p` leaves behind. -/
structure Switched (w v : Snapshot) (p : Nat) : Prop where
  root : v.root = w.root
  size : v.size = w.size
  books : v.toBooks = { w.toBooks with spaces := { w.spaces with active := p } }
  slotAt : ∀ π, w.Has π → v.slotAt π = w.slotAt π
  /-- Only user halves move. -/
  kernel : ∀ f i, userSlots ≤ i → i < tableEntries → v.entry f i = w.entry f i
  /-- They move between the resident directory and the frame of the space that leaves. -/
  page : ∀ f, f ≠ w.root → (∀ r, w.spaces.find? w.spaces.active = some r → f ≠ r.directory) →
    v.page f = w.page f

/-- What a switch relies on: the window is in place, and every live space has a frame of its own. -/
structure Switchable (w : Snapshot) : Prop where
  wired : w.Wired
  housed : w.Housed
  active : w.Live w.spaces.active

theorem Sound.switchable {w : Snapshot} {role : Nat → Role} (h : w.Sound role) : w.Switchable :=
  ⟨h.wired, h.housed, h.regular.active⟩

theorem Switched.find? {w v : Snapshot} {p : Nat} (s : w.Switched v p) (q : Nat) :
    v.spaces.find? q = w.spaces.find? q := by
  rw [s.books]
  rfl

/-- After one switch the next is possible. -/
theorem Switchable.switched {w v : Snapshot} {p : Nat} (h : w.Switchable) (live : w.Live p)
    (s : w.Switched v p) : v.Switchable where
  wired := h.wired.congr s.root s.size (s.kernel _ _ (by decide) (by decide))
    (s.kernel _ _ (by decide) (by decide))
  housed := h.housed.congr s.root s.size s.find?
  active := by
    unfold Live
    rw [s.find?, s.books]
    exact live

theorem Switched.has {w v : Snapshot} {p : Nat} (s : w.Switched v p) (π : Place) :
    v.Has π ↔ w.Has π := by
  cases π
  · unfold Has Live
    rw [s.books]
    rfl
  · rfl

/-- A new space with its own half in frame `f`. -/
def housing (w : Snapshot) (f : Nat) : Snapshot :=
  w.book { w.toBooks with spaces :=
    { w.spaces.put w.spaces.nextId ⟨f, 1⟩ with nextId := w.spaces.nextId + 1 } }

/-- Space `p` is struck from the register. -/
def evicting (w : Snapshot) (p : Nat) : Snapshot :=
  w.book { w.toBooks with spaces := w.spaces.remove p }

namespace Sound

variable {w v : Snapshot} {role : Nat → Role} {f p : Nat}

theorem live_lt (h : w.Sound role) (hp : w.Live p) : p < w.spaces.nextId := by
  obtain ⟨r, hr⟩ := Option.isSome_iff_exists.1 hp
  exact h.regular.fresh p r hr

/-- Memory and every frame's role survive a change to the register that moves no space. -/
theorem respace (h : w.Sound role) {s : Spaces} (regular : s.Regular)
    (active : s.active = w.spaces.active)
    (same : ∀ q, (s.find? q).map SpaceRecord.directory =
      (w.spaces.find? q).map SpaceRecord.directory) :
    (w.book { w.toBooks with spaces := s }).Sound role := by
  have slots (π : Place) : (w.book { w.toBooks with spaces := s }).slotAt π = w.slotAt π :=
    slotAt_register active fun q _ _ => same q
  have live (q : Nat) : (w.book { w.toBooks with spaces := s }).Live q ↔ w.Live q := by
    have := same q
    simp only [Live, toBooks_book]
    cases h1 : s.find? q <;> cases h2 : w.spaces.find? q <;> simp_all
  have has (π : Place) : (w.book { w.toBooks with spaces := s }).Has π ↔ w.Has π := by
    cases π
    · exact and_congr_left fun _ => live _
    · rfl
  exact
    { wired := h.wired.book _
      regular := regular
      outside := h.outside
      resident := h.resident
      window := h.window
      free := h.free
      nodup := h.nodup
      directory := fun g q => by
        rw [h.directory]
        have := same q
        simp only [toBooks_book]
        cases h1 : s.find? q <;> cases h2 : w.spaces.find? q <;> simp_all
      table := fun g π => by rw [h.table, slots, has]
      leaf := fun q d t e hq ht he =>
        h.leaf q d t e ((has _).1 hq) ht (leaf?_of_slotAt (slots _) t ▸ he)
      count := h.count
      tracked := h.tracked
      quiet := h.quiet }

/-! ## Moving in -/

theorem find?_housing (w : Snapshot) (f q : Nat) : (w.housing f).spaces.find? q =
    if w.spaces.nextId = q then some ⟨f, 1⟩ else w.spaces.find? q :=
  Spaces.find?_put ..

theorem ne_nextId (h : w.Sound role) {q : Nat} (live : w.Live q) : w.spaces.nextId ≠ q :=
  (h.live_lt live).ne'

theorem has_housing (h : w.Sound role) {π : Place} (hπ : w.Has π) : (w.housing f).Has π := by
  cases π with
  | user q d =>
    refine ⟨?_, hπ.2⟩
    unfold Live
    rw [find?_housing, if_neg (h.ne_nextId hπ.1)]
    exact hπ.1
  | kernel d => exact hπ

theorem has_of_housing {π : Place} (hπ : (w.housing f).Has π) :
    w.Has π ∨ ∃ d, π = .user w.spaces.nextId d := by
  cases π with
  | user q d =>
    by_cases new : w.spaces.nextId = q
    · exact .inr ⟨d, by rw [new]⟩
    · refine .inl ⟨?_, hπ.2⟩
      have live := hπ.1
      unfold Live at live
      rwa [find?_housing, if_neg new] at live
  | kernel d => exact .inl hπ

theorem slotAt_housing (h : w.Sound role) {π : Place} (hπ : w.Has π) :
    (w.housing f).slotAt π = w.slotAt π := by
  refine slotAt_register rfl ?_
  intro q d eq
  subst eq
  have find := find?_housing w f q
  rw [if_neg (h.ne_nextId hπ.1)] at find
  exact congrArg _ find

/-- The new space has no tables. -/
theorem slotAt_housing_new (h : w.Sound role) (zero : w.page f = Page.zero) (d : Nat) :
    ((w.housing f).slotAt (.user w.spaces.nextId d)).isPresent = false := by
  have find := find?_housing w f w.spaces.nextId
  rw [if_pos rfl] at find
  have home : (w.housing f).home w.spaces.nextId = f :=
    home_of_ne (w := w.housing f) (h.ne_nextId h.live_active) find
  rw [slotAt, home]
  change ((w.page f).entry d).isPresent = false
  rw [zero, Page.entry_zero, Entry.isPresent_empty]

/-- A space with an empty user half moves in. -/
theorem house (h : w.Sound role) (hf : role f = .spare) (zero : w.page f = Page.zero)
    (record : f ∉ w.occupancy.counts) :
    (w.housing f).Sound (Function.update role f (.directory w.spaces.nextId)) := by
  have find := find?_housing w f
  have old {q : Nat} {r : SpaceRecord} (hr : w.spaces.find? q = some r) :
      w.spaces.nextId ≠ q := h.ne_nextId (Option.isSome_iff_exists.2 ⟨r, hr⟩)
  have roles (g : Nat) (k : Role) (hk : k ≠ .spare) (hk' : k ≠ .directory w.spaces.nextId) :
      Function.update role f (.directory w.spaces.nextId) g = k ↔ role g = k := by
    rw [Function.update_apply]
    split
    · subst_vars
      exact iff_of_false (Ne.symm hk') (fun e => hk (e ▸ hf))
    · rfl
  exact
    { wired := h.wired.book _
      regular :=
        { active := by
            rw [find]
            exact (if_neg (h.ne_nextId h.live_active)).symm ▸ h.regular.active
          kernel := by
            rw [find]
            split
            · rfl
            · exact h.regular.kernel
          fresh := fun q r hr => by
            change q < w.spaces.nextId + 1
            rw [find] at hr
            split at hr
            · omega
            · have := h.regular.fresh q r hr
              omega }
      outside := fun g => (roles g _ (by simp) (by simp)).trans (h.outside g)
      resident := fun g => (roles g _ (by simp) (by simp)).trans (h.resident g)
      window := fun g => (roles g _ (by simp) (by simp)).trans (h.window g)
      free := fun g => (roles g _ (by simp) (by simp)).trans (h.free g)
      nodup := h.nodup
      directory := fun g q => by
        rw [find]
        by_cases new : w.spaces.nextId = q
        · subst new
          rw [if_pos rfl, Function.update_apply]
          split
          · simp_all
          · rename_i ne
            refine iff_of_false ?_ (by simpa using Ne.symm ne)
            intro hg
            obtain ⟨r, hr, -⟩ := (h.directory g _).1 hg
            exact old hr rfl
        · rw [if_neg new, roles g _ (by simp) (by simp [Ne.symm new])]
          exact h.directory g q
      table := fun g π => by
        rw [roles g _ (by simp) (by simp), h.table]
        constructor
        · rintro ⟨hπ, rest⟩
          rw [h.slotAt_housing hπ]
          exact ⟨h.has_housing hπ, rest⟩
        · rintro ⟨hπ, present, rest⟩
          obtain hπ' | ⟨d, rfl⟩ := has_of_housing hπ
          · rw [h.slotAt_housing hπ'] at present rest
            exact ⟨hπ', present, rest⟩
          · rw [h.slotAt_housing_new zero] at present
            cases present
      leaf := fun q d t e hq ht he => by
        rw [roles _ _ (by simp) (by simp)]
        obtain hq' | ⟨d', new⟩ := has_of_housing hq
        · exact h.leaf q d t e hq' ht (leaf?_of_slotAt (h.slotAt_housing hq') t ▸ he)
        · rw [new, leaf?_of_absent (h.slotAt_housing_new zero d')] at he
          cases he
      count := fun g π hg => h.count g π ((roles g _ (by simp) (by simp)).1 hg)
      tracked := fun g hg => by
        change g ∈ w.occupancy.counts ↔ ∃ π, _ ∧ (w.page g).presentCount ≠ 0
        by_cases here : g = f
        · subst here
          refine iff_of_false record ?_
          rintro ⟨π, hπ, -⟩
          simp at hπ
        · rw [Function.update_of_ne here] at hg ⊢
          exact h.tracked g hg
      quiet := h.quiet }

/-! ## Moving out -/

theorem find?_evicting (w : Snapshot) (p q : Nat) : (w.evicting p).spaces.find? q =
    if p = q then none else w.spaces.find? q := Spaces.find?_remove ..

theorem has_evicting (π : Place) : (w.evicting p).Has π ↔ w.Has π ∧ ∀ d, π ≠ .user p d := by
  cases π with
  | user q d =>
    change ((w.evicting p).spaces.find? q).isSome = true ∧ _ ↔ _
    rw [find?_evicting]
    by_cases out : p = q
    · simp [out]
    · rw [if_neg out]
      exact ⟨fun both => ⟨both, fun d' eq => by cases eq; exact out rfl⟩, fun both => both.1⟩
  | kernel d => exact ⟨fun hd => ⟨hd, fun d' => by simp⟩, fun both => both.1⟩

theorem slotAt_evicting {π : Place} (hπ : ∀ d, π ≠ .user p d) :
    (w.evicting p).slotAt π = w.slotAt π := by
  refine slotAt_register rfl ?_
  intro q d eq
  have find := find?_evicting w p q
  rw [if_neg fun same => hπ d (by rw [eq, same])] at find
  exact congrArg _ find

/-- A space moves out: its frames are spare, and its places are gone. -/
theorem evict (h : w.Sound role) (away : p ≠ w.spaces.active) (keep : p ≠ Spaces.kernelId) :
    (w.evicting p).Sound (fun f => if (role f).serves p then .spare else role f) := by
  have find := find?_evicting w p
  have roles (g : Nat) (k : Role) (spare : k ≠ .spare) :
      (if (role g).serves p then .spare else role g) = k ↔ role g = k ∧ k.serves p = false := by
    split
    · rename_i mine
      refine iff_of_false spare.symm ?_
      rintro ⟨rfl, other⟩
      rw [mine] at other
      cases other
    · rename_i other
      rw [Bool.not_eq_true] at other
      exact ⟨fun eq => ⟨eq, eq ▸ other⟩, fun both => both.1⟩
  exact
    { wired := h.wired.book _
      regular :=
        { active := by
            rw [find]
            exact (if_neg away).symm ▸ h.regular.active
          kernel := by
            rw [find, if_neg keep]
            exact h.regular.kernel
          fresh := fun q r hr => by
            rw [find] at hr
            split at hr
            · cases hr
            · exact h.regular.fresh q r hr }
      outside := fun g => by
        rw [roles g _ (by simp)]
        simp only [Role.serves, and_true]
        exact h.outside g
      resident := fun g => by
        rw [roles g _ (by simp)]
        simp only [Role.serves, and_true]
        exact h.resident g
      window := fun g => by
        rw [roles g _ (by simp)]
        simp only [Role.serves, and_true]
        exact h.window g
      free := fun g => by
        rw [roles g _ (by simp)]
        simp only [Role.serves, and_true]
        exact h.free g
      nodup := h.nodup
      directory := fun g q => by
        rw [roles g _ (by simp), find, h.directory]
        by_cases out : p = q
        · simp [out, Role.serves]
        · simp [out, Role.serves, Ne.symm out]
      table := fun g π => by
        rw [roles g _ (by simp), has_evicting, h.table]
        constructor
        · rintro ⟨⟨hπ, rest⟩, other⟩
          have out : ∀ d, π ≠ .user p d := by
            rintro d rfl
            simp [Role.serves] at other
          rw [slotAt_evicting out]
          exact ⟨⟨hπ, out⟩, rest⟩
        · rintro ⟨⟨hπ, out⟩, rest⟩
          rw [slotAt_evicting out] at rest
          refine ⟨⟨hπ, rest⟩, ?_⟩
          cases π with
          | user q d =>
            rw [Role.serves, beq_eq_false_iff_ne]
            rintro rfl
            exact out d rfl
          | kernel d => rfl
      leaf := fun q d t e hq ht he => by
        rw [roles _ _ (by simp)]
        obtain ⟨hq', out⟩ := (has_evicting _).1 hq
        exact ⟨h.leaf q d t e hq' ht (leaf?_of_slotAt (slotAt_evicting out) t ▸ he), rfl⟩
      count := fun g π hg => h.count g π ((roles g _ (by simp)).1 hg).1
      tracked := fun g hg => by
        have other : (role g).serves p = false := by
          by_contra mine
          simp [mine] at hg
        simp only [other, Bool.false_eq_true, if_false] at hg ⊢
        exact h.tracked g hg
      quiet := h.quiet }

/-! ## Switching -/

/-- Frames that hold no user half keep their contents over a switch. -/
theorem page_switched (h : w.Sound role) (s : w.Switched v p) (resident : role f ≠ .resident)
    (directory : ∀ q, role f ≠ .directory q) : v.page f = w.page f :=
  s.page f (fun eq => resident ((h.resident f).2 eq)) fun r hr eq =>
    h.not_directory directory _ r hr eq.symm

theorem leaf?_switched (h : w.Sound role) (s : w.Switched v p) {π : Place} (hπ : w.Has π)
    (t : Nat) : v.leaf? π t = w.leaf? π t := by
  unfold leaf? leafAt
  rw [s.slotAt π hπ]
  by_cases present : (w.slotAt π).isPresent = true
  · have table := h.table_slotAt hπ present
    rw [entry, h.page_switched s (by simp [table]) (by simp [table]), entry]
  · simp [present]

/-- A switch moves no frame to another role. -/
theorem switched (h : w.Sound role) (live : w.Live p) (s : w.Switched v p) : v.Sound role := by
  have find := s.find?
  have records : v.occupancy = w.occupancy := by rw [s.books]
  have table {f : Nat} {π : Place} (hf : role f = .table π) : v.page f = w.page f :=
    h.page_switched s (by simp [hf]) (by simp [hf])
  exact
    { wired := (h.switchable.switched live s).wired
      regular :=
        { active := (h.switchable.switched live s).active
          kernel := by
            rw [find]
            exact h.regular.kernel
          fresh := fun q r hr => by
            rw [find] at hr
            rw [s.books]
            exact h.regular.fresh q r hr }
      outside := fun f => by rw [s.size, h.outside]
      resident := fun f => by rw [s.root, h.resident]
      window := h.window
      free := fun f => by rw [h.free, s.books]
      nodup := by
        rw [s.books]
        exact h.nodup
      directory := fun f q => by rw [h.directory, find]
      table := fun f π => by
        rw [h.table, s.has]
        exact and_congr_right fun hπ => by rw [s.slotAt π hπ]
      leaf := fun q d t e hq ht he => by
        have hq' := (s.has _).1 hq
        exact h.leaf q d t e hq' ht (h.leaf?_switched s hq' t ▸ he)
      count := fun f π hf => by rw [records, table hf, h.count f π hf]
      tracked := fun f hf => by
        rw [records, h.tracked f hf]
        exact exists_congr fun π => and_congr_right fun hπ => by rw [table hπ]
      quiet := fun t ht => by
        have window := (h.window mountTable).2 rfl
        rw [entry, h.page_switched s (by simp [window]) (by simp [window])]
        exact h.quiet t ht }

end Sound
end Snapshot
end VirtualMemory
