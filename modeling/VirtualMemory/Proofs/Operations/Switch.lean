import VirtualMemory.AddressSpace.Switch
import VirtualMemory.Proofs.Operations.Frames
import VirtualMemory.Proofs.Ownership.Settled

/-!
# Switching

A switch cannot fail on a live space, and every place reads the same before and after it.
-/
namespace VirtualMemory

open Layout Snapshot

namespace Snapshot

variable {w v u x : Snapshot} {O : Finset Nat} {role : Nat → Role} {p : Nat}
  {L : Place → Nat → Option Entry}

theorem Settled.leaf?_switched (h : w.Settled O) (s : w.Switched v p) {π : Place} (hπ : w.Has π)
    (t : Nat) : v.leaf? π t = w.leaf? π t := by
  obtain ⟨role, stable⟩ := h.stable
  exact stable.toSound.leaf?_switched s hπ t

theorem Settled.data_switched (h : w.Settled O) (s : w.Switched v p) {f : Nat} (hf : f ∈ O) :
    v.page f = w.page f := by
  obtain ⟨role, stable⟩ := h.stable
  have owned := stable.data hf
  exact stable.page_switched s (by simp [owned]) (by simp [owned])

theorem Settled.switched (h : w.Settled O) (live : w.Live p) (s : w.Switched v p) :
    v.Settled O := by
  obtain ⟨role, stable⟩ := h.stable
  have find := s.find?
  refine ⟨⟨role, stable.toSound.switched live s, stable.at_rest, stable.owned⟩, ?_, ?_, ?_⟩
  · intro q d _ hq present
    have hq' := (s.has _).1 hq
    rw [s.slotAt _ hq'] at present
    obtain ⟨t, ht, some⟩ := h.filled q d (by simp) hq' present
    exact ⟨t, ht, by rwa [h.leaf?_switched s hq']⟩
  · intro f hf
    rw [s.books] at hf
    rw [s.size]
    exact h.shared f hf
  · intro q r hr
    rw [find] at hr
    exact h.kept q r hr

theorem Switched.here (s : w.Switched v p) (d : Nat) : v.here d = .seenBy p d := by
  unfold Snapshot.here
  rw [s.books]

/-- What was done while another space was resident is still seen when the first one is back. -/
theorem Settled.returned (h : w.Settled O) (s : w.Switched v p) (hu : u.Settled O)
    (moved : v.Rewrites u O L) (back : u.Switched x w.spaces.active) :
    x.Settled O ∧ w.Rewrites x O L := by
  have live : u.Live w.spaces.active := by
    obtain ⟨role, stable⟩ := h.stable
    have := stable.regular.active
    unfold Live
    rw [moved.spaces, s.books]
    exact this
  refine ⟨hu.switched live back, ?_, ?_, ?_, ?_, ?_⟩
  · rw [back.size, moved.size, s.size]
  · rw [back.books, moved.spaces, s.books]
  · rw [back.books, moved.shares, s.books]
  · intro π t hπ ht
    have hπ' := (s.has π).2 hπ
    rw [hu.leaf?_switched back ((has_congr moved.spaces π).2 hπ'), moved.leaf π t hπ' ht]
  · intro f hf
    rw [hu.data_switched back hf, moved.data f hf, h.data_switched s hf]

end Snapshot

namespace Kernel

variable {E : Failure → Books → Prop} {w : Snapshot} {O : Finset Nat} {role : Nat → Role}
  {p f g : Nat} {r : SpaceRecord} {L : Place → Nat → Option Entry}

theorem space_yields (hr : w.spaces.find? p = some r) : Yields (space p) w r w := by
  refine .get ?_
  intro s hs
  have hr' : s.spaces.find? p = some r := by
    rw [← hs] at hr
    exact hr
  rw [hr']
  intro t ht
  exact ⟨t, rfl, ht⟩

theorem active_yields (w : Snapshot) : Yields active w w.spaces.active w := by
  refine .get ?_
  rintro s rfl
  exact .pure _ _

theorem setActive_yields (p : Nat) (w : Snapshot) : Yields (setActive p) w ()
    (w.book { w.toBooks with spaces := { w.spaces with active := p } }) := by
  refine modify_yields ?_
  rintro s rfl
  rfl

theorem countSwitch_yields (w : Snapshot) : Yields countSwitch w () w := by
  refine silent_yields ?_ w
  exact fun _ => rfl

theorem countDirectoryCopies_yields (w : Snapshot) : Yields countDirectoryCopies w () w := by
  refine silent_yields ?_ w
  exact fun _ => rfl

theorem copyUserHalf_yields (hf : Ram.IsFrame w.size f) (hg : Ram.IsFrame w.size g) :
    Yields (copyUserHalf f g) w ()
      (w.setPage g (PerfectTree.splice userSlots (w.page f) (w.page g))) :=
  (loadPage_yields hf).trans ((loadPage_yields hg).trans (storePage_yields hg _))

/-- The user half in the resident directory is stored in frame `f`. -/
theorem storeUserHalf_yields (hw : w.Wired) (hf : Ram.IsFrame w.size f) (hm : f ≠ mountTable)
    (hr : f ≠ w.root) :
    Yields (withFrame f do copyUserHalf w.root (← Window.base)) w ()
      (w.setPage f (PerfectTree.splice userSlots (w.page w.root) (w.page f))) := by
  refine withFrame_yields hw hf.1 (hw.setPage hr _) (entry_setPage_of_ne _ _ _ hm.symm _) ?_
  refine (Window.base_yields hw hf).trans ?_
  have copied := copyUserHalf_yields (w := w.mount f) hw.isFrame_root hf
  rwa [page_mount w f hw.mountTable_ne_root.symm, page_mount w f hm, setPage_mount w f hm]
    at copied

theorem Wired.splice (hw : w.Wired) (q : Page) :
    (w.setPage w.root (PerfectTree.splice userSlots q (w.page w.root))).Wired := by
  have kept {d : Nat} (low : userSlots ≤ d) (hd : d < tableEntries) :
      (w.setPage w.root (PerfectTree.splice userSlots q (w.page w.root))).entry w.root d =
        w.entry w.root d := by
    rw [entry, page_setPage_self, Page.entry_splice _ _ _ hd, if_neg (Nat.not_lt.2 low), entry]
  exact hw.congr rfl rfl (kept (by decide) (by decide)) (kept (by decide) (by decide))

/-- The user half in frame `f` becomes the resident one. -/
theorem loadUserHalf_yields (hw : w.Wired) (hf : Ram.IsFrame w.size f) (hm : f ≠ mountTable) :
    Yields (withFrame f do copyUserHalf (← Window.base) w.root) w ()
      (w.setPage w.root (PerfectTree.splice userSlots (w.page f) (w.page w.root))) := by
  refine withFrame_yields hw hf.1 (Wired.splice hw _)
    (entry_setPage_of_ne _ _ _ hw.mountTable_ne_root _) ?_
  refine (Window.base_yields hw hf).trans ?_
  have copied := copyUserHalf_yields (w := w.mount f) hf hw.isFrame_root
  rwa [page_mount w f hw.mountTable_ne_root.symm, page_mount w f hm,
    setPage_mount w f hw.mountTable_ne_root.symm] at copied

/-- Two copies swap the user halves of two spaces between their frames and the directory. -/
theorem swapped (hh : w.Housed) {a b : SpaceRecord} (ha : w.spaces.find? w.spaces.active = some a)
    (hb : w.spaces.find? p = some b) (other : p ≠ w.spaces.active) {u v : Snapshot}
    (hu : u = w.setPage a.directory
      (PerfectTree.splice userSlots (w.page w.root) (w.page a.directory)))
    (hv : v = (u.setPage w.root
      (PerfectTree.splice userSlots (u.page b.directory) (u.page w.root))).book
        { w.toBooks with spaces := { w.spaces with active := p } }) : w.Switched v p := by
  have rootA := hh.ne_root _ a ha
  have rootB := hh.ne_root _ b hb
  have apart : b.directory ≠ a.directory := fun eq => other (hh.apart _ _ _ _ hb ha eq)
  have atRoot : u.page w.root = w.page w.root := by rw [hu, page_setPage, if_neg rootA.symm]
  have atB : u.page b.directory = w.page b.directory := by rw [hu, page_setPage, if_neg apart]
  have pageV (f : Nat) : v.page f = if f = w.root then
      PerfectTree.splice userSlots (w.page b.directory) (w.page w.root) else
      if f = a.directory then
        PerfectTree.splice userSlots (w.page w.root) (w.page a.directory) else w.page f := by
    rw [hv, page_book, page_setPage, atRoot, atB, hu, page_setPage]
  have rootV {i : Nat} (hi : i < tableEntries) : v.entry w.root i =
      if i < userSlots then w.entry b.directory i else w.entry w.root i := by
    rw [entry, pageV, if_pos rfl, Page.entry_splice _ _ _ hi]
    rfl
  have dirV {i : Nat} (hi : i < tableEntries) : v.entry a.directory i =
      if i < userSlots then w.entry w.root i else w.entry a.directory i := by
    rw [entry, pageV, if_neg rootA, if_pos rfl, Page.entry_splice _ _ _ hi]
    rfl
  have restV {f : Nat} (h1 : f ≠ w.root) (h2 : f ≠ a.directory) : v.page f = w.page f := by
    rw [pageV, if_neg h1, if_neg h2]
  have root : v.root = w.root := by rw [hv, hu]; rfl
  have books : v.toBooks = { w.toBooks with spaces := { w.spaces with active := p } } := hv ▸ rfl
  have find (q : Nat) : v.spaces.find? q = w.spaces.find? q := by rw [books]; rfl
  have now : v.spaces.active = p := by rw [books]
  refine ⟨root, by rw [hv, hu]; rfl, books, ?_, ?_, ?_⟩
  · intro π hπ
    cases π with
    | user q d =>
      have hd : d < tableEntries := by
        have := hπ.2
        simp only [userSlots, tableEntries] at *; omega
      obtain ⟨s, hs⟩ := Option.isSome_iff_exists.1 hπ.1
      change v.entry (v.home q) d = w.entry (w.home q) d
      by_cases new : q = p
      · subst new
        have hs' : s = b := Option.some.inj (hs.symm.trans hb)
        rw [show v.home q = w.root by rw [← now, home_active, root], home_of_ne other hb,
          rootV hd, if_pos hπ.2]
      · rw [home_of_ne (w := v) (fun eq => new (eq.trans now)) ((find q).trans hs)]
        by_cases old : q = w.spaces.active
        · subst old
          have hs' : s = a := Option.some.inj (hs.symm.trans ha)
          rw [home_active, hs', dirV hd, if_pos hπ.2]
        · rw [home_of_ne old hs, entry, restV (hh.ne_root q s hs) fun eq => old
            (hh.apart _ _ _ _ hs ha eq), entry]
    | kernel d =>
      have hd : d < tableEntries := by
        have := hπ.2
        simp only [mountTableSlot, tableEntries] at *; omega
      change v.entry v.root d = w.entry w.root d
      rw [root, rootV hd, if_neg (Nat.not_lt.2 hπ.1)]
  · intro f i low hi
    by_cases h1 : f = w.root
    · rw [h1, rootV hi, if_neg (Nat.not_lt.2 low)]
    · by_cases h2 : f = a.directory
      · rw [h2, dirV hi, if_neg (Nat.not_lt.2 low)]
      · rw [entry, restV h1 h2, entry]
  · intro f h1 h2
    exact restV h1 (h2 a ha)

/-- The space that is resident already costs memory nothing. -/
theorem switch_resident_yields (live : w.Live w.spaces.active) :
    Yields (switch w.spaces.active) w w.spaces.active w := by
  obtain ⟨a, ha⟩ := Option.isSome_iff_exists.1 live
  refine (space_yields ha).trans ?_
  refine (active_yields w).trans ?_
  refine (space_yields ha).trans ?_
  refine (countSwitch_yields w).trans ?_
  rw [if_pos rfl]
  exact (setActive_yields _ w).trans (.pure _ _)

theorem Switched.resident (w : Snapshot) : w.Switched w w.spaces.active :=
  ⟨rfl, rfl, rfl, fun _ _ => rfl, fun _ _ _ _ => rfl, fun _ _ _ => rfl⟩

theorem switch_yields (h : w.Switchable) (live : w.Live p) :
    ∃ v, Yields (switch p) w w.spaces.active v ∧ w.Switched v p := by
  obtain ⟨b, hb⟩ := Option.isSome_iff_exists.1 live
  obtain ⟨a, ha⟩ := Option.isSome_iff_exists.1 h.active
  have hh := h.housed
  by_cases same : p = w.spaces.active
  · subst same
    exact ⟨w, switch_resident_yields h.active, Switched.resident w⟩
  · have apart : a.directory ≠ b.directory := fun eq => same (hh.apart _ _ _ _ hb ha eq.symm)
    refine ⟨_, ?_, swapped hh ha hb same rfl rfl⟩
    refine (space_yields hb).trans ?_
    refine (active_yields w).trans ?_
    refine (space_yields ha).trans ?_
    refine (countSwitch_yields w).trans ?_
    simp only [apart, if_false]
    have wired := h.wired.setPage (hh.ne_root _ a ha)
      (PerfectTree.splice userSlots (w.page w.root) (w.page a.directory))
    refine (directoryBase_yields h.wired).trans ?_
    refine (storeUserHalf_yields h.wired (hh.isFrame _ a ha) (hh.ne_mount _ a ha)
      (hh.ne_root _ a ha)).trans ?_
    refine (loadUserHalf_yields wired (hh.isFrame _ b hb) (hh.ne_mount _ b hb)).trans ?_
    refine (countDirectoryCopies_yields _).trans ?_
    refine (setActive_yields p _).trans ?_
    refine (flush_yields _).trans ?_
    exact (note_yields _ _).trans (.pure _ _)

/-- A body that works on the resident space, run on any live one. Whatever else a switch and the
body keep is kept. -/
theorem within_leads {body : Kernel Unit} {I : Snapshot → Prop} (h : w.Settled O)
    (live : w.Live p) (start : I w)
    (moves : ∀ a b q, a.Settled O → a.Switched b q → I a → I b)
    (step : ∀ v, w.Switched v p → v.Settled O → I v →
      Leads E body v fun _ u => (u.Settled O ∧ v.Rewrites u O L) ∧ I u) :
    Leads E (within p body) w fun _ x => (x.Settled O ∧ w.Rewrites x O L) ∧ I x := by
  obtain ⟨role, stable⟩ := h.stable
  obtain ⟨v, there, s⟩ := switch_yields stable.toSound.switchable live
  refine there.bind (.bind ((step v s (h.switched live s) (moves w v p h s start)).mono ?_))
  rintro _ u ⟨⟨hu, moved⟩, kept⟩
  obtain ⟨role', stable'⟩ := hu.stable
  have alive : u.Live w.spaces.active := by
    have := stable.regular.active
    unfold Live
    rw [moved.spaces, s.books]
    exact this
  obtain ⟨x, back, s'⟩ := switch_yields stable'.toSound.switchable alive
  refine .discard (back.leads ?_)
  exact ⟨h.returned s hu moved s', moves u x _ hu s' kept⟩

/-! ## Spaces that are no more -/

section Dead
variable (dead : ¬ w.Live p)
include dead

theorem find?_of_dead : w.spaces.find? p = none := by
  unfold Live at dead
  cases h : w.spaces.find? p with
  | none => rfl
  | some r => simp [h] at dead

theorem space_refuses : Refuses (space p) w .unknownSpace := by
  refine .get ?_
  intro s hs
  have none : s.spaces.find? p = none := by
    have := find?_of_dead dead
    rw [← hs] at this
    exact this
  rw [none]
  exact .refuse _ _

theorem switch_refuses : Refuses (switch p) w .unknownSpace := (space_refuses dead).bind

theorem within_refuses (body : Kernel Unit) : Refuses (within p body) w .unknownSpace :=
  (switch_refuses dead).bind

end Dead
end Kernel
end VirtualMemory
