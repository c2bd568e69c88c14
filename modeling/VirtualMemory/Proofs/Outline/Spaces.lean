import VirtualMemory.Proofs.Operations.Lifecycle
import VirtualMemory.Proofs.Outline.Pages

/-!
# Spaces of a kernel that is only lodged

Switching, creating, releasing and forking keep every frame in its place, also where a space is
forked into itself or over another one's tables. The frame of the active space is not read until
then: a fork of the space into itself goes through the half that was stored there last.
-/
namespace VirtualMemory

open Layout

namespace Snapshot

/-- Every user slot in a stored directory, valid or stale, leads to a frame that the kernel may
mount. -/
def Mountable (w : Snapshot) : Prop := ∀ p r d, w.spaces.find? p = some r → d < userSlots →
  (w.entry r.directory d).isPresent = true → Ram.IsFrame w.size (w.entry r.directory d).frame ∧
    (w.entry r.directory d).frame ≠ mountTable ∧ (w.entry r.directory d).frame ≠ w.root

structure Firm (w : Snapshot) : Prop where
  placed : ∃ role, w.Placed role
  mountable : w.Mountable

variable {w v u : Snapshot} {role : Nat → Role} {f d t p : Nat} {e : Entry} {r : SpaceRecord}

theorem Firm.edits (h : w.Firm) (moved : w.Edits v) : v.Firm where
  placed := moved.placed
  mountable p r d hr hd present := by
    rw [moved.spaces] at hr
    have same := moved.stored p r d hr hd
    rw [same.frame present, moved.size, moved.root]
    exact h.mountable p r d hr hd (same.present ▸ present)

/-- The frame of the space that left has the user half that was resident; no other has changed. -/
theorem Firm.switched (h : w.Firm) (live : w.Live p) (s : w.Switched v p)
    (still : p = w.spaces.active → v = w) : v.Firm := by
  obtain ⟨role, placed⟩ := h.placed
  refine ⟨⟨role, placed.lodged.switched live s, placed.rest⟩, ?_⟩
  by_cases same : p = w.spaces.active
  · rw [still same]
    exact h.mountable
  intro q r d hr hd present
  have hr' := (s.find? q).symm.trans hr
  rw [s.size, s.root]
  by_cases left : q = w.spaces.active
  · have away : q ≠ v.spaces.active := by
      rw [left, s.books]
      exact Ne.symm same
    have has : w.Has (.user q d) := ⟨Option.isSome_iff_exists.2 ⟨r, hr'⟩, hd⟩
    have slot := s.slotAt _ has
    rw [slotAt, home_of_ne away hr] at slot
    rw [slot] at present ⊢
    have table := placed.lodged.table_slotAt has present
    exact ⟨placed.lodged.isFrame (by simp [table]), placed.lodged.ne_mount (by simp [table]),
      placed.lodged.ne_root (by simp [table])⟩
  · have page : v.page r.directory = w.page r.directory := by
      refine s.page _ (placed.lodged.housed.ne_root q r hr') fun r' hr'' eq => left ?_
      exact placed.lodged.housed.apart q _ r r' hr' hr'' eq
    rw [entry, page] at present ⊢
    exact h.mountable q r d hr' hd present

theorem Firm.register (h : w.Firm) {b : Books} {role : Nat → Role} (placed : (w.book b).Placed role)
    (old : ∀ p r, b.spaces.find? p = some r →
      ∃ q s, w.spaces.find? q = some s ∧ s.directory = r.directory) : (w.book b).Firm := by
  refine ⟨⟨role, placed⟩, fun p r d hr => ?_⟩
  obtain ⟨q, s, hs, same⟩ := old p r hr
  rw [← same]
  exact h.mountable q s d hs

theorem Firm.reown (h : w.Firm) (hr : w.spaces.find? p = some r) (n : Nat) :
    (w.owning p r n).Firm := by
  obtain ⟨role, placed⟩ := h.placed
  refine h.register ⟨placed.lodged.reown hr n, placed.rest⟩ fun q s hs => ?_
  have same := directory_owning hr n q
  rw [show (w.owning p r n).spaces.find? q = some s from hs] at same
  cases found : w.spaces.find? q with
  | none =>
    rw [found] at same
    cases same
  | some t =>
    rw [found] at same
    exact ⟨q, t, found, (Option.some.inj same).symm⟩

end Snapshot

open Snapshot

namespace Kernel

variable {E : Failure → Books → Prop} {w v : Snapshot} {role : Nat → Role}
  {p : Nat} {r : SpaceRecord}

/-! ## Switching -/

theorem switch_moves (h : w.Firm) (live : w.Live p) : Leads E (switch p) w fun a v =>
    a = w.spaces.active ∧ v.Firm ∧ w.Switched v p ∧ (p = w.spaces.active → v = w) := by
  obtain ⟨role, placed⟩ := h.placed
  by_cases same : p = w.spaces.active
  · subst same
    exact (switch_resident_yields live).leads ⟨rfl, h, Switched.resident w, fun _ => rfl⟩
  · obtain ⟨v, there, s⟩ := switch_yields placed.lodged.switchable live
    have still (eq : p = w.spaces.active) : v = w := absurd eq same
    exact there.leads ⟨rfl, h.switched live s still, s, still⟩

theorem switch_firm (h : w.Firm) (live : w.Live p) : Leads E (switch p) w fun a v =>
    a = w.spaces.active ∧ v.Firm ∧ v.spaces = { w.spaces with active := p } := by
  refine (switch_moves h live).mono ?_
  rintro a v ⟨rfl, firm, s, -⟩
  exact ⟨rfl, firm, by rw [s.books]⟩

theorem within_firm {body : Kernel Unit} (h : w.Firm) (live : w.Live p)
    (step : ∀ v, v.Firm → w.Switched v p → Leads Stops body v fun _ u => v.Edits u) :
    Leads Stops (within p body) w fun _ v => v.Firm ∧ v.spaces = w.spaces := by
  obtain ⟨role, placed⟩ := h.placed
  refine .bind ((switch_moves h live).mono ?_)
  rintro _ v ⟨rfl, hv, s, -⟩
  refine .bind ((step v hv s).mono fun _ u moved => .discard ?_)
  have spaces : u.spaces = { w.spaces with active := p } := by rw [moved.spaces, s.books]
  have alive : u.Live w.spaces.active := by
    rw [Live, spaces]
    exact placed.lodged.live_active
  refine (switch_firm (hv.edits moved) alive).mono ?_
  rintro _ x ⟨-, hx, back⟩
  exact ⟨hx, by rw [back, spaces]⟩

/-! ## Creating and releasing -/

theorem create_firm (h : w.Firm) : Leads Stops create w fun id v => id = w.spaces.nextId ∧ v.Firm ∧
    ∃ f, v.spaces = { w.spaces.put w.spaces.nextId ⟨f, 1⟩ with nextId := w.spaces.nextId + 1 } := by
  obtain ⟨role, placed⟩ := h.placed
  refine .bind (acquire_leads placed.lodged.wired placed.lodged.usable ?_ ?_)
  · intro _ e no
    cases no
  intro f rest first
  have free := (placed.lodged.free f).2 (first ▸ List.mem_cons_self)
  refine .get fun s hs => ?_
  have spaces : s.spaces = w.spaces := congrArg (fun v : Snapshot => v.spaces) hs
  rw [spaces, Spaces.add]
  by_cases room : w.spaces.nextId + 1 < Spaces.countLimit
  · rw [if_pos room]
    set u := (w.book { w.toBooks with free := rest }).setPage f Page.zero with hu
    have lodged : u.Lodged (Function.update role f .spare) :=
      (placed.lodged.take first).setPage (by simp) (by simp) _
    have housed := lodged.house (Function.update_self ..) (page_setPage_self ..)
    rw [Function.update_idem] at housed
    have firm : (u.housing f).Firm := by
      refine ⟨⟨_, housed, fun g => ?_⟩, fun q r d hr hd present => ?_⟩
      · rw [Function.update_apply]
        split
        · simp
        · exact placed.rest g
      · have hr' := (Sound.find?_housing u f q).symm.trans hr
        split at hr'
        · cases hr'
          change (u.entry f d).isPresent = true at present
          rw [entry, hu, page_setPage_self, Page.entry_zero] at present
          cases present
        · have other : r.directory ≠ f :=
            placed.lodged.not_directory (by simp [free]) q r hr'
          have page : (u.housing f).entry r.directory d = w.entry r.directory d :=
            entry_setPage_of_ne _ _ _ other d
          rw [page] at present ⊢
          exact h.mountable q r d hr' hd present
    refine Yields.bind (modify_yields ?_) ((note_yields _ _).bind (.pure ⟨rfl, firm, f, rfl⟩))
    intro t ht
    exact congrArg (fun v : Snapshot => v.book { v.toBooks with spaces :=
      { w.spaces.put w.spaces.nextId ⟨f, 1⟩ with nextId := w.spaces.nextId + 1 } }) ht
  · rw [if_neg room]
    refine .violate ?_
    intro e no
    cases no

theorem incref_firm (h : w.Firm) (hr : w.spaces.find? p = some r) :
    Leads Stops (incref p) w fun a v => a = r.owners + 1 ∧ v.Firm ∧
      v.spaces = w.spaces.put p { r with owners := r.owners + 1 } := by
  refine (space_yields hr).bind (.ite (fun _ => ?_) fun _ => .violate (.violation _ _))
  exact (setOwners_yields p r _ w).bind (.pure ⟨rfl, h.reown hr _, rfl⟩)

theorem leave_firm (h : w.Firm) : Leads E (leave p) w fun _ v => v.Firm ∧
    v.spaces = { w.spaces with active :=
      if w.spaces.active = p then Spaces.kernelId else w.spaces.active } := by
  obtain ⟨role, placed⟩ := h.placed
  refine (active_yields w).bind (.ite (fun here => ?_) fun other => .pure ⟨h, by rw [if_neg other]⟩)
  refine .bind (Leads.attempt (E := fun _ _ => False) (switch_firm h placed.lodged.regular.kernel)
    (fun _ _ => id) ?_ |>.weaken fun _ _ no => no.elim)
  rintro _ v ⟨-, hv, spaces⟩
  exact .pure ⟨hv, by rw [spaces, if_pos here]⟩

section Emptying
variable {y : Snapshot} (sound : y.Sound role) (o : w.Outlines y) (hr : w.spaces.find? p = some r)
  (away : p ≠ w.spaces.active) (keep : p ≠ Spaces.kernelId) (rested : ∀ f, role f ≠ .spare)
include sound o hr away keep rested

/-- The loop gives back what a sound kernel with the same outline would. -/
theorem releaseUserTables_emptying : Leads E (releaseUserTables r.directory) w fun _ v =>
    ∃ b role' c, Emptying y role p r.directory userSlots b role' ∧
      v = w.book { w.toBooks with free := b.free, occupancy := c } := by
  have lodged : w.Lodged role := ⟨y, sound, o⟩
  have housed := lodged.housed
  have hr' : y.spaces.find? p = some r := by rw [o.spaces]; exact hr
  have away' : p ≠ y.spaces.active := by rw [o.spaces]; exact away
  have slot {k : Nat} (hk : k < userSlots) :
      (y.entry r.directory k).SameTarget (w.entry r.directory k) := by
    have same := o.slot (.user p k) ⟨Option.isSome_iff_exists.2 ⟨r, hr⟩, hk⟩
    rwa [slotAt, slotAt, home_of_ne away hr, home_of_ne away' hr'] at same
  obtain ⟨first, start⟩ := emptying_start sound hr' away' keep rested
  let I (k : Nat) (v : Snapshot) : Prop := ∃ b role' c, Emptying y role p r.directory k b role' ∧
    v = w.book { w.toBooks with free := b.free, occupancy := c }
  refine .bind (Leads.mono (Leads.sumEach I ⟨_, first, w.occupancy, start, ?_⟩ ?_) ?_)
  · rw [o.free]
    rfl
  · rintro k _ hk ⟨b, role', c, e, rfl⟩
    have hk' : k < tableEntries := by simp only [userSlots, tableEntries] at *; omega
    rw [Nat.zero_add]
    have wired := lodged.wired.book { w.toBooks with free := b.free, occupancy := c }
    refine (entryOf_yields wired (housed.isFrame _ _ hr) (housed.ne_mount _ _ hr) hk').bind ?_
    rw [entry_book]
    refine .ite (fun present => ?_) fun absent =>
      .pure ⟨b, role', c, e.skip ((slot hk).present.trans (by simpa using absent)), rfl⟩
    have present' := (slot hk).present.trans present
    have frame := (slot hk).frame present'
    have free : (w.entry r.directory k).frame ∉ b.free := by
      intro mem
      have isFree := (e.sound.free _).2 mem
      rw [(e.spare _).2 (.inr ⟨k, Nat.le_refl k, hk, present', frame⟩)] at isFree
      cases isFree
    refine (tableOccupancy_yields _ _).bind ((forgetTable_yields _ _).bind ?_)
    refine (release_yields free).bind (.pure ⟨_, _, c.forget (w.entry r.directory k).frame,
      e.next sound hr' away' hk present' frame, rfl⟩)
  · exact fun dropped v hv => .ite (fun _ => (note_yields _ _).leads hv) fun _ => .pure hv

end Emptying

/-- Then its directory is given back, and its record taken out. -/
theorem releaseStored_firm (h : w.Firm) (hr : w.spaces.find? p = some r)
    (away : p ≠ w.spaces.active) (keep : p ≠ Spaces.kernelId) :
    Leads E (do
      releaseUserTables r.directory
      release r.directory
      modify fun s => { s with spaces := s.spaces.remove p }
      note (.spaceReleased p)) w fun _ v => v.Firm ∧ v.spaces = w.spaces.remove p := by
  obtain ⟨role, placed⟩ := h.placed
  obtain ⟨y, sound, o⟩ := placed.lodged
  have hr' : y.spaces.find? p = some r := by rw [o.spaces]; exact hr
  refine .bind ((releaseUserTables_emptying sound o hr away keep placed.rest).mono ?_)
  rintro _ _ ⟨b, role', c, e, rfl⟩
  have dir := (sound.directory r.directory p).2 ⟨r, hr', rfl⟩
  have spare : role' r.directory = .spare := (e.spare _).2 (.inl rfl)
  have free : r.directory ∉ b.free := by
    intro mem
    have isFree := (e.sound.free r.directory).2 mem
    rw [spare] at isFree
    cases isFree
  have untracked : r.directory ∉ b.occupancy.counts := fun mem =>
    sound.not_tracked (f := r.directory) (by simp [dir]) (by simp [dir]) (e.record _ mem)
  refine (release_yields free).bind ?_
  refine Yields.bind (v := w.book { w.toBooks with
    free := r.directory :: b.free
    occupancy := c
    spaces := w.spaces.remove p }) (modify_yields ?_) ((note_yields _ _).leads ⟨?_, rfl⟩)
  · intro t ht
    exact congrArg (fun v : Snapshot => v.book { v.toBooks with spaces := v.spaces.remove p }) ht
  refine h.register ⟨⟨_, e.sound.putBack spare untracked, o.root, o.size, rfl, ?_, ?_, o.window⟩,
    fun f => ?_⟩ fun q s hs => ?_
  · exact e.spaces.trans (congrArg (·.remove p) o.spaces)
  · intro π hπ
    obtain ⟨hπ', out⟩ := (Sound.has_evicting (w := w) π).1 hπ
    have mine : (w.evicting p).slotAt π = w.slotAt π := Sound.slotAt_evicting out
    have theirs : (y.evicting p).slotAt π = y.slotAt π := Sound.slotAt_evicting out
    refine Entry.SameTarget.trans ?_ ((o.slot π hπ').trans ?_)
    · rw [← theirs]
      exact (slotAt_book (w := y.evicting p) e.spaces π).symm ▸ .refl _
    · rw [← mine]
      exact (slotAt_book (w := w.evicting p) rfl π).symm ▸ .refl _
  · rw [Function.update_apply]
    split
    · simp
    · intro left
      obtain same | ⟨d, low, high, -⟩ := (e.spare f).1 left
      · exact absurd same ‹_›
      · omega
  · change (w.spaces.remove p).find? q = some s at hs
    rw [Spaces.find?_remove] at hs
    split at hs
    · cases hs
    · exact ⟨q, s, hs, rfl⟩

theorem releaseSpace_firm (h : w.Firm) (hr : w.spaces.find? p = some r)
    (keep : p ≠ Spaces.kernelId) : Leads E (releaseSpace p r.directory) w fun _ v => v.Firm ∧
      v.spaces = Spaces.remove { w.spaces with active :=
        if w.spaces.active = p then Spaces.kernelId else w.spaces.active } p := by
  refine .bind ((leave_firm h).mono ?_)
  rintro _ v ⟨hv, spaces⟩
  have away : p ≠ v.spaces.active := by
    rw [spaces]
    change p ≠ if w.spaces.active = p then Spaces.kernelId else w.spaces.active
    split
    · exact keep
    · exact Ne.symm ‹_›
  have hr' : v.spaces.find? p = some r := by
    rw [spaces]
    exact hr
  rw [← spaces]
  exact releaseStored_firm hv hr' away keep

/-- An owner leaves; the last one of a space that is not the kernel's releases it. -/
theorem decref_firm (h : w.Firm) (p : Nat) : Leads Stops (decref p) w fun a v => v.Firm ∧
    ∃ r, w.spaces.find? p = some r ∧ r.owners ≠ 0 ∧ a = r.owners - 1 ∧
      (a ≠ 0 ∧ v.spaces = w.spaces.put p { r with owners := a } ∨
        a = 0 ∧ p ≠ Spaces.kernelId ∧ ∃ r', v.spaces = Spaces.remove { w.spaces.put p r' with
          active := if w.spaces.active = p then Spaces.kernelId else w.spaces.active } p) := by
  refine .get fun s hs => ?_
  have same : s.spaces = w.spaces := congrArg (fun v : Snapshot => v.spaces) hs
  rw [same]
  cases hr : w.spaces.find? p with
  | none => exact .halt (.halt _ _)
  | some r =>
    refine .ite (fun _ => .halt (.halt _ _)) fun some => ?_
    refine (setOwners_yields p r _ w).bind (.ite (fun more => ?_) fun last => ?_)
    · exact .pure ⟨h.reown hr _, r, rfl, some, rfl, .inl ⟨by omega, rfl⟩⟩
    · refine .ite (fun _ => .halt (.halt _ _)) fun keep => ?_
      have found := find?_owning w p r (r.owners - 1)
      refine .bind ((releaseSpace_firm (h.reown hr _) found keep).mono ?_)
      rintro _ v ⟨hv, spaces⟩
      exact .pure ⟨hv, r, rfl, some, by omega, .inr ⟨rfl, keep, _, spaces⟩⟩

/-! ## Frames -/

/-- A frame that is handed out has no place any more. -/
theorem acquire_firm (h : w.Firm) : Leads Stops acquire w fun _ v => v.Firm ∧
    v.spaces = w.spaces := by
  obtain ⟨role, placed⟩ := h.placed
  refine acquire_leads placed.lodged.wired placed.lodged.usable (fun _ => .halt _ _) ?_
  intro f rest first
  have free : role f = .free := (placed.lodged.free f).2 (first ▸ List.mem_cons_self)
  have out := ((placed.lodged.take first).setPage (f := f) (by simp) (by simp) Page.zero).abandon
    (Function.update_self ..)
  rw [Function.update_idem] at out
  refine ⟨h.edits (.of_page rfl rfl rfl (fun p r hr => ?_) ⟨_, out, fun g => ?_⟩), rfl⟩
  · have other := placed.lodged.not_directory (f := f) (by simp [free]) p r hr
    exact (page_setPage ..).trans (if_neg other)
  · rw [Function.update_apply]
    split
    · simp
    · exact placed.rest g

end Kernel
end VirtualMemory
