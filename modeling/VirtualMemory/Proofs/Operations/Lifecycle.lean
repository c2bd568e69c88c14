import VirtualMemory.AddressSpace.Lifecycle
import VirtualMemory.Proofs.Operations.Switch
import VirtualMemory.Proofs.Ownership.Release

/-!
# Life of a space

Creating a space costs one frame and shows no page; releasing it gives back its directory frame
and its tables, each once. While the tables are given back the register still names the space, so
the loop is followed on the snapshot in which the space is already gone and its frames are spare.
-/
namespace VirtualMemory

open Layout

namespace Snapshot

/-- A new space, with no page. -/
structure Admitted (w v : Snapshot) (f : Nat) (O : Finset Nat) : Prop where
  size : v.size = w.size
  spaces : v.spaces =
    { w.spaces.put w.spaces.nextId ⟨f, 1⟩ with nextId := w.spaces.nextId + 1 }
  shares : v.shares = w.shares
  leaf : ∀ π t, w.Has π → v.leaf? π t = w.leaf? π t
  fresh : ∀ d t, v.leaf? (.user w.spaces.nextId d) t = none
  data : ∀ g ∈ O, v.page g = w.page g
  upholds : w.Upholds v

variable {w v : Snapshot} {O : Finset Nat} {role : Nat → Role} {f n p : Nat} {r : SpaceRecord}

/-- The first free frame, cleared, becomes the directory of a new space. -/
theorem Settled.admitted (h : w.Settled O) {rest : List Nat} (first : w.free = f :: rest)
    {u : Snapshot} (hu : u = (w.book { w.toBooks with free := rest }).setPage f Page.zero) :
    (u.housing f).Settled O ∧ w.Admitted (u.housing f) f O := by
  obtain ⟨role, stable⟩ := h.stable
  have free : role f = .free := (stable.free f).2 (first ▸ List.mem_cons_self)
  obtain ⟨-, -, hr⟩ := stable.usable f (first ▸ List.mem_cons_self)
  have spare : Function.update role f .spare f = .spare := Function.update_self ..
  have idle : (Function.update role f .spare f).Idle := by rw [spare]; trivial
  have taken : u.Sound (Function.update role f .spare) := hu ▸ (stable.take first).setPage idle _
  have untracked := stable.not_tracked (f := f) (by simp [free]) (by simp [free])
  have zero : u.page f = Page.zero := hu ▸ page_setPage_self ..
  have housed := taken.house spare zero (hu ▸ untracked)
  rw [Function.update_idem] at housed
  have spaces : u.spaces = w.spaces := hu ▸ rfl
  have old (π : Place) (t : Nat) (hπ : w.Has π) : u.leaf? π t = w.leaf? π t :=
    hu ▸ ((stable.take first).leaf?_setPage idle _ hπ t).trans (leaf?_book rfl π t)
  have slots (π : Place) : u.slotAt π = w.slotAt π :=
    hu ▸ (slotAt_setPage hr (stable.idle_ne_directory (by rw [free]; trivial)) _ π).trans
      (slotAt_book rfl π)
  have has {π : Place} (hπ : w.Has π) : u.Has π := (has_congr spaces π).2 hπ
  have seen (π : Place) (t : Nat) (hπ : w.Has π) : (u.housing f).leaf? π t = w.leaf? π t :=
    (leaf?_of_slotAt (taken.slotAt_housing (has hπ)) t).trans (old π t hπ)
  have none (d t : Nat) : (u.housing f).leaf? (.user u.spaces.nextId d) t = none :=
    leaf?_of_absent (taken.slotAt_housing_new zero d) t
  have upheld : w.Upholds (u.housing f) := by
    refine ⟨hu ▸ rfl, fun i _ _ => ?_, fun g => g.of_pages fun π t e hπ ht page => ?_⟩
    · rw [hu]
      exact entry_setPage_of_ne _ _ _ hr.symm i
    · obtain hπ' | ⟨d, rfl⟩ := Sound.has_of_housing hπ
      · have before : w.Has π := (has_congr spaces π).1 hπ'
        rw [seen π t before] at page
        rw [taken.slotAt_housing hπ', slots]
        exact ⟨before, .refl _, e, page, .refl e⟩
      · rw [none] at page
        cases page
  have admitted : w.Admitted (u.housing f) f O := by
    refine ⟨hu ▸ rfl, hu ▸ rfl, hu ▸ rfl, seen, fun d t => spaces ▸ none d t, ?_, upheld⟩
    · intro g hg
      change u.page g = w.page g
      rw [hu]
      refine (page_setPage ..).trans (if_neg ?_)
      rintro rfl
      rw [stable.data hg] at free
      cases free
  refine ⟨⟨⟨_, stable.assign_aside housed (by simp [free]) (by simp) (by simp)⟩, ?_,
    hu ▸ h.shared, ?_⟩, admitted⟩
  · intro q d _ hq present
    obtain hq' | ⟨d', new⟩ := Sound.has_of_housing hq
    · rw [taken.slotAt_housing hq', slots] at present
      have here : w.Has (.user q d) := (has_congr spaces _).1 hq'
      obtain ⟨t, ht, some⟩ := h.filled q d (by simp) here present
      exact ⟨t, ht, by rwa [admitted.leaf _ _ here]⟩
    · rw [new, taken.slotAt_housing_new zero] at present
      cases present
  · intro q r hr
    have hr' := (Sound.find?_housing u f q).symm.trans hr
    split at hr'
    · cases hr'
      exact Nat.one_pos
    · exact h.kept q r (spaces ▸ hr')

end Snapshot

open Snapshot

namespace Kernel

variable {E : Failure → Books → Prop} {w : Snapshot} {O : Finset Nat} {role : Nat → Role}
  {f p n : Nat} {r : SpaceRecord}

/-! ## Creating -/

theorem create_leads (h : w.Settled O) :
    Leads Depleted create w fun id v => ∃ f, f ∈ w.free ∧ id = w.spaces.nextId ∧ v.Settled O ∧
      w.Admitted v f O := by
  obtain ⟨role, stable⟩ := h.stable
  refine .bind (acquire_leads stable.wired stable.usable .frames ?_)
  intro f rest first
  obtain ⟨settled, admitted⟩ := h.admitted first rfl
  refine .get ?_
  intro s hs
  have spaces : s.spaces = w.spaces := congrArg (fun v : Snapshot => v.spaces) hs
  rw [spaces, Spaces.add]
  by_cases room : w.spaces.nextId + 1 < Spaces.countLimit
  · rw [if_pos room]
    refine Yields.bind (modify_yields ?_) ((note_yields _ _).bind
      (.pure ⟨f, first ▸ List.mem_cons_self, rfl, settled, admitted⟩))
    intro t ht
    exact congrArg (fun v : Snapshot => v.book { v.toBooks with spaces :=
      { w.spaces.put w.spaces.nextId ⟨f, 1⟩ with nextId := w.spaces.nextId + 1 } }) ht
  · rw [if_neg room]
    exact .violate (.limit (.inr (.inl (not_lt.1 room))))

theorem setOwners_yields (p : Nat) (r : SpaceRecord) (n : Nat) (w : Snapshot) :
    Yields (setOwners p r n) w () (w.owning p r n) := by
  refine modify_yields ?_
  rintro s rfl
  rfl

theorem incref_leads (h : w.Settled O) (hr : w.spaces.find? p = some r) :
    Leads Depleted (incref p) w fun a v => a = r.owners + 1 ∧ v = w.owning p r (r.owners + 1) ∧
      v.Settled O := by
  refine (space_yields hr).bind ?_
  refine .ite ?_ fun full => .violate (.limit (.inr (.inr ⟨p, r, hr, not_lt.1 full⟩)))
  intro _
  refine (setOwners_yields p r _ w).bind (.pure ⟨rfl, rfl, h.reown hr (Nat.succ_pos _)⟩)

theorem incref_refuses (dead : ¬ w.Live p) : Refuses (incref p) w .unknownSpace :=
  (space_refuses dead).bind

/-! ## Releasing -/

/-- The books while the tables of space `p` are given back: those from slot `k` on are still
spare, and so is the directory frame. -/
structure Emptying (w : Snapshot) (role : Nat → Role) (p directory k : Nat) (b : Books)
    (role' : Nat → Role) : Prop where
  spaces : b.spaces = w.spaces.remove p
  shares : b.shares = w.shares
  sound : (w.book b).Sound role'
  spare : ∀ f, role' f = .spare ↔ f = directory ∨ ∃ d, k ≤ d ∧ d < userSlots ∧
    (w.entry directory d).isPresent = true ∧ (w.entry directory d).frame = f
  owned : ∀ f, role' f = .owned ↔ role f = .owned
  record : ∀ f, f ∈ b.occupancy.counts → f ∈ w.occupancy.counts

/-- A slot without a table is passed by. -/
theorem Emptying.skip {k : Nat} {b : Books} {role' : Nat → Role}
    (e : Emptying w role p r.directory k b role')
    (absent : (w.entry r.directory k).isPresent = false) :
    Emptying w role p r.directory (k + 1) b role' := by
  refine { e with spare := fun f => (e.spare f).trans (or_congr_right ⟨?_, ?_⟩) }
  · rintro ⟨d, hd, rest⟩
    have later : d ≠ k := by
      rintro rfl
      rw [absent] at rest
      cases rest.2.1
    exact ⟨d, by omega, rest⟩
  · rintro ⟨d, hd, rest⟩
    exact ⟨d, by omega, rest⟩

section Release
variable (h : w.Sound role) (hr : w.spaces.find? p = some r) (away : p ≠ w.spaces.active)
include h hr away

theorem table_of_slot {d : Nat} (hd : d < userSlots)
    (present : (w.entry r.directory d).isPresent = true) :
    role (w.entry r.directory d).frame = .table (.user p d) := by
  have slot : w.slotAt (.user p d) = w.entry r.directory d := by rw [slotAt, home_of_ne away hr]
  rw [← slot] at present ⊢
  exact h.table_slotAt ⟨Option.isSome_iff_exists.2 ⟨r, hr⟩, hd⟩ present

theorem emptying_start (keep : p ≠ Spaces.kernelId) (rested : ∀ f, role f ≠ .spare) :
    ∃ role', Emptying w role p r.directory 0 { w.toBooks with spaces := w.spaces.remove p }
      role' := by
  refine ⟨_, rfl, rfl, h.evict away keep, ?_, ?_, fun f hf => hf⟩
  · intro f
    have dir := (h.directory r.directory p).2 ⟨r, hr, rfl⟩
    constructor
    · intro mine
      have serves : (role f).serves p = true := by
        by_contra other
        rw [if_neg other] at mine
        exact rested f mine
      cases hf : role f with
      | directory q =>
        have same : q = p := by simpa [hf, Role.serves] using serves
        obtain ⟨s, hs, rfl⟩ := (h.directory f q).1 hf
        rw [same, hr] at hs
        cases hs
        exact .inl rfl
      | table π =>
        cases π with
        | user q d =>
          have same : q = p := by simpa [hf, Role.serves] using serves
          subst same
          obtain ⟨bound, present, frame⟩ := (h.table f _).1 hf
          rw [slotAt, home_of_ne away hr] at present frame
          exact .inr ⟨d, Nat.zero_le d, bound.2, present, frame⟩
        | kernel d => simp [hf, Role.serves] at serves
      | _ => simp [hf, Role.serves] at serves
    · rintro (rfl | ⟨d, -, hd, present, rfl⟩)
      · simp [dir, Role.serves]
      · simp [table_of_slot h hr away hd present, Role.serves]
  · intro f
    cases hf : role f with
    | directory q => by_cases same : q = p <;> simp [Role.serves, same]
    | table π =>
      cases π with
      | user q d => by_cases same : q = p <;> simp [Role.serves, same]
      | kernel d => simp [Role.serves]
    | _ => simp [Role.serves]

/-- The table of one slot goes back to the pool. -/
theorem Emptying.next {k : Nat} (hk : k < userSlots) {b : Books} {role' : Nat → Role}
    (e : Emptying w role p r.directory k b role')
    (present : (w.entry r.directory k).isPresent = true) (hf : (w.entry r.directory k).frame = f) :
    Emptying w role p r.directory (k + 1)
      { b with free := f :: b.free, occupancy := b.occupancy.forget f }
      (Function.update role' f .free) := by
  have table : role f = .table (.user p k) := hf ▸ table_of_slot h hr away hk present
  have spare : role' f = .spare := (e.spare f).2 (.inr ⟨k, Nat.le_refl k, hk, present, hf⟩)
  have forgotten := e.sound.recount spare (o := b.occupancy.forget f)
    (fun g hg => by rw [Occupancy.get_forget, if_neg hg.symm]; rfl)
    (fun g hg => Occupancy.mem_forget.trans (and_iff_right hg.symm))
  refine ⟨e.spaces, e.shares,
    forgotten.putBack spare fun mem => (Occupancy.mem_forget.1 mem).1 rfl, ?_, ?_,
    fun g hg => e.record g (Occupancy.mem_forget.1 hg).2⟩
  · intro g
    rw [Function.update_apply]
    split
    · subst g
      refine iff_of_false (by simp) ?_
      rintro (same | ⟨d, hd, hd', there, same⟩)
      · have dir := (h.directory r.directory p).2 ⟨r, hr, rfl⟩
        rw [same, dir] at table
        cases table
      · have other := table_of_slot h hr away hd' there
        rw [same, table] at other
        cases other
        omega
    · rename_i ne
      rw [e.spare g]
      refine or_congr_right ⟨?_, ?_⟩
      · rintro ⟨d, hd, rest⟩
        have later : d ≠ k := by
          rintro rfl
          exact ne (rest.2.2.symm.trans hf)
        exact ⟨d, by omega, rest⟩
      · rintro ⟨d, hd, rest⟩
        exact ⟨d, by omega, rest⟩
  · intro g
    rw [Function.update_apply]
    split
    · subst g
      simp [table]
    · exact e.owned g

/-- One slot is looked at, and its table given back. -/
theorem releaseUserTable_leads {k : Nat} (hk : k < userSlots) {b : Books} {role' : Nat → Role}
    (e : Emptying w role p r.directory k b role')
    (back : w.toBooks.Returns b (boundTables (w.entry r.directory) k)) :
    Leads E (releaseUserTable r.directory k) (w.book { b with spaces := w.spaces }) fun _ v =>
      ∃ b' role'', Emptying w role p r.directory (k + 1) b' role'' ∧
        w.toBooks.Returns b' (boundTables (w.entry r.directory) (k + 1)) ∧
        v = w.book { b' with spaces := w.spaces } := by
  have hh := h.housed
  have hk' : k < tableEntries := by simp only [userSlots, tableEntries] at *; omega
  rw [boundTables_succ]
  refine (entryOf_yields (h.wired.book { b with spaces := w.spaces }) (hh.isFrame _ _ hr)
    (hh.ne_mount _ _ hr) hk').bind ?_
  rw [entry_book]
  refine .ite ?_ fun absent =>
    .pure ⟨b, role', e.skip (by simpa using absent), by simpa [absent] using back, rfl⟩
  intro present
  rw [if_pos present]
  generalize hf : (w.entry r.directory k).frame = f
  have free : f ∉ b.free := by
    intro mem
    have free := (e.sound.free f).2 mem
    rw [(e.spare f).2 (.inr ⟨k, Nat.le_refl k, hk, present, hf⟩)] at free
    cases free
  refine (tableOccupancy_yields _ _).bind ?_
  refine (forgetTable_yields _ _).bind ?_
  refine (release_yields (w := w.book { b with
    spaces := w.spaces
    occupancy := b.occupancy.forget f }) free).bind ?_
  exact .pure ⟨_, _, e.next h hr away hk present hf, back.snoc f, rfl⟩

/-- Every table and then the directory frame are given back, and the space is struck out. -/
theorem releaseStored_leads (keep : p ≠ Spaces.kernelId) (rested : ∀ f, role f ≠ .spare) :
    Leads E (do
      releaseUserTables r.directory
      release r.directory
      modify fun s => { s with spaces := s.spaces.remove p }
      note (.spaceReleased p)) w fun _ v => ∃ b role', v = w.book b ∧
        b.spaces = w.spaces.remove p ∧ b.shares = w.shares ∧ v.Sound role' ∧
        (∀ f, role' f ≠ .spare) ∧ (∀ f, role' f = .owned ↔ role f = .owned) ∧
        w.toBooks.Returns b (boundTables (w.entry r.directory) userSlots ++ [r.directory]) := by
  obtain ⟨first, start⟩ := emptying_start h hr away keep rested
  have dir := (h.directory r.directory p).2 ⟨r, hr, rfl⟩
  have emptied : Leads E (releaseUserTables r.directory) w fun _ v => ∃ b role',
      Emptying w role p r.directory userSlots b role' ∧
        w.toBooks.Returns b (boundTables (w.entry r.directory) userSlots) ∧
        v = w.book { b with spaces := w.spaces } := by
    refine .bind (Leads.mono (Leads.sumEach (fun k v => ∃ b role',
      Emptying w role p r.directory k b role' ∧
        w.toBooks.Returns b (boundTables (w.entry r.directory) k) ∧
        v = w.book { b with spaces := w.spaces })
    ⟨_, first, start, ⟨rfl, fun _ => rfl⟩, rfl⟩ ?_) ?_)
    · rintro k _ hk ⟨b, role', e, back, rfl⟩
      rw [Nat.zero_add]
      exact releaseUserTable_leads h hr away hk e back
    · intro dropped v hv
      exact .ite (fun _ => (note_yields _ _).leads hv) fun _ => .pure hv
  refine .bind (emptied.mono ?_)
  rintro _ _ ⟨b, role', e, back, rfl⟩
  have spare : role' r.directory = .spare := (e.spare _).2 (.inl rfl)
  have only (f : Nat) (hf : role' f = .spare) : f = r.directory := by
    obtain same | ⟨d, hd, hd', -⟩ := (e.spare f).1 hf
    · exact same
    · omega
  have free : r.directory ∉ b.free := by
    intro mem
    have free := (e.sound.free r.directory).2 mem
    rw [spare] at free
    cases free
  have untracked : r.directory ∉ b.occupancy.counts := fun mem =>
    h.not_tracked (f := r.directory) (by simp [dir]) (by simp [dir]) (e.record _ mem)
  refine (release_yields (w := w.book { b with spaces := w.spaces }) free).bind ?_
  refine Yields.bind (v := w.book { b with free := r.directory :: b.free }) (modify_yields ?_) ?_
  · intro t ht
    have left := congrArg (fun v : Snapshot =>
      v.book { v.toBooks with spaces := w.spaces.remove p }) ht
    have spaces : t.spaces = w.spaces := congrArg (fun v : Snapshot => v.spaces) ht
    change t.snapshot.book { t.snapshot.toBooks with spaces := t.spaces.remove p } = _
    rw [spaces, left, ← e.spaces]
    rfl
  · refine (note_yields _ _).leads ⟨_, _, rfl, e.spaces, e.shares,
      e.sound.putBack spare untracked, ?_, ?_, ?_, ?_⟩
    · intro f
      rw [Function.update_apply]
      split
      · simp
      · exact fun hf => ‹¬ _› (only f hf)
    · intro f
      rw [Function.update_apply]
      split
      · subst_vars
        simp [dir]
      · exact e.owned f
    · simp [back.free]
    · -- The directory frame never had a record.
      intro f
      refine (back.record f).trans ?_
      by_cases same : f = r.directory
      · subst same
        rw [← back.record, Std.ExtTreeMap.getElem?_eq_none untracked]
        simp
      · simp [same]

end Release

/-- The processor goes to the kernel's space if it is in space `p`. -/
theorem leave_leads (h : w.Sound role) : Leads E (leave p) w fun _ v => v.Sound role ∧
    w.Leaves v p := by
  refine (active_yields w).bind ?_
  refine .ite ?_ fun other => .pure ⟨h, .inr ⟨other, rfl⟩⟩
  intro here
  obtain ⟨v, switched, s⟩ := switch_yields h.switchable h.regular.kernel
  exact switched.attempt.bind (.pure ⟨h.switched h.regular.kernel s, .inl ⟨here, s⟩⟩)

/-- Leaving takes at most a switch, and then the space is given back from its own frame. -/
theorem releaseSpace_steps (h : w.Stable O role) (hr : w.spaces.find? p = some r)
    (keep : p ≠ Spaces.kernelId) :
    Leads E (releaseSpace p r.directory) w fun _ v => ∃ x b role',
      w.Leaves x p ∧ v = x.book b ∧ b.spaces = x.spaces.remove p ∧ b.shares = x.shares ∧
      v.Stable O role' ∧
      x.toBooks.Returns b (boundTables (x.entry r.directory) userSlots ++ [r.directory]) := by
  refine .bind ((leave_leads h.toSound).mono ?_)
  rintro _ x ⟨sound, moved⟩
  have mine : x.spaces.find? p = some r := by
    obtain ⟨-, s⟩ | ⟨-, rfl⟩ := moved
    · exact (s.find? p).trans hr
    · exact hr
  have away : p ≠ x.spaces.active := by
    obtain ⟨-, s⟩ | ⟨other, rfl⟩ := moved
    · rw [s.books]
      exact keep
    · exact other.symm
  refine (releaseStored_leads sound mine away keep h.at_rest).mono ?_
  rintro _ v ⟨b, role', rfl, gone, shares, sound', rested, owned, back⟩
  exact ⟨x, b, role', moved, rfl, gone, shares,
    ⟨sound', rested, fun f => (owned f).trans (h.owned f)⟩, back⟩

theorem releaseSpace_leads (h : w.Stable O role) (hr : w.spaces.find? p = some r)
    (keep : p ≠ Spaces.kernelId) :
    Leads E (releaseSpace p r.directory) (w.owning p r 0) fun _ v =>
      ∃ role', v.Stable O role' ∧ w.Released v p r.directory := by
  refine (releaseSpace_steps (h.reown hr 0) (find?_owning w p r 0) keep).mono ?_
  rintro _ v ⟨x, b, role', moved, rfl, gone, shares, stable, back⟩
  exact ⟨role', stable, h.released hr keep moved gone shares stable back⟩

/-- Whoever is not the last owner only leaves. -/
theorem decref_shared {s : KernelState} (hr : s.spaces.find? p = some r) (more : 1 < r.owners) :
    decref p s = .ok (r.owners - 1)
      { s with spaces := s.spaces.put p { r with owners := r.owners - 1 } } := by
  refine (bind_of_ok (rfl : (get : Kernel KernelState) s = .ok s s) _).trans ?_
  simp only [hr]
  rw [if_neg (by omega)]
  have put : setOwners p r (r.owners - 1) s =
      .ok () { s with spaces := s.spaces.put p { r with owners := r.owners - 1 } } := rfl
  refine (bind_of_ok put _).trans ?_
  rw [if_pos (by omega)]
  rfl

/-- The last owner of a space that is not the kernel's releases it. -/
theorem decref_last {Q : Nat → Snapshot → Prop} (hr : w.spaces.find? p = some r)
    (one : r.owners = 1) (keep : p ≠ Spaces.kernelId)
    (h : Leads E (releaseSpace p r.directory) (w.owning p r 0) fun _ v => Q 0 v) :
    Leads E (decref p) w Q := by
  refine .get ?_
  intro s hs
  have found : s.spaces.find? p = some r := by
    rw [← hs] at hr
    exact hr
  rw [found]
  refine .ite (fun none => by omega) fun _ => ?_
  refine (setOwners_yields p r _ w).bind ?_
  rw [one]
  refine .ite (fun more => by omega) fun _ => ?_
  refine .ite (fun kernel => absurd kernel keep) fun _ => ?_
  exact .bind (h.mono fun _ _ => .pure)

theorem decref_leads (h : w.Settled O) (hr : w.spaces.find? p = some r)
    (keep : r.owners = 1 → p ≠ Spaces.kernelId) :
    Leads E (decref p) w fun a v => a = r.owners - 1 ∧ v.Settled O ∧
      (1 < r.owners ∧ v = w.owning p r (r.owners - 1) ∨ r.owners = 1 ∧ w.Vacated v p O) := by
  have some := h.kept p r hr
  by_cases one : r.owners = 1
  · obtain ⟨role, stable⟩ := h.stable
    refine decref_last hr one (keep one) ((releaseSpace_leads stable hr (keep one)).mono ?_)
    rintro _ v ⟨role', stable', gone⟩
    exact ⟨by omega, gone.settled h stable', .inr ⟨one, gone.vacated stable hr rfl⟩⟩
  · have more : 1 < r.owners := by omega
    rintro s rfl
    rw [decref_shared hr more]
    exact ⟨rfl, h.reown hr (by omega), .inl ⟨more, rfl⟩⟩

/-- Otherwise the kernel stops, and says whether the space is gone or the kernel's own. -/
theorem decref_halts {Q : Nat → Snapshot → Prop}
    (ended : ∀ r, w.spaces.find? p = some r → r.owners = 1 ∧ p = Spaces.kernelId)
    (dead : ¬ w.Live p → E (.halt (.releasedSpace p)) w.toBooks)
    (last : ∀ r b, w.spaces.find? p = some r → E (.halt .kernelReleased) b) :
    Leads E (decref p) w Q := by
  refine .get ?_
  intro s hs
  cases hr : s.spaces.find? p with
  | none =>
    have hr' : w.spaces.find? p = none := by
      rw [← hs]
      exact hr
    exact .halt (dead (by simp [Live, hr']))
  | some r =>
    have hr' : w.spaces.find? p = some r := by
      rw [← hs]
      exact hr
    obtain ⟨one, rfl⟩ := ended r hr'
    refine .ite (fun no => by omega) ?_
    intro _
    refine (setOwners_yields _ r _ w).bind ?_
    refine .ite (fun no => by omega) ?_
    intro _
    exact .ite (fun _ => .halt (last r _ hr')) fun no => absurd rfl no

/-- Destroying is the last owner's leave, with a warning if there are others. -/
theorem destroy_leads {Q : Unit → Snapshot → Prop} (hr : w.spaces.find? p = some r)
    (h : Leads E (decref p) w fun _ v => Q () v) : Leads E (destroy p) w Q := by
  refine (space_yields hr).bind ?_
  exact .ite (fun _ => (note_yields _ _).bind (.discard h)) fun _ => .discard h

theorem destroy_refuses (dead : ¬ w.Live p) : Refuses (destroy p) w .unknownSpace :=
  (space_refuses dead).bind

end Kernel
end VirtualMemory
