import VirtualMemory.Proofs.Outline.Fork
import VirtualMemory.Proofs.Twins.Pages

/-!
# Two runs of work on spaces

The frames that user halves are stored in are not free, so two runs that differ in free frames only
copy the same halves, share the same tables and give the same frames back.
-/
namespace VirtualMemory

open Layout

namespace Snapshot

variable {w v w' v' : Snapshot} {role : Nat → Role} {p : Nat} {r : SpaceRecord}

/-- The stored half of a space is no free frame. -/
theorem Paired.page_directory (h : w.Paired v ∅) (hr : w.spaces.find? p = some r) :
    v.page r.directory = w.page r.directory := by
  obtain ⟨role, placed⟩ := h.placed
  have dir := (placed.lodged.directory r.directory p).2 ⟨r, hr, rfl⟩
  exact h.page placed (by simp [dir]) (Finset.notMem_empty _)

theorem Paired.slotAt (h : w.Paired v ∅) {π : Place} (hπ : w.Has π) : v.slotAt π = w.slotAt π := by
  obtain ⟨role, placed⟩ := h.placed
  exact h.alike.slotAt placed (fun f hf => absurd hf (Finset.notMem_empty f)) hπ

/-- The same pages are seen in every space. -/
theorem Paired.leaf? (h : w.Paired v ∅) {π : Place} (hπ : w.Has π) (t : Nat) :
    v.leaf? π t = w.leaf? π t := by
  obtain ⟨role, placed⟩ := h.placed
  rw [Snapshot.leaf?, Snapshot.leaf?, leafAt, leafAt, h.slotAt hπ]
  by_cases present : (w.slotAt π).isPresent = true
  · have table := placed.lodged.table_slotAt hπ present
    rw [entry, h.page placed (by simp [table]) (Finset.notMem_empty _), ← entry]
  · rw [if_neg fun both => present both.1, if_neg fun both => present both.1]

/-- A switch on both sides. -/
theorem Switched.alike (h : w.Paired v ∅) (s : w.Switched w' p) (s' : v.Switched v' p)
    (live : w.Live p) (other : p ≠ w.spaces.active) : w'.Alike v' ∅ := by
  obtain ⟨role, placed⟩ := h.placed
  obtain ⟨a, ha⟩ := Option.isSome_iff_exists.1 placed.lodged.live_active
  have spaces := h.alike.spaces
  have slots {q : Nat} (hq : w.Live q) (d : Nat) (hd : d < userSlots) :
      v'.slotAt (.user q d) = w'.slotAt (.user q d) := by
    have here : w.Has (.user q d) := ⟨hq, hd⟩
    rw [s.slotAt _ here, s'.slotAt _ ((has_congr spaces _).2 here), h.slotAt here]
  have kernel {f : Nat} (same : v.page f = w.page f) (d : Nat) (low : userSlots ≤ d)
      (hd : d < tableEntries) : v'.entry f d = w'.entry f d := by
    rw [s.kernel f d low hd, s'.kernel f d low hd, entry, same, entry]
  have active : w'.spaces.active = p := by rw [s.books]
  have active' : v'.spaces.active = p := by rw [s'.books]
  refine ⟨?_, ?_, ?_, fun f free _ => ?_⟩
  · rw [s.root, s'.root, h.alike.root]
  · rw [s.size, s'.size, h.alike.size]
  · rw [s.books, s'.books, h.alike.books]
  rw [s.books] at free
  by_cases root : f = w.root
  · subst root
    refine page_eq_of_home ?_ ?_ (slots live) (kernel h.page_root)
    · rw [← active, home_active, s.root]
    · rw [← active', home_active, s'.root, h.alike.root]
  by_cases left : f = a.directory
  · subst left
    refine page_eq_of_home ?_ ?_ (slots placed.lodged.live_active) (kernel (h.page_directory ha))
    · exact home_of_ne (by rw [active]; exact other.symm) ((s.find? _).trans ha)
    · refine home_of_ne (by rw [active']; exact other.symm) ((s'.find? _).trans ?_)
      rw [spaces]
      exact ha
  · have away (b : SpaceRecord) (hb : w.spaces.find? w.spaces.active = some b) :
        f ≠ b.directory := by
      rw [ha] at hb
      cases hb
      exact left
    rw [s.page f root away, s'.page f (h.alike.root ▸ root) (by rwa [spaces])]
    exact h.alike.page f free (Finset.notMem_empty f)

end Snapshot

open Snapshot

namespace Kernel

variable {α : Type} {w v : Snapshot} {role : Nat → Role} {p f d t table parent child : Nat}
  {r : SpaceRecord}

theorem switch_twins (h : w.Paired v ∅) (live : w.Live p) : Twins (switch p) w v fun a w' v' =>
    a = w.spaces.active ∧ w'.Paired v' ∅ ∧ w'.spaces = { w.spaces with active := p } := by
  obtain ⟨role, placed⟩ := h.placed
  have live' : v.Live p := by rwa [Live, h.alike.spaces]
  by_cases same : p = w.spaces.active
  · subst same
    have right := switch_resident_yields (w := v) (by rwa [h.alike.spaces])
    rw [h.alike.spaces] at right
    exact .of_yields (switch_resident_yields live) right ⟨rfl, h, rfl⟩
  · obtain ⟨w', there, s⟩ := switch_yields placed.lodged.switchable live
    obtain ⟨v', there', s'⟩ := switch_yields h.switchable' live'
    rw [h.alike.spaces] at there'
    exact .of_yields there there' ⟨rfl, ⟨⟨role, placed.lodged.switched live s, placed.rest⟩,
      .none w', s.alike h s' live same⟩, by rw [s.books]⟩

theorem within_twins {body : Kernel Unit} (h : w.Paired v ∅) (live : w.Live p)
    (edits : ∀ v role, v.Placed role → Leads Stops body v fun _ u => v.Edits u)
    (twins : ∀ w v, w.Paired v ∅ → Twins body w v fun _ w' v' => w'.Paired v' ∅) :
    Twins (within p body) w v fun _ w' v' => w'.Paired v' ∅ := by
  obtain ⟨role, placed⟩ := h.placed
  refine .bind ((switch_twins h live).mono ?_)
  rintro _ w₁ v₁ ⟨rfl, h₁, spaces⟩
  obtain ⟨role₁, placed₁⟩ := h₁.placed
  refine .bind (((twins _ _ h₁).along (edits _ _ placed₁)).mono ?_)
  rintro _ w₂ v₂ ⟨edited, h₂⟩
  have back : w₂.Live w.spaces.active := by
    rw [Live, edited.spaces, spaces]
    exact placed.lodged.live_active
  exact .discard ((switch_twins h₂ back).mono fun _ _ _ switched => switched.2.1)

/-! ## Creating and releasing -/

theorem create_twins (h : w.Paired v ∅) : Twins create w v fun _ w' v' => w'.Alike v' ∅ := by
  obtain ⟨role, placed⟩ := h.placed
  refine .bind (acquire_twins h.wired h.alike h.wired' placed.lodged.usable fun f rest first => ?_)
  have alike := h.alike.takeCleared first
  refine .get (fun s t hs ht => ?_) fun s hs => ?_
  · have spaces : t.spaces = s.spaces := by
      change t.snapshot.spaces = s.snapshot.spaces
      rw [hs, ht]
      rfl
    rw [spaces]
  · cases s.spaces.add f with
    | error c => exact .violate c
    | ok r =>
      refine .bind (modify_twins alike.books (fun b => { b with spaces := r.2 }) (fun _ => rfl) ?_)
      exact .step (note_yields _ _) (note_yields _ _) (.pure (alike.book fun _ => id))

theorem setOwners_twins {Q : Unit → Snapshot → Snapshot → Prop} (books : v.toBooks = w.toBooks)
    (n : Nat) (hQ : Q () (w.owning p r n)
      (v.book { w.toBooks with spaces := w.spaces.put p { r with owners := n } })) :
    Twins (setOwners p r n) w v Q :=
  modify_twins books (fun b => { b with spaces := b.spaces.put p { r with owners := n } })
    (fun _ => rfl) hQ

theorem incref_twins (h : w.Paired v ∅) (hr : w.spaces.find? p = some r) :
    Twins (incref p) w v fun _ w' v' => w'.Alike v' ∅ := by
  refine .step (space_yields hr) (space_yields (h.alike.spaces ▸ hr)) ?_
  refine .ite (fun _ => .bind (setOwners_twins h.alike.books _ ?_)) fun _ => .violate _
  exact .pure (h.alike.book fun _ => id)

/-- The frames that the pool has gained are all the difference. -/
def Freed (w v w' v' : Snapshot) : Prop :=
  ∃ b : Books, w' = w.book b ∧ v' = v.book b ∧ ∀ f ∈ w.free, f ∈ b.free

theorem releaseUserTable_twins {w' v' : Snapshot} (h : w.Paired v ∅)
    (hr : w.spaces.find? p = some r) (hd : d < tableEntries) (freed : Freed w v w' v') :
    Twins (releaseUserTable r.directory d) w' v' fun _ w'' v'' => Freed w v w'' v'' := by
  obtain ⟨role, placed⟩ := h.placed
  obtain ⟨b, rfl, rfl, grows⟩ := freed
  have inside := placed.lodged.housed.isFrame p r hr
  have hm := placed.lodged.housed.ne_mount p r hr
  have right := entryOf_yields (h.wired'.book b) (h.alike.size ▸ inside) hm hd
  rw [entry_book, entry, h.page_directory hr, ← entry] at right
  refine .step (entryOf_yields (h.wired.book b) inside hm hd) right (.ite (fun _ => ?_) fun _ =>
    .pure ⟨b, rfl, rfl, grows⟩)
  refine .bind (tableOccupancy_twins (by rfl) _ ?_)
  refine .bind (modify_twins (by rfl) (fun b => { b with occupancy := b.occupancy.forget _ })
    (fun _ => rfl) ?_)
  refine .bind (release_twins (by rfl) _ (.pure ⟨_, rfl, rfl, fun f hf => ?_⟩))
  exact List.mem_cons_of_mem _ (grows f hf)

theorem leave_twins (h : w.Paired v ∅) : Twins (leave p) w v fun _ w' v' => w'.Paired v' ∅ ∧
    ∀ q, w'.spaces.find? q = w.spaces.find? q := by
  obtain ⟨role, placed⟩ := h.placed
  have live := placed.lodged.regular.kernel
  refine .step (active_yields w) (h.alike.spaces ▸ active_yields v) ?_
  refine .ite (fun _ => .bind ?_) fun _ => .pure ⟨h, fun _ => rfl⟩
  refine (switch_twins h live).attempt ?_ fun a w' v' switched => .pure ⟨switched.2.1, fun q => ?_⟩
  · obtain ⟨w', there, -⟩ := switch_yields placed.lodged.switchable live
    exact there.leads trivial
  · rw [switched.2.2]
    rfl

theorem releaseSpace_twins (h : w.Paired v ∅) (hr : w.spaces.find? p = some r) :
    Twins (releaseSpace p r.directory) w v fun _ w' v' => w'.Alike v' ∅ := by
  refine .bind (leave_twins h |>.mono ?_)
  rintro - w₁ v₁ ⟨h₁, find⟩
  have hr₁ := (find p).trans hr
  have start : Freed w₁ v₁ w₁ v₁ := ⟨w₁.toBooks, rfl, by rw [← h₁.alike.books]; rfl, fun _ => id⟩
  refine .bind (.bind ((Twins.sumEach (fun _ => Freed w₁ v₁) start ?_).mono ?_))
  · intro d w' v' hd freed
    rw [Nat.zero_add]
    exact releaseUserTable_twins h₁ hr₁ (by simp only [userSlots, tableEntries] at *; omega) freed
  · rintro dropped w₂ v₂ freed
    have finish : Twins (do
        release r.directory
        modify fun s => { s with spaces := s.spaces.remove p }
        note (.spaceReleased p)) w₂ v₂ fun _ w' v' => w'.Alike v' ∅ := by
      obtain ⟨b, rfl, rfl, grows⟩ := freed
      refine .bind (release_twins (by rfl) _ ?_)
      refine .bind (modify_twins (by rfl) (fun b => { b with spaces := b.spaces.remove p })
        (fun _ => rfl) ?_)
      refine .of_yields (note_yields _ _) (note_yields _ _) (h₁.alike.book fun f hf => ?_)
      exact List.mem_cons_of_mem _ (grows f hf)
    refine .ite (fun _ => ?_) fun _ => .pure finish
    exact .of_yields (note_yields _ _) (note_yields _ _) finish

theorem decref_twins (h : w.Paired v ∅) (p : Nat) :
    Twins (decref p) w v fun _ w' v' => w'.Alike v' ∅ := by
  refine .get (fun s t hs ht => ?_) fun s hs => ?_
  · have spaces : t.spaces = s.spaces := by
      change t.snapshot.spaces = s.snapshot.spaces
      rw [hs, ht, h.alike.spaces]
    rw [spaces]
  · have same : s.spaces = w.spaces := congrArg (fun v : Snapshot => v.spaces) hs
    rw [same]
    cases hr : w.spaces.find? p with
    | none => exact .halt _
    | some r =>
      refine .ite (fun _ => .halt _) fun _ => .bind (setOwners_twins h.alike.books _ ?_)
      have owned : (w.owning p r (r.owners - 1)).Paired (v.book { w.toBooks with
          spaces := w.spaces.put p { r with owners := r.owners - 1 } }) ∅ := by
        obtain ⟨role, placed⟩ := h.placed
        exact ⟨⟨role, placed.lodged.reown hr _, placed.rest⟩, .none _, h.alike.book fun _ => id⟩
      refine .ite (fun _ => .pure owned.alike) fun _ => .ite (fun _ => .halt _) fun _ => ?_
      exact .bind ((releaseSpace_twins owned (find?_owning w p r _)).mono
        fun _ _ _ alike => .pure alike)

theorem destroy_twins (h : w.Paired v ∅) (hr : w.spaces.find? p = some r) :
    Twins (destroy p) w v fun _ w' v' => w'.Alike v' ∅ := by
  refine .step (space_yields hr) (space_yields (h.alike.spaces ▸ hr)) ?_
  have done : Twins (Functor.discard (decref p)) w v fun _ w' v' => w'.Alike v' ∅ :=
    .discard (decref_twins h p)
  exact .ite (fun _ => .step (note_yields _ _) (note_yields _ _) done) fun _ => done

end Kernel
end VirtualMemory
