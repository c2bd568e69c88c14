import VirtualMemory.Proofs.Operations.Switch
import VirtualMemory.Proofs.Ownership.Release

/-!
# Outlines

Which table is bound where is written in the directories alone. Two snapshots have one outline if
pool and register agree and every slot leads to the same frame, whatever all other frames hold. A
snapshot is lodged if one with its outline is sound. That survives pages of frames that no caller
was handed, and tables whose entries are shared or replaced behind the back of their records.
-/
namespace VirtualMemory

open Layout

/-- Both entries lead to the same frame, with whatever rights, or neither leads anywhere. -/
structure Entry.SameTarget (e e' : Entry) : Prop where
  present : e.isPresent = e'.isPresent
  frame : e.isPresent = true → e.frame = e'.frame

namespace Entry.SameTarget

theorem refl (e : Entry) : e.SameTarget e := ⟨rfl, fun _ => rfl⟩

theorem trans {a b c : Entry} (h : a.SameTarget b) (h' : b.SameTarget c) : a.SameTarget c :=
  ⟨h.present.trans h'.present, fun some => (h.frame some).trans (h'.frame (h.present ▸ some))⟩

theorem symm {a b : Entry} (h : a.SameTarget b) : b.SameTarget a :=
  ⟨h.present.symm, fun some => (h.frame (h.present ▸ some)).symm⟩

theorem of_absent {a b : Entry} (ha : a.isPresent = false) (hb : b.isPresent = false) :
    a.SameTarget b := ⟨ha.trans hb.symm, fun some => by simp [ha] at some⟩

end Entry.SameTarget

namespace Snapshot

structure Outlines (w v : Snapshot) : Prop where
  root : v.root = w.root
  size : v.size = w.size
  free : v.free = w.free
  spaces : v.spaces = w.spaces
  slot : ∀ π, w.Has π → (v.slotAt π).SameTarget (w.slotAt π)
  window : ∀ d, mountTableSlot ≤ d → d < tableEntries →
    (v.entry w.root d).SameTarget (w.entry w.root d)

/-- The frames have these roles, as far as the slots and the books tell. -/
def Lodged (w : Snapshot) (role : Nat → Role) : Prop := ∃ v, v.Sound role ∧ w.Outlines v

/-- Between two operations no frame is on its way. -/
structure Placed (w : Snapshot) (role : Nat → Role) : Prop where
  lodged : w.Lodged role
  rest : ∀ f, role f ≠ .spare

variable {w v u : Snapshot} {role : Nat → Role} {f d p n : Nat} {π : Place} {e : Entry} {g : Page}
  {r : SpaceRecord}

theorem Outlines.refl (w : Snapshot) : w.Outlines w :=
  ⟨rfl, rfl, rfl, rfl, fun _ _ => .refl _, fun _ _ _ => .refl _⟩

/-- The left side may change where all its slots go on leading to the same frames. -/
theorem Outlines.congr (o : w.Outlines v) (root : u.root = w.root) (size : u.size = w.size)
    (free : u.free = w.free) (spaces : u.spaces = w.spaces)
    (slot : ∀ π, w.Has π → (w.slotAt π).SameTarget (u.slotAt π))
    (window : ∀ d, mountTableSlot ≤ d → d < tableEntries →
      (w.entry w.root d).SameTarget (u.entry w.root d)) : u.Outlines v where
  root := o.root.trans root.symm
  size := o.size.trans size.symm
  free := o.free.trans free.symm
  spaces := o.spaces.trans spaces.symm
  slot π hπ := by
    have hπ' := (has_congr spaces π).1 hπ
    exact (o.slot π hπ').trans (slot π hπ')
  window d low hd := by
    rw [root]
    exact (o.window d low hd).trans (window d low hd)

theorem Sound.lodged (h : w.Sound role) : w.Lodged role := ⟨w, h, .refl w⟩

theorem Settled.placed {O : Finset Nat} (h : w.Settled O) : ∃ role, w.Placed role := by
  obtain ⟨role, stable⟩ := h.stable
  exact ⟨role, stable.lodged, stable.at_rest⟩

namespace Lodged

section
variable (h : w.Lodged role)
include h

theorem wired : w.Wired := by
  obtain ⟨v, sound, o⟩ := h
  have hw := sound.wired
  have self := o.window selfMapSlot (by decide) (by decide)
  have mount := o.window mountTableSlot (by decide) (by decide)
  rw [← o.root] at self mount
  exact
    { root := o.root.symm.trans hw.root
      room := o.size ▸ hw.room
      addressable := o.size ▸ hw.addressable
      self_present := by rw [← o.root, ← self.present]; exact hw.self_present
      self_frame := by rw [← o.root, ← self.frame hw.self_present]; exact hw.self_frame
      mount_present := by rw [← o.root, ← mount.present]; exact hw.mount_present
      mount_frame := by rw [← o.root, ← mount.frame hw.mount_present]; exact hw.mount_frame }

theorem regular : w.spaces.Regular := by
  obtain ⟨v, sound, o⟩ := h
  exact o.spaces ▸ sound.regular

theorem live_active : w.Live w.spaces.active := h.regular.active

theorem resident (f : Nat) : role f = .resident ↔ f = w.root := by
  obtain ⟨v, sound, o⟩ := h
  rw [sound.resident, o.root]

theorem window (f : Nat) : role f = .window ↔ f = mountTable := by
  obtain ⟨v, sound, -⟩ := h
  exact sound.window f

theorem free (f : Nat) : role f = .free ↔ f ∈ w.free := by
  obtain ⟨v, sound, o⟩ := h
  rw [sound.free, o.free]

theorem nodup : w.free.Nodup := by
  obtain ⟨v, sound, o⟩ := h
  exact o.free ▸ sound.nodup

theorem directory (f p : Nat) : role f = .directory p ↔
    ∃ r, w.spaces.find? p = some r ∧ r.directory = f := by
  obtain ⟨v, sound, o⟩ := h
  rw [sound.directory, o.spaces]

theorem isFrame (hf : role f ≠ .outside) : Ram.IsFrame w.size f := by
  obtain ⟨v, sound, o⟩ := h
  exact o.size ▸ sound.isFrame hf

theorem table_slotAt (hπ : w.Has π) (present : (w.slotAt π).isPresent = true) :
    role (w.slotAt π).frame = .table π := by
  obtain ⟨v, sound, o⟩ := h
  have same := o.slot π hπ
  rw [← same.present] at present
  rw [← same.frame present]
  exact sound.table_slotAt ((has_congr o.spaces π).2 hπ) present

theorem table_here (hd : d < mountTableSlot) (present : (w.entry w.root d).isPresent = true) :
    role (w.entry w.root d).frame = .table (w.here d) := by
  rw [← slotAt_here] at present ⊢
  exact h.table_slotAt (has_here h.live_active hd) present

theorem housed : w.Housed := by
  obtain ⟨v, sound, o⟩ := h
  exact sound.housed.congr o.root.symm o.size.symm fun p => by rw [o.spaces]

theorem switchable : w.Switchable := ⟨h.wired, h.housed, h.live_active⟩

theorem ne_root (hf : role f ≠ .resident) : f ≠ w.root := fun eq => hf ((h.resident f).2 eq)

theorem ne_mount (hf : role f ≠ .window) : f ≠ mountTable := fun eq => hf ((h.window f).2 eq)

theorem not_directory (hf : ∀ p, role f ≠ .directory p) (p : Nat) (r : SpaceRecord)
    (hr : w.spaces.find? p = some r) : r.directory ≠ f := by
  rintro rfl
  exact hf p ((h.directory _ p).2 ⟨r, hr, rfl⟩)

/-- Frames that the kernel may clear, or bind as tables. -/
theorem usable (f : Nat) (hf : f ∈ w.free) :
    Ram.IsFrame w.size f ∧ f ≠ mountTable ∧ f ≠ w.root := by
  have free := (h.free f).2 hf
  exact ⟨h.isFrame (by simp [free]), h.ne_mount (by simp [free]), h.ne_root (by simp [free])⟩

/-! ## Changes that no outline shows -/

/-- What holds no slot may hold anything. -/
theorem setPage (hr : role f ≠ .resident) (hf : ∀ p, role f ≠ .directory p) (g : Page) :
    (w.setPage f g).Lodged role := by
  have root := h.ne_root hr
  have away := h.not_directory hf
  obtain ⟨v, sound, o⟩ := h
  refine ⟨v, sound, o.congr rfl rfl rfl rfl (fun π _ => ?_) fun d _ _ => ?_⟩
  · rw [slotAt_setPage root away]
    exact .refl _
  · rw [entry_setPage_of_ne _ _ _ root.symm]
    exact .refl _

/-- Any entry may be rewritten for the frame that it leads to, be it a slot or none. -/
theorem retarget {i : Nat} (hi : i < tableEntries) (same : e.SameTarget (w.entry f i)) :
    (w.setEntry f i e).Lodged role := by
  obtain ⟨v, sound, o⟩ := h
  have entry (k : Nat) {j : Nat} (hj : j < tableEntries) :
      (w.entry k j).SameTarget ((w.setEntry f i e).entry k j) := by
    rw [entry_setEntry _ _ _ hi hj]
    split
    · rename_i here
      rw [here.1, here.2]
      exact same.symm
    · exact .refl _
  refine ⟨v, sound, o.congr rfl rfl rfl rfl (fun π hπ => ?_) fun d _ hd => entry _ hd⟩
  cases π with
  | user p d =>
    have := hπ.2
    exact entry (w.home p) (by simp only [userSlots, tableEntries] at *; omega)
  | kernel d => exact entry w.root (Sound.slot_lt hπ.2)

theorem rebook {b : Books} (free : b.free = w.free) (spaces : b.spaces = w.spaces) :
    (w.book b).Lodged role := by
  obtain ⟨v, sound, o⟩ := h
  refine ⟨v, sound, o.congr rfl rfl free spaces (fun π _ => ?_) fun _ _ _ => .refl _⟩
  rw [slotAt_book spaces]
  exact .refl _

/-! ## Frames that change hands -/

theorem take {rest : List Nat} (first : w.free = f :: rest) :
    (w.book { w.toBooks with free := rest }).Lodged (Function.update role f .spare) := by
  obtain ⟨v, sound, o⟩ := h
  exact ⟨_, sound.take (o.free.trans first), o.root, o.size, rfl, o.spaces, o.slot, o.window⟩

theorem putBack (hf : role f = .spare) :
    (w.book { w.toBooks with free := f :: w.free }).Lodged (Function.update role f .free) := by
  obtain ⟨v, sound, o⟩ := h
  have forgotten := sound.recount hf (o := v.occupancy.forget f)
    (fun g hg => by rw [Occupancy.get_forget, if_neg hg.symm])
    (fun g hg => Occupancy.mem_forget.trans (and_iff_right hg.symm))
  exact ⟨_, forgotten.putBack hf fun mem => (Occupancy.mem_forget.1 mem).1 rfl,
    o.root, o.size, congrArg (f :: ·) o.free, o.spaces, o.slot, o.window⟩

end

/-- One slot of the resident directory is written in both snapshots. -/
theorem outlines_setSlot (hv : v.Housed) (hw : w.Housed) (o : w.Outlines v)
    (hd : d < mountTableSlot) (e : Entry) :
    (w.setEntry w.root d e).Outlines (v.setEntry v.root d e) where
  root := o.root
  size := o.size
  free := o.free
  spaces := o.spaces
  slot π hπ := by
    rw [slotAt_setSlot hv hd e ((has_congr o.spaces π).2 hπ), slotAt_setSlot hw hd e hπ,
      here_congr o.spaces]
    split
    · exact .refl _
    · exact o.slot π hπ
  window i low hi := by
    have other : i ≠ d := by omega
    have hd' := Sound.slot_lt hd
    rw [root_setEntry, o.root, entry_setEntry _ _ _ hd' hi, entry_setEntry _ _ _ hd' hi,
      if_neg (other ·.2), if_neg (other ·.2)]
    exact o.window i low hi

theorem unbind (h : w.Lodged role) (hd : d < mountTableSlot)
    (before : (w.entry w.root d).isPresent = true) :
    (w.setEntry w.root d .empty).Lodged
      (Function.update role (w.entry w.root d).frame .spare) := by
  have housed := h.housed
  have has := has_here h.live_active hd
  obtain ⟨v, sound, o⟩ := h
  have same := o.slot _ has
  have here : v.here d = w.here d := here_congr o.spaces d
  rw [← here, slotAt_here, here, slotAt_here] at same
  rw [← same.present] at before
  rw [← same.frame before]
  exact ⟨_, sound.unbind hd before, outlines_setSlot sound.housed housed o hd .empty⟩

/-- A spare frame, cleared and without a record, has the same role. -/
theorem spare_blank (sound : v.Sound role) (hf : role f = .spare) :
    ((v.setPage f Page.zero).book
      { v.toBooks with occupancy := v.occupancy.forget f }).Sound role :=
  (sound.setPage (f := f) (by rw [hf]; trivial) Page.zero).recount hf
    (fun g hg => by rw [Occupancy.get_forget, if_neg hg.symm]; rfl)
    (fun g hg => Occupancy.mem_forget.trans (and_iff_right hg.symm))

theorem outlines_blank (o : w.Outlines v) (sound : v.Sound role) (hf : role f = .spare) :
    w.Outlines ((v.setPage f Page.zero).book
      { v.toBooks with occupancy := v.occupancy.forget f }) where
  root := o.root
  size := o.size
  free := o.free
  spaces := o.spaces
  slot π hπ := by
    have idle : (role f).Idle := by rw [hf]; trivial
    have same : ((v.setPage f Page.zero).book
        { v.toBooks with occupancy := v.occupancy.forget f }).slotAt π = v.slotAt π :=
      (slotAt_book rfl π).trans
        (slotAt_setPage (sound.idle_ne_root idle) (sound.idle_ne_directory idle) Page.zero π)
    rw [same]
    exact o.slot π hπ
  window d low hd := by
    have idle : (role f).Idle := by rw [hf]; trivial
    rw [entry_book, entry_setPage_of_ne _ _ _ (o.root ▸ (sound.idle_ne_root idle).symm)]
    exact o.window d low hd

/-- A spare frame is bound at an empty slot. -/
theorem bindEmpty (h : w.Lodged role) (hd : d < mountTableSlot)
    (absent : (w.entry w.root d).isPresent = false) (hf : role f = .spare)
    (present : e.isPresent = true) (frame : e.frame = f) :
    (w.setEntry w.root d e).Lodged (Function.update role f (.table (w.here d))) := by
  have housed := h.housed
  have has := has_here h.live_active hd
  obtain ⟨v, sound, o⟩ := h
  have blank := spare_blank sound hf
  have o' := outlines_blank o sound hf
  have here := here_congr o'.spaces d
  have before := (o'.slot _ has).present
  rw [← here, slotAt_here, here, slotAt_here, absent] at before
  refine ⟨_, ?_, outlines_setSlot blank.housed housed o' hd e⟩
  rw [← here]
  exact blank.bind hd before hf (page_setPage_self ..)
    (fun mem => (Occupancy.mem_forget.1 mem).1 rfl) present frame

/-- Nobody comes back for a spare frame. -/
theorem abandon (h : w.Lodged role) (hf : role f = .spare) :
    w.Lodged (Function.update role f .owned) := by
  obtain ⟨v, sound, o⟩ := h
  exact ⟨_, (spare_blank sound hf).give hf fun mem => (Occupancy.mem_forget.1 mem).1 rfl,
    outlines_blank o sound hf⟩

/-- A spare frame is bound at any slot. A table that was bound there is left behind. -/
theorem bindOver (h : w.Lodged role) (hd : d < mountTableSlot) (hf : role f = .spare)
    (others : ∀ g, g ≠ f → role g ≠ .spare) (present : e.isPresent = true) (frame : e.frame = f) :
    ∃ role', (w.setEntry w.root d e).Placed role' := by
  cases slot : (w.entry w.root d).isPresent with
  | false =>
    refine ⟨_, h.bindEmpty hd slot hf present frame, fun g => ?_⟩
    rw [Function.update_apply]
    split
    · simp
    · exact others g ‹_›
  | true =>
    have table := h.table_here hd slot
    have apart : f ≠ (w.entry w.root d).frame := fun same => by simp [same, table] at hf
    have loose := (h.unbind hd slot).abandon (Function.update_self ..)
    rw [Function.update_idem] at loose
    have hd' := Sound.slot_lt hd
    have absent : ((w.setEntry w.root d .empty).entry w.root d).isPresent = false := by
      rw [entry_setEntry _ _ _ hd' hd', if_pos ⟨rfl, rfl⟩, Entry.isPresent_empty]
    have spare : Function.update role (w.entry w.root d).frame .owned f = .spare :=
      (Function.update_of_ne apart ..).trans hf
    have bound := loose.bindEmpty hd absent spare present frame
    rw [root_setEntry, setEntry_setEntry _ _ hd'] at bound
    refine ⟨_, bound, fun g => ?_⟩
    rw [Function.update_apply]
    split
    · simp
    · rw [Function.update_apply]
      split
      · simp
      · exact others g ‹_›

/-! ## Spaces -/

theorem reown (h : w.Lodged role) (hr : w.spaces.find? p = some r) (n : Nat) :
    (w.owning p r n).Lodged role := by
  obtain ⟨v, sound, o⟩ := h
  have hr' : v.spaces.find? p = some r := by rw [o.spaces]; exact hr
  refine ⟨_, sound.reown hr' n, o.root, o.size, o.free, ?_, fun π hπ => ?_, o.window⟩
  · exact congrArg (fun s : Spaces => s.put p { r with owners := n }) o.spaces
  · rw [slotAt_owning hr, slotAt_owning hr']
    exact o.slot π ((has_owning hr n π).1 hπ)

/-- A space with an empty user half moves in. -/
theorem house (h : w.Lodged role) (hf : role f = .spare) (zero : w.page f = Page.zero) :
    (w.housing f).Lodged (Function.update role f (.directory w.spaces.nextId)) := by
  have fresh (q : Nat) (live : w.Live q) : w.spaces.nextId ≠ q := by
    obtain ⟨s, hs⟩ := Option.isSome_iff_exists.1 live
    exact (h.regular.fresh q s hs).ne'
  have active := h.live_active
  obtain ⟨v, sound, o⟩ := h
  have blank := spare_blank sound hf
  have o' := outlines_blank o sound hf
  have housed := blank.house hf (page_setPage_self ..)
    fun mem => (Occupancy.mem_forget.1 mem).1 rfl
  have next : v.spaces.nextId = w.spaces.nextId := by rw [o.spaces]
  rw [← next]
  refine ⟨_, housed, o.root, o.size, o.free, ?_, fun π hπ => ?_, o'.window⟩
  · change ({ v.spaces.put v.spaces.nextId ⟨f, 1⟩ with nextId := v.spaces.nextId + 1 } : Spaces) = _
    rw [o.spaces]
    rfl
  · obtain old | ⟨d, rfl⟩ := Sound.has_of_housing hπ
    · have same : (w.housing f).slotAt π = w.slotAt π := by
        refine slotAt_register rfl ?_
        rintro q d rfl
        have find := Sound.find?_housing w f q
        rw [if_neg (fresh q old.1)] at find
        exact congrArg _ find
      rw [same, blank.slotAt_housing ((has_congr o'.spaces π).2 old)]
      exact o'.slot π old
    · refine .of_absent ?_ ?_
      · rw [← next]
        exact blank.slotAt_housing_new (page_setPage_self ..) d
      · have find := Sound.find?_housing w f w.spaces.nextId
        rw [if_pos rfl] at find
        rw [slotAt, home_of_ne (w := w.housing f) (fresh _ active) find]
        change ((w.page f).entry d).isPresent = false
        rw [zero, Page.entry_zero, Entry.isPresent_empty]

/-- No page is elsewhere after a switch. -/
theorem leaf?_switched (h : w.Lodged role) (s : w.Switched u p) (hπ : w.Has π) (t : Nat) :
    u.leaf? π t = w.leaf? π t := by
  unfold leaf? leafAt
  rw [s.slotAt π hπ]
  by_cases present : (w.slotAt π).isPresent = true
  · have table := h.table_slotAt hπ present
    have away := h.not_directory (f := (w.slotAt π).frame) (by simp [table])
    have page := s.page _ (h.ne_root (by simp [table])) fun r hr eq => away _ r hr eq.symm
    rw [entry, page, ← entry]
  · simp [present]

/-- A switch moves no frame to another role. -/
theorem switched (h : w.Lodged role) (live : w.Live p) (s : w.Switched u p) : u.Lodged role := by
  obtain ⟨v, sound, o⟩ := h
  have live' : v.Live p := by rw [Live, o.spaces]; exact live
  obtain ⟨x, -, s'⟩ := Kernel.switch_yields sound.switchable live'
  refine ⟨x, sound.switched live' s', ?_, ?_, ?_, ?_, fun π hπ => ?_, fun d low hd => ?_⟩
  · rw [s.root, s'.root, o.root]
  · rw [s.size, s'.size, o.size]
  · rw [s.books, s'.books]
    exact o.free
  · rw [s.books, s'.books, o.spaces]
  · have hπ' := (s.has π).1 hπ
    rw [s.slotAt π hπ', s'.slotAt π ((has_congr o.spaces π).2 hπ')]
    exact o.slot π hπ'
  · have high : userSlots ≤ d := low.trans' (by decide)
    rw [s.root, s'.kernel _ d high hd, s.kernel _ d high hd]
    exact o.window d low hd

end Lodged
end Snapshot
end VirtualMemory
