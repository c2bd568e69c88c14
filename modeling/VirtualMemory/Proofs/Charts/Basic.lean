import VirtualMemory.Proofs.Calls.SelfMap
import VirtualMemory.Proofs.Outline.Pages

/-!
# Charts

A snapshot is charted if every slot of every space leads to a frame of its own, which is neither
free nor one that the kernel keeps for itself, and the records of tables are exact. Nothing is asked
of the frames that pages lead to. What a lookup finds is then a function of places, in which one
written word shows at one point.
-/
namespace VirtualMemory

open Layout

namespace Snapshot

/-- The resident directory, the mount table, and the frames of the spaces' own. -/
def Reserved (w : Snapshot) (f : Nat) : Prop :=
  f = w.root ∨ f = mountTable ∨ ∃ p r, w.spaces.find? p = some r ∧ r.directory = f

/-- The frame is one of memory, and its record is the number of entries present in it. -/
structure Tallied (w : Snapshot) (f : Nat) : Prop where
  inside : Ram.IsFrame w.size f
  count : w.occupancy.get f = (w.page f).presentCount

/-- Slots that map four megabytes directly bind no table, and have no record. -/
structure Charted (w : Snapshot) : Prop extends w.Switchable where
  single : ∀ π ρ, w.Has π → w.Has ρ → (w.slotAt π).isPresent = true →
    (w.slotAt ρ).isPresent = true → (w.slotAt π).frame = (w.slotAt ρ).frame → π = ρ
  apart : ∀ π, w.Has π → (w.slotAt π).isPresent = true →
    ¬ w.Reserved (w.slotAt π).frame ∧ (w.slotAt π).frame ∉ w.free
  table : ∀ π, w.Has π → (w.slotAt π).isPresent = true → (w.slotAt π).isHuge = false →
    w.Tallied (w.slotAt π).frame
  free : ∀ f ∈ w.free, Ram.IsFrame w.size f ∧ ¬ w.Reserved f ∧ f ∉ w.occupancy.counts
  nodup : w.free.Nodup

/-- The places that can be looked at: those there are, and the slot of the mount table. -/
def Shown (w : Snapshot) : Place → Prop
  | .user p d => w.Live p ∧ d < userSlots
  | .kernel d => userSlots ≤ d ∧ d < selfMapSlot

/-- What a lookup finds at entry `t` of a place; nothing where the table is not in memory. -/
def look (w : Snapshot) (π : Place) (t : Nat) : Option (Option Mapping) :=
  if (w.slotAt π).isPresent = true ∧ ¬ Ram.IsFrame w.size (w.slotAt π).frame then none
  else some ((w.leaf? π t).map .ofEntry)

/-- The free frame `g`, with `rest` after it in the pool, is cleared and bound at slot `d`. -/
def opened (w : Snapshot) (g : Nat) (rest : List Nat) (d : Nat) (prot : Protection) : Snapshot :=
  ((w.book { w.toBooks with free := rest }).setPage g Page.zero).bound g d prot

variable {w v : Snapshot} {role : Nat → Role} {O : Finset Nat} {π ρ : Place} {d f g p t u : Nat}
  {e : Entry}

/-- Where every frame has one role, all slots lead to frames of their own. -/
theorem Sound.charted (h : w.Sound role) : w.Charted where
  toSwitchable := h.switchable
  single π ρ hπ hρ present present' same := by
    have first := h.table_slotAt hπ present
    rw [same, h.table_slotAt hρ present'] at first
    exact (Role.table.inj first).symm
  apart π hπ present := by
    have table := h.table_slotAt hπ present
    refine ⟨?_, fun free => ?_⟩
    · rintro (root | mount | ⟨p, r, hr, dir⟩)
      · exact h.table_ne_root table root
      · exact h.table_ne_mount table mount
      · exact h.not_directory (by simp [table]) p r hr dir
    · rw [(h.free _).2 free] at table
      cases table
  table π hπ present _ := by
    have table := h.table_slotAt hπ present
    exact ⟨h.isFrame (by simp [table]), h.count _ π table⟩
  free f hf := by
    have free := (h.free f).2 hf
    refine ⟨h.isFrame (by simp [free]), ?_, h.not_tracked (by simp [free]) (by simp [free])⟩
    rintro (root | mount | ⟨p, r, hr, dir⟩)
    · exact h.idle_ne_root (by rw [free]; trivial) root
    · exact h.idle_ne_mount (by rw [free]; trivial) mount
    · exact h.not_directory (by simp [free]) p r hr dir
  nodup := h.nodup

theorem Settled.charted (h : w.Settled O) : w.Charted := by
  obtain ⟨role, stable⟩ := h.stable
  exact stable.toSound.charted

theorem Charted.tallied (h : w.Charted) (hd : d < mountTableSlot)
    (present : (w.entry w.root d).isPresent = true) (plain : (w.entry w.root d).isHuge = false) :
    w.Tallied (w.entry w.root d).frame := by
  have table := h.table _ (has_here h.active hd)
  rw [slotAt_here] at table
  exact table present plain

/-- A table counts one where there is no other page. -/
theorem Tallied.eq_one_iff (h : w.Tallied f) (ht : t < tableEntries)
    (there : (w.entry f t).isPresent = true) : w.occupancy.get f = 1 ↔
      ∀ j < tableEntries, (w.entry f j).isPresent = true → j = t := by
  have mem (j : Nat) : j ∈ (w.page f).presentEntries ↔
      j < tableEntries ∧ (w.entry f j).isPresent = true := by
    rw [Page.presentEntries, Finset.mem_filter, Finset.mem_range, entry]
  rw [h.count, Page.presentCount_eq_card, Finset.card_eq_one]
  constructor
  · rintro ⟨i, only⟩ j hj some
    have all (k : Nat) (both : k < tableEntries ∧ (w.entry f k).isPresent = true) : k = i :=
      Finset.mem_singleton.1 (only ▸ (mem k).2 both)
    rw [all j ⟨hj, some⟩, all t ⟨ht, there⟩]
  · intro only
    refine ⟨t, Finset.eq_singleton_iff_unique_mem.2 ⟨(mem t).2 ⟨ht, there⟩, fun j hj => ?_⟩⟩
    exact only j ((mem j).1 hj).1 ((mem j).1 hj).2

/-! ## Places that are shown -/

theorem Has.shown (h : w.Has π) : w.Shown π := by
  cases π with
  | user p d => exact h
  | kernel d => exact ⟨h.1, h.2.trans (by decide)⟩

theorem Shown.cases (h : w.Shown π) : w.Has π ∨ π = .kernel mountTableSlot := by
  cases π with
  | user p d => exact .inl h
  | kernel d =>
    obtain ⟨low, high⟩ := h
    by_cases mount : d = mountTableSlot
    · exact .inr (by rw [mount])
    · refine .inl ⟨low, ?_⟩
      simp only [selfMapSlot, mountTableSlot] at *
      omega

theorem shown_seenBy (live : w.Live p) (hd : d < selfMapSlot) : w.Shown (.seenBy p d) := by
  unfold Place.seenBy
  split
  · exact ⟨live, ‹_›⟩
  · exact ⟨by omega, hd⟩

theorem shown_congr (h : v.spaces = w.spaces) (π : Place) : v.Shown π ↔ w.Shown π := by
  cases π
  · unfold Shown Live
    rw [h]
  · rfl

theorem slotAt_setSlot_shown (h : w.Housed) (hd : d < mountTableSlot) (e : Entry)
    (hπ : w.Shown π) :
    (w.setEntry w.root d e).slotAt π = if π = w.here d then e else w.slotAt π := by
  obtain has | rfl := hπ.cases
  · exact slotAt_setSlot h hd e has
  · have other : mountTableSlot ≠ d := hd.ne'
    have away : Place.kernel mountTableSlot ≠ w.here d := by
      unfold here Place.seenBy
      split
      · simp
      · simpa using other
    rw [if_neg away, slotAt, root_setEntry, entry_setEntry _ _ _ (Sound.slot_lt hd) (by decide),
      if_neg (other ·.2), slotAt]

/-! ## Looks -/

theorem look_of_absent (absent : (w.slotAt π).isPresent = false) (t : Nat) :
    w.look π t = some none := by
  rw [look, if_neg (by simp [absent]), leaf?_of_absent absent, Option.map_none]

theorem look_of_inside (inside : Ram.IsFrame w.size (w.slotAt π).frame) (t : Nat) :
    w.look π t = some ((w.leaf? π t).map .ofEntry) :=
  if_neg fun both => both.2 inside

/-- Slots that lead to the same frames, and the same entries in these. -/
theorem look_congr (size : v.size = w.size) (slot : (v.slotAt π).SameTarget (w.slotAt π))
    (leaf : (w.slotAt π).isPresent = true →
      v.entry (w.slotAt π).frame t = w.entry (w.slotAt π).frame t) : v.look π t = w.look π t := by
  cases present : (w.slotAt π).isPresent with
  | false => rw [look_of_absent present, look_of_absent (slot.present.trans present)]
  | true =>
    have present' := slot.present.trans present
    have frame := slot.frame present'
    have leafAt : v.leafAt π t = w.leafAt π t := by
      rw [Snapshot.leafAt, frame]
      exact leaf present
    rw [look, look, leaf?, leaf?, leafAt, size, present, present', frame]

/-- What is beside memory and the register plays no part. -/
theorem look_book {b : Books} (h : b.spaces = w.spaces) (π : Place) (t : Nat) :
    (w.book b).look π t = w.look π t := by
  refine look_congr rfl ?_ fun _ => rfl
  rw [slotAt_book h]
  exact .refl _

/-- What is found tells what there is. -/
theorem of_look_here {m : Option Mapping} (found : w.look (w.here d) t = some m) :
    ((w.entry w.root d).isPresent = true → Ram.IsFrame w.size (w.entry w.root d).frame) ∧
      (w.leaf? (w.here d) t).map .ofEntry = m := by
  unfold look at found
  split at found
  · cases found
  · rename_i inside
    rw [slotAt_here, not_and, not_not] at inside
    exact ⟨inside, Option.some.inj found⟩

/-- The entries of a table that holds nothing. -/
theorem look_of_empty (inside : Ram.IsFrame w.size (w.slotAt π).frame)
    (empty : (w.page (w.slotAt π).frame).presentCount = 0) (ht : t < tableEntries) :
    w.look π t = some none := by
  have absent : (w.leafAt π t).isPresent = false := Page.absent_of_presentCount_zero empty ht
  rw [look_of_inside inside, leaf?, if_neg (by simp [absent]), Option.map_none]

/-! ## A new table -/

theorem occupancy_opened (w : Snapshot) (g : Nat) (rest : List Nat) (d : Nat) (prot : Protection) :
    (w.opened g rest d prot).occupancy = w.occupancy.forget g := by
  set u := (w.book { w.toBooks with free := rest }).setPage g Page.zero with hu
  change w.occupancy.seed g (u.page g).presentCount = _
  rw [hu, page_setPage_self, Page.presentCount_zero, Occupancy.seed, if_pos rfl]

theorem page_opened (g : Nat) (rest : List Nat) (d : Nat) (prot : Protection) (away : f ≠ w.root) :
    (w.opened g rest d prot).page f = if f = g then Page.zero else w.page f := by
  refine (page_setEntry ..).trans ((if_neg away).trans ?_)
  rw [page_book, page_setPage, page_book]

theorem entry_opened (root : g ≠ w.root) (rest : List Nat) (hd : d < tableEntries)
    (prot : Protection) (ht : t < tableEntries) : (w.opened g rest d prot).entry w.root t =
      if t = d then .of g prot.entryFlags else w.entry w.root t := by
  refine (entry_setEntry _ w.root _ hd ht).trans ?_
  simp only [true_and]
  exact if_congr Iff.rfl rfl (entry_setPage_of_ne _ _ _ root.symm t)

namespace Charted

/-! ## Frames that are told apart -/

theorem ne_root (h : w.Charted) (hπ : w.Has π) (present : (w.slotAt π).isPresent = true) :
    (w.slotAt π).frame ≠ w.root := fun eq => (h.apart π hπ present).1 (.inl eq)

theorem ne_mount (h : w.Charted) (hπ : w.Has π) (present : (w.slotAt π).isPresent = true) :
    (w.slotAt π).frame ≠ mountTable := fun eq => (h.apart π hπ present).1 (.inr (.inl eq))

theorem ne_directory (h : w.Charted) (hπ : w.Has π) (present : (w.slotAt π).isPresent = true)
    (p : Nat) (r : SpaceRecord) (hr : w.spaces.find? p = some r) :
    r.directory ≠ (w.slotAt π).frame :=
  fun eq => (h.apart π hπ present).1 (.inr (.inr ⟨p, r, hr, eq⟩))

theorem mount_slotAt (h : w.Charted) : (w.slotAt (.kernel mountTableSlot)).frame = mountTable :=
  h.wired.mount_frame

/-- No directory and no free frame is looked at as a table. -/
theorem apart_shown (h : w.Charted) (hπ : w.Shown π) (present : (w.slotAt π).isPresent = true) :
    (w.slotAt π).frame ≠ w.root ∧
      (∀ p r, w.spaces.find? p = some r → r.directory ≠ (w.slotAt π).frame) ∧
      (w.slotAt π).frame ∉ w.free := by
  obtain has | rfl := hπ.cases
  · exact ⟨h.ne_root has present, h.ne_directory has present, (h.apart π has present).2⟩
  · rw [h.mount_slotAt]
    refine ⟨h.wired.mountTable_ne_root, h.housed.ne_mount, fun free => ?_⟩
    exact (h.free _ free).2.1 (.inr (.inl rfl))

theorem frame_eq_iff (h : w.Charted) (hπ : w.Has π) (present : (w.slotAt π).isPresent = true)
    (hρ : w.Shown ρ) (present' : (w.slotAt ρ).isPresent = true) :
    (w.slotAt ρ).frame = (w.slotAt π).frame ↔ ρ = π := by
  refine ⟨fun same => ?_, fun same => by rw [same]⟩
  obtain has | rfl := hρ.cases
  · exact h.single ρ π has hπ present' present same
  · rw [h.mount_slotAt] at same
    exact absurd same.symm (h.ne_mount hπ present)

/-! ## One place changes -/

/-- One slot is another than before, for a frame of its own or for none, and all other tables and
their records are the same. -/
theorem change {e : Entry} (h : w.Charted) (wired : v.Wired) (root : v.root = w.root)
    (size : v.size = w.size) (spaces : v.spaces = w.spaces)
    (slot : ∀ ρ, w.Has ρ → v.slotAt ρ = if ρ = π then e else w.slotAt ρ)
    (own : e.isPresent = true → ¬ w.Reserved e.frame ∧ e.frame ∉ v.free ∧
      ∀ ρ, w.Has ρ → ρ ≠ π → (w.slotAt ρ).isPresent = true → (w.slotAt ρ).frame ≠ e.frame)
    (table : e.isPresent = true → e.isHuge = false → v.Tallied e.frame)
    (others : ∀ ρ, w.Has ρ → ρ ≠ π → (w.slotAt ρ).isPresent = true →
      (w.slotAt ρ).frame ∉ v.free ∧
        v.occupancy.get (w.slotAt ρ).frame = w.occupancy.get (w.slotAt ρ).frame ∧
        v.page (w.slotAt ρ).frame = w.page (w.slotAt ρ).frame)
    (free : ∀ f ∈ v.free, Ram.IsFrame w.size f ∧ ¬ w.Reserved f ∧ f ∉ v.occupancy.counts)
    (nodup : v.free.Nodup) : v.Charted := by
  have has (ρ : Place) : v.Has ρ ↔ w.Has ρ := has_congr spaces ρ
  have reserved (f : Nat) : v.Reserved f ↔ w.Reserved f := by rw [Reserved, Reserved, root, spaces]
  have active : v.Live v.spaces.active := by
    rw [Live, spaces]
    exact h.active
  have split (ρ : Place) (hρ : v.Has ρ) (present : (v.slotAt ρ).isPresent = true) :
      (ρ = π ∧ v.slotAt ρ = e ∧ e.isPresent = true) ∨
        (ρ ≠ π ∧ v.slotAt ρ = w.slotAt ρ ∧ (w.slotAt ρ).isPresent = true) := by
    have now := slot ρ ((has ρ).1 hρ)
    by_cases here : ρ = π
    · rw [if_pos here] at now
      exact .inl ⟨here, now, now ▸ present⟩
    · rw [if_neg here] at now
      exact .inr ⟨here, now, now ▸ present⟩
  refine ⟨⟨wired, h.housed.congr root size fun p => by rw [spaces], active⟩, ?_, ?_, ?_, ?_, nodup⟩
  · intro ρ σ hρ hσ present present' same
    obtain ⟨here, slotρ, there⟩ | ⟨away, slotρ, there⟩ := split ρ hρ present <;>
      obtain ⟨here', slotσ, there'⟩ | ⟨away', slotσ, there'⟩ := split σ hσ present' <;>
      rw [slotρ, slotσ] at same
    · exact here.trans here'.symm
    · exact absurd same.symm ((own there).2.2 σ ((has σ).1 hσ) away' there')
    · exact absurd same ((own there').2.2 ρ ((has ρ).1 hρ) away there)
    · exact h.single ρ σ ((has ρ).1 hρ) ((has σ).1 hσ) there there' same
  · intro ρ hρ present
    rw [reserved]
    obtain ⟨-, slotρ, there⟩ | ⟨away, slotρ, there⟩ := split ρ hρ present <;> rw [slotρ]
    · exact ⟨(own there).1, (own there).2.1⟩
    · exact ⟨(h.apart ρ ((has ρ).1 hρ) there).1, (others ρ ((has ρ).1 hρ) away there).1⟩
  · intro ρ hρ present plain
    obtain ⟨-, slotρ, there⟩ | ⟨away, slotρ, there⟩ := split ρ hρ present <;> rw [slotρ] at plain ⊢
    · exact table there plain
    · obtain ⟨-, count, page⟩ := others ρ ((has ρ).1 hρ) away there
      have old := h.table ρ ((has ρ).1 hρ) there plain
      exact ⟨size ▸ old.inside, by rw [count, page, old.count]⟩
  · intro f hf
    rw [size, reserved]
    exact free f hf

/-- Share counts may change, and frames leave the pool. -/
theorem rebook (h : w.Charted) {b : Books} (spaces : b.spaces = w.spaces)
    (occupancy : b.occupancy = w.occupancy) (free : b.free.Sublist w.free) :
    (w.book b).Charted := by
  have slots (ρ : Place) : (w.book b).slotAt ρ = w.slotAt ρ := slotAt_book spaces ρ
  have same (π : Place) :
      w.slotAt π = if π = w.here 0 then w.slotAt (w.here 0) else w.slotAt π := by
    split
    · rename_i here
      rw [here]
    · rfl
  have out (f : Nat) (hf : f ∉ w.free) : f ∉ b.free := fun mem => hf (free.subset mem)
  have has := has_here h.active (d := 0) (by decide)
  refine h.change (π := w.here 0) (e := w.slotAt (w.here 0)) (h.wired.book b) rfl rfl spaces
    (fun ρ _ => (slots ρ).trans (same ρ)) (fun present => ?_) (fun present plain => ?_)
    (fun ρ hρ _ there => ?_) (fun f hf => ?_) (h.nodup.sublist free)
  · obtain ⟨unreserved, away⟩ := h.apart _ has present
    exact ⟨unreserved, out _ away, fun ρ hρ other there eq =>
      other (h.single ρ _ hρ has there present eq)⟩
  · have old := h.table _ has present plain
    exact ⟨old.inside, (congrArg (Occupancy.get · _) occupancy).trans old.count⟩
  · exact ⟨out _ (h.apart ρ hρ there).2, congrArg (Occupancy.get · _) occupancy, rfl⟩
  · change _ ∧ _ ∧ f ∉ b.occupancy.counts
    rw [occupancy]
    exact h.free f (free.subset hf)

/-- A slot is rewritten for the table that it leads to. -/
theorem reslot (h : w.Charted) (hd : d < mountTableSlot)
    (before : (w.entry w.root d).isPresent = true) (present : e.isPresent = true)
    (frame : e.frame = (w.entry w.root d).frame)
    (plain : e.isHuge = false → (w.entry w.root d).isHuge = false) :
    (w.setEntry w.root d e).Charted ∧
      ∀ ρ t, w.Shown ρ → (w.setEntry w.root d e).look ρ t = w.look ρ t := by
  have has := has_here h.active hd
  rw [← slotAt_here] at before plain frame
  have page (ρ : Place) (hρ : w.Shown ρ) (there : (w.slotAt ρ).isPresent = true) :
      (w.setEntry w.root d e).page (w.slotAt ρ).frame = w.page (w.slotAt ρ).frame := by
    rw [page_setEntry, if_neg (h.apart_shown hρ there).1]
  refine ⟨h.change (π := w.here d) (e := e) ?_ rfl rfl rfl (fun ρ => slotAt_setSlot h.housed hd e)
    ?_ ?_ ?_ h.free h.nodup, fun ρ t hρ => ?_⟩
  · rw [slotAt_here] at frame
    exact h.wired.reslot (Sound.slot_lt hd) present frame
  · intro _
    rw [frame]
    refine ⟨(h.apart _ has before).1, (h.apart _ has before).2, fun ρ hρ other there same => ?_⟩
    exact other ((h.frame_eq_iff has before hρ.shown there).1 same)
  · intro _ small
    have old := h.table _ has before (plain small)
    rw [frame]
    exact ⟨old.inside, by rw [page _ has.shown before, ← old.count]; rfl⟩
  · exact fun ρ hρ _ there => ⟨(h.apart ρ hρ there).2, rfl, page ρ hρ.shown there⟩
  · refine look_congr rfl ?_ fun there => ?_
    · rw [slotAt_setSlot_shown h.housed hd e hρ]
      split
      · rename_i here
        rw [here]
        exact ⟨present.trans before.symm, fun _ => frame⟩
      · exact .refl _
    · rw [entry, page ρ hρ there, entry]

/-- An entry of a table is written, and the table's record follows. -/
theorem setLeaf (h : w.Charted) (hπ : w.Has π) (present : (w.slotAt π).isPresent = true)
    (inside : Ram.IsFrame w.size (w.slotAt π).frame) (ht : t < tableEntries) (e : Entry)
    {o : Occupancy}
    (count : o.get (w.slotAt π).frame = ((w.page (w.slotAt π).frame).setEntry t e).presentCount)
    (off : ∀ g, g ≠ (w.slotAt π).frame →
      o.get g = w.occupancy.get g ∧ (g ∈ o.counts ↔ g ∈ w.occupancy.counts)) :
    ((w.setEntry (w.slotAt π).frame t e).book { w.toBooks with occupancy := o }).Charted ∧
      ∀ ρ u, w.Shown ρ → u < tableEntries →
        ((w.setEntry (w.slotAt π).frame t e).book { w.toBooks with occupancy := o }).look ρ u =
          if ρ = π ∧ u = t then some (if e.isPresent = true then some (.ofEntry e) else none)
          else w.look ρ u := by
  have root := h.ne_root hπ present
  have slots (ρ : Place) : (w.setEntry (w.slotAt π).frame t e).slotAt ρ = w.slotAt ρ :=
    slotAt_setPage root (h.ne_directory hπ present) _ ρ
  have books (ρ : Place) : ((w.setEntry (w.slotAt π).frame t e).book
      { w.toBooks with occupancy := o }).slotAt ρ = w.slotAt ρ :=
    (slotAt_book (w := w.setEntry (w.slotAt π).frame t e) rfl ρ).trans (slots ρ)
  refine ⟨h.change (π := π) (e := w.slotAt π) ((h.wired.setPage root _).book _) rfl rfl rfl ?_ ?_
    ?_ ?_ (fun f hf => ?_) h.nodup, fun ρ u hρ hu => ?_⟩
  · intro ρ _
    rw [books]
    split
    · subst ρ
      rfl
    · rfl
  · refine fun _ => ⟨(h.apart π hπ present).1, (h.apart π hπ present).2, ?_⟩
    exact fun ρ hρ other there same => other (h.single ρ π hρ hπ there present same)
  · intro _ _
    refine ⟨inside, count.trans ?_⟩
    rw [page_book, page_setEntry, if_pos rfl]
  · intro ρ hρ other there
    have away := mt (h.frame_eq_iff hπ present hρ.shown there).1 other
    refine ⟨(h.apart ρ hρ there).2, (off _ away).1, ?_⟩
    rw [page_book, page_setEntry, if_neg away]
  · obtain ⟨frame, unreserved, unrecorded⟩ := h.free f hf
    refine ⟨frame, unreserved, fun mem => unrecorded ((off f ?_).2.1 mem)⟩
    rintro rfl
    exact (h.apart π hπ present).2 hf
  · rw [look_book (by rfl)]
    by_cases here : ρ = π
    · subst here
      rw [look_of_inside (by rw [slots]; exact inside), leaf?, leafAt, slots,
        entry_setEntry _ _ _ ht hu]
      simp only [present, true_and]
      by_cases same : u = t
      · simp only [same, if_true]
        split <;> rfl
      · rw [if_neg same, if_neg same, look_of_inside inside, leaf?, leafAt]
        simp only [present, true_and]
    · rw [if_neg fun both => here both.1]
      refine look_congr rfl (by rw [slots]; exact .refl _) fun there => ?_
      rw [entry_setEntry _ _ _ ht hu, if_neg]
      exact fun both => here ((h.frame_eq_iff hπ present hρ there).1 both.1)

/-- The first free frame, cleared, is bound at a slot that was empty. -/
theorem newTable (h : w.Charted) (hd : d < mountTableSlot)
    (absent : (w.entry w.root d).isPresent = false) {rest : List Nat}
    (first : w.free = g :: rest) (prot : Protection) :
    (w.opened g rest d prot).Charted ∧ (w.opened g rest d prot).Tallied g ∧
      ∀ ρ t, w.Shown ρ → t < tableEntries → (w.opened g rest d prot).look ρ t = w.look ρ t := by
  have mem : g ∈ w.free := first ▸ List.mem_cons_self
  obtain ⟨inside, unreserved, unrecorded⟩ := h.free g mem
  have root : g ≠ w.root := fun eq => unreserved (.inl eq)
  have dirs (p : Nat) (r : SpaceRecord) (hr : w.spaces.find? p = some r) : r.directory ≠ g :=
    fun eq => unreserved (.inr (.inr ⟨p, r, hr, eq⟩))
  have nodup := h.nodup
  rw [first, List.nodup_cons] at nodup
  rw [← slotAt_here] at absent
  set u := (w.book { w.toBooks with free := rest }).setPage g Page.zero
  set v := w.opened g rest d prot
  have frame : (Entry.of g prot.entryFlags).frame = g :=
    h.wired.frame_of inside prot.low_entryFlags
  have occupancy : v.occupancy = w.occupancy.forget g := occupancy_opened ..
  have wired : u.Wired :=
    (h.wired.book { w.toBooks with free := rest }).setPage root Page.zero
  have slots (ρ : Place) (hρ : w.Shown ρ) :
      v.slotAt ρ = if ρ = w.here d then .of g prot.entryFlags else w.slotAt ρ := by
    let b : Books := { u.toBooks with occupancy := u.occupancy.seed g (u.page g).presentCount }
    have housed : (u.book b).Housed := h.housed.congr rfl rfl fun _ => rfl
    refine (slotAt_setSlot_shown housed hd (.of g prot.entryFlags) (π := ρ)
      ((shown_congr (by rfl) ρ).2 hρ)).trans (if_congr Iff.rfl rfl ?_)
    refine (slotAt_book (w := u) rfl ρ).trans ((slotAt_setPage root dirs _ ρ).trans ?_)
    exact slotAt_book rfl ρ
  have pages (f : Nat) (away : f ≠ w.root) := page_opened g rest d prot away
  have others (ρ : Place) (hρ : w.Shown ρ) (there : (w.slotAt ρ).isPresent = true) :
      (w.slotAt ρ).frame ≠ g := by
    rintro rfl
    exact (h.apart_shown hρ there).2.2 mem
  have tallied : v.Tallied g := by
    refine ⟨inside, ?_⟩
    rw [occupancy, pages g root, if_pos rfl, Occupancy.get_forget, if_pos rfl,
      Page.presentCount_zero]
  refine ⟨h.change (π := w.here d) (e := .of g prot.entryFlags) ?_ rfl rfl rfl
    (fun ρ hρ => slots ρ hρ.shown) ?_ (fun _ _ => frame.symm ▸ tallied) ?_ (fun f hf => ?_) nodup.2,
    tallied, fun ρ t hρ ht => ?_⟩
  · exact (wired.book _).setSlot hd _
  · intro _
    rw [frame]
    exact ⟨unreserved, nodup.1, fun ρ hρ _ there => others ρ hρ.shown there⟩
  · intro ρ hρ _ there
    have away := others ρ hρ.shown there
    refine ⟨fun mem' => (h.apart ρ hρ there).2 (first ▸ List.mem_cons_of_mem g mem'), ?_, ?_⟩
    · rw [occupancy, Occupancy.get_forget, if_neg (Ne.symm away)]
    · rw [pages _ (h.ne_root hρ there), if_neg away]
  · obtain ⟨frame', unreserved', unrecorded'⟩ := h.free f (first ▸ List.mem_cons_of_mem g hf)
    refine ⟨frame', unreserved', fun mem' => unrecorded' ?_⟩
    rw [occupancy] at mem'
    exact (Occupancy.mem_forget.1 mem').2
  · by_cases here : ρ = w.here d
    · subst here
      have slot := (slots _ hρ).trans (if_pos rfl)
      rw [look_of_absent absent]
      refine look_of_empty ?_ ?_ ht
      · rw [slot, frame]
        exact inside
      · rw [slot, frame, pages g root, if_pos rfl, Page.presentCount_zero]
    · have slot := (slots ρ hρ).trans (if_neg here)
      refine look_congr rfl (slot ▸ .refl _) fun there => ?_
      rw [entry, pages _ (h.apart_shown hρ there).1, if_neg (others ρ hρ there), entry]

/-- A table that holds nothing goes back to the pool. -/
theorem unbind (h : w.Charted) (hd : d < mountTableSlot)
    (present : (w.entry w.root d).isPresent = true)
    (inside : Ram.IsFrame w.size (w.entry w.root d).frame)
    (empty : (w.page (w.entry w.root d).frame).presentCount = 0) :
    (w.unbound d).Charted ∧
      ∀ ρ t, w.Shown ρ → t < tableEntries → (w.unbound d).look ρ t = w.look ρ t := by
  have has := has_here h.active hd
  rw [← slotAt_here] at present inside empty
  obtain ⟨unreserved, out⟩ := h.apart _ has present
  have slots (ρ : Place) (hρ : w.Shown ρ) :
      (w.unbound d).slotAt ρ = if ρ = w.here d then .empty else w.slotAt ρ :=
    (slotAt_book (w := w.setEntry w.root d .empty) rfl ρ).trans
      (slotAt_setSlot_shown h.housed hd .empty hρ)
  have free : (w.unbound d).free = (w.slotAt (w.here d)).frame :: w.free := by
    rw [slotAt_here]
    rfl
  have occupancy : (w.unbound d).occupancy =
      w.occupancy.forget (w.slotAt (w.here d)).frame := by
    rw [slotAt_here]
    rfl
  have page (f : Nat) (away : f ≠ w.root) : (w.unbound d).page f = w.page f :=
    (page_setEntry ..).trans (if_neg away)
  refine ⟨h.change (π := w.here d) (e := .empty) ((h.wired.setSlot hd _).book _) rfl rfl rfl
    (fun ρ hρ => slots ρ hρ.shown) nofun nofun ?_ ?_ ?_, fun ρ t hρ ht => ?_⟩
  · intro ρ hρ other there
    have away := mt (h.frame_eq_iff has present hρ.shown there).1 other
    rw [free, occupancy, page _ (h.ne_root hρ there), Occupancy.get_forget, if_neg (Ne.symm away),
      List.mem_cons]
    exact ⟨not_or.2 ⟨away, (h.apart ρ hρ there).2⟩, rfl, rfl⟩
  · intro f hf
    rw [free, List.mem_cons] at hf
    rw [occupancy, Occupancy.mem_forget]
    obtain rfl | old := hf
    · exact ⟨inside, unreserved, fun both => both.1 rfl⟩
    · obtain ⟨frame, unreserved', unrecorded⟩ := h.free f old
      exact ⟨frame, unreserved', fun both => unrecorded both.2⟩
  · rw [free]
    exact List.nodup_cons.2 ⟨out, h.nodup⟩
  · by_cases here : ρ = w.here d
    · subst here
      rw [look_of_empty inside empty ht]
      refine look_of_absent ?_ t
      rw [slots _ hρ, if_pos rfl, Entry.isPresent_empty]
    · refine look_congr rfl ?_ fun there => ?_
      · rw [slots ρ hρ, if_neg here]
        exact .refl _
      · rw [entry, page _ (h.apart_shown hρ there).1, entry]

end Charted
end Snapshot
end VirtualMemory
