import VirtualMemory.Proofs.Wiring

/-!
# Places of tables

A table is bound at a user slot of one live space, or at a kernel slot that every space shares.
The user half of the active space is in the resident directory, that of any other in a frame of
its own. `slotAt` reads a place wherever it is now, and `leaf?` the page at one entry of the table
bound there.
-/
namespace VirtualMemory

open Layout

inductive Place where
  | user (space slot : Nat)
  | kernel (slot : Nat)
  deriving DecidableEq, Repr

/-- The place that slot `d` of the directory is while space `p` is resident. -/
def Place.seenBy (p d : Nat) : Place := if d < userSlots then .user p d else .kernel d

namespace Snapshot

variable (w : Snapshot)

def Live (p : Nat) : Prop := (w.spaces.find? p).isSome = true

instance (p : Nat) : Decidable (w.Live p) := inferInstanceAs (Decidable (_ = _))

/-- The frame that holds the user half of space `p` at this moment. -/
def home (p : Nat) : Nat :=
  if p = w.spaces.active then w.root
  else ((w.spaces.find? p).map SpaceRecord.directory).getD w.root

def slotAt : Place → Entry
  | .user p d => w.entry (w.home p) d
  | .kernel d => w.entry w.root d

/-- The places there are. -/
def Has : Place → Prop
  | .user p d => w.Live p ∧ d < userSlots
  | .kernel d => userSlots ≤ d ∧ d < mountTableSlot

/-- The place that slot `d` of the resident directory is. -/
def here (d : Nat) : Place := .seenBy w.spaces.active d

/-- Entry `t` of the table bound at a place. -/
def leafAt (π : Place) (t : Nat) : Entry := w.entry (w.slotAt π).frame t

/-- The page at entry `t` of a place, if it is present at both levels. -/
def leaf? (π : Place) (t : Nat) : Option Entry :=
  if (w.slotAt π).isPresent = true ∧ (w.leafAt π t).isPresent = true then some (w.leafAt π t)
  else none

/-- The spaces' own frames are frames, are not in use otherwise, and differ from each other. -/
structure Housed : Prop where
  isFrame : ∀ p r, w.spaces.find? p = some r → Ram.IsFrame w.size r.directory
  ne_root : ∀ p r, w.spaces.find? p = some r → r.directory ≠ w.root
  ne_mount : ∀ p r, w.spaces.find? p = some r → r.directory ≠ mountTable
  apart : ∀ p q r s, w.spaces.find? p = some r → w.spaces.find? q = some s →
    r.directory = s.directory → p = q

variable {w}

theorem Housed.congr {v : Snapshot} (h : w.Housed) (root : v.root = w.root)
    (size : v.size = w.size) (find : ∀ p, v.spaces.find? p = w.spaces.find? p) : v.Housed where
  isFrame p r hr := size ▸ h.isFrame p r (find p ▸ hr)
  ne_root p r hr := root ▸ h.ne_root p r (find p ▸ hr)
  ne_mount p r hr := h.ne_mount p r (find p ▸ hr)
  apart p q r s hr hs := h.apart p q r s (find p ▸ hr) (find q ▸ hs)

theorem leaf?_eq_some {π : Place} {t : Nat} {e : Entry} :
    w.leaf? π t = some e ↔
      (w.slotAt π).isPresent = true ∧ e.isPresent = true ∧ w.leafAt π t = e := by
  unfold leaf?
  split
  · rename_i h
    constructor
    · rintro ⟨⟩
      exact ⟨h.1, h.2, rfl⟩
    · rintro ⟨-, -, rfl⟩
      rfl
  · rename_i h
    simp only [reduceCtorEq, false_iff, not_and]
    rintro a b rfl
    exact h ⟨a, b⟩

theorem leaf?_of_absent {π : Place} (h : (w.slotAt π).isPresent = false) (t : Nat) :
    w.leaf? π t = none := by
  rw [leaf?, if_neg (by simp [h])]

/-- A place is read through the active space and the frame of its own space, and through no other
record. -/
theorem slotAt_register {b : Books} {π : Place} (active : b.spaces.active = w.spaces.active)
    (same : ∀ p d, π = .user p d → (b.spaces.find? p).map SpaceRecord.directory =
      (w.spaces.find? p).map SpaceRecord.directory) : (w.book b).slotAt π = w.slotAt π := by
  cases π with
  | user p d => simp only [slotAt, home, toBooks_book, root_book, entry_book, active, same p d rfl]
  | kernel d => rfl

theorem leaf?_of_slotAt {b : Books} {π : Place} (h : (w.book b).slotAt π = w.slotAt π) (t : Nat) :
    (w.book b).leaf? π t = w.leaf? π t := by
  unfold leaf? leafAt
  rw [h]
  rfl

theorem slotAt_book {b : Books} (h : b.spaces = w.spaces) (π : Place) :
    (w.book b).slotAt π = w.slotAt π :=
  slotAt_register (by rw [h]) fun p d _ => by rw [h]

/-- Which pages are seen depends on memory and on the register alone. -/
theorem leaf?_book {b : Books} (h : b.spaces = w.spaces) (π : Place) (t : Nat) :
    (w.book b).leaf? π t = w.leaf? π t := leaf?_of_slotAt (slotAt_book h π) t

theorem home_active : w.home w.spaces.active = w.root := if_pos rfl

theorem home_of_ne {p : Nat} {r : SpaceRecord} (hp : p ≠ w.spaces.active)
    (hr : w.spaces.find? p = some r) : w.home p = r.directory := by
  rw [home, if_neg hp, hr]
  rfl

/-- A space is at home in the resident directory or in its own frame. -/
theorem home_cases (w : Snapshot) (p : Nat) :
    w.home p = w.root ∨ ∃ r, w.spaces.find? p = some r ∧ w.home p = r.directory := by
  unfold home
  split
  · exact .inl rfl
  · cases h : w.spaces.find? p with
    | none => exact .inl rfl
    | some r => exact .inr ⟨r, rfl, rfl⟩

theorem slotAt_here {d : Nat} : w.slotAt (w.here d) = w.entry w.root d := by
  unfold here Place.seenBy
  split
  · rw [slotAt, home_active]
  · rfl

theorem has_here {d : Nat} (live : w.Live w.spaces.active) (hd : d < mountTableSlot) :
    w.Has (w.here d) := by
  unfold here Place.seenBy
  split
  · exact ⟨live, ‹_›⟩
  · exact ⟨by omega, hd⟩

theorem lt_of_has_here {d : Nat} : w.Has (w.here d) → d < mountTableSlot := by
  unfold here Place.seenBy
  split
  · intro
    simp only [userSlots, mountTableSlot] at *
    omega
  · exact fun h => h.2

theorem slotAt_setPage {f : Nat} (hroot : f ≠ w.root)
    (hdir : ∀ p r, w.spaces.find? p = some r → r.directory ≠ f) (g : Page) (π : Place) :
    (w.setPage f g).slotAt π = w.slotAt π := by
  cases π with
  | user p d =>
    refine entry_setPage_of_ne w f g ?_ d
    obtain e | ⟨r, hr, e⟩ := home_cases w p
    · exact fun h => hroot (h.symm.trans e)
    · exact fun h => hdir p r hr (e.symm.trans h)
  | kernel d => exact entry_setPage_of_ne w f g hroot.symm d

theorem leafAt_setPage {f : Nat} (hroot : f ≠ w.root)
    (hdir : ∀ p r, w.spaces.find? p = some r → r.directory ≠ f) (g : Page) {π : Place}
    (hf : (w.slotAt π).frame ≠ f) (t : Nat) :
    (w.setPage f g).leafAt π t = w.leafAt π t := by
  rw [leafAt, slotAt_setPage hroot hdir, entry_setPage_of_ne _ _ _ hf, leafAt]

/-- Writing an entry of a table changes one page at the one place where the table is bound. -/
theorem leaf?_setLeaf {f t : Nat} {e : Entry} {π : Place} (hroot : f ≠ w.root)
    (hdir : ∀ p r, w.spaces.find? p = some r → r.directory ≠ f) (ht : t < tableEntries)
    (bound : ∀ ρ, w.Has ρ → (w.slotAt ρ).isPresent = true → ((w.slotAt ρ).frame = f ↔ ρ = π))
    (present : (w.slotAt π).isPresent = true) {ρ : Place} (hρ : w.Has ρ) {u : Nat}
    (hu : u < tableEntries) :
    (w.setEntry f t e).leaf? ρ u = if ρ = π ∧ u = t then if e.isPresent = true then some e else none
      else w.leaf? ρ u := by
  unfold leaf? leafAt
  rw [setEntry, slotAt_setPage hroot hdir, ← setEntry, entry_setEntry _ _ _ ht hu]
  by_cases here : (w.slotAt ρ).isPresent = true
  · simp only [here, true_and, bound ρ hρ here]
    split <;> rfl
  · have other : ¬ (ρ = π ∧ u = t) := fun both => here (both.1 ▸ present)
    simp [here, other]

/-- Writing a slot of the resident directory changes the place that it is, and no other. -/
theorem slotAt_setSlot (h : w.Housed) {d : Nat} (hd : d < mountTableSlot) (e : Entry) {π : Place}
    (hπ : w.Has π) :
    (w.setEntry w.root d e).slotAt π = if π = w.here d then e else w.slotAt π := by
  have hd' : d < tableEntries := by simp only [mountTableSlot, tableEntries] at *; omega
  cases π with
  | user p i =>
    have hi : i < tableEntries := by
      have := hπ.2
      simp only [userSlots, tableEntries] at *; omega
    change (w.setEntry w.root d e).entry (w.home p) i = _
    rw [entry_setEntry w w.root e hd' hi, slotAt]
    by_cases active : p = w.spaces.active
    · subst active
      rw [home_active]
      by_cases same : i = d
      · subst same
        rw [if_pos ⟨rfl, rfl⟩, here, Place.seenBy, if_pos hπ.2, if_pos rfl]
      · rw [if_neg (fun both => same both.2), if_neg]
        unfold here Place.seenBy
        split <;> simp [same]
    · obtain ⟨r, hr⟩ := Option.isSome_iff_exists.1 hπ.1
      have away : w.home p ≠ w.root := home_of_ne active hr ▸ h.ne_root p r hr
      rw [if_neg (fun both => away both.1), if_neg]
      unfold here Place.seenBy
      split <;> simp [active]
  | kernel i =>
    have hi : i < tableEntries := by
      have := hπ.2
      simp only [mountTableSlot, tableEntries] at *; omega
    have low : ¬ i < userSlots := Nat.not_lt.2 hπ.1
    change (w.setEntry w.root d e).entry w.root i = _
    rw [entry_setEntry w w.root e hd' hi, slotAt, here, Place.seenBy]
    by_cases same : i = d
    · subst same
      simp [low]
    · rw [if_neg (fun both => same both.2), if_neg]
      split <;> simp [same]

end Snapshot
end VirtualMemory
