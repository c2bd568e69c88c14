import VirtualMemory.Proofs.Ownership.Spaces

/-!
# The kernel at rest

Between two calls no frame is on its way: callers hold exactly the frames they were handed, and
no user slot binds an empty table. `Rewrites` is what a call may do to the pages that can be seen
while it leaves the register, the share counts and the callers' frames alone.
-/
namespace VirtualMemory.Snapshot

open Layout

/-- No frame is spare, and callers hold the frames in `O`. -/
structure Stable (w : Snapshot) (O : Finset Nat) (role : Nat → Role) : Prop
    extends w.Sound role where
  at_rest : ∀ f, role f ≠ .spare
  owned : ∀ f, role f = .owned ↔ f ∈ O

/-- A table in a user slot, save one place, holds some page. -/
def Filled (w : Snapshot) (except : Option Place) : Prop :=
  ∀ p d, some (.user p d) ≠ except → w.Has (.user p d) →
    (w.slotAt (.user p d)).isPresent = true →
      ∃ t < tableEntries, w.leaf? (.user p d) t ≠ none

structure Settled (w : Snapshot) (O : Finset Nat) : Prop where
  stable : ∃ role, w.Stable O role
  filled : w.Filled none
  /-- Only frames are ever shared, and never the window's table. -/
  shared : ∀ f, w.shares.get f ≠ 0 → Ram.IsFrame w.size f ∧ f ≠ mountTable
  /-- No space is kept without an owner. -/
  kept : ∀ p r, w.spaces.find? p = some r → 0 < r.owners

/-- From `w` to `v` the pages have become `L`, and nothing else that a caller can see is new. -/
structure Rewrites (w v : Snapshot) (O : Finset Nat) (L : Place → Nat → Option Entry) : Prop where
  size : v.size = w.size
  spaces : v.spaces = w.spaces
  shares : v.shares = w.shares
  leaf : ∀ π t, w.Has π → t < tableEntries → v.leaf? π t = L π t
  data : ∀ f ∈ O, v.page f = w.page f

/-- The pages of `w` with another one at entry `t` of one place. -/
def pagesWith (w : Snapshot) (π : Place) (t : Nat) (new : Option Entry) :
    Place → Nat → Option Entry :=
  fun ρ u => if ρ = π ∧ u = t then new else w.leaf? ρ u

variable {w v u : Snapshot} {O : Finset Nat} {role : Nat → Role} {L M : Place → Nat → Option Entry}
  {π : Place} {t f : Nat}

theorem has_congr (h : v.spaces = w.spaces) (π : Place) : v.Has π ↔ w.Has π := by
  cases π
  · unfold Has Live
    rw [h]
  · rfl

theorem here_congr (h : v.spaces = w.spaces) (d : Nat) : v.here d = w.here d := by
  unfold here
  rw [h]

theorem Filled.mono {ex : Option Place} (filled : w.Filled ex) (same : v.spaces = w.spaces)
    (slots : ∀ π, w.Has π → some π ≠ ex → (v.slotAt π).isPresent = true →
      (w.slotAt π).isPresent = true)
    (pages : ∀ π t, w.Has π → t < tableEntries → w.leaf? π t ≠ none → v.leaf? π t ≠ none) :
    v.Filled ex := by
  intro p d other hp present
  have hp' := (has_congr same _).1 hp
  obtain ⟨t, ht, some⟩ := filled p d other hp' (slots _ hp' other present)
  exact ⟨t, ht, pages _ _ hp' ht some⟩

theorem Filled.congr {ex : Option Place} (filled : w.Filled ex) (same : v.spaces = w.spaces)
    (slots : ∀ π, w.Has π → some π ≠ ex → (v.slotAt π).isPresent = true →
      (w.slotAt π).isPresent = true)
    (pages : ∀ π t, w.Has π → t < tableEntries → v.leaf? π t = w.leaf? π t) : v.Filled ex :=
  filled.mono same slots fun π t hπ ht some => by rwa [pages π t hπ ht]

namespace Rewrites

theorem refl (w : Snapshot) (O : Finset Nat) : w.Rewrites w O w.leaf? where
  size := rfl
  spaces := rfl
  shares := rfl
  leaf _ _ _ _ := rfl
  data _ _ := rfl

theorem trans (first : w.Rewrites v O L) (second : v.Rewrites u O M) : w.Rewrites u O M where
  size := second.size.trans first.size
  spaces := second.spaces.trans first.spaces
  shares := second.shares.trans first.shares
  leaf π t hπ ht := second.leaf π t ((has_congr first.spaces π).2 hπ) ht
  data f hf := (second.data f hf).trans (first.data f hf)

theorem congr (h : w.Rewrites v O L) (same : ∀ π t, w.Has π → t < tableEntries → L π t = M π t) :
    w.Rewrites v O M :=
  { h with leaf := fun π t hπ ht => (h.leaf π t hπ ht).trans (same π t hπ ht) }

theorem pagesWith {e : Option Entry} (h : w.Rewrites v O w.leaf?)
    (same : v.Rewrites u O (v.pagesWith π t e)) :
    w.Rewrites u O (w.pagesWith π t e) := by
  refine (h.trans same).congr ?_
  intro ρ i hρ hi
  unfold Snapshot.pagesWith
  rw [h.leaf ρ i hρ hi]

end Rewrites

theorem Settled.rewrite (h : w.Settled O) (moved : w.Rewrites v O L) (stable : v.Stable O role)
    (filled : v.Filled none) : v.Settled O where
  stable := ⟨role, stable⟩
  filled := filled
  shared f hf := by
    rw [moved.shares] at hf
    rw [moved.size]
    exact h.shared f hf
  kept p r hr := by
    rw [moved.spaces] at hr
    exact h.kept p r hr

namespace Stable

theorem usable (h : w.Stable O role) (f : Nat) (hf : f ∈ w.free) :
    Ram.IsFrame w.size f ∧ f ≠ mountTable ∧ f ≠ w.root := by
  have free := (h.free f).2 hf
  have idle : (role f).Idle := by rw [free]; trivial
  exact ⟨h.isFrame (by simp [free]), h.idle_ne_mount idle, h.idle_ne_root idle⟩

theorem data (h : w.Stable O role) (hf : f ∈ O) : role f = .owned := (h.owned f).2 hf

theorem ne_root (h : w.Stable O role) (hf : f ∈ O) : f ≠ w.root := fun eq => by
  have := h.data hf
  rw [(h.resident f).2 eq] at this
  cases this

theorem ne_mount (h : w.Stable O role) (hf : f ∈ O) : f ≠ mountTable := fun eq => by
  have := h.data hf
  rw [(h.window f).2 eq] at this
  cases this

theorem ne_table (h : w.Stable O role) (hf : f ∈ O) {g : Nat} (hg : role g = .table π) :
    f ≠ g := by
  rintro rfl
  rw [h.data hf] at hg
  cases hg

/-- One frame gets another role, and callers hold it afterwards if that role says so. -/
theorem assign (h : w.Stable O role) {new : Role} {Q : Finset Nat}
    (sound : v.Sound (Function.update role f new)) (rest : new ≠ .spare)
    (mine : new = .owned ↔ f ∈ Q) (others : ∀ g, g ≠ f → (g ∈ O ↔ g ∈ Q)) :
    v.Stable Q (Function.update role f new) where
  toSound := sound
  at_rest g := by
    rw [Function.update_apply]
    split
    · exact rest
    · exact h.at_rest g
  owned g := by
    rw [Function.update_apply]
    split
    · subst g
      exact mine
    · rename_i other
      exact (h.owned g).trans (others g other)

/-- The new role keeps the frame out of the callers' hands, where it was before. -/
theorem assign_aside (h : w.Stable O role) {new : Role}
    (sound : v.Sound (Function.update role f new)) (before : role f ≠ .owned)
    (rest : new ≠ .spare) (after : new ≠ .owned) : v.Stable O (Function.update role f new) := by
  refine h.assign sound rest (iff_of_false after ?_) fun _ _ => Iff.rfl
  intro mine
  exact before ((h.owned f).2 mine)

end Stable

/-! ## What callers do with frames -/

namespace Settled

theorem isFrame (h : w.Settled O) (hf : f ∈ O) : Ram.IsFrame w.size f := by
  obtain ⟨role, stable⟩ := h.stable
  exact stable.isFrame (by simp [stable.data hf])

/-- User pages are the callers' frames. -/
theorem leaf_owned (h : w.Settled O) {p d : Nat} {e : Entry} (hp : w.Has (.user p d))
    (ht : t < tableEntries) (leaf : w.leaf? (.user p d) t = some e) : e.frame ∈ O := by
  obtain ⟨role, stable⟩ := h.stable
  exact (stable.owned _).1 (stable.leaf p d t e hp ht leaf)

/-- An entry built for a caller's frame leads to it. -/
theorem frame_of (h : w.Settled O) (hf : f ∈ O) (prot : Protection) :
    (Entry.of f prot.entryFlags).frame = f := by
  obtain ⟨role, stable⟩ := h.stable
  exact stable.wired.frame_of (h.isFrame hf) prot.low_entryFlags

/-- A record that is right about the register sees the same tables filled. -/
theorem rebook (h : w.Settled O) {b : Books} (same : b.spaces = w.spaces)
    (shared : ∀ f, b.shares.get f ≠ 0 → Ram.IsFrame w.size f ∧ f ≠ mountTable) {Q : Finset Nat}
    (stable : (w.book b).Stable Q role) : (w.book b).Settled Q where
  stable := ⟨role, stable⟩
  filled := h.filled.congr same (fun π _ _ there => by rwa [slotAt_book same] at there)
    fun π t _ _ => leaf?_book same π t
  shared := shared
  kept p r hr := h.kept p r (by rw [← same]; exact hr)

/-- Frames, save the window's table, may be counted any number of times. -/
theorem setShare (h : w.Settled O) (hf : Ram.IsFrame w.size f) (hm : f ≠ mountTable) (n : Nat) :
    (w.book { w.toBooks with shares := w.shares.set f n }).Settled O := by
  obtain ⟨role, stable⟩ := h.stable
  refine h.rebook (by rfl) ?_ ⟨stable.reshare _, stable.at_rest, stable.owned⟩
  intro g hg
  rw [Shares.get_set] at hg
  split at hg
  · subst g
    exact ⟨hf, hm⟩
  · exact h.shared g hg

/-- The first free frame goes to a caller. Nobody else knows of it. -/
theorem hand (h : w.Settled O) {rest : List Nat} (first : w.free = f :: rest) :
    (w.book { w.toBooks with free := rest }).Settled (insert f O) ∧ f ∉ O ∧
      Ram.IsFrame w.size f ∧ f ≠ mountTable ∧ f ≠ w.root ∧
      ∀ p d t e, w.Has (.user p d) → t < tableEntries → w.leaf? (.user p d) t = some e →
        e.frame ≠ f := by
  obtain ⟨role, stable⟩ := h.stable
  have free : role f = .free := (stable.free f).2 (first ▸ List.mem_cons_self)
  have idle : (role f).Idle := by rw [free]; trivial
  have untracked := stable.not_tracked (f := f) (by simp [free]) (by simp [free])
  have given := (stable.take first).give (Function.update_self ..) untracked
  rw [Function.update_idem] at given
  have stable' := stable.assign (Q := insert f O) given (by simp) (by simp) fun g other => by
    simp [other]
  refine ⟨h.rebook (b := { w.toBooks with free := rest }) rfl h.shared stable', ?_,
    stable.isFrame (by simp [free]), stable.idle_ne_mount idle, stable.idle_ne_root idle,
    stable.free_unused (by simp [free])⟩
  rw [← stable.owned, free]
  simp

/-- A caller gives back a frame that is mapped nowhere. -/
theorem giveBack (h : w.Settled O) (hf : f ∈ O)
    (unused : ∀ p d t e, w.Has (.user p d) → t < tableEntries →
      w.leaf? (.user p d) t = some e → e.frame ≠ f) :
    f ∉ w.free ∧ (w.book { w.toBooks with free := f :: w.free }).Settled (O.erase f) := by
  obtain ⟨role, stable⟩ := h.stable
  have owned := stable.data hf
  have untracked := stable.not_tracked (f := f) (by simp [owned]) (by simp [owned])
  have back := (stable.reclaim owned unused).putBack (Function.update_self ..) untracked
  rw [Function.update_idem] at back
  have stable' := stable.assign (Q := O.erase f) back (by simp) (by simp) fun g other => by
    simp [other]
  exact ⟨by simp [← stable.free, owned],
    h.rebook (b := { w.toBooks with free := f :: w.free }) rfl h.shared stable'⟩

/-- Callers may write what they like into their frames. -/
theorem setPage (h : w.Settled O) (hf : f ∈ O) (g : Page) :
    (w.setPage f g).Settled O ∧
      ∀ π t, w.Has π → (w.setPage f g).leaf? π t = w.leaf? π t := by
  obtain ⟨role, stable⟩ := h.stable
  have idle : (role f).Idle := by rw [stable.data hf]; trivial
  have pages (π : Place) (t : Nat) (hπ : w.Has π) := stable.leaf?_setPage idle g hπ t
  refine ⟨⟨⟨role, stable.toSound.setPage idle g, stable.at_rest, stable.owned⟩, ?_, h.shared,
    h.kept⟩, pages⟩
  refine h.filled.congr rfl ?_ fun π t hπ _ => pages π t hπ
  intro π _ _ there
  rwa [slotAt_setPage (stable.ne_root hf) (stable.idle_ne_directory idle)] at there

end Settled
end VirtualMemory.Snapshot
