import VirtualMemory.Proofs.Calls.Runs

/-!
# User pages

Everything that user programs can reach, as one function from a space, a slot and an entry to the
page there. What calls do to it is an update at one point, a restriction, or the copy that a fork
makes.
-/
namespace VirtualMemory

open Layout

/-- A space, a slot of its user half, and an entry of the table there. -/
abbrev Position := Nat × Nat × Nat

/-- Where the page of `va` is in space `p`. -/
def Position.of (p va : Nat) : Position := (p, dirIndex va, tableIndex va)

/-- The table and the entry in it. -/
def Position.entry (x : Position) : Place × Nat := (.user x.1 x.2.1, x.2.2)

theorem Position.entry_injective : Function.Injective Position.entry := by
  rintro ⟨p, d, t⟩ ⟨q, i, j⟩ same
  simpa [Position.entry, and_assoc] using same

namespace Snapshot

def userPages (w : Snapshot) (x : Position) : Option Entry :=
  if w.Live x.1 ∧ x.2.1 < userSlots ∧ x.2.2 < tableEntries then w.leaf? (.user x.1 x.2.1) x.2.2
  else none

variable {w v u : Snapshot} {O Q : Finset Nat} {p d t va : Nat} {x : Position} {e : Entry}
  {new : Option Entry} {L : Place → Nat → Option Entry}

theorem userPages_eq_some : w.userPages (p, d, t) = some e ↔
    w.Has (.user p d) ∧ t < tableEntries ∧ w.leaf? (.user p d) t = some e := by
  unfold userPages
  split
  · rename_i h
    exact ⟨fun leaf => ⟨⟨h.1, h.2.1⟩, h.2.2, leaf⟩, fun leaf => leaf.2.2⟩
  · rename_i h
    exact iff_of_false (by simp) fun leaf => h ⟨leaf.1.1, leaf.1.2, leaf.2.1⟩

theorem userPages_of_has (hp : w.Has (.user p d)) (ht : t < tableEntries) :
    w.userPages (p, d, t) = w.leaf? (.user p d) t := if_pos ⟨hp.1, hp.2, ht⟩

theorem live_congr (h : v.spaces = w.spaces) (p : Nat) : v.Live p ↔ w.Live p := by
  unfold Live
  rw [h]

/-- User pages are those of the live spaces. -/
theorem userPages_of_leaf (live : ∀ p, v.Live p ↔ w.Live p) {M : Position → Option Entry}
    (leaf : ∀ p d t, w.Has (.user p d) → t < tableEntries →
      v.leaf? (.user p d) t = M (p, d, t))
    (none : ∀ p d t, ¬ (w.Live p ∧ d < userSlots ∧ t < tableEntries) → M (p, d, t) = none) :
    v.userPages = M := by
  funext x
  obtain ⟨p, d, t⟩ := x
  unfold userPages
  by_cases valid : w.Live p ∧ d < userSlots ∧ t < tableEntries
  · rw [if_pos (by rwa [live]), leaf p d t ⟨valid.1, valid.2.1⟩ valid.2.2]
  · rw [if_neg (by rwa [live]), none p d t valid]

theorem userPages_of_not (h : ¬ (w.Live p ∧ d < userSlots ∧ t < tableEntries)) :
    w.userPages (p, d, t) = none := if_neg h

theorem userPages_congr (live : ∀ p, v.Live p ↔ w.Live p)
    (leaf : ∀ p d t, w.Has (.user p d) → t < tableEntries →
      v.leaf? (.user p d) t = w.leaf? (.user p d) t) : v.userPages = w.userPages := by
  refine userPages_of_leaf live ?_ fun p d t => userPages_of_not
  intro p d t hp ht
  rw [leaf p d t hp ht, userPages_of_has hp ht]

theorem userPages_book {b : Books} (h : b.spaces = w.spaces) :
    (w.book b).userPages = w.userPages :=
  userPages_congr (live_congr h) fun _ _ t _ _ => leaf?_book h _ t

/-- One page changes. -/
theorem userPages_update (spaces : v.spaces = w.spaces) (hp : w.Has (.user p d))
    (ht : t < tableEntries) (leaf : ∀ π i, w.Has π → i < tableEntries →
      v.leaf? π i = w.pagesWith (.user p d) t new π i) :
    v.userPages = Function.update w.userPages (p, d, t) new := by
  refine userPages_of_leaf (live_congr spaces) ?_ ?_
  · intro q i j hq hj
    rw [leaf _ j hq hj, pagesWith, Function.update_apply, userPages_of_has hq hj]
    simp only [Place.user.injEq, Prod.mk.injEq, and_assoc]
  · intro q i j out
    rw [Function.update_of_ne, userPages_of_not out]
    rintro ⟨⟩
    exact out ⟨hp.1, hp.2, ht⟩

/-- Where a page comes from once an entry, of a user table or another, was written. -/
theorem userPages_with {π : Place} (spaces : v.spaces = w.spaces)
    (leaf : ∀ ρ i, w.Has ρ → i < tableEntries → v.leaf? ρ i = w.pagesWith π t new ρ i)
    (page : v.userPages x = some e) :
    x.entry = (π, t) ∧ new = some e ∨ x.entry ≠ (π, t) ∧ w.userPages x = some e := by
  obtain ⟨q, i, j⟩ := x
  obtain ⟨hq, hj, there⟩ := userPages_eq_some.1 page
  have hq' := (has_congr spaces _).1 hq
  rw [leaf _ j hq' hj, pagesWith] at there
  by_cases here : Place.user q i = π ∧ j = t
  · rw [if_pos here] at there
    exact .inl ⟨Prod.ext here.1 here.2, there⟩
  · rw [if_neg here] at there
    exact .inr ⟨fun same => here (Prod.mk.inj same), userPages_eq_some.2 ⟨hq', hj, there⟩⟩

/-- An entry for the frame of the old one is in the same frame everywhere. -/
theorem frame_pagesWith {π ρ : Place} {i : Nat}
    (frame : new.map Entry.frame = (w.leaf? π t).map Entry.frame) :
    (w.pagesWith π t new ρ i).map Entry.frame = (w.leaf? ρ i).map Entry.frame := by
  unfold pagesWith
  split
  · rename_i here
    rw [frame, here.1, here.2]
  · rfl

/-- Tables that name the same frames show user pages in the same frames. -/
theorem userFrames_congr (spaces : v.spaces = w.spaces) (frames : ∀ π t, w.Has π →
      t < tableEntries → (v.leaf? π t).map Entry.frame = (w.leaf? π t).map Entry.frame)
    (x : Position) : (v.userPages x).map Entry.frame = (w.userPages x).map Entry.frame := by
  obtain ⟨q, d, t⟩ := x
  unfold userPages
  by_cases valid : w.Live q ∧ d < userSlots ∧ t < tableEntries
  · rw [if_pos valid, if_pos (by rwa [live_congr spaces])]
    exact frames _ t ⟨valid.1, valid.2.1⟩ valid.2.2
  · rw [if_neg valid, if_neg (by rwa [live_congr spaces])]

theorem userFrames_replaced {π : Place} (spaces : v.spaces = w.spaces)
    (leaf : ∀ ρ i, w.Has ρ → i < tableEntries → v.leaf? ρ i = w.pagesWith π t new ρ i)
    (frame : new.map Entry.frame = (w.leaf? π t).map Entry.frame) (x : Position) :
    (v.userPages x).map Entry.frame = (w.userPages x).map Entry.frame :=
  userFrames_congr spaces (fun ρ i hρ hi => by rw [leaf ρ i hρ hi, frame_pagesWith frame]) x

/-- Some pages are removed, or get other rights. -/
theorem userPages_over (spaces : v.spaces = w.spaces) {hit : Place → Nat → Prop}
    [∀ π t, Decidable (hit π t)] {g : Option Entry → Option Entry} (none : g none = none)
    (leaf : ∀ π i, w.Has π → i < tableEntries → v.leaf? π i = w.pagesOver hit g π i) :
    v.userPages = fun x =>
      if hit (.user x.1 x.2.1) x.2.2 then g (w.userPages x) else w.userPages x := by
  refine userPages_of_leaf (live_congr spaces) ?_ ?_
  · intro q i j hq hj
    rw [leaf _ j hq hj, pagesOver, userPages_of_has hq hj]
  · intro q i j out
    rw [userPages_of_not out, none, ite_self]

theorem Switched.userPages (h : w.Settled O) (s : w.Switched v p) : v.userPages = w.userPages := by
  refine userPages_congr (fun q => ?_) fun q d t hq _ => h.leaf?_switched s hq t
  unfold Live
  rw [s.books]
  rfl

theorem userPages_owning {r : SpaceRecord} (hr : w.spaces.find? p = some r) (n : Nat) :
    (w.owning p r n).userPages = w.userPages := by
  refine userPages_congr (fun q => ?_) fun q d t _ _ => leaf?_owning hr n _ t
  have has := has_owning hr n (.user q 0)
  simpa [Has] using has

/-- A new space has no pages. -/
theorem Admitted.userPages {f : Nat} (h : w.Settled O) (a : w.Admitted v f O) :
    v.userPages = w.userPages := by
  obtain ⟨role, stable⟩ := h.stable
  have find (q : Nat) : v.spaces.find? q =
      if w.spaces.nextId = q then some ⟨f, 1⟩ else w.spaces.find? q := by
    rw [a.spaces]
    exact Spaces.find?_put ..
  funext x
  obtain ⟨q, d, t⟩ := x
  by_cases valid : w.Live q ∧ d < userSlots ∧ t < tableEntries
  · have other := stable.ne_nextId valid.1
    have live : v.Live q := by
      unfold Live
      rw [find, if_neg other]
      exact valid.1
    rw [userPages_of_has ⟨valid.1, valid.2.1⟩ valid.2.2, userPages_of_has ⟨live, valid.2.1⟩
      valid.2.2, a.leaf (.user q d) t ⟨valid.1, valid.2.1⟩]
  · rw [userPages_of_not valid]
    by_cases new : w.spaces.nextId = q
    · subst new
      unfold Snapshot.userPages
      rw [a.fresh, ite_self]
    · refine userPages_of_not fun out => valid ⟨?_, out.2⟩
      have live := out.1
      unfold Live at live
      rwa [find, if_neg new] at live

/-- The pages of a space go with it. -/
theorem Vacated.userPages (gone : w.Vacated v p O) :
    v.userPages = fun x => if x.1 = p then none else w.userPages x := by
  funext x
  obtain ⟨q, d, t⟩ := x
  have live : v.Live q ↔ q ≠ p ∧ w.Live q := by
    unfold Live
    rw [gone.find]
    by_cases same : p = q
    · simp [same]
    · simp [same, Ne.symm same]
  by_cases same : q = p
  · subst same
    rw [if_pos rfl]
    exact userPages_of_not fun valid => (live.1 valid.1).1 rfl
  · rw [if_neg same]
    by_cases valid : w.Live q ∧ d < userSlots ∧ t < tableEntries
    · have has : v.Has (.user q d) := ⟨live.2 ⟨same, valid.1⟩, valid.2.1⟩
      rw [userPages_of_has has valid.2.2, gone.leaf _ t has,
        userPages_of_has ⟨valid.1, valid.2.1⟩ valid.2.2]
    · rw [userPages_of_not valid]
      exact userPages_of_not fun out => valid ⟨(live.1 out.1).2, out.2⟩

/-- The user pages once parent and child share those of the parent, none of them writable. -/
def forkedUserPages (w : Snapshot) (parent child : Nat) (x : Position) : Option Entry :=
  if x.1 = parent ∨ x.1 = child then
    (w.userPages (parent, x.2)).map (·.clear EntryFlags.writable)
  else w.userPages x

/-- Both have the parent's frames. -/
theorem frame_forkedUserPages (w : Snapshot) (parent child : Nat) (x : Position) :
    (w.forkedUserPages parent child x).map Entry.frame =
      (w.userPages (if x.1 = child then parent else x.1, x.2)).map Entry.frame := by
  have frame (o : Option Entry) :
      (o.map (·.clear EntryFlags.writable)).map Entry.frame = o.map Entry.frame := by
    cases o <;> simp
  unfold forkedUserPages
  by_cases inChild : x.1 = child
  · rw [if_pos (.inr inChild), if_pos inChild, frame]
  · rw [if_neg inChild]
    split
    · rename_i either
      rw [frame, either.resolve_right inChild]
    · rfl

theorem Forked.userPages {parent child : Nat} (live : w.Live parent) (live' : w.Live child)
    (f : w.Forked v O parent child) : v.userPages = w.forkedUserPages parent child := by
  have alive (q : Nat) : v.Live q ↔ w.Live q := by
    unfold Live
    rw [f.spaces]
    rfl
  refine userPages_of_leaf alive ?_ ?_
  · intro q d t hq ht
    have bound : d * tableEntries + t < userSlots * tableEntries := by
      have := hq.2
      simp only [userSlots, tableEntries] at *
      omega
    rw [f.leaf _ t hq ht, forkedPages, forkedUserPages]
    simp only [bound, and_true]
    rw [userPages_of_has ⟨live, hq.2⟩ ht, userPages_of_has hq ht]
  · intro q d t out
    have dead : d < userSlots ∧ t < tableEntries → q ≠ parent ∧ q ≠ child := fun bounds =>
      ⟨fun eq => out ⟨eq ▸ live, bounds⟩, fun eq => out ⟨eq ▸ live', bounds⟩⟩
    unfold forkedUserPages
    split
    · rename_i either
      rw [userPages_of_not fun valid => ?_]
      · rfl
      · exact either.elim (dead valid.2).1 (dead valid.2).2
    · exact userPages_of_not out

end Snapshot
end VirtualMemory
