import VirtualMemory.Proofs.Sharing.Ledger

/-!
# Contents

What is in the user pages, whichever frames they are in. Sharing a frame and copying it are the
same to the contents; so a fork copies those of the parent, a fault changes none, and a store
changes one page, because nobody else refers to its frame.
-/
namespace VirtualMemory.Snapshot

open Layout

def contents (w : Snapshot) (x : Position) : Option Page :=
  (w.userPages x).map fun e => w.page e.frame

variable {w v : Snapshot} {O Q : Finset Nat} {x y : Position} {e : Entry} {p va f : Nat}

theorem Settled.userPages_owned (h : w.Settled O) (page : w.userPages x = some e) :
    e.frame ∈ O := by
  obtain ⟨has, ht, leaf⟩ := userPages_eq_some.1 page
  exact h.leaf_owned has ht leaf

/-- Pages in the same frame have the same contents, as long as nobody writes to what callers
hold. -/
theorem contents_of_frame (h : w.Settled O) (data : ∀ f ∈ O, v.page f = w.page f)
    (frames : (v.userPages x).map Entry.frame = (w.userPages y).map Entry.frame) :
    v.contents x = w.contents y := by
  unfold contents
  cases page : w.userPages y with
  | none =>
    rw [page, Option.map_none, Option.map_eq_none_iff] at frames
    rw [frames]
    rfl
  | some e =>
    rw [page, Option.map_some, Option.map_eq_some_iff] at frames
    obtain ⟨e', page', same⟩ := frames
    rw [page', Option.map_some, Option.map_some, same, data _ (h.userPages_owned page)]

theorem contents_congr (h : w.Settled O) (data : ∀ f ∈ O, v.page f = w.page f)
    (pages : v.userPages = w.userPages) : v.contents = w.contents := by
  funext x
  exact contents_of_frame h data (by rw [pages])

/-- Away from the page that changes. -/
theorem contents_update_of_ne {new : Option Entry} (h : w.Settled O)
    (data : ∀ f ∈ O, v.page f = w.page f)
    (changed : v.userPages = Function.update w.userPages x new) (other : y ≠ x) :
    v.contents y = w.contents y :=
  contents_of_frame h data (by rw [changed, Function.update_of_ne other])

theorem Switched.contents (h : w.Settled O) (s : w.Switched v p) : v.contents = w.contents := by
  refine contents_congr h ?_ (s.userPages h)
  intro f hf
  obtain ⟨role, stable⟩ := h.stable
  have idle : (role f).Idle := by rw [stable.data hf]; trivial
  exact s.page f (stable.ne_root hf) fun r hr => (stable.idle_ne_directory idle _ r hr).symm

theorem Resolved.contents (h : w.Settled O) (user : va < kernelStart)
    (r : w.Resolved O va v Q) : v.contents = w.contents := by
  cases r with
  | untouched => rfl
  | @granted v e page lone settled pages =>
    rw [pageAt?_eq h user] at page
    have changed := userPages_at h user pages.spaces pages.leaf
    funext y
    refine contents_of_frame h pages.data ?_
    rw [changed, Function.update_apply]
    split
    · subst y
      rw [page, Option.map_some, Option.map_some, Entry.frame_set_writable]
    · rfl
  | @copied v e copy page several replaced =>
    rw [pageAt?_eq h user] at page
    have changed := userPages_at h user replaced.spaces replaced.leaf
    funext y
    by_cases here : y = .of w.spaces.active va
    · subst y
      rw [contents, contents, changed, Function.update_self, page, Option.map_some,
        Option.map_some, replaced.frame, replaced.content (h.userPages_owned page)]
    · exact contents_update_of_ne h replaced.data changed here

theorem Forked.contents {parent child : Nat} (h : w.Settled O) (live : w.Live parent)
    (live' : w.Live child) (f : w.Forked v O parent child) (x : Position) :
    v.contents x = w.contents (if x.1 = child then parent else x.1, x.2) := by
  refine contents_of_frame h f.data ?_
  rw [f.userPages live live', frame_forkedUserPages]

theorem GivesUp.contents (h : w.Settled O) (data : ∀ f ∈ O, v.page f = w.page f)
    (less : w.GivesUp v p) (x : Position) :
    v.contents x = w.contents x ∨ x.1 = p ∧ v.contents x = none := by
  refine (less x).imp (fun same => contents_of_frame h data (by rw [same])) ?_
  exact fun gone => ⟨gone.1, by rw [Snapshot.contents, gone.2, Option.map_none]⟩

/-- Whoever refers to a frame sees what is written into it. -/
theorem contents_setPage (h : w.Settled O) (hf : f ∈ O) (g : Page) (y : Position) :
    (w.setPage f g).contents y = if y ∈ w.references f then some g else w.contents y := by
  rw [contents, userPages_setPage h hf]
  split
  · rename_i refers
    obtain ⟨e, page, rfl⟩ := mem_references.1 refers
    rw [page, Option.map_some, page_setPage_self]
  · rename_i other
    unfold contents
    apply Option.map_congr
    intro e page
    rw [page_setPage, if_neg]
    rintro rfl
    exact other (mem_references_frame page)

/-- A store changes the contents of the page that is written to, if nobody else refers to its
frame. -/
theorem contents_stored (h : w.Settled O) (page : w.userPages x = some e)
    (only : ∀ y ∈ w.references e.frame, y = x) (g : Page) :
    (w.setPage e.frame g).contents = Function.update w.contents x (some g) := by
  funext y
  rw [contents_setPage h (h.userPages_owned page), Function.update_apply]
  refine if_congr ⟨only y, ?_⟩ rfl rfl
  rintro rfl
  exact mem_references_frame page

end VirtualMemory.Snapshot
