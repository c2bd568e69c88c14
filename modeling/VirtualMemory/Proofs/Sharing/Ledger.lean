import VirtualMemory.Proofs.Sharing.References

/-!
# Share counts and references

A share count is the number of references to a frame, and as many more as were given up without a
word. Faults read it to decide between granting and copying, so what counts is that it is never too
small; it is exact as long as whoever gives a page up says so.
-/
namespace VirtualMemory

open Layout

namespace Snapshot

/-- Each frame is counted `extra` times more often than it is referred to, and pages that may be
written are referred to once. -/
structure Ledger (w : Snapshot) (extra : Nat → Nat) : Prop where
  count : ∀ f, w.shares.get f = (w.references f).card + extra f
  exclusive : w.Exclusive

variable {w v : Snapshot} {O Q : Finset Nat} {extra : Nat → Nat} {x : Position} {e : Entry}
  {new : Option Entry} {p va f : Nat}

/-- Space `p` gives up some of its pages. -/
def GivesUp (w v : Snapshot) (p : Nat) : Prop :=
  ∀ x, v.userPages x = w.userPages x ∨ x.1 = p ∧ v.userPages x = none

theorem GivesUp.sub (h : w.GivesUp v p) (x : Position) (e : Entry)
    (page : v.userPages x = some e) : w.userPages x = some e := by
  obtain same | ⟨-, none⟩ := h x
  · rw [← same, page]
  · rw [none] at page
    cases page

namespace Ledger

theorem same (l : w.Ledger extra) (pages : v.userPages = w.userPages)
    (shares : v.shares = w.shares) : v.Ledger extra where
  count f := by rw [shares, references_congr pages, l.count]
  exclusive := l.exclusive.subset fun x e page => by rwa [pages] at page

/-- A page changes, and with it the counts. -/
theorem update (l : w.Ledger extra) (changed : v.userPages = Function.update w.userPages x new)
    (only : ∀ e, new = some e → ∀ y ∈ w.references e.frame, y = x)
    (shares : ∀ f, v.shares.get f + tally (w.userPages x) f = w.shares.get f + tally new f) :
    v.Ledger extra where
  count f := by
    have counted := card_references_update changed f
    have moved := shares f
    rw [l.count] at moved
    omega
  exclusive := l.exclusive.update changed only

/-- A frame that nobody has known comes in, counted once. -/
theorem mint (l : w.Ledger extra) (changed : v.userPages = Function.update w.userPages x (some e))
    (fresh : w.references e.frame = ∅)
    (shares : ∀ f, v.shares.get f = if e.frame = f then 1 else w.shares.get f) :
    v.Ledger fun f => if e.frame = f then 0 else extra f + tally (w.userPages x) f where
  count f := by
    have counted := card_references_update changed f
    rw [shares]
    by_cases here : e.frame = f
    · subst here
      have old : tally (w.userPages x) e.frame = 0 := by
        rw [tally, if_neg]
        intro out
        have refers := mem_references_iff.2 out
        rw [fresh] at refers
        cases refers
      have one : tally (some e) e.frame = 1 := if_pos rfl
      rw [fresh, Finset.card_empty] at counted
      rw [if_pos rfl, if_pos rfl]
      omega
    · have none : tally (some e) f = 0 := by simp [tally, here]
      rw [if_neg here, if_neg here, l.count]
      omega
  exclusive := l.exclusive.update changed fun e' same y hy => by
    cases same
    rw [fresh] at hy
    cases hy

/-- Pages are given up, and the counts stay. -/
theorem fewer (l : w.Ledger extra) (less : w.GivesUp v p) (shares : v.shares = w.shares) :
    v.Ledger fun f => extra f + ((w.references f).card - (v.references f).card) where
  count f := by
    have less := Finset.card_le_card (references_subset less.sub f)
    rw [shares, l.count]
    omega
  exclusive := l.exclusive.subset less.sub

end Ledger

/-! ## Pages of the resident space -/

theorem pageAt?_eq (h : w.Settled O) (user : va < kernelStart) :
    w.pageAt? va = w.userPages (.of w.spaces.active va) := by
  obtain ⟨p, here, has⟩ := h.here_user user
  have low : dirIndex va < userSlots := has.2
  rw [pageAt?, Snapshot.here, Place.seenBy, if_pos low]
  obtain ⟨role, stable⟩ := h.stable
  exact (userPages_of_has ⟨stable.live_active, low⟩ (tableIndex_lt va)).symm

/-- The page behind a user address changes. -/
theorem userPages_at (h : w.Settled O) (user : va < kernelStart) (spaces : v.spaces = w.spaces)
    (leaf : ∀ π t, w.Has π → t < tableEntries → v.leaf? π t = w.pagesAt va e π t) :
    v.userPages = Function.update w.userPages (.of w.spaces.active va) (some e) := by
  obtain ⟨p, here, has⟩ := h.here_user user
  have low : dirIndex va < userSlots := has.2
  obtain ⟨role, stable⟩ := h.stable
  refine userPages_update spaces ⟨stable.live_active, low⟩ (tableIndex_lt va) ?_
  intro π i hπ hi
  rw [leaf π i hπ hi, pagesAt, Snapshot.here, Place.seenBy, if_pos low]

/-- Nobody refers to a frame that callers do not hold. -/
theorem references_fresh (h : w.Settled O) (fresh : f ∉ O) : w.references f = ∅ := by
  apply Finset.eq_empty_of_forall_notMem
  intro x hx
  obtain ⟨e, page, rfl⟩ := mem_references.1 hx
  obtain ⟨has, ht, leaf⟩ := userPages_eq_some.1 page
  exact fresh (h.leaf_owned has ht leaf)

theorem userPages_of_vacant (vacant : w.Live p → w.Vacant p) (y : Nat × Nat) :
    w.userPages (p, y) = none := by
  obtain ⟨d, t⟩ := y
  unfold userPages
  split
  · next valid => exact leaf?_of_absent (vacant valid.1 d valid.2.1) t
  · rfl

/-- A fault grants a write to the only one who refers to the frame, or moves one reference to a
frame of its own. -/
theorem Ledger.resolved (h : w.Settled O) (user : va < kernelStart) (l : w.Ledger extra)
    (r : w.Resolved O va v Q) : v.Ledger extra := by
  cases r with
  | untouched => exact l
  | @granted v e page lone settled pages =>
    rw [pageAt?_eq h user] at page
    have changed := userPages_at h user pages.spaces pages.leaf
    refine l.update changed ?_ ?_
    · intro e' same y hy
      cases same
      rw [Entry.frame_set_writable] at hy
      have counted := l.count e.frame
      have some := Finset.card_pos.2 ⟨_, mem_references_frame page⟩
      have one : (w.references e.frame).card = 1 := by omega
      obtain ⟨z, only⟩ := Finset.card_eq_one.1 one
      have hx := mem_references_frame page
      rw [only, Finset.mem_singleton] at hx hy
      rw [hx, hy]
    · intro f
      rw [pages.shares, page]
      simp [tally]
  | @copied v e copy page several replaced =>
    rw [pageAt?_eq h user] at page
    have changed := userPages_at h user replaced.spaces replaced.leaf
    obtain ⟨has, ht, leaf⟩ := userPages_eq_some.1 page
    have known : e.frame ∈ O := h.leaf_owned has ht leaf
    have apart : e.frame ≠ copy := fun eq => replaced.fresh (eq ▸ known)
    refine l.update changed ?_ ?_
    · intro e' same y hy
      cases same
      rw [replaced.frame, references_fresh h replaced.fresh] at hy
      cases hy
    · intro f
      obtain ⟨c, hc, shares⟩ := replaced.shares
      rw [shares, page, hc, Shares.get_set, Shares.get_set, Shares.get_set, if_neg apart]
      simp only [tally, Option.map_some, Option.some.injEq, replaced.frame]
      by_cases old : e.frame = f
      · subst old
        simp only [if_neg apart.symm, if_true]
        omega
      · by_cases new : copy = f <;> simp [old, new]

theorem Ledger.forked {parent child : Nat} (live : w.Live parent) (live' : w.Live child)
    (vacant : w.Vacant child) (l : w.Ledger extra) (f : w.Forked v O parent child) :
    v.Ledger extra := by
  have pages := f.userPages live live'
  have empty := userPages_of_vacant fun _ => vacant
  refine ⟨?_, l.exclusive.forked pages empty⟩
  intro g
  rw [f.shares, card_references_forked pages empty live, l.count]
  omega

/-- What a store writes is no page of a table. -/
theorem userPages_setPage (h : w.Settled O) (hf : f ∈ O) (g : Page) :
    (w.setPage f g).userPages = w.userPages :=
  userPages_congr (fun _ => Iff.rfl) fun p d t hp _ => (h.setPage hf g).2 (.user p d) t hp

/-- Nothing is shared after a boot. -/
theorem Booted.ledger {reserved : Nat} (h : w.Booted reserved) : w.Ledger fun _ => 0 := by
  have none (x : Position) : w.userPages x = none :=
    userPages_of_vacant (p := x.1) (fun _ => h.vacant x.1) x.2
  refine ⟨?_, fun x e page => by rw [none] at page; cases page⟩
  intro f
  rw [h.shares, Finset.card_eq_zero.2]
  apply Finset.eq_empty_of_forall_notMem
  intro x hx
  rw [mem_references_iff, none] at hx
  cases hx

/-! ## Calls -/

/-- What user programs have done for them. -/
def UserCall (w : Snapshot) (_ : Finset Nat) : Call → Prop
  | .create | .switch _ | .remove .. | .destroy _ => True
  | .mapFresh _ va _ | .pageFault va _ | .userWrite va _ => va < kernelStart
  | .fork parent child => w.ForksInto parent child
  | _ => False

/-- The calls that move references, and neither bring in frames nor give up pages. -/
def Moves : Call → Prop
  | .create | .switch _ | .fork .. | .pageFault .. | .userWrite .. => True
  | _ => False

variable {c : Call} {r : Except ArgumentError Answer}

theorem UserCall.permits (user : w.UserCall O c) : w.Permits O c := by
  have low (va : Nat) (h : va < kernelStart) : dirIndex va < mountTableSlot :=
    (dirIndex_user h).trans (by decide)
  cases c with
  | create | switch | remove | destroy => trivial
  | mapFresh p va | pageFault va => exact low va user
  | userWrite | fork => exact user
  | _ => cases user

/-- Calls that move references keep the difference between counts and references. -/
theorem Ledger.moves (h : w.Settled O) (l : w.Ledger extra) (effect : w.Effect O c r v Q)
    (moves : Moves c) (user : w.UserCall O c) : v.Ledger extra := by
  cases effect with
  | refused => exact l
  | created _ admitted => exact l.same (admitted.userPages h) admitted.shares
  | switched _ _ switched =>
    exact l.same (switched.userPages h) (by rw [switched.books])
  | forked live live' _ vacant _ forked => exact l.forked live live' vacant forked
  | faulted resolved => exact l.resolved h user resolved
  | stored _ resolved page =>
    have settled := resolved.settled h
    have owned := settled.pageAt?_owned user page
    exact (l.resolved h user resolved).same (userPages_setPage settled owned _) rfl
  | reowned call => rcases call with rfl | rfl | rfl <;> cases moves
  | vacated call | taken call => rcases call with rfl | rfl <;> cases moves
  | _ => cases moves

/-- A fresh page takes the place of whatever was at its address. -/
theorem userPages_minted {rest : List Nat} {prot : Protection} (user : va < kernelStart)
    (live : w.Live p)
    (pages : (w.book { w.toBooks with free := rest, shares := w.shares.set f 1 }).Rewrites v Q
      (w.pagesWith (.seenBy p (dirIndex va)) (tableIndex va) (some (.of f prot.entryFlags)))) :
    v.userPages = Function.update w.userPages (.of p va) (some (.of f prot.entryFlags)) := by
  have low := dirIndex_user user
  refine userPages_update pages.spaces ⟨live, low⟩ (tableIndex_lt va) ?_
  intro π i hπ hi
  rw [pages.leaf π i ((has_congr (by rfl) π).2 hπ) hi, Place.seenBy, if_pos low]

theorem Ledger.minted {rest : List Nat} {prot : Protection} (h : w.Settled O)
    (l : w.Ledger extra) (user : va < kernelStart) (live : w.Live p) (fresh : f ∉ O)
    (settled : v.Settled (insert f O))
    (pages : (w.book { w.toBooks with free := rest, shares := w.shares.set f 1 }).Rewrites v Q
      (w.pagesWith (.seenBy p (dirIndex va)) (tableIndex va) (some (.of f prot.entryFlags)))) :
    v.Ledger fun g => if f = g then 0 else extra g + tally (w.userPages (.of p va)) g := by
  have frame := settled.frame_of (Finset.mem_insert_self f O) prot
  have new := l.mint (userPages_minted user live pages) (frame.symm ▸ references_fresh h fresh)
    fun g => by rw [pages.shares, frame, toBooks_book, Shares.get_set]
  rwa [frame] at new

/-- The range of one user page is that page. -/
theorem hits_page (user : va < kernelStart) (x : Position) :
    hits p va 1 (.user x.1 x.2.1) x.2.2 ↔ x = .of p va := by
  obtain ⟨q, d, t⟩ := x
  simp [hits, Position.of, Place.seenBy, dirIndex_user user, and_assoc]

theorem userPages_removed {first last : Nat} (pages : w.Rewrites v O (w.pagesBut p first last)) :
    v.userPages = fun x =>
      if hits p first ((last - first) / pageSize) (.user x.1 x.2.1) x.2.2 then none
      else w.userPages x :=
  userPages_over pages.spaces rfl pages.leaf

theorem givesUp_removed {first last : Nat} (pages : w.Rewrites v O (w.pagesBut p first last)) :
    w.GivesUp v p := by
  intro x
  simp only [userPages_removed pages]
  split
  · rename_i hit
    obtain ⟨i, -, place, -⟩ := hit
    unfold Place.seenBy at place
    split at place
    · exact .inr ⟨(Place.user.inj place).1, rfl⟩
    · cases place
  · exact .inl rfl

theorem Vacated.givesUp (gone : w.Vacated v p O) : w.GivesUp v p := by
  intro x
  simp only [gone.userPages]
  split
  · rename_i here
    exact .inr ⟨here, rfl⟩
  · exact .inl rfl

end Snapshot
end VirtualMemory
