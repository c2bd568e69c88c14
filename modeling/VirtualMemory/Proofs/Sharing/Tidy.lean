import VirtualMemory.Proofs.Sharing.Guarded

/-!
# Counts that tell who may write

As long as every frame is mapped fresh and then only forked, faulted on and written to, all pages
are guarded, and what may be written is counted once. So a count above one says that nobody may
write to the frame.
-/
namespace VirtualMemory

namespace Snapshot

open Layout

structure Tidy (w : Snapshot) (O : Finset Nat) : Prop extends w.Guarded fun _ => True where
  tight : ∀ x e, w.userPages x = some e → e.isWritable = true → w.shares.get e.frame ≤ 1
  /-- The counts of frames that callers do not hold are zero. -/
  uncounted : ∀ f, f ∉ O → w.shares.get f = 0
  held : w.KernelHeld O

variable {w v : Snapshot} {O Q : Finset Nat} {ρ : Place} {e : Entry} {parent child p va t f : Nat}

/-- A new space maps nothing. -/
theorem Admitted.mappings (h : w.Settled O) (a : w.Admitted v p O) (f : Nat) :
    v.mappings f = w.mappings f := by
  obtain ⟨role, stable⟩ := h.stable
  have find (q : Nat) : v.spaces.find? q =
      if w.spaces.nextId = q then some ⟨p, 1⟩ else w.spaces.find? q := by
    rw [a.spaces]
    exact Spaces.find?_put ..
  have has (π : Place) : v.Has π ↔ w.Has π ∨ ∃ d < userSlots, π = .user w.spaces.nextId d := by
    cases π with
    | kernel d => simp [Has]
    | user q d =>
      simp only [Has, Live, find, Place.user.injEq]
      by_cases new : w.spaces.nextId = q
      · subst new
        simp
      · simp [new, Ne.symm new]
  ext ⟨π, t⟩
  rw [Snapshot.mappings, Snapshot.mappings, Set.mem_ofPred_eq, Set.mem_ofPred_eq, has]
  constructor
  · rintro ⟨old | ⟨d, -, rfl⟩, ht, there⟩
    · exact ⟨old, ht, a.leaf π t old ▸ there⟩
    · simp [a.fresh] at there
  · rintro ⟨old, ht, there⟩
    exact ⟨.inl old, ht, (a.leaf π t old).symm ▸ there⟩

namespace Tidy

theorem same (tidy : w.Tidy O) (mappings : ∀ f, v.mappings f = w.mappings f)
    (shares : v.shares = w.shares) (pages : v.userPages = w.userPages) (held : v.KernelHeld O) :
    v.Tidy O where
  toGuarded := tidy.toGuarded.same mappings shares pages
  tight x e page := by
    rw [shares]
    exact tidy.tight x e (pages ▸ page)
  uncounted f fresh := by
    rw [shares]
    exact tidy.uncounted f fresh
  held := held

/-- A frame that nobody has known comes in, counted once. -/
theorem put (h : w.Settled O) (tidy : w.Tidy O) (spaces : v.spaces = w.spaces)
    (leaf : ∀ π i, w.Has π → i < tableEntries → v.leaf? π i = w.pagesWith ρ t (some e) π i)
    (frame : e.frame = f) (fresh : f ∉ O) (one : v.shares.get f = 1)
    (others : ∀ g, g ≠ f → v.shares.get g = w.shares.get g ∨
      (ρ, t) ∈ w.mappings g ∧ v.shares.get g = w.shares.get g - 1) : v.Tidy (insert f O) := by
  subst frame
  have unmapped := h.mappings_fresh tidy.held fresh
  have fewer (g : Nat) (other : g ≠ e.frame) : v.shares.get g ≤ w.shares.get g := by
    rcases others g other with same | ⟨-, lost⟩ <;> omega
  refine ⟨tidy.toGuarded.put h spaces leaf unmapped (by omega) others, ?_, ?_, ?_⟩
  · intro x e' page writable
    obtain ⟨-, ⟨⟩⟩ | ⟨-, old⟩ := userPages_with spaces leaf page
    · exact one.le
    · have apart : e'.frame ≠ e.frame := fun eq => fresh (eq ▸ h.userPages_owned old)
      exact (fewer _ apart).trans (tidy.tight x e' old writable)
  · intro g hg
    obtain ⟨other, unknown⟩ := not_or.1 (Finset.mem_insert.not.1 hg)
    have less := fewer g other
    rw [tidy.uncounted g unknown] at less
    exact Nat.le_zero.1 less
  · refine tidy.held.write (Finset.subset_insert _ _) ?_ leaf
    rintro _ ⟨⟩
    exact Finset.mem_insert_self _ _

theorem created (h : w.Settled O) (tidy : w.Tidy O) (a : w.Admitted v f O) : v.Tidy O :=
  tidy.same (a.mappings h) a.shares (a.userPages h)
    (tidy.held.of_leaf (Finset.Subset.refl _) fun _ t hd _ => a.leaf _ t hd)

theorem switched (h : w.Settled O) (tidy : w.Tidy O) (s : w.Switched v p) : v.Tidy O :=
  tidy.same (mappings_switched h s) (by rw [s.books]) (s.userPages h)
    (tidy.held.of_leaf (Finset.Subset.refl _) fun d t hd _ => h.leaf?_switched s hd t)

theorem setPage (h : w.Settled O) (tidy : w.Tidy O) (hf : f ∈ O) (page : Page) :
    (w.setPage f page).Tidy O :=
  tidy.same (mappings_setPage h hf page) rfl (userPages_setPage h hf page)
    (tidy.held.of_leaf (Finset.Subset.refl _) fun _ t hd _ => (h.setPage hf page).2 _ t hd)

theorem minted {rest : List Nat} {prot : Protection} (h : w.Settled O) (tidy : w.Tidy O)
    (fresh : f ∉ O) (settled : v.Settled (insert f O))
    (pages : (w.book { w.toBooks with free := rest, shares := w.shares.set f 1 }).Rewrites v Q
      (w.pagesWith (.seenBy p (dirIndex va)) (tableIndex va) (some (.of f prot.entryFlags)))) :
    v.Tidy (insert f O) := by
  refine tidy.put h pages.spaces
    (fun π i hπ hi => pages.leaf π i ((has_congr (by rfl) π).2 hπ) hi)
    (settled.frame_of (Finset.mem_insert_self _ _) prot) fresh ?_ ?_
  · rw [pages.shares, toBooks_book, Shares.get_set, if_pos rfl]
  · intro g other
    rw [pages.shares, toBooks_book, Shares.get_set, if_neg other.symm]
    exact .inl rfl

theorem resolved (h : w.Settled O) (tidy : w.Tidy O) (hd : dirIndex va < mountTableSlot)
    (r : w.Resolved O va v Q) : v.Tidy Q := by
  cases r with
  | untouched => exact tidy
  | @granted v e page lone settled pages =>
    have r : w.Resolved O va v O := .granted page lone settled pages
    refine ⟨tidy.toGuarded.resolved h tidy.held hd r, ?_, ?_, tidy.held.resolved h hd r⟩
    · intro x e' page' writable
      rw [pages.shares]
      obtain ⟨-, ⟨⟩⟩ | ⟨-, old⟩ := userPages_with pages.spaces pages.leaf page'
      · rw [Entry.frame_set_writable, lone]
      · exact tidy.tight x e' old writable
    · intro g fresh
      rw [pages.shares]
      exact tidy.uncounted g fresh
  | @copied v e copy page several replaced =>
    obtain ⟨one, others⟩ := replaced.counts h tidy.held hd page
    rw [tidy.uncounted copy replaced.fresh] at one
    exact tidy.put h replaced.spaces replaced.leaf replaced.frame replaced.fresh one others

theorem forked (h : w.Settled O) (tidy : w.Tidy O) (live : w.Live parent) (live' : w.Live child)
    (fork : w.Forked v O parent child) : v.Tidy O := by
  refine ⟨?_, ?_, ?_, tidy.held.of_leaf (Finset.Subset.refl _) fun d t hd ht =>
    fork.leaf _ t hd ht⟩
  · exact (Guarded.forked h live live' fork tidy.backed trivial
      fun x e mine => tidy.lone x e mine.1).mono fun _ => .inl
  · intro x e page writable
    rw [fork.userPages live live', forkedUserPages] at page
    split at page
    · obtain ⟨e', -, rfl⟩ := Option.map_eq_some_iff.1 page
      simp at writable
    · rename_i outside
      rw [fork.shares, tidy.lone.pagesIn_eq_zero h trivial page writable live
        fun eq => outside (.inl eq.symm)]
      exact tidy.tight x e page writable
  · intro f fresh
    rw [fork.shares, tidy.uncounted f fresh, pagesIn_eq_card live, references_fresh h fresh]
    rfl

end Tidy

theorem Booted.tidy (h : w.Booted 0) (O : Finset Nat) : w.Tidy O := by
  have none (x : Position) (e : Entry) : w.userPages x ≠ some e := by
    rw [userPages_of_vacant (p := x.1) (fun _ => h.vacant x.1) x.2]
    exact (Option.some_ne_none e).symm
  refine ⟨⟨fun x e _ page => absurd page (none x e), fun x e _ page => absurd page (none x e)⟩,
    fun x e page => absurd page (none x e), fun f _ => h.shares f, h.kernelHeld O⟩

/-- Calls that map fresh frames, share them by forks, and let programs run. -/
def Plain (w : Snapshot) (O : Finset Nat) : Call → Prop
  | .create => True
  | .mapFresh _ va _ => dirIndex va < mountTableSlot
  | .fork parent child => w.ForksInto parent child
  | c => w.Runs O c

variable {c : Call} {r : Except ArgumentError Answer}

theorem Plain.permits (allowed : w.Plain O c) : w.Permits O c := by
  cases c with
  | create => trivial
  | mapFresh | fork => exact allowed
  | _ => exact Runs.permits allowed

theorem Tidy.effect (h : w.Settled O) (tidy : w.Tidy O) (allowed : w.Plain O c)
    (effect : w.Effect O c r v Q) : v.Tidy Q := by
  cases effect with
  | refused => exact tidy
  | created _ admitted => exact tidy.created h admitted
  | minted fresh _ settled pages => exact tidy.minted h fresh settled pages.toRewrites
  | switched _ _ switched => exact tidy.switched h switched
  | forked live live' _ _ _ forked => exact tidy.forked h live live' forked
  | faulted resolved => exact tidy.resolved h allowed resolved
  | stored user resolved page =>
    have settled := resolved.settled h
    exact (tidy.resolved h (dirIndex_user_lt user) resolved).setPage settled
      (settled.pageAt?_owned user page) _
  | reowned call | vacated call | taken call => rcases call with rfl | rfl | rfl <;> cases allowed
  | _ => cases allowed

end Snapshot

/-- Every session that never gives up a page nor changes its rights is tidy. -/
theorem Session.Reaches.tidy {n : Nat} {σ : Session} (small : Ram.Addressable n)
    (h : Session.Reaches Snapshot.Plain n 0 [] σ) :
    σ.snapshot.Settled σ.held ∧ σ.snapshot.Tidy σ.held :=
  h.induction (fun _ _ _ => Snapshot.Plain.permits) small (KernelState.prepares_nil n)
    (fun _ _ booted => booted.tidy _) fun _ _ _ _ _ _ settled tidy allowed effect =>
      tidy.effect settled allowed effect

end VirtualMemory
