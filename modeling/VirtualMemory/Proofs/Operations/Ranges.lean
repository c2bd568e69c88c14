import VirtualMemory.Proofs.Operations.Pages
import VirtualMemory.Proofs.Operations.Switch

/-!
# Pages of any space

Adding, removing and protecting pages of a space act on the places of that space alone, whichever
space is resident when they are called.
-/
namespace VirtualMemory

open Layout

theorem Layout.isAligned_add_pages {a : Nat} (aligned : isAligned a = true) (k : Nat) :
    isAligned (a + k * pageSize) = true := by
  rw [isAligned_iff] at aligned ⊢
  simp only [pageSize]
  omega

namespace Snapshot

/-- The pages of `w`, changed by `f` at some of their entries. -/
def pagesOver (w : Snapshot) (hit : Place → Nat → Prop) [∀ π t, Decidable (hit π t)]
    (f : Option Entry → Option Entry) : Place → Nat → Option Entry :=
  fun π t => if hit π t then f (w.leaf? π t) else w.leaf? π t

/-- Some page of the `n` from address `first` on is the one at this entry of this place. -/
def hits (p first n : Nat) (π : Place) (t : Nat) : Prop :=
  ∃ i < n, π = .seenBy p (dirIndex (first + i * pageSize)) ∧
    t = tableIndex (first + i * pageSize)

instance (p first n : Nat) (π : Place) (t : Nat) : Decidable (hits p first n π t) :=
  inferInstanceAs (Decidable (∃ i < n, _))

variable {w v : Snapshot} {O : Finset Nat} {p n first : Nat} {f : Option Entry → Option Entry}

theorem hits_zero (p first : Nat) (π : Place) (t : Nat) : ¬ hits p first 0 π t := by
  rintro ⟨i, hi, -⟩
  exact Nat.not_lt_zero i hi

/-- One page more is hit. -/
theorem hits_succ (p first n : Nat) (π : Place) (t : Nat) :
    hits p first (n + 1) π t ↔ hits p first n π t ∨
      (π = .seenBy p (dirIndex (first + n * pageSize)) ∧
        t = tableIndex (first + n * pageSize)) := by
  unfold hits
  simp only [Nat.lt_succ_iff_lt_or_eq, or_and_right, exists_or, exists_eq_left]

theorem Switched.pagesWith (h : w.Settled O) (s : w.Switched v p) (d t : Nat) (new : Option Entry)
    {π : Place} (hπ : w.Has π) (u : Nat) :
    v.pagesWith (v.here d) t new π u = w.pagesWith (.seenBy p d) t new π u := by
  unfold Snapshot.pagesWith
  rw [s.here, h.leaf?_switched s hπ]

/-- One page more has been reached. -/
theorem Rewrites.next {u : Snapshot} (idem : ∀ x, f (f x) = f x)
    (moved : w.Rewrites v O (w.pagesOver (hits p first n) f)) (active : w.spaces.active = p)
    (step : v.Rewrites u O (v.pagesWith (v.here (dirIndex (first + n * pageSize)))
      (tableIndex (first + n * pageSize))
      (f (v.leaf? (v.here (dirIndex (first + n * pageSize)))
        (tableIndex (first + n * pageSize)))))) :
    w.Rewrites u O (w.pagesOver (hits p first (n + 1)) f) := by
  refine (moved.trans step).congr ?_
  intro π t hπ ht
  have leaf := moved.leaf π t hπ ht
  have here : v.here (dirIndex (first + n * pageSize)) =
      .seenBy p (dirIndex (first + n * pageSize)) := by
    rw [here_congr moved.spaces, Snapshot.here, active]
  have grown := hits_succ p first n π t
  unfold Snapshot.pagesWith pagesOver at *
  rw [here]
  by_cases new : π = .seenBy p (dirIndex (first + n * pageSize)) ∧
      t = tableIndex (first + n * pageSize)
  · rw [if_pos new, if_pos (grown.2 (.inr new)), ← new.1, ← new.2, leaf]
    split
    · exact idem _
    · rfl
  · rw [if_neg new, leaf]
    by_cases old : hits p first n π t
    · rw [if_pos old, if_pos (grown.2 (.inl old))]
    · rw [if_neg old, if_neg fun both => (grown.1 both).elim old new]

end Snapshot

open Snapshot

namespace Kernel

variable {E : Failure → Books → Prop} {w : Snapshot} {O : Finset Nat} {p va frame : Nat}

/-- What adding a page does where it is not refused. -/
theorem add_eq (aligned : isAligned va = true) (aligned' : isAligned frame = true) (p : Nat)
    (prot : Protection) : add p va frame prot = within p (do
      map frame (dirIndex va) (tableIndex va) prot
      invalidatePage va) := by
  rw [add, if_neg (by simp [aligned, aligned'])]

/-- What work on a range does where it is not refused. -/
theorem forPages_eq {first last : Nat} (firstAligned : isAligned first = true)
    (lastAligned : isAligned last = true) (ordered : first ≤ last) (p : Nat)
    (body : Nat → Kernel Unit) : forPages p first last body =
      within p (forEach pageSize body first ((last - first) / pageSize)) := by
  rw [forPages, if_neg (by simp [firstAligned, lastAligned]), if_neg (Nat.not_lt.2 ordered)]

theorem add_leads (h : w.Settled O) (live : w.Live p) (aligned : isAligned va = true)
    (hd : dirIndex va < mountTableSlot) (owned : frame ∈ O) (prot : Protection) :
    Leads Depleted (add p va frame prot) w fun _ v => v.Settled O ∧
      w.Remaps v O (w.pagesWith (.seenBy p (dirIndex va)) (tableIndex va)
        (some (.of frame prot.entryFlags))) := by
  have alignedFrame : isAligned frame = true := by
    obtain ⟨role, stable⟩ := h.stable
    exact (stable.isFrame (f := frame) (by simp [stable.data owned])).1
  rw [add_eq aligned alignedFrame]
  refine (within_leads h live (.refl w) Upholds.switched ?_).mono fun _ _ out =>
    ⟨out.1.1, out.1.2, out.2⟩
  intro v s hv upheld
  refine .bind ((map_leads hv hd (tableIndex_lt va) owned prot).mono ?_)
  rintro _ u ⟨hu, moved⟩
  refine (invalidatePage_yields _ _).leads ⟨⟨hu, moved.toRewrites.congr ?_⟩, ?_⟩
  · intro π t hπ _
    exact s.pagesWith h _ _ _ ((s.has π).1 hπ) t
  · exact upheld.trans moved.toUpholds

theorem add_refuses
    (no : ¬ (isAligned va = true ∧ isAligned frame = true ∧ w.Live p)) (prot : Protection) :
    ∃ e, Refuses (add p va frame prot) w e := by
  by_cases aligned : isAligned va = true ∧ isAligned frame = true
  · have dead : ¬ w.Live p := fun live => no ⟨aligned.1, aligned.2, live⟩
    refine ⟨.unknownSpace, ?_⟩
    rw [add_eq aligned.1 aligned.2]
    exact within_refuses dead _
  · refine ⟨.misaligned, ?_⟩
    rw [add, if_pos (by simpa [Bool.or_eq_true] using not_and_or.1 aligned)]
    exact .refuse _ _

theorem forPages_refuses {first last : Nat} (no : ¬ (isAligned first = true ∧
    isAligned last = true ∧ first ≤ last ∧ w.Live p)) (body : Nat → Kernel Unit) :
    ∃ e, Refuses (forPages p first last body) w e := by
  unfold forPages
  by_cases aligned : isAligned first = true ∧ isAligned last = true
  · rw [if_neg (by simp [aligned.1, aligned.2])]
    by_cases ordered : last < first
    · rw [if_pos ordered]
      exact ⟨_, .refuse _ _⟩
    · rw [if_neg ordered]
      refine ⟨_, within_refuses (fun live => no ⟨aligned.1, aligned.2, ?_, live⟩) _⟩
      exact Nat.le_of_not_lt ordered
  · rw [if_pos (by simpa [Bool.or_eq_true] using not_and_or.1 aligned)]
    exact ⟨_, .refuse _ _⟩

/-- A loop over pages changes each of them the way one round does, and keeps what a switch and
every round keep. -/
theorem forPages_leads {body : Nat → Kernel Unit} {f : Option Entry → Option Entry}
    {I : Snapshot → Prop} (ok : Nat → Prop) {first last : Nat} (idem : ∀ x, f (f x) = f x)
    (h : w.Settled O) (live : w.Live p) (firstAligned : isAligned first = true)
    (lastAligned : isAligned last = true) (ordered : first ≤ last)
    (inside : ∀ i < (last - first) / pageSize, ok (first + i * pageSize)) (start : I w)
    (moves : ∀ a b q, a.Settled O → a.Switched b q → I a → I b)
    (step : ∀ v va, v.Settled O → I v → isAligned va = true → ok va →
      Leads E (body va) v fun _ u => (u.Settled O ∧
        v.Rewrites u O (v.pagesWith (v.here (dirIndex va)) (tableIndex va)
          (f (v.leaf? (v.here (dirIndex va)) (tableIndex va))))) ∧ I u) :
    Leads E (forPages p first last body) w fun _ v => (v.Settled O ∧
      w.Rewrites v O (w.pagesOver (hits p first ((last - first) / pageSize)) f)) ∧ I v := by
  rw [forPages_eq firstAligned lastAligned ordered]
  apply within_leads h live start moves
  intro v s hv kept
  have active : v.spaces.active = p := by rw [s.books]
  refine Leads.mono (Leads.forEach
    (fun k u => (u.Settled O ∧ v.Rewrites u O (v.pagesOver (hits p first k) f)) ∧ I u)
    ⟨⟨hv, ?_⟩, kept⟩ ?_) ?_
  · refine (Rewrites.refl v O).congr ?_
    intro π t _ _
    rw [pagesOver, if_neg (hits_zero p first π t)]
  · rintro k u hk ⟨⟨hu, moved⟩, kept⟩
    have aligned := isAligned_add_pages firstAligned k
    refine (step u _ hu kept aligned (inside k hk)).mono ?_
    rintro _ x ⟨⟨hx, moved'⟩, kept'⟩
    exact ⟨⟨hx, moved.next idem active moved'⟩, kept'⟩
  · rintro _ u ⟨⟨hu, moved⟩, kept⟩
    refine ⟨⟨hu, moved.congr ?_⟩, kept⟩
    intro π t hπ _
    unfold pagesOver
    rw [h.leaf?_switched s ((s.has π).1 hπ)]

/-- A range of pages is removed if each of its pages is. -/
theorem remove_each (ok : Nat → Prop) {first last : Nat} (h : w.Settled O) (live : w.Live p)
    (firstAligned : isAligned first = true) (lastAligned : isAligned last = true)
    (ordered : first ≤ last)
    (inside : ∀ i < (last - first) / pageSize, ok (first + i * pageSize))
    (step : ∀ v va, v.Settled O → isAligned va = true → ok va →
      Leads E (unmap va) v fun _ u => u.Settled O ∧
        v.Remaps u O (v.pagesWith (v.here (dirIndex va)) (tableIndex va) none)) :
    Leads E (remove p first last) w fun _ v => v.Settled O ∧
      w.Remaps v O (w.pagesOver (hits p first ((last - first) / pageSize)) fun _ => none) := by
  refine (forPages_leads (f := fun _ => none) ok (fun _ => rfl) h live firstAligned lastAligned
    ordered inside (.refl w) Upholds.switched ?_).mono fun _ _ out => ⟨out.1.1, out.1.2, out.2⟩
  intro v va hv upheld aligned fine
  refine (step v va hv aligned fine).mono ?_
  rintro _ u ⟨hu, moved⟩
  exact ⟨⟨hu, moved.toRewrites⟩, upheld.trans moved.toUpholds⟩

/-- Wherever the range lies, either its pages are removed or the kernel stops. -/
theorem remove_leads {first last : Nat} (h : w.Settled O) (live : w.Live p)
    (firstAligned : isAligned first = true) (lastAligned : isAligned last = true)
    (ordered : first ≤ last) :
    Leads Stops (remove p first last) w fun _ v => v.Settled O ∧
      w.Remaps v O (w.pagesOver (hits p first ((last - first) / pageSize)) fun _ => none) :=
  remove_each (fun _ => True) h live firstAligned lastAligned ordered
    (fun _ _ => trivial) fun _ _ hv aligned _ => unmap_stops hv aligned

/-- Below the window slots nothing stops it. -/
theorem remove_leads_below {first last : Nat} (h : w.Settled O) (live : w.Live p)
    (firstAligned : isAligned first = true) (lastAligned : isAligned last = true)
    (ordered : first ≤ last)
    (low : ∀ i < (last - first) / pageSize, dirIndex (first + i * pageSize) < mountTableSlot) :
    Leads E (remove p first last) w fun _ v => v.Settled O ∧
      w.Remaps v O (w.pagesOver (hits p first ((last - first) / pageSize)) fun _ => none) :=
  remove_each (fun va => dirIndex va < mountTableSlot) h live firstAligned lastAligned ordered
    low fun _ _ hv aligned hd => unmap_leads hv aligned hd

theorem protect_leads {first last : Nat} (h : w.Settled O) (live : w.Live p)
    (firstAligned : isAligned first = true) (lastAligned : isAligned last = true)
    (ordered : first ≤ last) (prot : Protection)
    (low : ∀ i < (last - first) / pageSize, dirIndex (first + i * pageSize) < mountTableSlot) :
    Leads E (protect p first last prot) w fun _ v => v.Settled O ∧
      w.Rewrites v O (w.pagesOver (hits p first ((last - first) / pageSize))
        (Option.map fun e => .of e.frame prot.entryFlags)) := by
  refine (forPages_leads (I := fun _ => True) (fun va => dirIndex va < mountTableSlot) ?_ h live
    firstAligned lastAligned ordered low trivial (fun _ _ _ _ _ => id) ?_).mono fun _ _ => And.left
  · intro x
    cases x <;> simp
  · intro v va hv _ _ hd
    exact (protectPage_leads hv hd prot).mono fun _ _ out => ⟨out, trivial⟩

/-! ## Fresh pages -/

/-- A fresh page is a frame of the pool that nobody has known, counted once. -/
theorem mapFresh_leads (h : w.Settled O) (hd : dirIndex va < mountTableSlot) (prot : Protection) :
    Leads Stops (mapFresh p va prot) w fun f v => ∃ rest, w.free = f :: rest ∧ w.Live p ∧
      v.Settled (insert f O) ∧
      (w.book { w.toBooks with free := rest, shares := w.shares.set f 1 }).Remaps v (insert f O)
        (w.pagesWith (.seenBy p (dirIndex va)) (tableIndex va)
          (some (.of f prot.entryFlags))) := by
  refine .bind ((takeFrame_leads ?_).weaken fun _ _ => Exhausted.stops)
  intro f rest first
  obtain ⟨handed, -, inside, hm, -, -⟩ := h.hand first
  refine (setShareCount_yields f 1 _).bind (.bind ?_)
  set u := w.book { w.toBooks with free := rest, shares := w.shares.set f 1 } with hu
  have counted : u.Settled (insert f O) := handed.setShare inside hm 1
  by_cases refused : isAligned va = true ∧ w.Live p
  · obtain ⟨aligned, live⟩ := refused
    have adding := add_leads counted (p := p) live aligned hd (Finset.mem_insert_self f O) prot
    refine .attempt (adding.weaken fun _ _ => Depleted.stops) (fun e _ no => no e rfl) ?_
    rintro _ v ⟨hv, moved⟩
    refine .pure ⟨rest, first, live, hv, moved.congr ?_⟩
    intro π t _ _
    unfold Snapshot.pagesWith
    rw [hu, leaf?_book (by rfl)]
  · obtain ⟨e, no⟩ := add_refuses (w := u) (fun ok => refused ⟨ok.1, ok.2.2⟩) prot
    exact no.attempt.leads (.violate fun _ => by simp)

end Kernel
end VirtualMemory
