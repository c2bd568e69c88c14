import VirtualMemory.Proofs.Operations.Frames
import VirtualMemory.Proofs.Outline.Pages

/-!
# Two runs of one action

An action is run on two snapshots that have the same books and differ only in frames that are free
or hidden. Where it reads no such frame it answers the same in both, or fails the same, and the ends
differ no more than the starts did. Which frames it reads is known from the left run alone.
-/
namespace VirtualMemory

open Layout

namespace Snapshot

/-- The same books and the same memory, but for the frames that are free and those in `K`. -/
structure Alike (w v : Snapshot) (K : Finset Nat) : Prop where
  root : v.root = w.root
  size : v.size = w.size
  books : v.toBooks = w.toBooks
  page : ∀ f, f ∉ w.free → f ∉ K → v.page f = w.page f

namespace Alike

variable {w v : Snapshot} {K : Finset Nat} {f i : Nat}

theorem refl (w : Snapshot) (K : Finset Nat) : w.Alike w K := ⟨rfl, rfl, rfl, fun _ _ _ => rfl⟩

theorem spaces (h : w.Alike v K) : v.spaces = w.spaces := congrArg Books.spaces h.books
theorem free (h : w.Alike v K) : v.free = w.free := congrArg Books.free h.books
theorem shares (h : w.Alike v K) : v.shares = w.shares := congrArg Books.shares h.books
theorem occupancy (h : w.Alike v K) : v.occupancy = w.occupancy := congrArg Books.occupancy h.books

theorem setPage (h : w.Alike v K) {p q : Page} (same : f ∉ w.free → f ∉ K → q = p) :
    (w.setPage f p).Alike (v.setPage f q) K where
  root := h.root
  size := h.size
  books := h.books
  page g hg hK := by
    rw [page_setPage, page_setPage]
    split
    · subst g
      exact same hg hK
    · exact h.page g hg hK

theorem setEntry (h : w.Alike v K) (f i : Nat) (e : Entry) :
    (w.setEntry f i e).Alike (v.setEntry f i e) K :=
  h.setPage fun hf hK => by rw [h.page f hf hK]

/-- Books that have no fewer free frames. -/
theorem book (h : w.Alike v K) {b : Books} (grows : ∀ f ∈ w.free, f ∈ b.free) :
    (w.book b).Alike (v.book b) K :=
  ⟨h.root, h.size, rfl, fun f hf => h.page f fun mem => hf (grows f mem)⟩

/-- A free frame is taken as it is. -/
theorem take (h : w.Alike v K) {rest : List Nat} (first : w.free = f :: rest) :
    (w.book { w.toBooks with free := rest }).Alike (v.book { v.toBooks with free := rest })
      (insert f K) where
  root := h.root
  size := h.size
  books := by rw [h.books]; rfl
  page g hg hK := by
    rw [Finset.mem_insert, not_or] at hK
    refine h.page g ?_ hK.2
    rw [first, List.mem_cons, not_or]
    exact ⟨hK.1, hg⟩

/-- A hidden frame is written all over. -/
theorem reveal (h : w.Alike v (insert f K)) (p : Page) :
    (w.setPage f p).Alike (v.setPage f p) K where
  root := h.root
  size := h.size
  books := h.books
  page g hg hK := by
    rw [page_setPage, page_setPage]
    split
    · rfl
    · refine h.page g hg fun mem => ?_
      exact (Finset.mem_insert.1 mem).elim ‹_› hK

/-- A free frame is taken and cleared. -/
theorem takeCleared (h : w.Alike v K) {rest : List Nat} (first : w.free = f :: rest) :
    ((w.book { w.toBooks with free := rest }).setPage f Page.zero).Alike
      ((v.book { w.toBooks with free := rest }).setPage f Page.zero) K := by
  have taken := (h.take first).reveal Page.zero
  rwa [h.books] at taken

theorem bound (h : w.Alike v K) (page : v.page f = w.page f) (d : Nat) (prot : Protection) :
    (w.bound f d prot).Alike (v.bound f d prot) K := by
  rw [Snapshot.bound, Snapshot.bound, h.root, h.books, page]
  have seeded := h.book (b := { w.toBooks with
    occupancy := w.occupancy.seed f (w.page f).presentCount }) fun _ => id
  exact seeded.setEntry w.root d _

end Alike
end Snapshot

open Snapshot

namespace Kernel

variable {α β : Type} {E : Failure → Books → Prop} {x : Kernel α} {w v w' v' : Snapshot} {a : α}
  {Q : α → Snapshot → Snapshot → Prop} {R : β → Snapshot → Snapshot → Prop}

/-- Run from states with snapshots `w` and `v`, the action answers the same and ends in `Q`, or it
fails the same. -/
def Twins (x : Kernel α) (w v : Snapshot) (Q : α → Snapshot → Snapshot → Prop) : Prop :=
  ∀ s t : KernelState, s.snapshot = w → t.snapshot = v →
    (∃ a s' t', x s = .ok a s' ∧ x t = .ok a t' ∧ Q a s'.snapshot t'.snapshot) ∨
      ∃ f s' t', x s = .error f s' ∧ x t = .error f t'

namespace Twins

theorem mono {P : α → Snapshot → Snapshot → Prop} (h : Twins x w v Q)
    (hQ : ∀ a w' v', Q a w' v' → P a w' v') : Twins x w v P := by
  intro s t hs ht
  obtain ⟨a, s', t', hx, hy, ends⟩ | failed := h s t hs ht
  · exact .inl ⟨a, s', t', hx, hy, hQ _ _ _ ends⟩
  · exact .inr failed

/-- What is known of the left run holds at its end. -/
theorem along {P : α → Snapshot → Prop} (h : Twins x w v Q) (left : Leads E x w P) :
    Twins x w v fun a w' v' => P a w' ∧ Q a w' v' := by
  intro s t hs ht
  have known := left s hs
  obtain ⟨a, s', t', hx, hy, ends⟩ | failed := h s t hs ht
  · rw [hx] at known
    exact .inl ⟨a, s', t', hx, hy, known, ends⟩
  · exact .inr failed

theorem of_yields (h : Yields x w a w') (h' : Yields x v a v') (ends : Q a w' v') :
    Twins x w v Q := by
  intro s t hs ht
  obtain ⟨s', hx, rfl⟩ := h s hs
  obtain ⟨t', hy, rfl⟩ := h' t ht
  exact .inl ⟨a, s', t', hx, hy, ends⟩

theorem pure (h : Q a w v) : Twins (Pure.pure a) w v Q := .of_yields (.pure a w) (.pure a v) h

theorem bind {k : α → Kernel β} (h : Twins x w v fun a w' v' => Twins (k a) w' v' R) :
    Twins (x >>= k) w v R := by
  intro s t hs ht
  obtain ⟨a, s', t', hx, hy, ends⟩ | ⟨f, s', t', hx, hy⟩ := h s t hs ht
  · rw [bind_of_ok hx, bind_of_ok hy]
    exact ends s' t' rfl rfl
  · exact .inr ⟨f, s', t', bind_of_error hx _, bind_of_error hy _⟩

/-- A step whose outcome is known on both sides. -/
theorem step {k : α → Kernel β} (h : Yields x w a w') (h' : Yields x v a v')
    (hk : Twins (k a) w' v' R) : Twins (x >>= k) w v R := bind (.of_yields h h' hk)

theorem ite {c : Prop} [Decidable c] {y : Kernel α} (hx : c → Twins x w v Q)
    (hy : ¬ c → Twins y w v Q) : Twins (if c then x else y) w v Q := by
  split
  · exact hx ‹_›
  · exact hy ‹_›

theorem discard {P : Unit → Snapshot → Snapshot → Prop}
    (h : Twins x w v fun _ w' v' => P () w' v') : Twins (discard x) w v P := by
  have answered {s s' : KernelState} {a : α} (run : x s = .ok a s') :
      Functor.discard x s = .ok () s' := by
    simp [Functor.discard, Functor.mapConst, EStateM.map, run]
  have failed {s s' : KernelState} {f : Failure} (run : x s = .error f s') :
      Functor.discard x s = .error f s' := by
    simp [Functor.discard, Functor.mapConst, EStateM.map, run]
  intro s t hs ht
  obtain ⟨a, s', t', hx, hy, ends⟩ | ⟨f, s', t', hx, hy⟩ := h s t hs ht
  · exact .inl ⟨(), s', t', answered hx, answered hy, ends⟩
  · exact .inr ⟨f, s', t', failed hx, failed hy⟩

/-- Refusals are answers then, and what refuses nothing has none. -/
theorem attempt {P : Except ArgumentError α → Snapshot → Snapshot → Prop} (h : Twins x w v Q)
    (left : Leads Stops x w fun _ _ => True) (hP : ∀ a w' v', Q a w' v' → P (.ok a) w' v') :
    Twins (Kernel.attempt x) w v P := by
  have answered {s s' : KernelState} {a : α} (run : x s = .ok a s') :
      Kernel.attempt x s = .ok (.ok a) s' := by rw [Kernel.attempt, run]
  have failed {s s' : KernelState} {f : Failure} (stops : ∀ e, f ≠ .argument e)
      (run : x s = .error f s') : Kernel.attempt x s = .error f s' := by
    rw [Kernel.attempt, run]
    cases f with
    | argument e => exact absurd rfl (stops e)
    | halt _ => rfl
    | violation _ => rfl
  intro s t hs ht
  have known := left s hs
  obtain ⟨a, s', t', hx, hy, ends⟩ | ⟨f, s', t', hx, hy⟩ := h s t hs ht
  · exact .inl ⟨.ok a, s', t', answered hx, answered hy, hP _ _ _ ends⟩
  · rw [hx] at known
    exact .inr ⟨f, s', t', failed known hx, failed known hy⟩

theorem halt (h : Halt) : Twins (Kernel.halt h) w v Q := fun _ _ _ _ => .inr ⟨_, _, _, rfl, rfl⟩

theorem violate (c : Violation) : Twins (Kernel.violate c) w v Q :=
  fun _ _ _ _ => .inr ⟨_, _, _, rfl, rfl⟩

/-- A look at the state that comes to the same on both sides. -/
theorem get {k : KernelState → Kernel α}
    (same : ∀ s t : KernelState, s.snapshot = w → t.snapshot = v → k t = k s)
    (h : ∀ s : KernelState, s.snapshot = w → Twins (k s) w v Q) : Twins (get >>= k) w v Q := by
  intro s t hs ht
  have right : (MonadState.get >>= k) t = k s t := by
    rw [← same s t hs ht]
    rfl
  rw [right]
  exact h s hs s t hs ht

theorem forEach {step start n : Nat} {body : Nat → Kernel Unit}
    (I : Nat → Snapshot → Snapshot → Prop) (first : I 0 w v)
    (round : ∀ k w' v', k < n → I k w' v' →
      Twins (body (start + k * step)) w' v' fun _ w'' v'' => I (k + 1) w'' v'') :
    Twins (forEach step body start n) w v fun _ w' v' => I n w' v' := by
  induction n generalizing start w v I with
  | zero => exact .pure first
  | succ n ih =>
    have one := round 0 w v (by omega) first
    rw [Nat.zero_mul, Nat.add_zero] at one
    refine .bind (one.mono fun _ w' v' next => ih (fun k => I (k + 1)) next ?_)
    intro k w'' v'' hk h
    have more := round (k + 1) w'' v'' (by omega) h
    rwa [show start + (k + 1) * step = start + step + k * step by rw [Nat.succ_mul]; omega] at more

theorem sumEach {start n : Nat} {body : Nat → Kernel Nat}
    (I : Nat → Snapshot → Snapshot → Prop) (first : I 0 w v)
    (round : ∀ k w' v', k < n → I k w' v' →
      Twins (body (start + k)) w' v' fun _ w'' v'' => I (k + 1) w'' v'') :
    Twins (sumEach body start n) w v fun _ w' v' => I n w' v' := by
  induction n generalizing start w v I with
  | zero => exact .pure first
  | succ n ih =>
    have one := round 0 w v (by omega) first
    rw [Nat.add_zero] at one
    refine .bind (one.mono fun _ w' v' next => .bind ?_)
    refine (ih (fun k => I (k + 1)) next ?_).mono fun _ _ _ h => .pure h
    intro k w'' v'' hk h
    have more := round (k + 1) w'' v'' (by omega) h
    rwa [show start + (k + 1) = start + 1 + k by omega] at more

/-- The clean-up is known on both sides. -/
theorem ensuring {cleanup : Kernel Unit} (h : Twins x w v fun a w' v' => ∃ w'' v'',
      Yields cleanup w' () w'' ∧ Yields cleanup v' () v'' ∧ Q a w'' v'') :
    Twins (Kernel.ensuring x cleanup) w v Q := by
  have answered {s s' t : KernelState} {a : α} (run : x s = .ok a s')
      (cleaned : cleanup s' = .ok () t) : Kernel.ensuring x cleanup s = .ok a t := by
    simp only [Kernel.ensuring, run, SeqRight.seqRight, EStateM.seqRight, cleaned]
    rfl
  have failed {s s' : KernelState} {f : Failure} (run : x s = .error f s') :
      ∃ t, Kernel.ensuring x cleanup s = .error f t := by
    rw [Kernel.ensuring, run]
    cases cleaned : cleanup s' <;> simp [cleaned]
  intro s t hs ht
  obtain ⟨a, s', t', hx, hy, w'', v'', left, right, ends⟩ | ⟨f, s', t', hx, hy⟩ := h s t hs ht
  · obtain ⟨s'', hx', rfl⟩ := left s' rfl
    obtain ⟨t'', hy', rfl⟩ := right t' rfl
    exact .inl ⟨a, s'', t'', answered hx hx', answered hy hy', ends⟩
  · obtain ⟨s'', hx'⟩ := failed hx
    obtain ⟨t'', hy'⟩ := failed hy
    exact .inr ⟨f, s'', t'', hx', hy'⟩

end Twins
end Kernel
end VirtualMemory
