import VirtualMemory.Kernel.Sharing
import VirtualMemory.Proofs.Wiring

/-!
# Runs from one state

`Ends` describes one run of an action by the whole state that it ends in, with a condition of its
own for the states that a failure leaves behind; so it can speak of the trace of the bus, and of
what is put back when an action is cut short. An action that only `Looks` ends in the state it
started from, whether it fails or not; one that only `Counts` has changed nothing but counts.
-/
namespace VirtualMemory.Kernel

open Layout Snapshot

variable {α β : Type} {F G : KernelState → Prop} {x : Kernel α} {s : KernelState}
  {Q R : α → KernelState → Prop}

/-- Run from `s`, the action ends in `Q`, or it fails in `F`. -/
def Ends (F : KernelState → Prop) (x : Kernel α) (s : KernelState)
    (Q : α → KernelState → Prop) : Prop :=
  match x s with
  | .ok a t => Q a t
  | .error _ t => F t

namespace Ends

theorem ok {a : α} {t : KernelState} (h : Ends F x s Q) (run : x s = .ok a t) : Q a t := by
  rwa [Ends, run] at h

theorem error {e : Failure} {t : KernelState} (h : Ends F x s Q) (run : x s = .error e t) :
    F t := by
  rwa [Ends, run] at h

/-- Of an action of which nothing is asked. -/
theorem any (x : Kernel α) (s : KernelState) : Ends (fun _ => True) x s fun _ _ => True := by
  unfold Ends
  split <;> trivial

theorem of_ok {a : α} {t : KernelState} (run : x s = .ok a t) (h : Q a t) : Ends F x s Q := by
  rwa [Ends, run]

theorem of_error {e : Failure} {t : KernelState} (run : x s = .error e t) (h : F t) :
    Ends F x s Q := by
  rwa [Ends, run]

/-- The run itself is known of its end. -/
theorem ran (h : Ends F x s Q) : Ends F x s fun a t => x s = .ok a t ∧ Q a t := by
  unfold Ends at *
  cases run : x s with
  | ok a t => exact ⟨rfl, by rwa [run] at h⟩
  | error e t => rwa [run] at h

theorem of_yields {a : α} {v : Snapshot} (h : Yields x s.snapshot a v) :
    Ends F x s fun b t => b = a ∧ t.snapshot = v := by
  obtain ⟨t, run, ht⟩ := h s rfl
  exact of_ok run ⟨rfl, ht⟩

theorem of_leads {P : α → Snapshot → Prop} (h : Leads (fun _ _ => False) x s.snapshot P) :
    Ends F x s fun a t => P a t.snapshot := by
  obtain ⟨a, t, run, ht⟩ := h.succeeds
  exact of_ok run ht

theorem of_leads_unless {E : Failure → Books → Prop} {P : α → Snapshot → Prop}
    (h : Leads E x s.snapshot P) : Ends (fun _ => True) x s fun a t => P a t.snapshot := by
  have ends := h s rfl
  unfold Ends
  cases run : x s with
  | ok a t => rwa [run] at ends
  | error e t => trivial

theorem congr {y : Kernel α} (h : Ends F y s Q) (same : x s = y s) : Ends F x s Q := by
  rwa [Ends, same]

theorem mono (h : Ends F x s Q) (hQ : ∀ a t, Q a t → R a t) : Ends F x s R := by
  unfold Ends at *
  cases run : x s with
  | ok a t => exact hQ a t (by rwa [run] at h)
  | error e t => rwa [run] at h

theorem weaken (h : Ends F x s Q) (hF : ∀ t, F t → G t) : Ends G x s Q := by
  unfold Ends at *
  cases run : x s with
  | ok a t => rwa [run] at h
  | error e t => exact hF t (by rwa [run] at h)

/-- What is known of a success besides. -/
theorem both (h : Ends F x s Q) (h' : Ends (fun _ => True) x s R) :
    Ends F x s fun a t => Q a t ∧ R a t := by
  unfold Ends at *
  cases run : x s with
  | ok a t =>
    rw [run] at h h'
    exact ⟨h, h'⟩
  | error e t => rwa [run] at h

theorem pure {a : α} (h : Q a s) : Ends F (Pure.pure a) s Q := h

theorem bind {k : α → Kernel β} {R : β → KernelState → Prop}
    (h : Ends F x s fun a t => Ends F (k a) t R) : Ends F (x >>= k) s R := by
  unfold Ends at *
  cases run : x s with
  | ok a t =>
    rw [run] at h
    rwa [bind_of_ok run]
  | error e t =>
    rw [run] at h
    rwa [bind_of_error run]

theorem ite {c : Prop} [Decidable c] {y : Kernel α} (hx : c → Ends F x s Q)
    (hy : ¬ c → Ends F y s Q) : Ends F (if c then x else y) s Q := by
  split
  · exact hx ‹_›
  · exact hy ‹_›

theorem get {k : KernelState → Kernel α} (h : Ends F (k s) s Q) : Ends F (get >>= k) s Q := h

theorem modify {g : KernelState → KernelState} {Q : Unit → KernelState → Prop}
    (h : Q () (g s)) : Ends F (modify g) s Q := h

theorem violate {v : Violation} (h : F s) : Ends F (violate v) s Q := h

theorem refuse {e : ArgumentError} (h : F s) : Ends F (refuse e) s Q := h

theorem halt {r : Halt} (h : F { s with events := .fatal r :: s.events }) :
    Ends F (halt r) s Q := h

theorem discard {Q : Unit → KernelState → Prop} (h : Ends F x s fun _ t => Q () t) :
    Ends F (discard x) s Q := by
  unfold Ends at *
  cases run : x s with
  | ok a t =>
    rw [run] at h
    simpa [Functor.discard, Functor.mapConst, Functor.map, EStateM.map, run] using h
  | error e t =>
    rw [run] at h
    simpa [Functor.discard, Functor.mapConst, Functor.map, EStateM.map, run] using h

/-- A refusal that is handed back as a value is no failure any more. -/
theorem attempt {Q : Except ArgumentError α → KernelState → Prop}
    (h : Ends F x s fun a t => Q (.ok a) t) (hF : ∀ e t, F t → Q (.error e) t) :
    Ends F (attempt x) s Q := by
  unfold Ends Kernel.attempt at *
  cases run : x s with
  | ok a t => rwa [run] at h
  | error f t =>
    rw [run] at h
    cases f with
    | argument e => exact hF e t h
    | halt _ => exact h
    | violation _ => exact h

/-- What a failing body leaves behind, the cleanup finds. -/
theorem ensuring {cleanup : Kernel Unit}
    (h : Ends (fun t => Ends F cleanup t fun _ u => F u) x s
      fun a t => Ends F cleanup t fun _ u => Q a u) : Ends F (ensuring x cleanup) s Q := by
  unfold Ends Kernel.ensuring at *
  cases run : x s with
  | ok a t =>
    simp only [run] at h ⊢
    cases clean : cleanup t <;>
      simp only [clean, SeqRight.seqRight, EStateM.seqRight] at h ⊢ <;> exact h
  | error e t =>
    simp only [run] at h ⊢
    cases clean : cleanup t <;> simpa only [clean] using h

theorem forEach {step start n : Nat} {body : Nat → Kernel Unit} {I : Nat → KernelState → Prop}
    (first : I 0 s)
    (round : ∀ k t, k < n → I k t → Ends F (body (start + k * step)) t fun _ u => I (k + 1) u) :
    Ends F (forEach step body start n) s fun _ t => I n t := by
  induction n generalizing start s I with
  | zero => exact .pure first
  | succ n ih =>
    have one := round 0 s (by omega) first
    rw [Nat.zero_mul, Nat.add_zero] at one
    refine .bind (one.mono fun _ t ht => ih (I := fun k => I (k + 1)) ht fun k u hk hu => ?_)
    have next := round (k + 1) u (by omega) hu
    rwa [show start + (k + 1) * step = start + step + k * step by rw [Nat.succ_mul]; omega] at next

theorem sumEach {start n : Nat} {body : Nat → Kernel Nat} {I : Nat → KernelState → Prop}
    (first : I 0 s)
    (round : ∀ k t, k < n → I k t → Ends F (body (start + k)) t fun _ u => I (k + 1) u) :
    Ends F (sumEach body start n) s fun _ t => I n t := by
  induction n generalizing start s I with
  | zero => exact .pure first
  | succ n ih =>
    have one := round 0 s (by omega) first
    rw [Nat.add_zero] at one
    refine .bind (one.mono fun _ t ht => .bind ?_)
    refine (ih (I := fun k => I (k + 1)) ht fun k u hk hu => ?_).mono fun _ _ h => .pure h
    have next := round (k + 1) u (by omega) hu
    rwa [show start + (k + 1) = start + 1 + k by omega] at next

end Ends

/-! ## Looking -/

/-- The action leaves the whole state alone, also where it fails. -/
def Looks (x : Kernel α) : Prop := ∀ s, Ends (· = s) x s fun _ t => t = s

namespace Looks

theorem pure (a : α) : Looks (Pure.pure a) := fun _ => .pure rfl

theorem bind {k : α → Kernel β} (hx : Looks x) (hk : ∀ a, Looks (k a)) : Looks (x >>= k) := by
  intro s
  refine .bind ((hx s).mono ?_)
  rintro a _ rfl
  exact hk a _

theorem ite {c : Prop} [Decidable c] {y : Kernel α} (hx : Looks x) (hy : Looks y) :
    Looks (if c then x else y) :=
  fun s => .ite (fun _ => hx s) fun _ => hy s

theorem get {k : KernelState → Kernel α} (h : ∀ s, Looks (k s)) : Looks (get >>= k) :=
  fun s => h s s

theorem violate (v : Violation) : Looks (violate (α := α) v) := fun _ => .violate rfl

theorem inspect (f : Machine → Except Violation α) : Looks (inspect f) := by
  intro s
  unfold Ends Kernel.inspect
  cases f s.machine <;> exact rfl

theorem ends (h : Looks x) (hF : F s) (hQ : ∀ a, x s = .ok a s → Q a s) : Ends F x s Q := by
  have run := h s
  unfold Ends at *
  cases e : x s with
  | ok a t =>
    rw [e] at run
    subst run
    exact hQ a e
  | error f t =>
    rw [e] at run
    subst run
    exact hF

/-- A look that answers answers in the very state. -/
theorem run_eq (h : Looks x) {a : α} {v : Snapshot} (answers : Yields x s.snapshot a v) :
    x s = .ok a s := by
  obtain ⟨t, run, -⟩ := answers s rfl
  have same : t = s := (h s).ok run
  rw [run, same]

/-- Failing or not, it leaves the snapshot alone. -/
theorem leads {w : Snapshot} (h : Looks x) :
    Leads (fun _ _ => True) x w fun _ v => v = w := by
  rintro s rfl
  have run := h s
  unfold Ends at run
  split
  · rename_i e
    rw [e] at run
    rw [run]
  · trivial

end Looks

theorem access_looks (va : Nat) : Looks (access va) := .inspect _
theorem loadEntry_looks (pa : Nat) : Looks (loadEntry pa) := .inspect _
theorem loadPage_looks (pa : Nat) : Looks (loadPage pa) := .inspect _

theorem checkSlot_looks (d : Nat) : Looks (checkSlot d) := .ite (.pure _) (.violate _)
theorem checkLeaf_looks (t : Nat) : Looks (checkLeaf t) := .ite (.pure _) (.violate _)

theorem slot_looks (d : Nat) : Looks (slot d) :=
  (checkSlot_looks d).bind fun _ => (access_looks _).bind fun _ => loadEntry_looks _

theorem table_looks (d : Nat) : Looks (table d) :=
  (checkSlot_looks d).bind fun _ => (access_looks _).bind fun _ => loadPage_looks _

theorem leaf_looks (d t : Nat) : Looks (leaf d t) :=
  (checkLeaf_looks t).bind fun _ => (access_looks _).bind fun _ => loadEntry_looks _

theorem leafAt?_looks (va : Nat) : Looks (leafAt? va) :=
  (slot_looks _).bind fun _ => .ite ((leaf_looks _ _).bind fun _ => .pure _) (.pure _)

theorem windowSlot_looks : Looks windowSlot := (access_looks _).bind fun _ => .pure _

theorem windowEntry_looks (i : Nat) : Looks (Window.entry i) :=
  Looks.bind (.ite (.pure _) (.violate _)) fun _ =>
    (access_looks _).bind fun _ => loadEntry_looks _

theorem windowPage_looks : Looks Window.page := (access_looks _).bind fun _ => loadPage_looks _

theorem shareCount_looks (f : Nat) : Looks (shareCount f) := .get fun _ => .pure _

/-! ## Counting -/

/-- Neither memory nor the pool has changed. -/
structure Aside (s t : KernelState) : Prop where
  machine : t.machine = s.machine
  pool : t.pool = s.pool

/-- Nor has the register. -/
structure Recounts (s t : KernelState) : Prop extends Aside s t where
  spaces : t.spaces = s.spaces

theorem Aside.free {t : KernelState} (h : Aside s t) : t.snapshot.free = s.snapshot.free :=
  congrArg FramePool.free h.pool

/-- A state with the same machine has other books at most. -/
theorem snapshot_of_machine {s t : KernelState} (same : t.machine = s.machine) :
    t.snapshot = s.snapshot.book t.snapshot.toBooks := by
  simp only [KernelState.snapshot, Snapshot.book, same]

/-- The action leaves everything but the counts alone, also where it fails. -/
def Counts (x : Kernel α) : Prop := ∀ s, Ends (Recounts s) x s fun _ t => Recounts s t

theorem countEntry_counts (f : Nat) : Counts (countEntry f) := by
  refine fun s => .get ?_
  split
  · exact .modify ⟨⟨rfl, rfl⟩, rfl⟩
  · exact .halt ⟨⟨rfl, rfl⟩, rfl⟩

theorem discountEntry_counts (f : Nat) : Counts (discountEntry f) := by
  refine fun s => .get ?_
  split
  · exact .bind (.modify (.pure ⟨⟨rfl, rfl⟩, rfl⟩))
  · exact .halt ⟨⟨rfl, rfl⟩, rfl⟩

theorem shareFrame_counts (f : Nat) : Counts (shareFrame f) := by
  refine fun s => .get ?_
  split
  · exact .modify ⟨⟨rfl, rfl⟩, rfl⟩
  · exact .violate ⟨⟨rfl, rfl⟩, rfl⟩

theorem unshareFrame_counts (f : Nat) : Counts (unshareFrame f) := by
  refine fun s => .get ?_
  split
  · exact .modify ⟨⟨rfl, rfl⟩, rfl⟩
  · exact .violate ⟨⟨rfl, rfl⟩, rfl⟩

end VirtualMemory.Kernel
