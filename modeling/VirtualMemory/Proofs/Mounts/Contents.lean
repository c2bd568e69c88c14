import VirtualMemory.Proofs.Bus

/-!
# Work on a mounted frame

What a caller does with a mounted frame, step by step, is what would be done to a page that lies on
the table: the answers come from the frame, the changes go to the frame, and nothing else in memory
is touched but the window's entry while the mount lasts.
-/
namespace VirtualMemory

open Layout Snapshot Kernel

/-- What can be done with a mounted frame. -/
inductive WindowStep where
  | entry (i : Nat)
  | setEntry (i : Nat) (e : Entry)
  | zero
  | copyFrom (p : Page)
  | copyTo

inductive WindowAnswer where
  | done
  | entry (e : Entry)
  | page (p : Page)

namespace WindowStep

def action : WindowStep → Kernel WindowAnswer
  | entry i => do return .entry (← Window.entry i)
  | setEntry i e => do Window.setEntry i e; return .done
  | zero => do Window.zero; return .done
  | copyFrom p => do Window.setPage p; return .done
  | copyTo => do return .page (← Window.page)

/-- Only an index past the end of the frame is not accepted. -/
def Fits : WindowStep → Prop
  | entry i | setEntry i _ => i < tableEntries
  | zero | copyFrom _ | copyTo => True

instance (x : WindowStep) : Decidable x.Fits := by
  cases x <;> unfold Fits <;> infer_instance

/-- What is read from a page. -/
def answer (p : Page) : WindowStep → WindowAnswer
  | entry i => .entry (p.entry i)
  | copyTo => .page p
  | setEntry .. | zero | copyFrom _ => .done

/-- What becomes of a page. -/
def page (p : Page) : WindowStep → Page
  | setEntry i e => p.setEntry i e
  | zero => .zero
  | copyFrom q => q
  | entry _ | copyTo => p

def run : List WindowStep → Kernel (List WindowAnswer)
  | [] => return []
  | x :: xs => do
    let a ← x.action
    let as ← run xs
    return a :: as

/-- What is read from a page and what becomes of it, up to the first step that does not fit: then
there are no answers. -/
def outcome (p : Page) : List WindowStep → Option (List WindowAnswer) × Page
  | [] => (some [], p)
  | x :: xs =>
    if x.Fits then
      let rest := outcome (x.page p) xs
      (rest.1.map (x.answer p :: ·), rest.2)
    else (none, p)

end WindowStep

namespace Kernel

variable {w : Snapshot} {f : Nat} {s : KernelState}

section Mounted
variable (hw : w.Wired) (hf : Ram.IsFrame w.size f) (hm : f ≠ mountTable)
include hw hf hm

/-- One step reads and changes the mounted frame. -/
theorem windowStep_yields {x : WindowStep} (fits : x.Fits) :
    Yields x.action (w.mount f) (x.answer (w.page f))
      ((w.setPage f (x.page (w.page f))).mount f) := by
  cases x with
  | entry i =>
    refine (windowEntry_yields hw hf hm fits).trans ?_
    rw [WindowStep.page, setPage_page]
    exact .pure _ _
  | setEntry i e => exact (windowSetEntry_yields hw hf hm fits e).trans (.pure _ _)
  | zero => exact (windowSetPage_yields hw hf hm Page.zero).trans (.pure _ _)
  | copyFrom p => exact (windowSetPage_yields hw hf hm p).trans (.pure _ _)
  | copyTo =>
    refine (windowPage_yields hw hf hm).trans ?_
    rw [WindowStep.page, setPage_page]
    exact .pure _ _

end Mounted

/-- A step that does not fit stops the kernel on the spot. -/
theorem windowStep_stops {x : WindowStep} (unfit : ¬ x.Fits) (s : KernelState) :
    x.action s = .error (.violation .windowIndex) s := by
  have stops {i : Nat} (past : ¬ i < tableEntries) :
      Window.checkIndex i s = .error (.violation .windowIndex) s := by
    rw [Window.checkIndex, if_neg past]
    rfl
  cases x with
  | entry i => exact bind_of_error (bind_of_error (stops unfit) _) _
  | setEntry i e => exact bind_of_error (bind_of_error (stops unfit) _) _
  | zero | copyFrom _ | copyTo => exact absurd trivial unfit

/-- Run from `s`, the action gives the answer `r`, or it fails if that is none; either way it ends
in the snapshot `v`. -/
abbrev Gives {α : Type} (x : Kernel α) (s : KernelState) (r : Option α) (v : Snapshot) : Prop :=
  Ends (fun t => r = none ∧ t.snapshot = v) x s fun a t => r = some a ∧ t.snapshot = v

/-- A sequence of steps does to the mounted frame what it would do to its page. -/
theorem windowSteps_gives (hw : w.Wired) (hf : Ram.IsFrame w.size f) (hr : f ≠ w.root)
    (hm : f ≠ mountTable) (steps : List WindowStep) (hs : s.snapshot = w.mount f) :
    Gives (WindowStep.run steps) s (WindowStep.outcome (w.page f) steps).1
      ((w.setPage f (WindowStep.outcome (w.page f) steps).2).mount f) := by
  induction steps generalizing w s with
  | nil =>
    refine .pure ⟨rfl, ?_⟩
    rw [WindowStep.outcome, setPage_page]
    exact hs
  | cons x xs ih =>
    by_cases fits : x.Fits
    · obtain ⟨t, run, ht⟩ := windowStep_yields hw hf hm fits s hs
      have rest := ih (w := w.setPage f (x.page (w.page f))) (hw.setPage hr _) hf hr ht
      simp only [WindowStep.outcome, if_pos fits]
      simp only [page_setPage_self, setPage_setPage] at rest
      refine .bind (.of_ok run (.bind ((rest.weaken ?_).mono ?_)))
      · rintro u ⟨none, same⟩
        exact ⟨by rw [none]; rfl, same⟩
      · rintro as u ⟨some, same⟩
        exact .pure ⟨by rw [some]; rfl, same⟩
    · simp only [WindowStep.outcome, if_neg fits, setPage_page]
      unfold Gives Ends WindowStep.run
      rw [bind_of_error (windowStep_stops fits s)]
      exact ⟨rfl, hs⟩

/-- Mounted and unmounted, a frame has what the steps made of it, and all else is as it was; and
so it is where a step does not fit, which stops the kernel. -/
theorem mount_gives (hw : s.snapshot.Wired) (hf : Ram.IsFrame s.snapshot.size f)
    (hr : f ≠ s.snapshot.root) (hm : f ≠ mountTable) (steps : List WindowStep) :
    Gives (mount f (WindowStep.run steps)) s
      (WindowStep.outcome (s.snapshot.page f) steps).1
      (s.snapshot.setPage f (WindowStep.outcome (s.snapshot.page f) steps).2) := by
  have unmounts (p : Page) (u v : KernelState)
      (hu : u.snapshot = (s.snapshot.setPage f p).mount f) (hv : u.SetsWindow v s.snapshot.window) :
      v.snapshot = s.snapshot.setPage f p := by
    have same : s.snapshot.window = (s.snapshot.setPage f p).entry mountTable mountEntry :=
      (entry_setPage_of_ne _ _ _ hm.symm _).symm
    rw [hv.snapshot, hu, same, unmount]
  have wired (p : Page) : ((s.snapshot.setPage f p).mount f).Wired := (hw.setPage hr p).mount f
  refine .ite (fun _ => .mountAligned hw fun t ht => ?_) fun no => absurd hf.1 no
  refine ((windowSteps_gives hw hf hr hm steps ht.snapshot).weaken ?_).mono ?_
  · rintro u ⟨none, hu⟩
    exact .setWindow (hu ▸ wired _) fun v hv => ⟨none, unmounts _ u v hu hv⟩
  · rintro as u ⟨some, hu⟩
    exact ⟨hu ▸ wired _, fun v hv => ⟨some, unmounts _ u v hu hv⟩⟩

end Kernel
end VirtualMemory
