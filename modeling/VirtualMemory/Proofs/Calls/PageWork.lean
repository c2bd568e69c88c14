import VirtualMemory.Proofs.Calls.Refusals
import VirtualMemory.Proofs.Outline.Spaces
import VirtualMemory.Proofs.Twins.Pages

/-!
# Calls that work on pages

Adding a page and removing or protecting a range check their arguments, and then do their work while
the space is resident. What the work keeps is shown here for all three of them.
-/
namespace VirtualMemory

open Layout Snapshot Kernel

namespace Call

/-- The calls that work on pages of space `p`, away from the directory's two window slots. -/
def OnPages (p : Nat) : Call → Prop
  | .add q va _ _ => q = p ∧ dirIndex va < mountTableSlot
  | .remove q first last | .protect q first last _ => q = p ∧
    ∀ i < (last - first) / pageSize, dirIndex (first + i * pageSize) < mountTableSlot
  | _ => False

/-- What such a call does while the space is resident. -/
def pageWork : Call → Kernel Unit
  | .add _ va frame prot => do
    Kernel.map frame (dirIndex va) (tableIndex va) prot
    invalidatePage va
  | .remove _ first last => forEach pageSize Kernel.unmap first ((last - first) / pageSize)
  | .protect _ first last prot =>
    forEach pageSize (protectPage prot) first ((last - first) / pageSize)
  | _ => pure ()

variable {c : Call} {s : Spaces} {w v : Snapshot} {role : Nat → Role} {K : Finset Nat} {p : Nat}

section
variable (on : c.OnPages p) (clean : ArgumentError.first (c.objections s) = none)
include on clean

theorem action_of_clean :
    s.dead p = false ∧ c.action = (do within p c.pageWork; return .done) := by
  rw [ArgumentError.first_eq_none] at clean
  cases c with
  | add q va frame prot =>
    obtain ⟨rfl, -⟩ := on
    obtain ⟨⟨aligned, aligned'⟩, live⟩ : (isAligned va = true ∧ isAligned frame = true) ∧
        s.dead q = false := by simpa [objections] using clean
    exact ⟨live, by rw [action, add_eq aligned aligned']; rfl⟩
  | remove q first last =>
    obtain ⟨rfl, -⟩ := on
    obtain ⟨⟨aligned, aligned'⟩, ordered, live⟩ : (isAligned first = true ∧ isAligned last = true) ∧
        first ≤ last ∧ s.dead q = false := by simpa [objections, rangeObjections] using clean
    exact ⟨live, by rw [action, Kernel.remove, forPages_eq aligned aligned' ordered]; rfl⟩
  | protect q first last prot =>
    obtain ⟨rfl, -⟩ := on
    obtain ⟨⟨aligned, aligned'⟩, ordered, live⟩ : (isAligned first = true ∧ isAligned last = true) ∧
        first ≤ last ∧ s.dead q = false := by simpa [objections, rangeObjections] using clean
    exact ⟨live, by rw [action, Kernel.protect, forPages_eq aligned aligned' ordered]; rfl⟩
  | _ => exact on.elim

theorem pageWork_edits (h : w.Placed role) : Leads Stops c.pageWork w fun _ v => w.Edits v := by
  cases c with
  | add q va frame prot =>
    have aligned : isAligned frame = true := by
      rw [ArgumentError.first_eq_none] at clean
      have both : isAligned va = true ∧ isAligned frame = true :=
        And.left (by simpa [objections] using clean)
      exact both.2
    refine .bind ((map_edits h on.2 (tableIndex_lt va) aligned).mono fun _ v moved => ?_)
    exact (invalidatePage_yields va v).leads moved
  | remove q first last =>
    refine Leads.forEach (fun _ v => w.Edits v) (.refl h) fun i v hi moved => ?_
    obtain ⟨role', placed⟩ := moved.placed
    exact (unmap_edits placed (on.2 i hi)).mono fun _ _ => moved.trans
  | protect q first last prot =>
    refine Leads.forEach (fun _ v => w.Edits v) (.refl h) fun i v hi moved => ?_
    obtain ⟨role', placed⟩ := moved.placed
    exact (protectPage_edits placed (on.2 i hi)).mono fun _ _ => moved.trans
  | _ => exact on.elim

theorem pageWork_twins (h : w.Paired v K) :
    Twins c.pageWork w v fun _ w' v' => w'.Paired v' K := by
  cases c with
  | add q va frame prot =>
    have aligned : isAligned frame = true := by
      rw [ArgumentError.first_eq_none] at clean
      have both : isAligned va = true ∧ isAligned frame = true :=
        And.left (by simpa [objections] using clean)
      exact both.2
    refine .bind ((map_twins h on.2 (tableIndex_lt va) aligned).mono fun _ w' v' h' => ?_)
    exact .of_yields (invalidatePage_yields va w') (invalidatePage_yields va v') h'
  | remove q first last =>
    exact Twins.forEach (fun _ w' v' => w'.Paired v' K) h
      fun i w' v' hi h' => unmap_twins h' (on.2 i hi)
  | protect q first last prot =>
    exact Twins.forEach (fun _ w' v' => w'.Paired v' K) h
      fun i w' v' hi h' => protectPage_twins h' (on.2 i hi)
  | _ => exact on.elim

end
end Call
end VirtualMemory
