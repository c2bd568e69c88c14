import VirtualMemory.Proofs.Ownership.Settled

/-!
# Rights at both levels

The processor grants what a slot and the entry behind it both grant, while a lookup reads the entry
alone. The two agree where every slot grants at least what its entries do. `Upholds` is what
operations on pages leave alone in the directory, and `Remaps` says besides what pages there are.
-/
namespace VirtualMemory.Snapshot

open Layout

variable (w v : Snapshot)

/-- No page is granted more than the slot of its table is. -/
def Granting : Prop :=
  ∀ π t e, w.Has π → t < tableEntries → w.leaf? π t = some e → (w.slotAt π).Covers e

/-- The two window slots stay as they are, and slots go on granting what their entries do. -/
structure Upholds : Prop where
  root : v.root = w.root
  window : ∀ d, mountTableSlot ≤ d → d < tableEntries → v.entry w.root d = w.entry w.root d
  rights : w.Granting → v.Granting

/-- From `w` to `v` the pages have become `L`, and their rights are upheld. -/
structure Remaps (O : Finset Nat) (L : Place → Nat → Option Entry) : Prop extends
  w.Rewrites v O L, w.Upholds v

variable {w v} {u : Snapshot} {O : Finset Nat} {role : Nat → Role}
  {L M : Place → Nat → Option Entry} {f p : Nat}

/-- Pages that were there, with no more rights than they had, under slots with no less. -/
theorem Granting.of_pages (h : w.Granting)
    (seen : ∀ π t e, v.Has π → t < tableEntries → v.leaf? π t = some e → w.Has π ∧
      (v.slotAt π).Covers (w.slotAt π) ∧ ∃ e', w.leaf? π t = some e' ∧ e'.Covers e) :
    v.Granting := by
  intro π t e hπ ht page
  obtain ⟨hπ', slot, e', before, less⟩ := seen π t e hπ ht page
  exact slot.trans ((h π t e' hπ' ht before).trans less)

/-- What no page and no slot shows does not matter. -/
theorem Granting.congr (h : w.Granting) (has : ∀ π, v.Has π → w.Has π)
    (slots : ∀ π, v.Has π → v.slotAt π = w.slotAt π)
    (pages : ∀ π t, v.Has π → t < tableEntries → v.leaf? π t = w.leaf? π t) : v.Granting := by
  refine h.of_pages ?_
  intro π t e hπ ht page
  rw [pages π t hπ ht] at page
  exact ⟨has π hπ, slots π hπ ▸ .refl _, e, page, .refl e⟩

theorem Granting.book (h : w.Granting) {b : Books} (same : b.spaces = w.spaces) :
    (w.book b).Granting :=
  h.congr (fun π => (has_congr (v := w.book b) same π).1) (fun π _ => slotAt_book same π)
    fun π t _ _ => leaf?_book same π t

namespace Upholds

theorem refl (w : Snapshot) : w.Upholds w := ⟨rfl, fun _ _ _ => rfl, id⟩

theorem trans (h : w.Upholds v) (h' : v.Upholds u) : w.Upholds u where
  root := h'.root.trans h.root
  window d low hd := by
    rw [← h.window d low hd, ← h.root]
    exact h'.window d low hd
  rights := h'.rights ∘ h.rights

theorem book {b : Books} (same : b.spaces = w.spaces) : w.Upholds (w.book b) :=
  ⟨rfl, fun _ _ _ => rfl, fun g => g.book same⟩

end Upholds

theorem Switched.upholds (h : w.Sound role) (s : w.Switched v p) : w.Upholds v where
  root := s.root
  window d low hd := s.kernel _ d (low.trans' (by decide)) hd
  rights g := by
    have has (π : Place) (hπ : v.Has π) := (s.has π).1 hπ
    exact g.congr has (fun π hπ => s.slotAt π (has π hπ))
      fun π t hπ _ => h.leaf?_switched s (has π hπ) t

theorem Settled.upholds_switched (h : w.Settled O) (s : w.Switched v p) : w.Upholds v := by
  obtain ⟨role, stable⟩ := h.stable
  exact s.upholds stable.toSound

theorem Upholds.switched (a b : Snapshot) (q : Nat) (h : a.Settled O) (s : a.Switched b q)
    (upheld : w.Upholds a) : w.Upholds b := upheld.trans (h.upholds_switched s)

/-- What a caller's frame holds is no part of any directory or table. -/
theorem Settled.upholds_setPage (h : w.Settled O) (hf : f ∈ O) (q : Page) :
    w.Upholds (w.setPage f q) := by
  obtain ⟨role, stable⟩ := h.stable
  have away := stable.ne_root hf
  have idle : (role f).Idle := by rw [stable.data hf]; trivial
  refine ⟨rfl, fun d _ _ => entry_setPage_of_ne w f q away.symm d, fun g => ?_⟩
  exact g.congr (fun π => id)
    (fun π _ => slotAt_setPage away (stable.idle_ne_directory idle) q π)
    fun π t hπ _ => (h.setPage hf q).2 π t hπ

namespace Remaps

theorem refl (w : Snapshot) (O : Finset Nat) : w.Remaps w O w.leaf? := ⟨.refl w O, .refl w⟩

theorem congr (h : w.Remaps v O L) (same : ∀ π t, w.Has π → t < tableEntries → L π t = M π t) :
    w.Remaps v O M :=
  ⟨h.toRewrites.congr same, h.toUpholds⟩

theorem pagesWith {e : Option Entry} {π : Place} {t : Nat} (h : w.Remaps v O w.leaf?)
    (same : v.Remaps u O (v.pagesWith π t e)) : w.Remaps u O (w.pagesWith π t e) :=
  ⟨h.toRewrites.pagesWith same.toRewrites, h.toUpholds.trans same.toUpholds⟩

end Remaps
end VirtualMemory.Snapshot
