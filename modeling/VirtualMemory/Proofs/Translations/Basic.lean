import VirtualMemory.Proofs.Bus
import VirtualMemory.Proofs.Calls.Rights
import VirtualMemory.Proofs.Outline.Basic

/-!
# Translations

What a walk finds at a page, and the words it reads for that. Nothing in the model holds what the
processor may have kept of earlier walks; but the trace tells what it was told to drop. A page is
settled with if its translation is no less than it was, or if the processor was told to drop it and
no word of its walk was written since. `Current` follows this from transaction to transaction.
-/
namespace VirtualMemory

open Layout

/-- Both addresses lie in one page, of those that 32 bits name. -/
def Layout.SamePage (va va' : Nat) : Prop :=
  dirIndex va' = dirIndex va ∧ tableIndex va' = tableIndex va

instance (va va' : Nat) : Decidable (SamePage va va') := inferInstanceAs (Decidable (_ ∧ _))

/-- The other rights include these. -/
structure Rights.Within (a b : Rights) : Prop where
  write : a.write = true → b.write = true
  user : a.user = true → b.user = true

theorem Rights.Within.meet {a a' b b' : Rights} (h : a.Within a') (h' : b.Within b') :
    (a.meet b).Within (a'.meet b') where
  write both := by
    simp only [Rights.meet, Bool.and_eq_true] at both ⊢
    exact ⟨h.write both.1, h'.write both.2⟩
  user both := by
    simp only [Rights.meet, Bool.and_eq_true] at both ⊢
    exact ⟨h.user both.1, h'.user both.2⟩

theorem Entry.Covers.within {e e' : Entry} (h : e.Covers e') : e'.rights.Within e.rights :=
  ⟨h.write, h.user⟩

/-- Where a walk ends, and what both of its levels grant. -/
structure Translation where
  frame : Nat
  rights : Rights

namespace Snapshot

def translation (w : Snapshot) (va : Nat) : Option Translation :=
  let slot := w.entry w.root (dirIndex va)
  let leaf := w.entry slot.frame (tableIndex va)
  if slot.isPresent = true ∧ leaf.isPresent = true then
    some ⟨leaf.frame, slot.rights.meet leaf.rights⟩
  else none

theorem translation_eq_some {w : Snapshot} {va : Nat} {x : Translation} :
    w.translation va = some x ↔ (w.entry w.root (dirIndex va)).isPresent = true ∧
      (w.entry (w.entry w.root (dirIndex va)).frame (tableIndex va)).isPresent = true ∧
      x = ⟨(w.entry (w.entry w.root (dirIndex va)).frame (tableIndex va)).frame,
        (w.entry w.root (dirIndex va)).rights.meet
          (w.entry (w.entry w.root (dirIndex va)).frame (tableIndex va)).rights⟩ := by
  simp only [translation]
  split
  · rename_i there
    simp [there, eq_comm]
  · rename_i not
    simp only [reduceCtorEq, false_iff]
    exact fun there => not ⟨there.1, there.2.1⟩

/-- A translation that `w` has, `v` has too, with rights that include its rights. -/
def Retains (w v : Snapshot) (va : Nat) : Prop := ∀ x, w.translation va = some x →
  ∃ y, v.translation va = some y ∧ y.frame = x.frame ∧ x.rights.Within y.rights

/-- The walk to `va` reads the word at `pa`. -/
def Reads (w : Snapshot) (va pa : Nat) : Prop :=
  pa = w.root + 4 * dirIndex va ∨ (w.entry w.root (dirIndex va)).isPresent = true ∧
    pa = (w.entry w.root (dirIndex va)).frame + 4 * tableIndex va

/-- The walk to `va` reads the same in both. -/
structure SameWalk (w v : Snapshot) (va : Nat) : Prop where
  root : v.root = w.root
  slot : v.entry w.root (dirIndex va) = w.entry w.root (dirIndex va)
  leaf : (w.entry w.root (dirIndex va)).isPresent = true →
    v.entry (w.entry w.root (dirIndex va)).frame (tableIndex va) =
      w.entry (w.entry w.root (dirIndex va)).frame (tableIndex va)

end Snapshot

namespace Transaction

/-- It changes the word at `pa`, or might. -/
def Touches : Transaction → Nat → Prop
  | storeByte a _, pa => a / 4 = pa / 4
  | storeWord a _, pa => a = pa
  | storePage f, pa => f ≤ pa ∧ pa < f + pageSize
  | invalidatePage _, _ | flush, _ => False

/-- It makes the processor drop what it holds for the page of `va`. -/
def Drops : Transaction → Nat → Prop
  | flush, _ => True
  | invalidatePage va', va => SamePage va' va
  | storeByte .., _ | storeWord .., _ | storePage _, _ => False

instance (x : Transaction) (va : Nat) : Decidable (x.Drops va) :=
  match x with
  | flush => isTrue trivial
  | invalidatePage va' => inferInstanceAs (Decidable (SamePage va' va))
  | storeByte .. | storeWord .. | storePage _ => isFalse id

end Transaction

namespace KernelState

/-- The processor was told to drop the page, and no word of its walk was written since. -/
def Dropped (s : KernelState) (va : Nat) : Prop := ∃ later x earlier,
  s.machine.trace = later ++ x :: earlier ∧ x.Drops va ∧
    ∀ y ∈ later, ∀ pa, s.snapshot.Reads va pa → ¬ y.Touches pa

/-- The latest order to the processor was to drop everything, and nothing was written since. -/
def Flushed (s : KernelState) : Prop := ∃ rest, s.machine.trace = .flush :: rest

/-- Save for the pages in `P`, what `w` had of a page is retained, or it was dropped. -/
def Current (w : Snapshot) (P : Set Nat) (s : KernelState) : Prop :=
  ∀ va ∉ P, w.Retains s.snapshot va ∨ s.Dropped va

end KernelState

variable {w v u : Snapshot} {s t : KernelState} {P R : Set Nat} {f i d va pa : Nat} {e : Entry}

/-! ## Walks -/

namespace Snapshot

theorem Retains.refl (w : Snapshot) (va : Nat) : w.Retains w va :=
  fun x hx => ⟨x, hx, rfl, id, id⟩

theorem Retains.trans (h : w.Retains v va) (h' : v.Retains u va) : w.Retains u va := by
  intro x hx
  obtain ⟨y, hy, frame, within⟩ := h x hx
  obtain ⟨z, hz, frame', within'⟩ := h' y hy
  exact ⟨z, hz, frame'.trans frame, fun some => within'.write (within.write some),
    fun some => within'.user (within.user some)⟩

theorem not_retains (there : (w.translation va).isSome = true) (gone : v.translation va = none) :
    ¬ w.Retains v va := by
  obtain ⟨x, hx⟩ := Option.isSome_iff_exists.1 there
  intro retains
  obtain ⟨y, hy, -⟩ := retains x hx
  rw [gone] at hy
  cases hy

namespace SameWalk

theorem refl (w : Snapshot) (va : Nat) : w.SameWalk w va := ⟨rfl, rfl, fun _ => rfl⟩

theorem translation (h : w.SameWalk v va) : v.translation va = w.translation va := by
  unfold Snapshot.translation
  rw [h.root, h.slot]
  cases present : (w.entry w.root (dirIndex va)).isPresent with
  | false => simp [present]
  | true => simp only [h.leaf present]

theorem retains (h : w.SameWalk v va) : w.Retains v va := by
  unfold Retains
  rw [h.translation]
  exact Retains.refl w va

theorem reads (h : w.SameWalk v va) : v.Reads va pa ↔ w.Reads va pa := by
  unfold Reads
  rw [h.root, h.slot]

end SameWalk

/-- A word that the walk does not read. -/
theorem sameWalk_setEntry (hi : i < tableEntries) (unread : ¬ w.Reads va (f + 4 * i)) :
    w.SameWalk (w.setEntry f i e) va where
  root := rfl
  slot := by
    rw [entry_setEntry _ _ _ hi (dirIndex_lt va), if_neg]
    rintro ⟨root, rfl⟩
    exact unread (.inl (by rw [root]))
  leaf present := by
    rw [entry_setEntry _ _ _ hi (tableIndex_lt va), if_neg]
    rintro ⟨table, rfl⟩
    exact unread (.inr ⟨present, by rw [table]⟩)

/-- A frame that the walk does not come through. -/
theorem sameWalk_setPage {p : Page} (root : w.root ≠ f)
    (table : (w.entry w.root (dirIndex va)).isPresent = true →
      (w.entry w.root (dirIndex va)).frame ≠ f) : w.SameWalk (w.setPage f p) va where
  root := rfl
  slot := entry_setPage_of_ne _ _ _ root _
  leaf present := entry_setPage_of_ne _ _ _ (table present) _

/-- An entry, slot or leaf, that leads where it led and grants no less. -/
theorem retains_setEntry (hi : i < tableEntries) (same : e.SameTarget (w.entry f i))
    (covers : e.Covers (w.entry f i)) (va : Nat) : w.Retains (w.setEntry f i e) va := by
  have each (g : Nat) {j : Nat} (hj : j < tableEntries) :
      ((w.setEntry f i e).entry g j).SameTarget (w.entry g j) ∧
        ((w.setEntry f i e).entry g j).Covers (w.entry g j) := by
    rw [entry_setEntry _ _ _ hi hj]
    split
    · rename_i here
      rw [here.1, here.2]
      exact ⟨same, covers⟩
    · exact ⟨.refl _, .refl _⟩
  -- the entry may be on either level of the walk, or on both, or on none
  obtain ⟨slot, wide⟩ := each w.root (dirIndex_lt va)
  obtain ⟨leaf, wide'⟩ := each (w.entry w.root (dirIndex va)).frame (tableIndex_lt va)
  intro x hx
  obtain ⟨present, there, rfl⟩ := translation_eq_some.1 hx
  have present' := slot.present.trans present
  have there' := leaf.present.trans there
  refine ⟨_, translation_eq_some.2 ⟨present', ?_, rfl⟩, ?_, wide.within.meet ?_⟩
  all_goals rw [root_setEntry, slot.frame present']
  · exact there'
  · exact leaf.frame there'
  · exact wide'.within

end Snapshot

/-- Where the directory and the table are frames, the processor's walk ends where the translation
leads, and it grants what both levels grant. -/
theorem KernelState.walk_translation (root : Ram.IsFrame s.snapshot.size s.snapshot.root)
    (table : (s.snapshot.entry s.snapshot.root (dirIndex va)).isPresent = true →
      Ram.IsFrame s.snapshot.size (s.snapshot.entry s.snapshot.root (dirIndex va)).frame) :
    s.machine.walk va = .ok ((s.snapshot.translation va).map (·.frame + offset va)) ∧
      s.machine.granted va = .ok ((s.snapshot.translation va).map (·.rights)) := by
  have slot := Machine.loadEntry_eq (m := s.machine) root (dirIndex_lt va)
  change _ = Except.ok (s.snapshot.entry s.snapshot.root (dirIndex va)) at slot
  unfold Machine.walk Machine.granted Snapshot.translation
  rw [show s.machine.directory = s.snapshot.root from rfl, slot]
  cases present : (s.snapshot.entry s.snapshot.root (dirIndex va)).isPresent with
  | false => simp [present, bind, Except.bind, pure, Except.pure]
  | true =>
    have leaf := Machine.loadEntry_eq (m := s.machine) (table present) (tableIndex_lt va)
    change _ = Except.ok (s.snapshot.entry _ (tableIndex va)) at leaf
    cases there : (s.snapshot.entry (s.snapshot.entry s.snapshot.root (dirIndex va)).frame
      (tableIndex va)).isPresent <;>
      simp [present, leaf, there, bind, Except.bind, pure, Except.pure]

/-! ## What the processor was told -/

namespace KernelState

open Snapshot

theorem Dropped.later (xs : List Transaction) (h : s.Dropped va)
    (same : s.snapshot.SameWalk t.snapshot va) (trace : t.machine.trace = xs ++ s.machine.trace)
    (spared : ∀ x ∈ xs, ∀ pa, s.snapshot.Reads va pa → ¬ x.Touches pa) : t.Dropped va := by
  obtain ⟨later, y, earlier, hs, drops, rest⟩ := h
  refine ⟨xs ++ later, y, earlier, by rw [trace, hs, List.append_assoc], drops, ?_⟩
  intro x hx pa reads
  rw [same.reads] at reads
  obtain new | old := List.mem_append.1 hx
  · exact spared x new pa reads
  · exact rest x old pa reads

/-- The latest order was to drop the page. -/
theorem Dropped.of_head {x : Transaction} {rest : List Transaction}
    (trace : t.machine.trace = x :: rest) (drops : x.Drops va) : t.Dropped va :=
  ⟨[], x, rest, trace, drops, nofun⟩

namespace Current

theorem start (retains : ∀ va, w.Retains s.snapshot va) : Current w P s :=
  fun va _ => .inl (retains va)

theorem mono (h : Current w P s) (more : P ⊆ R) : Current w R s :=
  fun va out => h va fun inside => out (more inside)

/-- What is no matter of memory does not count. -/
theorem aside (h : Current w P s) (same : t.machine = s.machine) : Current w P t := by
  have walk (va : Nat) : s.snapshot.SameWalk t.snapshot va := by
    rw [Kernel.snapshot_of_machine same]
    exact ⟨rfl, rfl, fun _ => rfl⟩
  intro va out
  refine (h va out).imp (·.trans (walk va).retains) (·.later [] (walk va) ?_ nofun)
  rw [same]
  rfl

/-- A write to words that the walks to most pages do not read. -/
theorem write {x : Transaction} (h : Current w P s) (moves : s.Moves t x u)
    (rest : ∀ va ∉ R, w.Retains u va ∨ va ∉ P ∧ s.snapshot.SameWalk u va ∧
      ∀ pa, s.snapshot.Reads va pa → ¬ x.Touches pa) : Current w R t := by
  intro va out
  obtain retains | ⟨before, same, spared⟩ := rest va out
  · exact .inl (moves.snapshot ▸ retains)
  · rw [← moves.snapshot] at same
    refine (h va before).imp (·.trans same.retains) fun dropped => ?_
    refine dropped.later [x] same moves.trace fun y hy => ?_
    obtain rfl := List.mem_singleton.1 hy
    exact spared

theorem storeEntry (h : Current w P s) (hi : i < tableEntries)
    (moves : s.Moves t (.storeWord (f + 4 * i) e.raw) (s.snapshot.setEntry f i e))
    (rest : ∀ va ∉ R, w.Retains (s.snapshot.setEntry f i e) va ∨
      va ∉ P ∧ ¬ s.snapshot.Reads va (f + 4 * i)) : Current w R t := by
  refine h.write moves fun va out => (rest va out).imp id fun unread => ?_
  refine ⟨unread.1, sameWalk_setEntry hi unread.2, ?_⟩
  rintro pa reads rfl
  exact unread.2 reads

/-- A page that no walk comes through. -/
theorem storePage {p : Page} (h : Current w P s) (aligned : isAligned f = true)
    (rootAligned : isAligned s.snapshot.root = true)
    (moves : s.Moves t (.storePage f) (s.snapshot.setPage f p)) (root : s.snapshot.root ≠ f)
    (tables : ∀ d < tableEntries, (s.snapshot.entry s.snapshot.root d).isPresent = true →
      (s.snapshot.entry s.snapshot.root d).frame ≠ f) : Current w P t := by
  refine h.write moves fun va out => .inr ⟨out, ?_, fun pa reads touches => ?_⟩
  · exact sameWalk_setPage root (tables _ (dirIndex_lt va))
  · -- both words of the walk lie in other frames, and frames do not overlap
    have small := dirIndex_lt va
    have small' := tableIndex_lt va
    rw [isAligned_iff] at aligned rootAligned
    obtain rfl | ⟨present, rfl⟩ := reads
    · simp only [Transaction.Touches, tableEntries, pageSize] at *
      omega
    · have other := tables _ small present
      have aligned' := (isAligned_iff _).1
        (s.snapshot.entry s.snapshot.root (dirIndex va)).frame_aligned
      simp only [Transaction.Touches, tableEntries, pageSize] at *
      omega

/-- The page was all that waited. -/
theorem drop (h : Current w (P ∪ {va' | SamePage va va'}) s)
    (moves : s.Moves t (.invalidatePage va) s.snapshot) : Current w P t := by
  intro va' out
  by_cases page : SamePage va va'
  · exact .inr (.of_head moves.trace page)
  · exact h.write moves (fun va' out => .inr ⟨out, .refl _ _, nofun⟩) va' (not_or.2 ⟨out, page⟩)

theorem of_flushed (h : t.Flushed) : Current w P t := by
  obtain ⟨rest, trace⟩ := h
  exact fun _ _ => .inr (.of_head trace trivial)

end Current
end KernelState
end VirtualMemory
