import VirtualMemory.Proofs.Bus
import VirtualMemory.Proofs.Operations.Fault

/-!
# The frame behind a slot

Work on pages takes whatever a present slot leads to for a table. It does not ask whether the slot
is a huge one, nor whether there is a record of a table. So each step rewrites one word of the
frame, or finds it as it would leave it; and when a step fails for want of a record, the word is
rewritten already.
-/
namespace VirtualMemory

open Layout

namespace Entry

/-- What unmapping makes of a word. -/
def removed (e : Entry) : Entry := if e.isPresent then .empty else e

/-- What giving it the rights of `prot` makes of a word. -/
def rebuilt (prot : Protection) (e : Entry) : Entry :=
  if e.isPresent then .of e.frame prot.entryFlags else e

theorem removed_eq_self {e : Entry} : e.removed = e ↔ e.isPresent = false := by
  unfold removed
  cases present : e.isPresent with
  | false => simp
  | true =>
    refine iff_of_false (fun same => ?_) (by simp)
    rw [if_pos rfl] at same
    rw [← same, isPresent_empty] at present
    cases present

end Entry

/-- Words to rewrite, by their indices, and what becomes of each. -/
abbrev Rewriting := List (Nat × (Entry → Entry))

/-- The words of the first `n` pages from `first` on, all rewritten by `g`. -/
def Rewriting.ofPages (first n : Nat) (g : Entry → Entry) : Rewriting :=
  (List.range n).map fun k => (tableIndex (first + k * pageSize), g)

namespace Rewriting

/-- Every word that is named is already as it would become. -/
def Fixes (L : Rewriting) (p : Page) : Prop := ∀ x ∈ L, x.2 (p.entry x.1) = p.entry x.1

instance (L : Rewriting) (p : Page) : Decidable (L.Fixes p) :=
  inferInstanceAs (Decidable (∀ x ∈ L, _))

variable {p : Page} {first k n t : Nat} {g : Entry → Entry} {x : Nat × (Entry → Entry)}

theorem fixes_nil (p : Page) : Fixes [] p := fun _ hx => absurd hx List.not_mem_nil

/-- Where no words are named, none is amiss. -/
theorem serves_of_not_fixes {serves : Prop} [Decidable serves] {L : Rewriting}
    (hits : ¬ Fixes (if serves then L else []) p) : serves := by
  by_contra refused
  rw [if_neg refused] at hits
  exact hits (fixes_nil p)

theorem fixes_singleton : Fixes [(t, g)] p ↔ g (p.entry t) = p.entry t :=
  List.forall_mem_singleton

theorem mem_ofPages :
    x ∈ ofPages first n g ↔ ∃ k < n, (tableIndex (first + k * pageSize), g) = x := by
  simp only [ofPages, List.mem_map, List.mem_range]

theorem fixes_ofPages : (ofPages first n g).Fixes p ↔
    ∀ k < n, g (p.entry (tableIndex (first + k * pageSize))) =
      p.entry (tableIndex (first + k * pageSize)) := by
  simp only [Fixes, ofPages, List.mem_map, List.mem_range, forall_exists_index, and_imp,
    forall_apply_eq_imp_iff₂]

/-- One of the words that are amiss comes first. -/
theorem exists_first (hit : ¬ (ofPages first n g).Fixes p) : ∃ j < n,
    g (p.entry (tableIndex (first + j * pageSize))) ≠ p.entry (tableIndex (first + j * pageSize)) ∧
      ∀ k < j, g (p.entry (tableIndex (first + k * pageSize))) =
        p.entry (tableIndex (first + k * pageSize)) := by
  rw [fixes_ofPages] at hit
  push Not at hit
  obtain ⟨hj, moves⟩ := Nat.find_spec hit
  refine ⟨Nat.find hit, hj, moves, fun k hk => ?_⟩
  by_contra moved
  exact Nat.find_min hit hk ⟨hk.trans hj, moved⟩

theorem ofPages_subset (h : k ≤ n) : ofPages first k g ⊆ ofPages first n g := by
  intro x hx
  obtain ⟨m, hm, rfl⟩ := mem_ofPages.1 hx
  exact mem_ofPages.2 ⟨m, by omega, rfl⟩

end Rewriting

namespace Page

variable {p q : Page} {L L' : Rewriting} {t : Nat} {e : Entry}

/-- `q` is `p` with some of the words rewritten that `L` names, and no others. -/
def PartOf (q p : Page) (L : Rewriting) : Prop :=
  ∀ t < tableEntries, q.entry t = p.entry t ∨ ∃ x ∈ L, x.1 = t ∧ q.entry t = x.2 (p.entry t)

theorem PartOf.refl (p : Page) (L : Rewriting) : p.PartOf p L := fun _ _ => .inl rfl

theorem PartOf.mono (h : q.PartOf p L) (sub : L ⊆ L') : q.PartOf p L' := by
  intro t ht
  refine (h t ht).imp_right ?_
  rintro ⟨x, hx, here⟩
  exact ⟨x, sub hx, here⟩

theorem PartOf.setEntry (h : q.PartOf p L) (ht : t < tableEntries)
    (fits : e = p.entry t ∨ ∃ x ∈ L, x.1 = t ∧ e = x.2 (p.entry t)) :
    (q.setEntry t e).PartOf p L := by
  intro i hi
  rw [Page.entry_setEntry _ _ ht hi]
  split
  · subst i
    exact fits
  · exact h i hi

/-- With another word it is another page. -/
theorem setEntry_ne (ht : t < tableEntries) (differs : e ≠ p.entry t) : p.setEntry t e ≠ p := by
  intro same
  refine differs ?_
  rw [← same, Page.entry_setEntry _ _ ht ht, if_pos rfl]

end Page

/-- Of the pages behind one slot no two have the same index. -/
theorem Layout.tableIndex_ne_of_dirIndex {first n d j k : Nat}
    (under : ∀ i < n, dirIndex (first + i * pageSize) = d) (hk : k < n) (hj : j < k) :
    tableIndex (first + j * pageSize) ≠ tableIndex (first + k * pageSize) := by
  intro same
  have here := under j (hj.trans hk)
  -- pages with the same index are a whole slot apart, and so the page in the middle is elsewhere
  have apart : j + tableEntries ≤ k := by
    simp only [tableIndex, tableEntries, pageSize] at *
    omega
  have there := under (j + tableEntries) (by omega)
  simp only [dirIndex, tableEntries, pageSize] at *
  omega

namespace Snapshot

/-- Only the kernel's own space lives. -/
structure KernelAlone (w : Snapshot) : Prop where
  active : w.spaces.active = Spaces.kernelId
  live : ∀ q, w.Live q ↔ q = Spaces.kernelId

/-- Slot `d` leads to frame `f` if to any, and the frame holds the page `p`. -/
structure Holds (w : Snapshot) (d f : Nat) (p : Page) : Prop where
  wired : w.Wired
  alone : w.KernelAlone
  slot : d < mountTableSlot
  inside : Ram.IsFrame w.size f
  away : f ≠ w.root
  only : (w.entry w.root d).isPresent = true → (w.entry w.root d).frame = f
  page : w.page f = p

variable {w v : Snapshot} {d f t : Nat} {p : Page} {e : Entry}

theorem KernelAlone.congr (h : w.KernelAlone) (spaces : v.spaces = w.spaces) : v.KernelAlone where
  active := spaces ▸ h.active
  live q := by
    unfold Live
    rw [spaces]
    exact h.live q

namespace Holds

theorem entry (h : w.Holds d f p) (t : Nat) : w.entry f t = p.entry t :=
  congrArg (Page.entry · t) h.page

/-- Counts and the pool may change. -/
theorem book (h : w.Holds d f p) {b : Books} (spaces : b.spaces = w.spaces) :
    (w.book b).Holds d f p :=
  ⟨h.wired.book b, h.alone.congr spaces, h.slot, h.inside, h.away, h.only, h.page⟩

theorem setEntry (h : w.Holds d f p) (t : Nat) (e : Entry) :
    (w.setEntry f t e).Holds d f (p.setEntry t e) where
  wired := h.wired.setPage h.away _
  alone := h.alone.congr rfl
  slot := h.slot
  inside := h.inside
  away := h.away
  only present := by
    have same : (w.setEntry f t e).entry w.root d = w.entry w.root d :=
      entry_setPage_of_ne _ _ _ h.away.symm d
    rw [root_setEntry, same] at present ⊢
    exact h.only present
  page := by rw [page_setEntry, if_pos rfl, h.page]

theorem setSlot (h : w.Holds d f p) (fits : e.isPresent = true → e.frame = f) :
    (w.setEntry w.root d e).Holds d f p where
  wired := h.wired.setSlot h.slot e
  alone := h.alone.congr rfl
  slot := h.slot
  inside := h.inside
  away := h.away
  only present := by
    have here := Sound.slot_lt h.slot
    rw [root_setEntry, entry_setEntry _ _ _ here here, if_pos ⟨rfl, rfl⟩] at present ⊢
    exact fits present
  page := by rw [page_setEntry, if_neg h.away, h.page]

end Holds

/-- The frame holds another page than `p`, with some of the words rewritten that `L` names. -/
def Reworked (w : Snapshot) (d f : Nat) (p : Page) (L : Rewriting) : Prop :=
  ∃ q, q ≠ p ∧ q.PartOf p L ∧ w.Holds d f q

theorem Holds.reworked {g : Entry → Entry} (h : w.Holds d f (p.setEntry t (g (p.entry t))))
    (ht : t < tableEntries) (hit : ¬ Rewriting.Fixes [(t, g)] p) : w.Reworked d f p [(t, g)] := by
  rw [Rewriting.fixes_singleton] at hit
  exact ⟨_, Page.setEntry_ne ht hit, (Page.PartOf.refl p _).setEntry ht
    (.inr ⟨_, List.mem_singleton_self _, rfl, rfl⟩), h⟩

theorem Reworked.mono {L L' : Rewriting} (h : w.Reworked d f p L) (sub : L ⊆ L') :
    w.Reworked d f p L' := by
  obtain ⟨q, other, part, held⟩ := h
  exact ⟨q, other, part.mono sub, held⟩

theorem Reworked.alone {L : Rewriting} (h : w.Reworked d f p L) : w.KernelAlone := by
  obtain ⟨q, -, -, held⟩ := h
  exact held.alone

end Snapshot

open Snapshot

namespace Kernel

variable {α : Type} {F P R : KernelState → Prop} {x : Kernel α} {s : KernelState} {w : Snapshot}
  {d f t va : Nat} {p : Page} {e : Entry}

/-- Run from `s`, the action ends in `P`, whether it fails or not. -/
def Lands (P : KernelState → Prop) (x : Kernel α) (s : KernelState) : Prop := Ends P x s fun _ => P

namespace Lands

/-- What is known either way serves for each. -/
theorem ends (h : Lands P x s) (hF : ∀ t, P t → F t) (hR : ∀ t, P t → R t) :
    Ends F x s fun _ => R := (h.weaken hF).mono fun _ => hR

theorem mono (h : Lands P x s) (hP : ∀ t, P t → R t) : Lands R x s := h.ends hP hP

theorem attempt (h : Lands P x s) : Lands P (attempt x) s := Ends.attempt h fun _ _ => id

end Lands

theorem Yields.lands {a : α} {v : Snapshot} (h : Yields x s.snapshot a v)
    (hP : ∀ t : KernelState, t.snapshot = v → P t) : Lands P x s :=
  (Ends.of_yields h).mono fun _ t ht => hP t ht.2

/-! ## One word -/

section Held
variable (h : w.Holds d f p) (present : (w.entry w.root d).isPresent = true) (ht : t < tableEntries)
include h present ht

theorem heldLeaf_yields : Yields (leaf d t) w (p.entry t) w := by
  have frame := h.only present
  have read := leaf_yields h.wired (Sound.slot_lt h.slot) rfl present (frame ▸ h.inside) ht
  rwa [frame, h.entry] at read

theorem heldSetLeaf_yields (e : Entry) : Yields (setLeaf d t e) w () (w.setEntry f t e) := by
  have frame := h.only present
  have written := setLeaf_yields h.wired (Sound.slot_lt h.slot) rfl present (frame ▸ h.inside) ht e
  rwa [frame] at written

end Held

section State
variable (h : s.snapshot.Holds d f p)
include h

theorem Aside.holds {u : KernelState} (aside : Aside s u) (spaces : u.spaces = s.spaces) :
    u.snapshot.Holds d f p := by
  rw [snapshot_of_machine aside.machine]
  exact h.book spaces

/-- The books forget the table and the pool gets the frame, but nobody writes to it. -/
theorem unbindTable_lands : Lands (·.snapshot.Holds d f p) (unbindTable d) s := by
  have hd := Sound.slot_lt h.slot
  have flushed {u : KernelState} (hu : u.snapshot.Holds d f p) :
      Lands (·.snapshot.Holds d f p) flush u := Ends.flush fun v hv => hv.snapshot ▸ hu
  refine .ite (fun _ => .pure h) fun _ => .bind (.slot h.wired hd ?_)
  refine .ite (fun _ => .bind (.setSlot h.wired hd fun u hu => ?_)) fun _ => flushed h
  have cleared : u.snapshot.Holds d f p := hu.snapshot ▸ h.setSlot fun present => by cases present
  refine .bind (.modify (.bind (.bind (.modify (.get ?_)))))
  split
  · exact .modify (.bind (.modify (flushed (cleared.book rfl))))
  · exact .violate (cleared.book rfl)

end State

/-- The word at `t` is rewritten by `g` if slot `d` leads to the frame in `s`, and that is all. -/
def Rewritten (g : Entry → Entry) (s : KernelState) (d f : Nat) (p : Page) (t : Nat)
    (u : KernelState) : Prop :=
  u.snapshot.Holds d f (p.setEntry t
    (if (s.snapshot.entry s.snapshot.root d).isPresent then g (p.entry t) else p.entry t))

theorem Rewritten.untouched {g : Entry → Entry} {u : KernelState} (h : u.snapshot.Holds d f p)
    (ht : t < tableEntries)
    (fixed : (s.snapshot.entry s.snapshot.root d).isPresent = true → g (p.entry t) = p.entry t) :
    Rewritten g s d f p t u := by
  unfold Rewritten
  split
  · rw [fixed ‹_›, Page.setEntry_entry _ ht]
    exact h
  · rw [Page.setEntry_entry _ ht]
    exact h

/-- Work on a page comes down to rewriting its word by `g`, and costs memory nothing if the word is
as it would leave it. -/
structure RewritesWord (body : Nat → Kernel Unit) (g : Entry → Entry) : Prop where
  lands : ∀ (s : KernelState) (f va : Nat) (p : Page), isAligned va = true →
    s.snapshot.Holds (dirIndex va) f p →
      Lands (Rewritten g s (dirIndex va) f p (tableIndex va)) (body va) s
  yields : ∀ (w : Snapshot) (f va : Nat) (p : Page), isAligned va = true →
    w.Holds (dirIndex va) f p → g (p.entry (tableIndex va)) = p.entry (tableIndex va) →
      Yields (body va) w () w

theorem unmap_rewrites : RewritesWord unmap Entry.removed where
  lands s f va p aligned h := by
    have hd := dirIndex_lt va
    have ht := tableIndex_lt va
    set P := Rewritten Entry.removed s (dirIndex va) f p (tableIndex va)
    have done {u : KernelState} (hu : P u) : Lands P (invalidatePage va) u :=
      Ends.invalidatePage fun v hv => (congrArg (Holds · _ _ _) hv.snapshot).mpr hu
    refine .ite (fun un => by simp [aligned] at un) fun _ => .bind (.slot h.wired hd ?_)
    refine .ite (fun present => ?_) fun absent => done (.untouched h ht fun p => absurd p absent)
    refine .bind (.of_ok ((leaf_looks _ _).run_eq (heldLeaf_yields h present ht)) ?_)
    refine .ite (fun there => ?_) fun gone => done (.untouched h ht fun _ => ?_)
    · refine .bind ((Ends.of_yields (heldSetLeaf_yields h present ht .empty)).mono fun _ u hu => ?_)
      have cleared : u.snapshot.Holds (dirIndex va) f (p.setEntry (tableIndex va) .empty) :=
        hu.2 ▸ h.setEntry _ _
      have fits (v : KernelState)
          (hv : v.snapshot.Holds (dirIndex va) f (p.setEntry (tableIndex va) .empty)) : P v := by
        unfold P Rewritten
        rwa [if_pos present, Entry.removed, if_pos there]
      refine .bind ((((discountEntry_counts _ u).weaken fun v hv =>
        fits v (Aside.holds cleared hv.toAside hv.spaces)).mono ?_))
      intro n v hv
      have held := Aside.holds cleared hv.toAside hv.spaces
      refine .ite (fun _ => ?_) fun _ => done (fits v held)
      exact .bind (((unbindTable_lands held).weaken fits).mono fun _ x hx => done (fits x hx))
    · exact Entry.removed_eq_self.2 (by simpa using gone)
  yields w f va p aligned h fixed := by
    have done := invalidatePage_yields va w
    have gone := Entry.removed_eq_self.1 fixed
    refine Leads.yields (.ite (fun un => by simp [aligned] at un) fun _ => ?_)
    refine (slot_yields h.wired (dirIndex_lt va)).bind (.ite (fun present => ?_) fun _ => ?_)
    · refine (heldLeaf_yields h present (tableIndex_lt va)).bind ?_
      refine .ite (fun there => ?_) fun _ => ?_
      · rw [gone] at there
        cases there
      · exact done.leads ⟨rfl, rfl⟩
    · exact done.leads ⟨rfl, rfl⟩

/-- The present entry for `va`, if any, with the word that the frame has for it. -/
theorem heldLeafAt?_yields (h : w.Holds (dirIndex va) f p) : Yields (leafAt? va) w
    (if (w.entry w.root (dirIndex va)).isPresent = true ∧
        (p.entry (tableIndex va)).isPresent = true then some (p.entry (tableIndex va)) else none)
      w := by
  refine (slot_yields h.wired (dirIndex_lt va)).trans ?_
  by_cases present : (w.entry w.root (dirIndex va)).isPresent = true
  · simp only [present, if_true, true_and]
    exact (heldLeaf_yields h present (tableIndex_lt va)).trans (.pure _ _)
  · rw [if_neg present, if_neg fun both => present both.1]
    exact .pure _ _

theorem protectPage_rewrites (prot : Protection) :
    RewritesWord (protectPage prot) (Entry.rebuilt prot) where
  lands s f va p aligned h := by
    have ht := tableIndex_lt va
    refine .bind (.of_ok ((leafAt?_looks va).run_eq (heldLeafAt?_yields h)) ?_)
    by_cases both : (s.snapshot.entry s.snapshot.root (dirIndex va)).isPresent = true ∧
        (p.entry (tableIndex va)).isPresent = true
    · obtain ⟨present, there⟩ := both
      rw [if_pos ⟨present, there⟩]
      refine .bind ((Ends.of_yields (heldSetLeaf_yields h present ht _)).mono fun _ u hu => ?_)
      refine Ends.invalidatePage fun v hv => ?_
      rw [Rewritten, if_pos present, Entry.rebuilt, if_pos there, hv.snapshot, hu.2]
      exact h.setEntry _ _
    · rw [if_neg both]
      exact .pure (.untouched h ht fun present => if_neg fun there => both ⟨present, there⟩)
  yields w f va p aligned h fixed := by
    have ht := tableIndex_lt va
    refine (heldLeafAt?_yields h).trans ?_
    by_cases both : (w.entry w.root (dirIndex va)).isPresent = true ∧
        (p.entry (tableIndex va)).isPresent = true
    · rw [Entry.rebuilt, if_pos both.2] at fixed
      rw [if_pos both]
      refine (heldSetLeaf_yields h both.1 ht _).trans ?_
      rw [fixed, ← h.entry, setEntry_entry _ _ ht]
      exact invalidatePage_yields va w
    · rw [if_neg both]
      exact .pure _ _

/-! ## A range of words -/

section Loop
variable {body : Nat → Kernel Unit} {g : Entry → Entry} {first n k : Nat}
  (under : ∀ k < n, dirIndex (first + k * pageSize) = d)

include under in
/-- Rounds so far have not come to the word of the next one. -/
theorem entry_of_partOf {q : Page} (hk : k < n) (part : q.PartOf p (.ofPages first k g)) :
    q.entry (tableIndex (first + k * pageSize)) = p.entry (tableIndex (first + k * pageSize)) := by
  refine (part _ (tableIndex_lt _)).resolve_right ?_
  rintro ⟨x, hx, same, -⟩
  obtain ⟨m, hm, rfl⟩ := Rewriting.mem_ofPages.1 hx
  exact tableIndex_ne_of_dirIndex under hk hm same

/-- In `u`, after `k` rounds from `s` on, the frame holds `q`. Before round `j` nothing happened,
and from then on the word of that round is another one. -/
structure ChangedFrom (s : KernelState) (d f : Nat) (p : Page) (first : Nat) (g : Entry → Entry)
    (j k : Nat) (q : Page) (u : KernelState) : Prop where
  holds : u.snapshot.Holds d f q
  part : q.PartOf p (.ofPages first k g)
  before : k ≤ j → u.snapshot = s.snapshot
  after : j < k → q.entry (tableIndex (first + j * pageSize)) ≠
    p.entry (tableIndex (first + j * pageSize))

namespace ChangedFrom
variable {q : Page} {j : Nat} {u v : KernelState}

theorem reworked (h : ChangedFrom s d f p first g j k q u) (hj : j < k) :
    u.snapshot.Reworked d f p (.ofPages first k g) := by
  refine ⟨q, ?_, h.part, h.holds⟩
  rintro rfl
  exact h.after hj rfl

/-- A round before round `j` leaves all as it was. -/
theorem waits (hs : s.snapshot.Holds d f p) (hj : k < j) (same : v.snapshot = s.snapshot) :
    ChangedFrom s d f p first g j (k + 1) p v where
  holds := same ▸ hs
  part := .refl p _
  before _ := same
  after late := by omega

include under in
/-- Round `j` changes its word, and those that follow come to others. -/
theorem rewrites (h : ChangedFrom s d f p first g j k q u) (hk : k < n) (hj : j ≤ k)
    (present : (s.snapshot.entry s.snapshot.root d).isPresent = true)
    (moves : g (p.entry (tableIndex (first + j * pageSize))) ≠
      p.entry (tableIndex (first + j * pageSize)))
    (hv : Rewritten g u d f q (tableIndex (first + k * pageSize)) v) :
    ∃ q', ChangedFrom s d f p first g j (k + 1) q' v := by
  have old := entry_of_partOf under hk h.part
  have bound := tableIndex_lt (first + k * pageSize)
  have kept := h.part.mono (Rewriting.ofPages_subset (Nat.le_succ k))
  refine ⟨_, hv, kept.setEntry bound ?_, fun early => by omega, fun _ => ?_⟩
  · split
    · exact .inr ⟨_, Rewriting.mem_ofPages.2 ⟨k, by omega, rfl⟩, rfl, congrArg g old⟩
    · exact .inl old
  · rw [Page.entry_setEntry _ _ bound (tableIndex_lt _)]
    rcases hj.eq_or_lt with rfl | past
    · have here := h.before le_rfl
      rw [if_pos rfl, if_pos (by rwa [here]), old]
      exact moves
    · rw [if_neg (tableIndex_ne_of_dirIndex under hk past)]
      exact h.after past

end ChangedFrom

variable (work : RewritesWord body g) (aligned : isAligned first = true)
include work aligned under

theorem forEach_fixed {w : Snapshot} (h : w.Holds d f p)
    (fixed : (Rewriting.ofPages first n g).Fixes p) :
    Yields (forEach pageSize body first n) w () w := by
  refine Leads.yields ((Leads.forEach (fun _ v => v = w) rfl ?_).mono fun _ _ same => ⟨rfl, same⟩)
  rintro k _ hk rfl
  exact (work.yields _ f _ p (isAligned_add_pages aligned k) ((under k hk).symm ▸ h)
    (Rewriting.fixes_ofPages.1 fixed k hk)).leads rfl

/-- The first word that is not as the work would leave it is changed, and none of the work that
follows puts it back. -/
theorem forEach_changes (h : s.snapshot.Holds d f p)
    (present : (s.snapshot.entry s.snapshot.root d).isPresent = true)
    (hit : ¬ (Rewriting.ofPages first n g).Fixes p) :
    Lands (fun u => u.snapshot.Reworked d f p (.ofPages first n g))
      (forEach pageSize body first n) s := by
  obtain ⟨j, hj, moves, earlier⟩ := Rewriting.exists_first hit
  have start : ChangedFrom s d f p first g j 0 p s :=
    ⟨h, .refl p _, fun _ => rfl, fun early => absurd early (Nat.not_lt_zero j)⟩
  refine Ends.mono (Ends.forEach (I := fun k u => ∃ q, ChangedFrom s d f p first g j k q u)
    ⟨p, start⟩ ?_) ?_
  · rintro k u hk ⟨q, sofar⟩
    have aligned' := isAligned_add_pages aligned k
    have slot := under k hk
    rcases Nat.lt_or_ge k j with early | late
    · have same := sofar.before early.le
      have held : u.snapshot.Holds (dirIndex (first + k * pageSize)) f p := by rwa [same, slot]
      exact (Ends.of_yields (work.yields _ f _ p aligned' held (earlier k early))).mono
        fun _ v hv => ⟨p, .waits h early (hv.2.trans same)⟩
    · have round := work.lands u f _ q aligned' (slot.symm ▸ sofar.holds)
      rw [slot] at round
      have next {v : KernelState} := sofar.rewrites (v := v) under hk late present moves
      refine round.ends (fun v hv => ?_) fun v hv => next hv
      -- the work may also end in this round
      obtain ⟨q', changed⟩ := next hv
      exact (changed.reworked (by omega)).mono (Rewriting.ofPages_subset hk)
  · rintro _ u ⟨q, changed⟩
    exact changed.reworked hj

end Loop

/-! ## Mapping -/

section Map
variable {g : Nat} (ht : t < tableEntries) (aligned : isAligned g = true) (prot : Protection)
include ht aligned

/-- Mapping at a slot that leads to the frame writes its word, also where the new page cannot be
counted. -/
theorem map_lands (h : s.snapshot.Holds d f p)
    (present : (s.snapshot.entry s.snapshot.root d).isPresent = true) :
    Lands (·.snapshot.Holds d f (p.setEntry t (.of g prot.entryFlags))) (map g d t prot) s := by
  have hd := Sound.slot_lt h.slot
  rw [Lands, map_eq hd ht aligned]
  refine .bind (.slot h.wired hd (.ite (fun absent => by simp [present] at absent) fun _ => ?_))
  refine .bind (.slot h.wired hd (.bind ?_))
  refine (Ends.of_yields (widenSlot_yields h.wired hd prot)).mono fun _ u hu => ?_
  have held : u.snapshot.Holds d f p := hu.2 ▸ h.setSlot fun _ => by
    rw [Entry.frame_widened]
    exact h.only present
  have present' : (u.snapshot.entry u.snapshot.root d).isPresent = true := by
    rw [hu.2, widenedAt, root_setEntry, entry_setEntry _ _ _ hd hd, if_pos ⟨rfl, rfl⟩,
      Entry.isPresent_widened]
    exact present
  refine .bind (.of_ok ((leaf_looks _ _).run_eq (heldLeaf_yields held present' ht)) ?_)
  refine .bind ((Ends.of_yields (heldSetLeaf_yields held present' ht _)).mono fun _ v hv => ?_)
  have written : v.snapshot.Holds d f (p.setEntry t (.of g prot.entryFlags)) :=
    hv.2 ▸ held.setEntry _ _
  have counted (x : KernelState) (hx : Recounts v x) :
      x.snapshot.Holds d f (p.setEntry t (.of g prot.entryFlags)) :=
    Aside.holds written hx.toAside hx.spaces
  exact .ite (fun _ => ((countEntry_counts _ v).weaken counted).mono fun _ => counted)
    fun _ => .pure written

/-- A word that is there already stays, and the slot has the rights that the page needs. -/
theorem map_fixed (h : w.Holds d f p) (present : (w.entry w.root d).isPresent = true)
    (same : p.entry t = .of g prot.entryFlags) :
    Yields (map g d t prot) w () (w.widenedAt d prot) := by
  have hd := Sound.slot_lt h.slot
  have frame := h.only present
  have there : (w.widenedAt d prot).entry f t = .of g prot.entryFlags :=
    (entry_setPage_of_ne _ _ _ h.away t).trans ((h.entry t).trans same)
  have before : ((w.widenedAt d prot).entry f t).isPresent = true :=
    there ▸ Entry.isPresent_entryFlags g prot
  have installed : w.installed g d t prot = w.widenedAt d prot := by
    rw [Snapshot.installed, frame, if_pos before, ← there, setEntry_entry _ _ ht]
    rfl
  have yields := mapAt_yields h.wired hd ht present (frame ▸ h.inside) g prot (frame.symm ▸
    fun absent => by simp [before] at absent)
  rw [installed] at yields
  exact Leads.yields (map_of_present h.wired hd ht aligned present prot
    (yields.leads ⟨rfl, rfl⟩))

end Map

/-! ## In the kernel's own space -/

section Within
variable {body : Kernel Unit} {v : Snapshot}

theorem kernelSwitch_yields (alone : w.KernelAlone) :
    Yields (switch Spaces.kernelId) w Spaces.kernelId w := by
  have live : w.Live w.spaces.active := (alone.live _).2 alone.active
  have stays := switch_resident_yields live
  rwa [alone.active] at stays

/-- The kernel's own space is resident before the work and after it. -/
theorem within_yields (alone : w.KernelAlone) (spaces : v.spaces = w.spaces)
    (h : Yields body w () v) : Yields (within Spaces.kernelId body) w () v :=
  (kernelSwitch_yields alone).trans (h.trans (Leads.yields (.discard
    ((kernelSwitch_yields (alone.congr spaces)).leads ⟨rfl, rfl⟩))))

theorem within_lands {P : Snapshot → Prop} (alone : s.snapshot.KernelAlone)
    (hP : ∀ u, P u → u.KernelAlone)
    (h : ∀ t, t.snapshot = s.snapshot → Lands (fun u => P u.snapshot) body t) :
    Lands (fun u => P u.snapshot) (within Spaces.kernelId body) s := by
  refine .bind ((Ends.of_yields (kernelSwitch_yields alone)).mono ?_)
  rintro _ t ⟨rfl, ht⟩
  refine .bind (Ends.mono (h t ht) fun _ u hu => .discard ?_)
  exact (kernelSwitch_yields (hP _ hu)).lands fun v hv => hv.symm ▸ hu

end Within

/-! ## Faults -/

/-- Nothing is shared, so a fault is handed on. -/
theorem pageFault_handsOn {E : Failure → Books → Prop} (h : w.Holds (dirIndex va) f p)
    (unshared : ∀ g, w.shares.get g = 0) (code : UInt32) :
    Leads E (pageFault .recording va code) w fun _ v => v = w := by
  have held : w.Holds (dirIndex (alignDown va)) f p := by rwa [dirIndex_alignDown]
  have delegated : Leads E (delegateFault .recording va code) w fun _ v => v = w :=
    (delegateFault_leads code).mono fun _ _ same => same.2
  refine (heldLeafAt?_yields held).bind ?_
  split
  · exact delegated
  · refine .ite (fun _ => delegated) fun _ => (shareCount_yields _ _).bind ?_
    rw [unshared]
    exact (note_yields _ _).bind delegated

end Kernel
end VirtualMemory
