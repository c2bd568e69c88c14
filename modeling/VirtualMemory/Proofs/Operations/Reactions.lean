import VirtualMemory.Proofs.Ends
import VirtualMemory.Proofs.Operations.Fault

/-!
# Reactions to faults

What becomes of a fault is settled before anything is changed: by the page behind the address, by
the share count of its frame, and by whether the access came from user mode. Whether it was a write
plays no part. The policy has a say where the fault is handed on, and in which frame holds a private
copy; it may do anything between two states of a kernel at rest.
-/
namespace VirtualMemory

open Layout Snapshot

/-- What the kernel does about a fault. -/
inductive Reaction where
  | delegate
  /-- Nobody accounts for the frame, which is reported before the fault is handed on. -/
  | disown (frame : Nat)
  | grant (e : Entry)
  | copy (frame : Nat)
  deriving DecidableEq

namespace Reaction

open Kernel

def action (policy : Policy) (va : Nat) (code : UInt32) : Reaction → Kernel FaultOutcome
  | delegate => delegateFault policy va code
  | disown frame => do
    note (.untrackedFrame (alignDown va) frame)
    delegateFault policy va code
  | grant e => do
    grantWrite (alignDown va) e
    return .writeGranted
  | copy frame => do
    copyPage policy (alignDown va) frame
    return .copied

end Reaction

namespace Snapshot

variable {w v u x : Snapshot} {O Q : Finset Nat} {role : Nat → Role} {va g : Nat} {e : Entry}

def reaction (w : Snapshot) (va : Nat) (code : UInt32) : Reaction :=
  match w.pageAt? va with
  | none => .delegate
  | some e =>
    if TrapCode.isUser code && !e.isUser then .delegate
    else match w.shares.get e.frame with
      | 0 => .disown e.frame
      | 1 => .grant e
      | _ => .copy e.frame

/-- There is no page at `va`, or not for the one who asks, or nobody accounts for its frame. -/
def Unaccounted (w : Snapshot) (va : Nat) (code : UInt32) : Prop := ∀ e, w.pageAt? va = some e →
  (TrapCode.isUser code = true ∧ e.isUser = false) ∨ w.shares.get e.frame = 0

/-- The snapshot once the page `e` at `va` has its write right, on both levels. -/
def grantedAt (w : Snapshot) (va : Nat) (e : Entry) : Snapshot :=
  (w.setEntry w.root (dirIndex va)
      ((w.entry w.root (dirIndex va)).set EntryFlags.writable)).setEntry
    (w.entry w.root (dirIndex va)).frame (tableIndex va) (e.set EntryFlags.writable)

/-- The page at `va` is given up for a copy: one reference less is counted, and it is unmapped. -/
structure GivesUpPage (w u : Snapshot) (O : Finset Nat) (va : Nat) (e : Entry) : Prop where
  settled : u.Settled O
  size : u.size = w.size
  spaces : u.spaces = w.spaces
  shares : u.shares = w.shares.set e.frame (w.shares.get e.frame - 1)
  leaf : ∀ π t, w.Has π → t < tableEntries →
    u.leaf? π t = w.pagesWith (w.here (dirIndex va)) (tableIndex va) none π t
  data : ∀ f ∈ O, u.page f = w.page f

/-- From `u` to `x` a frame `g` was found for the private copy of what is in `original`. The kernel
is at rest again; no page, no caller's frame and no other share count is new; and `g` is a frame of
memory that is mapped nowhere and is neither free nor a table nor a directory. -/
structure Lends (u x : Snapshot) (O Q : Finset Nat) (original g : Nat) : Prop where
  rest : x.Settled Q
  keeps : O ⊆ Q
  size : x.size = u.size
  spaces : x.spaces = u.spaces
  leaf : ∀ π t, u.Has π → t < tableEntries → x.leaf? π t = u.leaf? π t
  data : ∀ f ∈ O, f ≠ g → x.page f = u.page f
  shares : ∀ f, f ≠ g → x.shares.get f = u.shares.get f
  frame : Ram.IsFrame x.size g
  other : g ≠ original
  unmapped : ∀ π t e, u.Has π → t < tableEntries → u.leaf? π t = some e → e.frame ≠ g
  free : g ∉ x.free
  table : g ≠ mountTable ∧ ∀ π, x.Has π → (x.slotAt π).isPresent = true → (x.slotAt π).frame ≠ g
  directory : g ≠ x.root ∧ ∀ p r, x.spaces.find? p = some r → r.directory ≠ g

/-- The page `e` at `va` is now a private copy in the frame `g`. One reference less is counted to
the frame it was in, and all else is as it was: the other pages, what is in the callers' frames and
the other counts. -/
structure CopiedInto (w v : Snapshot) (O Q : Finset Nat) (va : Nat) (e : Entry) (g : Nat) :
    Prop where
  settled : v.Settled Q
  size : v.size = w.size
  spaces : v.spaces = w.spaces
  frame : (Entry.of g Protection.userRWX.entryFlags).frame = g
  leaf : ∀ π t, w.Has π → t < tableEntries →
    v.leaf? π t = w.pagesAt va (.of g Protection.userRWX.entryFlags) π t
  content : e.frame ∈ O → v.page g = w.page e.frame
  data : ∀ f ∈ O, f ≠ g → v.page f = w.page f
  count : v.shares.get e.frame = w.shares.get e.frame - 1
  counts : ∀ f, f ≠ e.frame → f ≠ g → v.shares.get f = w.shares.get f

theorem exists_of_accounted {code : UInt32} (h : ¬ w.Unaccounted va code) :
    ∃ e, w.pageAt? va = some e ∧ (TrapCode.isUser code = true → e.isUser = true) ∧
      w.shares.get e.frame ≠ 0 := by
  unfold Unaccounted at h
  push Not at h
  obtain ⟨e, page, right, counted⟩ := h
  exact ⟨e, page, fun user => by simpa using right user, counted⟩

theorem reaction_of_unaccounted {code : UInt32} (h : w.Unaccounted va code) :
    w.reaction va code = .delegate ∨ ∃ f, w.reaction va code = .disown f := by
  unfold reaction
  split
  · exact .inl rfl
  · rename_i e page
    split
    · exact .inl rfl
    · rename_i allowed
      obtain ⟨user, denied⟩ | zero := h e page
      · simp [user, denied] at allowed
      · rw [zero]
        exact .inr ⟨_, rfl⟩

section Accounted
variable {code : UInt32} (page : w.pageAt? va = some e)
  (right : TrapCode.isUser code = true → e.isUser = true)
include page right

theorem reaction_of_lone (lone : w.shares.get e.frame = 1) : w.reaction va code = .grant e := by
  unfold reaction
  simp only [page, lone]
  exact if_neg (by simpa using right)

theorem reaction_of_several (several : 2 ≤ w.shares.get e.frame) :
    w.reaction va code = .copy e.frame := by
  unfold reaction
  rw [page]
  simp only
  rw [if_neg (by simpa using right)]
  split <;> first | rfl | omega

end Accounted

theorem Lends.mem (h : u.Lends x O Q e.frame g) : g ∈ Q := by
  obtain ⟨role, stable⟩ := h.rest.stable
  refine (stable.owned g).1 ?_
  cases what : role g with
  | outside => exact absurd h.frame ((stable.outside g).1 what)
  | resident => exact absurd ((stable.resident g).1 what) h.directory.1
  | window => exact absurd ((stable.window g).1 what) h.table.1
  | free => exact absurd ((stable.free g).1 what) h.free
  | directory p =>
    obtain ⟨r, hr, same⟩ := (stable.directory g p).1 what
    exact absurd same (h.directory.2 p r hr)
  | table π =>
    obtain ⟨hπ, present, same⟩ := (stable.table g π).1 what
    exact absurd same (h.table.2 π hπ present)
  | owned => rfl
  | spare => exact absurd what (stable.at_rest g)

/-- A frame from the pool that is counted once more is such a frame. -/
theorem Settled.lends {rest : List Nat} (h : u.Settled O) (first : u.free = g :: rest)
    (other : g ≠ e.frame) (unmapped : ∀ π t e, u.Has π → t < tableEntries →
      u.leaf? π t = some e → e.frame ≠ g) :
    u.Lends (u.book { u.toBooks with free := rest, shares := u.shares.set g (u.shares.get g + 1) })
      O (insert g O) e.frame g := by
  obtain ⟨handed, fresh, inside, hm, -, -⟩ := h.hand first
  set x := u.book { u.toBooks with
    free := rest
    shares := u.shares.set g (u.shares.get g + 1) }
  have rest' : x.Settled (insert g O) := handed.setShare inside hm (u.shares.get g + 1)
  have mine := Finset.mem_insert_self g O
  obtain ⟨role, stable⟩ := rest'.stable
  have owned := stable.data mine
  refine ⟨rest', Finset.subset_insert _ _, rfl, rfl, fun π t _ _ => leaf?_book rfl π t,
    fun _ _ _ => rfl, fun f away => ?_, inside, other, unmapped, ?_, ⟨hm, ?_⟩,
    stable.ne_root mine, stable.not_directory (by simp [owned])⟩
  · exact (Shares.get_set ..).trans (if_neg (Ne.symm away))
  · intro free
    rw [(stable.free g).2 free] at owned
    cases owned
  · intro π hπ present same
    rw [← same, stable.table_slotAt hπ present] at owned
    cases owned

end Snapshot

namespace Kernel

variable {E : Failure → Books → Prop} {w : Snapshot} {s u : KernelState} {O Q : Finset Nat}
  {role : Nat → Role} {va g : Nat} {e : Entry} {policy : Policy}

/-- The kernel only looks until it has made up its mind. -/
theorem pageFault_of_found
    (found : leafAt? (alignDown va) s = .ok (s.snapshot.pageAt? va) s) (policy : Policy)
    (code : UInt32) :
    pageFault policy va code s = (s.snapshot.reaction va code).action policy va code s := by
  rw [pageFault, bind_of_ok found, reaction]
  cases s.snapshot.pageAt? va with
  | none => rfl
  | some e =>
    simp only
    split
    · rfl
    · have counted := (shareCount_looks e.frame).run_eq (shareCount_yields e.frame s.snapshot)
      rw [bind_of_ok counted]
      rcases s.snapshot.shares.get e.frame with _ | _ | n <;> rfl

theorem pageFault_eq (h : s.snapshot.Sound role) (hd : dirIndex va < mountTableSlot)
    (policy : Policy) (code : UInt32) :
    pageFault policy va code s = (s.snapshot.reaction va code).action policy va code s := by
  have hd' : dirIndex (alignDown va) < mountTableSlot := by rwa [dirIndex_alignDown]
  have found := (leafAt?_looks (alignDown va)).run_eq (pageAt_yields h hd')
  rw [show s.snapshot.leaf? _ _ = s.snapshot.pageAt? va from s.snapshot.pageAt?_alignDown va]
    at found
  exact pageFault_of_found found policy code

/-- Where the page is accounted for, only the user bit of the code matters. -/
theorem pageFault_congr (h : s.snapshot.Sound role) (hd : dirIndex va < mountTableSlot)
    {code code' : UInt32} (accounted : ¬ s.snapshot.Unaccounted va code)
    (same : TrapCode.isUser code' = TrapCode.isUser code) (policy : Policy) :
    pageFault policy va code' s = pageFault policy va code s := by
  obtain ⟨e, page, right, counted⟩ := exists_of_accounted accounted
  rw [pageFault_eq h hd, pageFault_eq h hd]
  obtain lone | several :
      s.snapshot.shares.get e.frame = 1 ∨ 2 ≤ s.snapshot.shares.get e.frame := by
    omega
  · rw [reaction_of_lone page right lone, reaction_of_lone page (same ▸ right) lone]
    rfl
  · rw [reaction_of_several page right several, reaction_of_several page (same ▸ right) several]
    rfl

/-- A fault that is handed on is handed on once, as it came, and all the kernel does besides is to
report it. -/
theorem delegate_eq {code : UInt32} (h : s.snapshot.Unaccounted va code) :
    ∃ reports, ∀ policy : Policy, (s.snapshot.reaction va code).action policy va code s =
      (do
        policy.resolve va (.ofTrapCode code)
        return FaultOutcome.delegated va (.ofTrapCode code))
        { s with events := reports ++ s.events } := by
  obtain delegate | ⟨f, disown⟩ := reaction_of_unaccounted h
  · rw [delegate]
    exact ⟨[.faultDelegated va (.ofTrapCode code)], fun _ => rfl⟩
  · rw [disown]
    exact ⟨[.faultDelegated va (.ofTrapCode code), .untrackedFrame (alignDown va) f], fun _ => rfl⟩

theorem grantLeaf_yields (hw : w.Wired) {page : Nat} {slot : Entry}
    (hs : w.entry w.root (dirIndex page) = slot) (present : slot.isPresent = true)
    (inside : Ram.IsFrame w.size slot.frame) :
    Yields (do
      setLeaf (dirIndex page) (tableIndex page) (e.set EntryFlags.writable)
      invalidatePage page
      countWriteGrant
      note (.writeGranted page e.frame)) w ()
      (w.setEntry slot.frame (tableIndex page) (e.set EntryFlags.writable)) :=
  (setLeaf_yields hw (dirIndex_lt page) hs present inside (tableIndex_lt page) _).trans <|
    (invalidatePage_yields _ _).trans ((countWriteGrant_yields _).trans (note_yields _ _))

theorem grantWrite_of_present (hw : w.Wired)
    (present : (w.entry w.root (dirIndex va)).isPresent = true)
    (inside : Ram.IsFrame w.size (w.entry w.root (dirIndex va)).frame) :
    Yields (grantWrite va e) w () (w.grantedAt va e) := by
  have hd := dirIndex_lt va
  unfold grantedAt
  refine (slot_yields hw hd).trans ?_
  by_cases writable : (w.entry w.root (dirIndex va)).isWritable = true
  · rw [if_neg (by simpa using writable), Entry.set_of_has writable, setEntry_entry _ _ hd]
    exact grantLeaf_yields hw rfl present inside
  · rw [if_pos (by simpa using writable)]
    refine (setSlot_yields hw hd _).trans ?_
    have frame := Entry.frame_set_writable (w.entry w.root (dirIndex va))
    have wired := hw.reslot hd (e := (w.entry w.root (dirIndex va)).set EntryFlags.writable)
      (by simp [present]) frame
    rw [← frame] at inside ⊢
    refine grantLeaf_yields wired ?_ (by simp [present]) inside
    exact (entry_setEntry w w.root _ hd hd).trans (if_pos ⟨rfl, rfl⟩)

theorem grantWrite_yields (h : w.Sound role) (hd : dirIndex va < mountTableSlot)
    (page : w.pageAt? va = some e) : Yields (grantWrite va e) w () (w.grantedAt va e) := by
  obtain ⟨present, table, -, -⟩ := bound_of_leaf? h hd page
  exact grantWrite_of_present h.wired present (h.isFrame (by simp [table]))

/-- The page is gone when the policy is asked for a frame. -/
theorem giveUpPage (h : s.snapshot.Settled O) (aligned : isAligned va = true)
    (hd : dirIndex va < mountTableSlot) (several : 2 ≤ s.snapshot.shares.get e.frame) :
    ∃ u : KernelState, s.snapshot.GivesUpPage u.snapshot O va e ∧ ∀ policy : Policy,
      copyPage policy va e.frame s =
        (policy.privateFrame va >>= installCopy va e.frame) u := by
  obtain ⟨inside, hm⟩ := h.shared e.frame (by omega)
  obtain ⟨t, counted, ht⟩ := unshareFrame_yields (f := e.frame) (w := s.snapshot) (by omega) s rfl
  have rest := h.setShare inside hm (s.snapshot.shares.get e.frame - 1)
  rw [← ht] at rest
  obtain ⟨⟨⟩, u, unmapped, settled, removed⟩ := Leads.succeeds (unmap_leads rest aligned hd)
  refine ⟨u, ⟨settled, ?_, ?_, ?_, ?_, ?_⟩, fun policy => ?_⟩
  · rw [removed.size, ht]
    rfl
  · rw [removed.spaces, ht]
    rfl
  · rw [removed.shares, ht]
    rfl
  · have leaf := removed.leaf
    rw [ht] at leaf
    exact leaf
  · have data := removed.data
    rw [ht] at data
    exact data
  · rw [copyPage_eq, bind_of_ok counted, bind_of_ok unmapped]

/-- Whichever frame the policy lends, the page ends up in it, unless there is no frame left for a
table that it needs. -/
theorem installCopy_ends (h : s.snapshot.Settled O) (off : offset va = 0)
    (hd : dirIndex va < mountTableSlot) (several : 2 ≤ s.snapshot.shares.get e.frame)
    (gone : s.snapshot.GivesUpPage u.snapshot O va e) {x : KernelState}
    (lent : u.snapshot.Lends x.snapshot O Q e.frame g) :
    (∃ t, installCopy va e.frame g x = .ok () t ∧
      s.snapshot.CopiedInto t.snapshot O Q va e g) ∨
    ∃ t, installCopy va e.frame g x = .error (.halt .outOfFrames) t ∧ x.snapshot.free = [] ∧
      (x.snapshot.entry x.snapshot.root (dirIndex va)).isPresent = false := by
  obtain ⟨inside, hm⟩ := h.shared e.frame (by omega)
  have size : x.snapshot.size = s.snapshot.size := lent.size.trans gone.size
  have spaces : x.snapshot.spaces = s.snapshot.spaces := lent.spaces.trans gone.spaces
  have installed := installCopy_leads lent.rest off hd lent.mem (size ▸ inside) hm x rfl
  cases run : installCopy va e.frame g x with
  | error f t =>
    rw [run] at installed
    obtain ⟨rfl, -, empty, absent⟩ := installed
    exact .inr ⟨t, rfl, empty, absent⟩
  | ok a t =>
    rw [run] at installed
    obtain ⟨y, hy, mapped, done⟩ := installed
    refine .inl ⟨t, rfl, ?_⟩
    obtain ⟨settled, seen⟩ := hy.setPage lent.mem (y.page e.frame)
    rw [done]
    have data (f : Nat) (mine : f ∈ O) (away : f ≠ g) : y.page f = s.snapshot.page f :=
      (mapped.data f (lent.keeps mine)).trans ((lent.data f mine away).trans (gone.data f mine))
    have counts (f : Nat) (away : f ≠ g) : y.shares.get f =
        (s.snapshot.shares.set e.frame (s.snapshot.shares.get e.frame - 1)).get f := by
      rw [mapped.shares, lent.shares f away, gone.shares]
    refine ⟨settled, mapped.size.trans size, mapped.spaces.trans spaces,
      lent.rest.frame_of lent.mem .userRWX, fun π t hπ ht => ?_, fun mine => ?_,
      fun f mine away => ?_, ?_, fun f away away' => ?_⟩
    · have has : x.snapshot.Has π := (has_congr spaces π).2 hπ
      rw [seen π t ((has_congr mapped.spaces π).2 has), mapped.leaf π t has ht, pagesAt, pagesAt,
        here_congr spaces]
      unfold pagesWith
      split
      · rfl
      · rw [lent.leaf π t ((has_congr gone.spaces π).2 hπ) ht, gone.leaf π t hπ ht, pagesWith,
          if_neg ‹_›]
    · rw [page_setPage_self]
      exact data _ mine lent.other.symm
    · rw [page_setPage, if_neg away]
      exact data f mine away
    · change y.shares.get e.frame = _
      rw [counts _ lent.other.symm, Shares.get_set, if_pos rfl]
    · change y.shares.get f = _
      rw [counts f away', Shares.get_set, if_neg (Ne.symm away)]

end Kernel
end VirtualMemory
