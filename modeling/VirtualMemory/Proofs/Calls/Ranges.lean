import VirtualMemory.Proofs.Calls.Pages
import VirtualMemory.Proofs.Calls.Protection
import VirtualMemory.Proofs.Charts.Ranges

/-!
# Ranges, as lookups tell them

After a range of user pages is removed from a space, lookups find none of them, and the tables that
held no other page are in the pool. After it is protected, lookups find the same frames with the new
rights. No other lookup of a page tells, in whichever space it is made. Only where the slots are
looked at as pages, those of the tables that are gone are gone too.
-/
namespace VirtualMemory

open Layout Snapshot Kernel

namespace Layout

/-- The page of the address is in the range, as far as the processor looks at the address. -/
def InRange (first last va : Nat) : Prop :=
  first ≤ va % 0x100000000 ∧ va % 0x100000000 < last

theorem InRange.user {first last va : Nat} (user : last ≤ kernelStart)
    (inside : InRange first last va) : dirIndex va < userSlots := by
  simp only [InRange, dirIndex, kernelStart, userSlots] at *
  omega

theorem inRange_iff (p q : Nat) {first last va : Nat} (firstAligned : isAligned first = true)
    (lastAligned : isAligned last = true) (user : last ≤ kernelStart) :
    hits p first ((last - first) / pageSize) (.seenBy q (dirIndex va)) (tableIndex va) ↔
      q = p ∧ InRange first last va := by
  rw [isAligned_iff] at firstAligned lastAligned
  constructor
  · rintro ⟨i, hi, place, entry⟩
    have low : dirIndex (first + i * pageSize) < userSlots := dirIndex_user (by
      simp only [pageSize, kernelStart] at *
      omega)
    rw [Place.seenBy, Place.seenBy, if_pos low] at place
    split at place
    · obtain ⟨rfl, slot⟩ := Place.user.inj place
      refine ⟨rfl, ?_⟩
      simp only [InRange, dirIndex, tableIndex, pageSize, kernelStart] at *
      omega
    · cases place
  · rintro ⟨rfl, lower, upper⟩
    refine ⟨(va % 0x100000000 - first) / pageSize, ?_, ?_, ?_⟩
    · simp only [pageSize]
      omega
    · congr 1
      simp only [dirIndex, pageSize]
      omega
    · simp only [tableIndex, pageSize]
      omega

end Layout

/-- A page that was found with these rights has them. -/
theorem Mapping.rights_entryFlags (f : Nat) (prot : Protection) :
    (Mapping.mk f prot.entryFlags).isWritable = prot.grantsWrite ∧
      (Mapping.mk f prot.entryFlags).isUser = prot.grantsUser := by
  change prot.entryFlags.contains _ = _ ∧ prot.entryFlags.contains _ = _
  unfold Protection.entryFlags
  cases prot.grantsWrite <;> cases prot.grantsUser <;> decide

namespace Snapshot

theorem lookIn_of_lt {w : Snapshot} {d : Nat} (hd : d < selfMapSlot) (p t : Nat) :
    w.lookIn p d t = w.look (.seenBy p d) t := if_pos hd

theorem lookIn_self (w : Snapshot) (p t : Nat) : w.lookIn p selfMapSlot t =
    some (if (w.slotIn p t).isPresent = true then some (.ofEntry (w.slotIn p t)) else none) :=
  if_neg (Nat.lt_irrefl _)

theorem slotIn_user {w : Snapshot} {d : Nat} (hd : d < userSlots) (p : Nat) :
    w.slotIn p d = w.slotAt (.user p d) := by
  rw [slotIn, if_pos (hd.trans (by decide)), Place.seenBy, if_pos hd]

theorem Regrants.slotIn {w v : Snapshot} {p q d : Nat} {prot : Protection}
    {hit : Place → Nat → Prop} (h : w.Regrants v p prot hit) (live : w.Live q)
    (hd : d < tableEntries) : v.slotIn q d = w.slotIn q d := by
  unfold Snapshot.slotIn
  split
  · exact h.slot _ (has_seenBy live ‹_›)
  · rename_i high
    rw [h.root]
    exact h.window d (Nat.le_of_not_lt high) hd

end Snapshot

namespace KernelState

variable {s t : KernelState} {p q d first last va : Nat} {prot : Protection}

/-- A table of space `p` at user slot `d`, with no page outside the range. -/
def Empties (s : KernelState) (p first last d : Nat) : Prop :=
  d < userSlots ∧ (s.snapshot.slotIn p d).isPresent = true ∧
    ∀ va, dirIndex va = d → s.lookupIn? p va ≠ some none → InRange first last va

/-- Removing the range from space `p` has done that and nothing else. -/
structure RemovesRange (s t : KernelState) (p first last : Nat) : Prop where
  furnished : t.snapshot.Furnished
  gone : ∀ va, InRange first last va → t.lookupIn? p va = some none
  kept : ∀ q va, s.snapshot.Live q → dirIndex va < selfMapSlot →
    ¬ (q = p ∧ InRange first last va) → t.lookupIn? q va = s.lookupIn? q va
  /-- Tables go with the last of their pages. -/
  emptied : ∀ d, s.Empties p first last d → t.snapshot.slotIn p d = .empty
  slots : ∀ q d, s.snapshot.Live q → d < tableEntries → ¬ (q = p ∧ s.Empties p first last d) →
    t.snapshot.slotIn q d = s.snapshot.slotIn q d
  /-- Behind the last slot lookups find the slots themselves. -/
  hidden : ∀ va, dirIndex va = selfMapSlot → s.Empties p first last (tableIndex va) →
    t.lookupIn? p va = some none
  shown : ∀ q va, s.snapshot.Live q → dirIndex va = selfMapSlot →
    ¬ (q = p ∧ s.Empties p first last (tableIndex va)) → t.lookupIn? q va = s.lookupIn? q va
  free : s.pool.free <:+ t.pool.free
  pool : ∀ f, f ∈ t.pool.free ↔ f ∈ s.pool.free ∨
    ∃ d, s.Empties p first last d ∧ (s.snapshot.slotIn p d).frame = f
  shares : t.shares = s.shares
  spaces : t.spaces = s.spaces

/-- Protecting the range in space `p` has done that and nothing else. -/
structure ProtectsRange (s t : KernelState) (p first last : Nat) (prot : Protection) : Prop where
  furnished : t.snapshot.Furnished
  new : ∀ va, InRange first last va →
    t.lookupIn? p va = (s.lookupIn? p va).map (·.map fun m => ⟨m.frame, prot.entryFlags⟩)
  rights : ∀ va m, InRange first last va → t.lookupIn? p va = some (some m) →
    m.isWritable = prot.grantsWrite ∧ m.isUser = prot.grantsUser
  kept : ∀ q va, s.snapshot.Live q → ¬ (q = p ∧ InRange first last va) →
    t.lookupIn? q va = s.lookupIn? q va
  slots : ∀ q d, s.snapshot.Live q → d < tableEntries →
    t.snapshot.slotIn q d = s.snapshot.slotIn q d
  pool : t.pool = s.pool
  occupancy : t.occupancy = s.occupancy
  shares : t.shares = s.shares
  spaces : t.spaces = s.spaces

section Range
variable (firstAligned : isAligned first = true) (lastAligned : isAligned last = true)
  (user : last ≤ kernelStart)
include firstAligned lastAligned user

/-- What is among the pages of a table is read off lookups and off the table alike. -/
theorem empties_iff (h : s.snapshot.Furnished) (live : s.snapshot.Live p) :
    s.Empties p first last d ↔ d < userSlots ∧
      (s.snapshot.slotAt (.user p d)).isPresent = true ∧
        ∀ i < tableEntries, s.snapshot.look (.user p d) i ≠ some none →
          hits p first ((last - first) / pageSize) (.user p d) i := by
  refine and_congr_right fun hd => ?_
  have low : d < mountTableSlot := hd.trans (by decide)
  have place : Place.seenBy p d = .user p d := if_pos hd
  rw [slotIn_user hd]
  refine and_congr_right fun _ => ⟨fun all i hi some => ?_, fun all va slot some => ?_⟩
  · have slot := dirIndex_pageAddress (Sound.slot_lt low) hi
    have index := tableIndex_pageAddress (Sound.slot_lt low) hi
    have inside := all (pageAddress d i) slot (by
      rwa [lookupIn?_eq h.toCharted live, slot, index, lookIn_of_lt (low.trans (by decide)), place])
    have hit := (inRange_iff p p firstAligned lastAligned user).2 ⟨rfl, inside⟩
    rwa [slot, index, place] at hit
  · rw [lookupIn?_eq h.toCharted live, slot, lookIn_of_lt (low.trans (by decide)), place] at some
    have hit := all _ (tableIndex_lt va) some
    rw [← place, ← slot] at hit
    exact ((inRange_iff p p firstAligned lastAligned user).1 hit).2

theorem removesRange (h : s.snapshot.Furnished) (live : s.snapshot.Live p)
    (sweeps : s.snapshot.Sweeps t.snapshot p (hits p first ((last - first) / pageSize)))
    (spaces : t.snapshot.spaces = s.snapshot.spaces) : s.RemovesRange t p first last := by
  have hit (q va : Nat) : hits p first ((last - first) / pageSize)
      (.seenBy q (dirIndex va)) (tableIndex va) ↔ q = p ∧ InRange first last va :=
    inRange_iff p q firstAligned lastAligned user
  have empties (d : Nat) := empties_iff (d := d) firstAligned lastAligned user h live
  have live' (q : Nat) : t.snapshot.Live q ↔ s.snapshot.Live q := sweeps.live q
  have found (q va : Nat) (hq : s.snapshot.Live q) :
      t.lookupIn? q va = t.snapshot.lookIn q (dirIndex va) (tableIndex va) :=
    lookupIn?_eq sweeps.furnished.toCharted ((live' q).2 hq) va
  have slots (q d : Nat) (hq : s.snapshot.Live q) (hd : d < tableEntries)
      (other : ¬ (q = p ∧ s.Empties p first last d)) :
      t.snapshot.slotIn q d = s.snapshot.slotIn q d := by
    unfold slotIn
    split
    · rename_i low
      refine (sweeps.slot _ (has_seenBy hq low)).elim id ?_
      rintro ⟨there, empty, d', place⟩
      have hd' : d < userSlots := by
        by_contra high
        rw [Place.seenBy, if_neg high] at place
        cases place
      rw [Place.seenBy, if_pos hd'] at place there empty
      obtain ⟨rfl, rfl⟩ := Place.user.inj place
      have all := (sweeps.slot_user live hd' there).1 empty
      exact absurd ⟨rfl, (empties d).2 ⟨hd', there, all⟩⟩ other
    · rename_i high
      rw [sweeps.root]
      exact sweeps.window d (Nat.le_of_not_lt high) hd
  have emptied (d : Nat) (he : s.Empties p first last d) : t.snapshot.slotIn p d = .empty := by
    obtain ⟨hd, there, all⟩ := (empties d).1 he
    rw [slotIn_user hd]
    exact (sweeps.slot_user live hd there).2 all
  refine ⟨sweeps.furnished, fun va inside => ?_, fun q va hq low other => ?_, emptied, slots,
    fun va self he => ?_, fun q va hq self other => ?_, sweeps.free, fun f => ?_, sweeps.shares,
    spaces⟩
  · have low : dirIndex va < selfMapSlot := (inside.user user).trans (by decide)
    rw [found p va live, lookIn_of_lt low]
    exact sweeps.none _ _ (shown_seenBy live low) (tableIndex_lt va) ((hit p va).2 ⟨rfl, inside⟩)
  · rw [found q va hq, lookupIn?_eq h.toCharted hq, lookIn_of_lt low, lookIn_of_lt low]
    exact sweeps.look _ _ (shown_seenBy hq low) (tableIndex_lt va) fun there =>
      other ((hit q va).1 there)
  · rw [found p va live, self, lookIn_self, emptied _ he, Entry.isPresent_empty,
      if_neg Bool.false_ne_true]
  · rw [found q va hq, lookupIn?_eq h.toCharted hq, self, lookIn_self, lookIn_self,
      slots q _ hq (tableIndex_lt va) other]
  · refine (sweeps.mem_free_iff h live f).trans (or_congr_right (exists_congr fun d => ?_))
    rw [empties d, and_assoc, and_assoc]
    exact and_congr_right fun hd => by rw [slotIn_user hd]

section Regrants
variable (h : s.snapshot.Tabled) (live : s.snapshot.Live p)
  (regrants : s.snapshot.Regrants t.snapshot p prot (hits p first ((last - first) / pageSize)))
include h live regrants

theorem lookupIn?_regranted (inside : InRange first last va) : t.lookupIn? p va =
    (s.lookupIn? p va).map (·.map fun m => ⟨m.frame, prot.entryFlags⟩) := by
  have low : dirIndex va < selfMapSlot := (inside.user user).trans (by decide)
  rw [lookupIn?_eq regrants.tabled.toCharted ((regrants.live p).2 live),
    lookupIn?_eq h.toCharted live, lookIn_of_lt low, lookIn_of_lt low]
  exact regrants.new _ _ (shown_seenBy live low) (tableIndex_lt va)
    ((inRange_iff p p firstAligned lastAligned user).2 ⟨rfl, inside⟩)

theorem rights_regranted (inside : InRange first last va) {m : Mapping}
    (page : t.lookupIn? p va = some (some m)) :
    m.isWritable = prot.grantsWrite ∧ m.isUser = prot.grantsUser := by
  rw [lookupIn?_regranted firstAligned lastAligned user h live regrants inside] at page
  obtain ⟨m', -, same⟩ := Option.map_eq_some_iff.1 page
  obtain ⟨m', -, rfl⟩ := Option.map_eq_some_iff.1 same
  exact Mapping.rights_entryFlags m'.frame prot

end Regrants

theorem protectsRange (h : s.snapshot.Furnished) (live : s.snapshot.Live p)
    (regrants : s.snapshot.Regrants t.snapshot p prot (hits p first ((last - first) / pageSize)))
    (spaces : t.snapshot.spaces = s.snapshot.spaces) : s.ProtectsRange t p first last prot := by
  refine ⟨regrants.furnished h,
    fun va => lookupIn?_regranted firstAligned lastAligned user h.toTabled live regrants,
    fun va m inside =>
      rights_regranted firstAligned lastAligned user h.toTabled live regrants inside,
    fun q va hq other => ?_, fun q d hq hd => regrants.slotIn hq hd,
    congrArg FramePool.mk regrants.free, regrants.occupancy, regrants.shares, spaces⟩
  rw [lookupIn?_eq regrants.tabled.toCharted ((regrants.live q).2 hq), lookupIn?_eq h.toCharted hq]
  by_cases low : dirIndex va < selfMapSlot
  · rw [lookIn_of_lt low, lookIn_of_lt low]
    exact regrants.look _ _ (shown_seenBy hq low) (tableIndex_lt va) fun there =>
      other ((inRange_iff p q firstAligned lastAligned user).1 there)
  · rw [eq_selfMapSlot (dirIndex_lt va) low, lookIn_self, lookIn_self,
      regrants.slotIn hq (tableIndex_lt va)]

end Range
end KernelState

namespace Session

open KernelState

/-- On a state where every user slot leads to a table of its own that is not empty, removing a range
of user pages ends, and it has removed these pages and the tables that held no others. Protecting a
range ends too, and it has given the pages there the rights that were asked for. And every session
keeps its state so, whatever the share counts. -/
theorem ranges_exact :
    (∀ (s : KernelState) (p first last : Nat), s.snapshot.Furnished → s.snapshot.Live p →
      isAligned first = true → isAligned last = true → first ≤ last → last ≤ kernelStart →
      (∃ t, remove p first last s = .ok () t ∧ s.RemovesRange t p first last) ∧
      ∀ prot, ∃ t, protect p first last prot s = .ok () t ∧ s.ProtectsRange t p first last prot) ∧
    ∀ n reserved setup σ, Ram.Addressable n → KernelState.Prepares n reserved setup →
      Shared Permits n reserved setup σ → σ.snapshot.Furnished := by
  refine ⟨fun s p first last h live firstAligned lastAligned ordered user => ⟨?_, fun prot => ?_⟩,
    fun n reserved setup σ small prepares shared =>
      (shared.settled (fun _ _ _ => id) small prepares).furnished⟩
  · obtain ⟨⟨⟩, t, run, sweeps, spaces⟩ :=
      (remove_sweeps h live firstAligned lastAligned ordered user).succeeds
    exact ⟨t, run, removesRange firstAligned lastAligned user h live sweeps spaces⟩
  · obtain ⟨⟨⟩, t, run, regrants, spaces⟩ :=
      (protect_regrants h.toTabled live firstAligned lastAligned ordered user prot).succeeds
    exact ⟨t, run, protectsRange firstAligned lastAligned user h live regrants spaces⟩

theorem ranges_exact_mapped : ∃ σ τ υ, boot? 8 0 [] = some σ ∧
    σ.next? (.mapFresh 0 0x400000 .userRW) = some τ ∧ τ.next? .create = some υ ∧
    υ.snapshot.Furnished ∧ υ.snapshot.Live 0 ∧
    (∃ t, remove 0 0x400000 0x402000 υ.state = .ok () t ∧
      υ.state.RemovesRange t 0 0x400000 0x402000) ∧
    ∃ t, protect 0 0x400000 0x402000 .userRead υ.state = .ok () t ∧
      υ.state.ProtectsRange t 0 0x400000 0x402000 .userRead := by
  obtain ⟨σ, τ, υ, boot, mint, create, live, -⟩ := one_page
  have low : dirIndex 0x400000 < mountTableSlot := by decide
  have reaches : Reaches Permits 8 0 [] υ :=
    ((Reaches.of_boot? boot).next? mint low).next? create trivial
  obtain ⟨ranges, furnished⟩ := ranges_exact
  have furnished := furnished 8 0 [] υ (by decide) (KernelState.prepares_nil 8)
    (.of_reaches reaches)
  obtain ⟨removes, protects⟩ := ranges υ.state 0 0x400000 0x402000 furnished live (by decide)
    (by decide) (by decide) (by decide)
  exact ⟨σ, τ, υ, boot, mint, create, furnished, live, removes, protects .userRead⟩

/-- The only page of a table is removed: the table is not found any more where slots are looked at
as pages, which is outside the range. -/
theorem remove_hides_table : ∃ σ τ t, boot? 8 0 [] = some σ ∧
    σ.next? (.mapFresh 0 0x400000 .userRW) = some τ ∧ Shared Permits 8 0 [] τ ∧
    remove 0 0x400000 0x401000 τ.state = .ok () t ∧ ¬ InRange 0x400000 0x401000 0xffc01000 ∧
    τ.state.lookup? 0xffc01000 = some (some ⟨0x104000, Protection.userRW.entryFlags⟩) ∧
    t.lookup? 0xffc01000 = some none := by
  have runs : (((boot? 8 0 []).bind (·.next? (.mapFresh 0 0x400000 .userRW))).filter fun τ =>
      τ.state.lookup? 0xffc01000 = some (some ⟨0x104000, Protection.userRW.entryFlags⟩) ∧
      EStateM.run' (do remove 0 0x400000 0x401000; lookup 0xffc01000) τ.state =
        some none).isSome = true := by decide +kernel
  obtain ⟨τ, run⟩ := Option.isSome_iff_exists.1 runs
  obtain ⟨run, holds⟩ := Option.filter_eq_some_iff.1 run
  obtain ⟨before, after⟩ := of_decide_eq_true holds
  obtain ⟨σ, boot, mint⟩ := Option.bind_eq_some_iff.1 run
  have low : dirIndex 0x400000 < mountTableSlot := by decide
  have reaches : Reaches Permits 8 0 [] τ := (Reaches.of_boot? boot).next? mint low
  obtain ⟨v, done⟩ := ok_of_run' after
  obtain ⟨⟨⟩, t, removed, found⟩ := bind_eq_ok.1 done
  refine ⟨σ, τ, t, boot, mint, .of_reaches reaches, removed, ?_, before, run'_of_ok found⟩
  unfold InRange
  decide

end Session
end VirtualMemory
