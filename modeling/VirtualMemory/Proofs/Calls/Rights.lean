import VirtualMemory.Proofs.Calls.Forks
import VirtualMemory.Proofs.Calls.Progress
import VirtualMemory.Proofs.Sharing.Mappings

/-!
# Rights

The processor grants a program what the slot and the entry of a page both grant; a lookup reports
what the entry grants. The two are the same for every page of every space, resident or not, as long
as no range of pages is protected: mapping and granting writes widen the slot first, a fork binds
its tables with all rights and takes rights from entries alone, and nothing else narrows a slot that
stays bound.
-/
namespace VirtualMemory

open Layout Snapshot Kernel

/-- What a program may do with a page. -/
structure Rights where
  write : Bool
  user : Bool
  deriving DecidableEq

/-- What two levels of a walk grant together. -/
def Rights.meet (a b : Rights) : Rights := ⟨a.write && b.write, a.user && b.user⟩

def Entry.rights (e : Entry) : Rights := ⟨e.isWritable, e.isUser⟩

def Mapping.rights (m : Mapping) : Rights := ⟨m.isWritable, m.isUser⟩

/-- The rights that the processor finds in a walk, if it ends at a page. -/
def Machine.granted (m : Machine) (va : Nat) : Except Violation (Option Rights) := do
  let slot ← m.loadEntry (m.directory + 4 * dirIndex va)
  if slot.isPresent then
    let leaf ← m.loadEntry (slot.frame + 4 * tableIndex va)
    return if leaf.isPresent then some (slot.rights.meet leaf.rights) else none
  else return none

/-- Lookups report the rights that the processor enforces. -/
structure KernelState.RightsEnforced (s : KernelState) : Prop where
  /-- In a live space, a slot grants all that the entries behind it do, so that both levels
  together grant what the entry does. -/
  slots : ∀ p d t, s.snapshot.Live p → d < mountTableSlot → t < tableEntries →
    (s.snapshot.slotAt (.seenBy p d)).isPresent = true →
    (s.snapshot.leafAt (.seenBy p d) t).isPresent = true →
    (s.snapshot.slotAt (.seenBy p d)).Covers (s.snapshot.leafAt (.seenBy p d) t) ∧
      (s.snapshot.slotAt (.seenBy p d)).rights.meet (s.snapshot.leafAt (.seenBy p d) t).rights =
        (s.snapshot.leafAt (.seenBy p d) t).rights
  /-- What is reported of a resident page is what the processor grants there. -/
  reported : ∀ va, dirIndex va < mountTableSlot → ∃ m t, Kernel.lookup va s = .ok m t ∧
    t.snapshot = s.snapshot ∧ s.machine.granted va = .ok (m.map Mapping.rights)

theorem Mapping.rights_ofEntry (e : Entry) : (ofEntry e).rights = e.rights := by
  rw [rights, isWritable_ofEntry, isUser_ofEntry, Entry.rights]

theorem Entry.Covers.meet {s e : Entry} (h : s.Covers e) : s.rights.meet e.rights = e.rights := by
  have write : (s.isWritable && e.isWritable) = e.isWritable :=
    Bool.and_eq_right_iff_imp.2 h.write
  have user : (s.isUser && e.isUser) = e.isUser := Bool.and_eq_right_iff_imp.2 h.user
  rw [rights, rights, Rights.meet, write, user]

namespace Snapshot

variable {w v : Snapshot} {O Q : Finset Nat} {c : Call} {r : Except ArgumentError Answer}

/-- The permitted calls but for protecting a range, which leaves slots as they are; and stores of
user programs wherever a fault may be raised for them. -/
def Widens (w : Snapshot) (O : Finset Nat) : Call → Prop
  | .protect .. => False
  | .userWrite va _ => dirIndex va < mountTableSlot
  | c => w.Permits O c

/-- The kernel is at rest, callers hold every page that is mapped, and slots grant what their
entries do. -/
structure Enforcing (w : Snapshot) (O : Finset Nat) : Prop where
  settled : w.Settled O
  held : w.KernelHeld O
  granting : w.Granting

theorem upholds_owning {p n : Nat} {s : SpaceRecord} (record : w.spaces.find? p = some s) :
    w.Upholds (w.owning p s n) :=
  ⟨rfl, fun _ _ _ => rfl, fun g => g.congr (fun π => (has_owning record n π).1)
    (fun π _ => slotAt_owning record n π) fun π t _ _ => leaf?_owning record n π t⟩

/-- No call that protects nothing takes a right from a slot that its entries have. -/
theorem Effect.upholds (h : w.Settled O)
    (free : ∀ p first last prot, c ≠ .protect p first last prot)
    (effect : w.Effect O c r v Q) : w.Upholds v := by
  cases effect with
  | refused => exact .refl w
  | created _ admitted => exact admitted.upholds
  | reowned _ record => exact upholds_owning record
  | vacated _ _ gone => exact gone.upholds
  | switched _ _ switched => exact h.upholds_switched switched
  | added _ _ pages | removed _ _ pages => exact pages.toUpholds
  | reprotected => exact absurd rfl (free _ _ _ _)
  | mapped _ pages | unmapped _ pages | returned _ pages => exact pages.toUpholds
  | @minted _ _ _ f _ rest _ _ _ pages =>
    have taken : w.Upholds (w.book { w.toBooks with free := rest, shares := w.shares.set f 1 }) :=
      .book rfl
    exact taken.trans pages.toUpholds
  | dropped _ _ pages => exact pages.toUpholds.trans (.book rfl)
  | forked _ _ _ _ _ forked => exact forked.upholds
  | faulted resolved => exact resolved.upholds
  | stored user resolved page =>
    have settled := resolved.settled h
    have owned := settled.pageAt?_owned user page
    exact resolved.upholds.trans (settled.upholds_setPage owned _)
  | taken _ _ _ pages => exact pages.toUpholds

namespace Enforcing

/-- In both halves, a page that can be reached is in a caller's frame. -/
theorem page_held (h : w.Enforcing O) {va : Nat} (hd : dirIndex va < mountTableSlot) {e : Entry}
    (page : w.pageAt? va = some e) : e.frame ∈ O := by
  obtain ⟨role, stable⟩ := h.settled.stable
  have there := mem_mappings_of_page (has_here stable.live_active hd) (tableIndex_lt va) page
  exact h.settled.mapping_held h.held there

/-- A store in the kernel half does no more than one in the user half. -/
theorem userWrite (h : w.Enforcing O) {va : Nat} (hd : dirIndex va < mountTableSlot)
    (value : UInt8) :
    Leads Stops (Call.userWrite va value).perform w fun r v =>
      v.Enforcing ((Call.userWrite va value).held r v O) := by
  refine .attempt (.bind ((userWrite_leads h.settled hd (fun _ => h.page_held hd) value).mono ?_))
    (fun _ _ no => no _ rfl) fun _ _ => id
  rintro _ _ ⟨u, e, resolved, page, -, rfl⟩
  have settled := resolved.settled h.settled
  have mine : e.frame ∈ u.withPageAt va O := mem_withPageAt page
  obtain ⟨stored, seen⟩ := settled.setPage mine ((u.page e.frame).setByte (offset va) value)
  refine .pure ?_
  change Enforcing _ (Snapshot.withPageAt _ va O)
  rw [settled.withPageAt_setPage hd mine]
  have held := (h.held.resolved h.settled hd resolved).of_leaf (Finset.Subset.refl _)
    fun d t has _ => seen _ t has
  have upheld := settled.upholds_setPage mine ((u.page e.frame).setByte (offset va) value)
  exact ⟨stored, held, (resolved.upholds.trans upheld).rights h.granting⟩

theorem call {s t : KernelState} (h : s.snapshot.Enforcing O) (ok : s.snapshot.Widens O c)
    (answered : c.perform s = .ok r t) :
    t.snapshot.Enforcing (c.held r t.snapshot O) := by
  by_cases store : ∃ va value, c = .userWrite va value
  · obtain ⟨va, value, rfl⟩ := store
    have ends := h.userWrite ok value s rfl
    rwa [answered] at ends
  · have permitted : s.snapshot.Permits O c := by
      unfold Widens at ok
      split at ok
      · exact ok.elim
      · exact absurd ⟨_, _, rfl⟩ store
      · exact ok
    have effect := Session.effect_of_perform h.settled permitted answered
    refine ⟨effect.settled h.settled, h.held.effect h.settled permitted effect,
      (effect.upholds h.settled ?_).rights h.granting⟩
    rintro p first last prot rfl
    exact ok

end Enforcing

/-- A boot without tables shows no page. -/
theorem Booted.granting (h : w.Booted 0) : w.Granting := by
  intro π t e hπ _ page
  obtain ⟨present, -, -⟩ := leaf?_eq_some.1 page
  cases π with
  | user p d =>
    rw [h.vacant p d hπ.2] at present
    cases present
  | kernel d =>
    obtain ⟨k, hk, -⟩ := h.tables.reserved d hπ.1 hπ.2 present
    omega

theorem has_seenBy {p d : Nat} (live : w.Live p) (hd : d < mountTableSlot) :
    w.Has (.seenBy p d) := by
  unfold Place.seenBy
  split
  · exact ⟨live, ‹_›⟩
  · exact ⟨by omega, hd⟩

end Snapshot

/-- What the processor grants is read off the two entries of the walk. -/
theorem Machine.granted_of_inside {s : KernelState} {w : Snapshot} (h : w.Wired)
    (hs : s.snapshot = w) {va : Nat} (inside : (w.entry w.root (dirIndex va)).isPresent = true →
      Ram.IsFrame w.size (w.entry w.root (dirIndex va)).frame) :
    s.machine.granted va = .ok ((w.pageAt? va).map fun e =>
      (w.slotAt (w.here (dirIndex va))).rights.meet e.rights) := by
  subst hs
  have slot := loadEntry_eq (m := s.machine) h.isFrame_root (dirIndex_lt va)
  change _ = Except.ok (s.snapshot.entry s.snapshot.root (dirIndex va)) at slot
  rw [← slotAt_here] at slot inside
  unfold granted pageAt? leaf?
  rw [show s.machine.directory = s.snapshot.root from rfl, slot]
  cases present : (s.snapshot.slotAt (s.snapshot.here (dirIndex va))).isPresent with
  | false => simp [present, bind, Except.bind, pure, Except.pure]
  | true =>
    have leaf := loadEntry_eq (m := s.machine) (inside present) (tableIndex_lt va)
    change _ = Except.ok (s.snapshot.leafAt (s.snapshot.here (dirIndex va)) _) at leaf
    cases there : (s.snapshot.leafAt (s.snapshot.here (dirIndex va)) (tableIndex va)).isPresent <;>
      simp [present, leaf, there, bind, Except.bind, pure, Except.pure]

theorem Machine.granted_eq {s : KernelState} {w : Snapshot} {O : Finset Nat} (h : w.Settled O)
    (hs : s.snapshot = w) {va : Nat} (hd : dirIndex va < mountTableSlot) :
    s.machine.granted va = .ok ((w.pageAt? va).map fun e =>
      (w.slotAt (w.here (dirIndex va))).rights.meet e.rights) := by
  obtain ⟨role, stable⟩ := h.stable
  refine granted_of_inside stable.wired hs fun present => ?_
  rw [← slotAt_here] at present ⊢
  have table := stable.table_slotAt (has_here stable.live_active hd) present
  exact stable.isFrame (by simp [table])

namespace Session.Shared

variable {n : Nat} {σ : Session}

theorem enforcing (small : Ram.Addressable n) (h : Shared Widens n 0 [] σ) :
    σ.snapshot.Enforcing σ.held := by
  induction h with
  | boot booted =>
    have start := (KernelState.boot_booted small (KernelState.prepares_nil n) booted).2
    exact ⟨start.settled, start.kernelHeld _, start.granting⟩
  | call before allowed answered ih => exact ih.call allowed answered
  | @counted σ f count t before frame shareable range done ih =>
    change t.snapshot.Enforcing σ.held
    rw [Kernel.setShareCount_of_ok done]
    exact ⟨ih.settled.setShare frame shareable count,
      ih.held.of_leaf (Finset.Subset.refl _) fun d t _ _ => leaf?_book (by rfl) _ t,
      ih.granting.book rfl⟩

/-- The rights are right in every session without protected ranges, whatever the share counts. -/
theorem rights_enforced (small : Ram.Addressable n) (h : Shared Widens n 0 [] σ) :
    σ.state.RightsEnforced := by
  obtain ⟨settled, -, granting⟩ := h.enforcing small
  constructor
  · intro p d t live hd ht slot leaf
    have page := leaf?_eq_some.2 ⟨slot, leaf, rfl⟩
    have covers := granting _ t _ (has_seenBy live hd) ht page
    exact ⟨covers, covers.meet⟩
  · intro va hd
    obtain ⟨role, stable⟩ := settled.stable
    obtain ⟨t, found, same⟩ := lookup_yields stable.toSound hd σ.state rfl
    refine ⟨_, t, found, same, (Machine.granted_eq settled rfl hd).trans (congrArg Except.ok ?_)⟩
    rw [Option.map_map]
    refine Option.map_congr ?_
    intro e page
    have has := has_here (w := σ.snapshot) stable.live_active hd
    have covers := granting _ _ e has (tableIndex_lt va) page
    exact covers.meet.trans (Mapping.rights_ofEntry e).symm

/-- A page in one of two spaces, of which one is resident. -/
theorem rights_enforced_mapped :
    ∃ σ τ υ, Session.boot? 8 0 [] = some σ ∧ σ.next? (.mapFresh 0 0x400000 .userRW) = some τ ∧
      τ.next? .create = some υ ∧ Ram.Addressable 8 ∧ Shared Widens 8 0 [] υ ∧
      υ.snapshot.Live 0 ∧ υ.snapshot.Live 1 ∧ υ.snapshot.userPages (.of 0 0x400000) =
        some (.of 0x103000 Protection.userRW.entryFlags) ∧ υ.state.RightsEnforced := by
  obtain ⟨σ, τ, υ, boot, mint, create, live, live', -, -, -, page, -, -, -⟩ := Session.one_page
  have small : Ram.Addressable 8 := by decide
  have user : dirIndex 0x400000 < mountTableSlot := by decide
  have reaches : Reaches Widens 8 0 [] υ :=
    ((Reaches.of_boot? boot).next? mint user).next? create trivial
  have shared := of_reaches reaches
  exact ⟨σ, τ, υ, boot, mint, create, small, shared, live, live', page,
    rights_enforced small shared⟩

end Session.Shared
end VirtualMemory
