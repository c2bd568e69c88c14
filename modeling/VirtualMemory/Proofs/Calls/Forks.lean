import VirtualMemory.Proofs.Sharing.Counted
import VirtualMemory.Proofs.Sharing.Mappings
import VirtualMemory.Proofs.Sharing.Memory

/-!
# What a fork does

A fork into an empty space can only run out: of frames for the tables of the child, or of numbers
for a share count. Counts that stay within what is mapped never get there, because no more entries
are mapped than memory can hold. A fork that runs out of neither gives the child the pages of the
parent, table by table, and touches no other space.
-/
namespace VirtualMemory

open Layout Snapshot

namespace Snapshot

/-- Callers count no reference that is not there. -/
def Accounted (w : Snapshot) : Prop := ∀ f, w.shares.get f ≤ (w.mappings f).ncard

/-- All share counts have room for another reference to each page of the space. -/
def Countable (w : Snapshot) (p : Nat) : Prop :=
  ∀ f, w.shares.get f + w.pagesIn p (userSlots * tableEntries) f < Shares.countLimit

/-- What a fork leaves behind. -/
structure ForkOutcome (w v : Snapshot) (parent child : Nat) : Prop where
  /-- Where the parent has a page, both spaces have it, in its frame and with all its flags but the
  right to write. Elsewhere neither has one. -/
  pages : ∀ p d t, p = parent ∨ p = child → d < userSlots → t < tableEntries →
    v.leaf? (.user p d) t = (w.leaf? (.user parent d) t).map (·.clear EntryFlags.writable)
  shares : ∀ f, v.shares.get f =
    w.shares.get f + w.pagesIn parent (userSlots * tableEntries) f
  bound : ∀ d < userSlots,
    (v.slotAt (.user child d)).isPresent = (w.slotAt (.user parent d)).isPresent
  occupancy : ∀ d < userSlots, (w.slotAt (.user parent d)).isPresent = true →
    v.occupancy.get (v.tableAt (.user child d)) = w.occupancy.get (w.tableAt (.user parent d))
  /-- The pool gives one frame for each table, in order. -/
  free : v.free = w.free.drop (w.tablesIn parent userSlots)
  tables : ∀ d < userSlots, (w.slotAt (.user parent d)).isPresent = true →
    w.free[w.tablesIn parent d]? = some (v.tableAt (.user child d))
  parentSlots : ∀ d < userSlots, v.slotAt (.user parent d) = w.slotAt (.user parent d)
  /-- Other spaces and the kernel keep their slots, their tables and their pages. -/
  others : ∀ π, w.Has π → (∀ d, π ≠ .user parent d) → (∀ d, π ≠ .user child d) →
    v.slotAt π = w.slotAt π ∧ (∀ t < tableEntries, v.leaf? π t = w.leaf? π t) ∧
      (w.Bound π → v.page (w.tableAt π) = w.page (w.tableAt π))
  kernel : ∀ i, userSlots ≤ i → i < tableEntries → v.entry w.root i = w.entry w.root i
  window : v.page mountTable = w.page mountTable
  spaces : v.spaces = { w.spaces with active := parent }

variable {w v : Snapshot} {O : Finset Nat} {π ρ : Place} {parent child d t f : Nat}

/-! ## Numbers for share counts -/

/-- Exact counts count what is there. -/
theorem Ledger.accounted (h : w.Settled O) (l : w.Ledger fun _ => 0) : w.Accounted := fun f =>
  (l.count f).trans_le (h.card_references_le f)

/-- There are fewer pages than numbers. -/
theorem Settled.room (h : w.Settled O) (accounted : w.Accounted) (f : Nat) :
    w.shares.get f + userSlots * tableEntries < Shares.countLimit := by
  obtain ⟨role, stable⟩ := h.stable
  have small := stable.wired.addressable
  have mapped := h.ncard_mappings_le f
  have counted := accounted f
  simp only [Ram.Addressable, Ram.frameAddress, Ram.base, pageSize, tableEntries, userSlots,
    Shares.countLimit] at *
  omega

theorem Settled.countable (h : w.Settled O) (accounted : w.Accounted) (p : Nat) :
    w.Countable p := fun f =>
  (Nat.add_le_add_left (Nat.count_le _) _).trans_lt (h.room accounted f)

/-! ## Tables of the child -/

theorem Settled.presentEntries_eq (bound : w.Bound π) :
    (w.page (w.tableAt π)).presentEntries =
      (Finset.range tableEntries).filter fun t => (w.leaf? π t).isSome = true := by
  apply Finset.filter_congr
  intro t _
  unfold leaf? leafAt tableAt at *
  rw [show (w.page (w.slotAt π).frame).entry t = w.entry (w.slotAt π).frame t from rfl]
  by_cases there : (w.entry (w.slotAt π).frame t).isPresent = true <;> simp [bound.2, there]

/-- Tables that show pages at the same entries are recorded alike. -/
theorem Settled.occupancy_congr (h : w.Settled O) (h' : v.Settled O) (bound : w.Bound π)
    (bound' : v.Bound ρ)
    (same : ∀ t < tableEntries, (v.leaf? ρ t).isSome = (w.leaf? π t).isSome) :
    v.occupancy.get (v.tableAt ρ) = w.occupancy.get (w.tableAt π) := by
  rw [h'.occupancy_eq bound', h.occupancy_eq bound, presentEntries_eq bound,
    presentEntries_eq bound']
  apply congrArg Finset.card
  apply Finset.filter_congr
  intro t ht
  rw [same t (Finset.mem_range.1 ht)]

section Fork
variable (h : w.Settled O) (h' : v.Settled O) (live : w.Live parent) (live' : w.Live child)
  (forked : w.Duplicated v O parent child)
include live live' forked

theorem Duplicated.pages {p : Nat} (either : p = parent ∨ p = child) (hd : d < userSlots)
    (ht : t < tableEntries) :
    v.leaf? (.user p d) t = (w.leaf? (.user parent d) t).map (·.clear EntryFlags.writable) := by
  have alive : w.Live p := by rcases either with rfl | rfl <;> assumption
  have within : d * tableEntries + t < userSlots * tableEntries := by
    simp only [userSlots, tableEntries] at *
    omega
  rw [forked.leaf (.user p d) t ⟨alive, hd⟩ ht, forkedPages, if_pos ⟨either, within⟩]

include h h'

/-- The child binds a table exactly where the parent does, since neither binds an empty one. -/
theorem Duplicated.bound_iff (hd : d < userSlots) :
    (v.slotAt (.user child d)).isPresent = true ↔ (w.slotAt (.user parent d)).isPresent = true := by
  have pages {t : Nat} (ht : t < tableEntries) :=
    forked.pages live live' (d := d) (.inr rfl) hd ht
  constructor
  · intro bound
    obtain ⟨t, ht, some⟩ := h'.filled child d (by simp) (forked.has _ ⟨live', hd⟩) bound
    by_contra absent
    rw [pages ht, leaf?_of_absent (by simpa using absent)] at some
    exact some rfl
  · intro bound
    obtain ⟨t, ht, some⟩ := h.filled parent d (by simp) ⟨live, hd⟩ bound
    by_contra absent
    have none := pages ht
    rw [leaf?_of_absent (by simpa using absent), eq_comm, Option.map_eq_none_iff] at none
    exact some none

theorem Duplicated.outcome (ne : parent ≠ child) : w.ForkOutcome v parent child where
  pages p d t either := forked.pages live live' either
  shares := forked.shares
  bound d hd := Bool.eq_iff_iff.2 (forked.bound_iff h h' live live' hd)
  occupancy d hd present := by
    have bound := (forked.bound_iff h h' live live' hd).2 present
    refine h.occupancy_congr h' ⟨⟨live, hd⟩, present⟩ ⟨forked.has _ ⟨live', hd⟩, bound⟩ ?_
    intro t ht
    rw [forked.pages live live' (.inr rfl) hd ht, Option.isSome_map]
  free := forked.free
  tables := forked.used
  parentSlots d hd := forked.slots _ ⟨live, hd⟩ (by simp [ne])
  others π hπ notParent notChild := by
    have slots := forked.slots π hπ notChild
    refine ⟨slots, ?_, fun bound => forked.toSpared.tables π hπ bound.2 notParent notChild⟩
    intro t ht
    rw [forked.leaf π t hπ ht]
    cases π with
    | user p d =>
      refine if_neg fun both => both.1.elim ?_ ?_
      · rintro rfl
        exact notParent d rfl
      · rintro rfl
        exact notChild d rfl
    | kernel d => rfl
  kernel := forked.kernel
  window := forked.window
  spaces := forked.spaces

end Fork
end Snapshot

namespace Kernel

variable {s : KernelState} {O : Finset Nat} {parent child : Nat}

/-- With a frame for each table and room in each count, a fork succeeds. -/
theorem fork_ok (h : s.snapshot.Settled O) (live : s.snapshot.Live parent)
    (live' : s.snapshot.Live child) (ne : parent ≠ child) (vacant : s.snapshot.Vacant child)
    (enough : s.snapshot.tablesIn parent userSlots ≤ s.pool.available)
    (countable : s.snapshot.Countable parent) :
    ∃ t, fork parent child s = .ok () t ∧ t.snapshot.Settled O ∧
      s.snapshot.Duplicated t.snapshot O parent child := by
  have certain : Leads (fun _ _ => False) (fork parent child) s.snapshot fun _ v =>
      v.Settled O ∧ s.snapshot.Duplicated v O parent child := by
    refine (fork_duplicates h live live' ne vacant).weaken ?_
    intro f b stops
    cases stops with
    | frames empty few => exact absurd enough (Nat.not_le.2 few)
    | limit full many => exact absurd (countable _) (Nat.not_lt.2 many)
  obtain ⟨_, t, run, outcome⟩ := certain.succeeds
  exact ⟨t, run, outcome⟩

end Kernel

/-- In every session whose pool has a frame for each table of the parent, a fork into an empty
space succeeds and has its outcome, unless a share count is too large to grow; and none is, as long
as callers count no more references than there are. -/
theorem Session.Managed.fork_exact {n reserved parent child : Nat} {setup : List (Nat × UInt32)}
    {σ : Session} (small : Ram.Addressable n) (prepares : KernelState.Prepares n reserved setup)
    (h : Session.Managed Permits n reserved setup σ) (live : σ.snapshot.Live parent)
    (live' : σ.snapshot.Live child) (ne : parent ≠ child) (vacant : σ.snapshot.Vacant child)
    (enough : σ.snapshot.tablesIn parent userSlots ≤ σ.state.pool.available) :
    (σ.snapshot.Accounted → σ.snapshot.Countable parent) ∧
      (σ.snapshot.Countable parent → ∃ t, Kernel.fork parent child σ.state = .ok () t ∧
        σ.snapshot.ForkOutcome t.snapshot parent child) := by
  have settled := h.settled (fun _ _ _ => id) small prepares
  refine ⟨fun accounted => settled.countable accounted parent, ?_⟩
  intro countable
  obtain ⟨t, run, settled', forked⟩ :=
    Kernel.fork_ok settled live live' ne vacant enough countable
  exact ⟨t, run, forked.outcome settled settled' live live' ne⟩

/-- A session with one page, which was mapped fresh in the kernel's space, and an empty second
space. -/
theorem Session.one_page : ∃ σ τ υ, boot? 8 0 [] = some σ ∧
    σ.next? (.mapFresh 0 0x400000 .userRW) = some τ ∧ τ.next? .create = some υ ∧
    υ.snapshot.Live 0 ∧ υ.snapshot.Live 1 ∧ υ.snapshot.Vacant 1 ∧
    υ.snapshot.tablesIn 0 userSlots = 1 ∧ 1 ≤ υ.state.pool.available ∧
    υ.snapshot.userPages (.of 0 0x400000) = some (.of 0x103000 Protection.userRW.entryFlags) ∧
    υ.snapshot.shares.get 0x103000 = 1 ∧ υ.state.memory 0 0x400000 = some 0 ∧
    υ.snapshot.Accounted := by
  have runs : ((((boot? 8 0 []).bind (·.next? (.mapFresh 0 0x400000 .userRW))).bind
      (·.next? .create)).filter fun υ => υ.snapshot.Live 0 ∧ υ.snapshot.Live 1 ∧
        (∀ d < userSlots, (υ.snapshot.slotAt (.user 1 d)).isPresent = false) ∧
        υ.snapshot.tablesIn 0 userSlots = 1 ∧ 1 ≤ υ.state.pool.available ∧
        υ.snapshot.userPages (.of 0 0x400000) =
          some (.of 0x103000 Protection.userRW.entryFlags) ∧
        υ.snapshot.shares.get 0x103000 = 1 ∧
        υ.state.memory 0 0x400000 = some 0).isSome = true := by decide +kernel
  obtain ⟨υ, run⟩ := Option.isSome_iff_exists.1 runs
  obtain ⟨run, holds⟩ := Option.filter_eq_some_iff.1 run
  obtain ⟨live, live', vacant, one, enough, page, count, zero⟩ := of_decide_eq_true holds
  obtain ⟨τ, run, create⟩ := Option.bind_eq_some_iff.1 run
  obtain ⟨σ, boot, mint⟩ := Option.bind_eq_some_iff.1 run
  have small : Ram.Addressable 8 := by decide
  have prepares := KernelState.prepares_nil 8
  have booted := booted_of_boot? small prepares boot
  have none : σ.snapshot.userPages (.of 0 0x400000) = none :=
    userPages_of_vacant (fun _ => booted.vacant 0) _
  have accounts : Reaches Accounts 8 0 [] υ :=
    ((Reaches.of_boot? boot).next? mint ⟨by decide, none⟩).next? create trivial
  obtain ⟨settled, ledger⟩ := accounts.induction (I := fun w _ => w.Ledger fun _ => 0)
    (fun _ _ _ => Accounts.permits) small prepares (fun _ _ booted => booted.ledger)
    fun _ _ _ _ _ _ settled l allowed effect => l.accounts settled allowed effect
  exact ⟨σ, τ, υ, boot, mint, create, live, live', vacant, one, enough, page, count,
    zero, ledger.accounted settled⟩

theorem Session.Managed.fork_exact_mapped :
    ∃ σ τ υ, Session.boot? 8 0 [] = some σ ∧ σ.next? (.mapFresh 0 0x400000 .userRW) = some τ ∧
      τ.next? .create = some υ ∧ Ram.Addressable 8 ∧ KernelState.Prepares 8 0 [] ∧
      Session.Managed Permits 8 0 [] υ ∧ υ.snapshot.Live 0 ∧ υ.snapshot.Live 1 ∧
      υ.snapshot.Vacant 1 ∧ υ.snapshot.tablesIn 0 userSlots = 1 ∧
      ∃ t, Kernel.fork 0 1 υ.state = .ok () t ∧ υ.snapshot.ForkOutcome t.snapshot 0 1 := by
  obtain ⟨σ, τ, υ, boot, mint, create, live, live', vacant, one, enough, -, -, -, accounted⟩ :=
    one_page
  have small : Ram.Addressable 8 := by decide
  have prepares := KernelState.prepares_nil 8
  have user : dirIndex 0x400000 < mountTableSlot := by decide
  have reaches : Session.Reaches Permits 8 0 [] υ :=
    ((Reaches.of_boot? boot).next? mint user).next? create trivial
  obtain ⟨countable, forks⟩ := fork_exact small prepares reaches.managed live live' (by decide)
    vacant (one.trans_le enough)
  exact ⟨σ, τ, υ, boot, mint, create, small, prepares, reaches.managed, live, live', vacant, one,
    forks (countable accounted)⟩

end VirtualMemory
