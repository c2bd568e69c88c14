import VirtualMemory.Proofs.Calls.Forks
import VirtualMemory.Proofs.Calls.Stored
import VirtualMemory.Proofs.Charts.Ranges

/-!
# Forks into spaces that have tables

A fork binds a new table wherever the parent has one, whether or not the child has one there. A
table of the child that was bound there is bound nowhere after that. It is not in the pool either,
and its record is still kept, so nobody can give it back.
-/
namespace VirtualMemory

open Layout

namespace Snapshot

/-- `f` is bound as a table at some place. -/
def HasTable (w : Snapshot) (f : Nat) : Prop :=
  ∃ π, w.Has π ∧ (w.slotAt π).isPresent = true ∧ (w.slotAt π).frame = f

/-- Only tables that are bound have records. -/
def Recorded (w : Snapshot) : Prop := ∀ f ∈ w.occupancy.counts, w.HasTable f

/-- The child binds `f` at a slot where a fork reads a table of the parent. -/
def Overlaid (w : Snapshot) (parent child f : Nat) : Prop :=
  ∃ d < userSlots, (w.forkSlot parent child d).isPresent = true ∧
    (w.slotAt (.user child d)).isPresent = true ∧ (w.slotAt (.user child d)).frame = f

/-- From `w` to `v` a fork has lost no table. -/
structure KeepsTables (w v : Snapshot) (parent child : Nat) : Prop where
  tables : ∀ f, w.Tables parent f ∨ w.Tables child f →
    (∃ p, v.Live p ∧ v.Tables p f) ∨ f ∈ v.free
  records : v.Recorded
  shares : ∀ f, v.shares.get f =
    w.shares.get f + w.newPagesIn v child (userSlots * tableEntries) f

/-- What a fork does to the tables of any two spaces, to their pages and their records. -/
structure Retables (w v : Snapshot) (parent child : Nat) : Prop where
  tables : ∀ f, w.Tables parent f ∨ w.Tables child f →
    ((∃ p, v.Live p ∧ v.Tables p f) ↔ ¬ w.Overlaid parent child f)
  lost : ∀ f, w.Overlaid parent child f → ¬ v.HasTable f ∧ f ∉ v.free ∧
    v.occupancy.get f = w.occupancy.get f ∧ (f ∈ v.occupancy.counts ↔ f ∈ w.occupancy.counts)
  records : ∀ f ∈ v.occupancy.counts, v.HasTable f ∨
    f ∈ w.occupancy.counts ∧ (w.Overlaid parent child f ∨ ¬ w.HasTable f)
  shares : ∀ f, v.shares.get f =
    w.shares.get f + w.newPagesIn v child (userSlots * tableEntries) f
  /-- What is not in a new table of the child stays in its frame. -/
  pages : ∀ π t, w.Has π → t < tableEntries →
    (v.leaf? π t).map Entry.frame = (w.leaf? π t).map Entry.frame ∨
      ∃ d < userSlots, π = .user child d ∧ (v.slotAt π).isPresent = true ∧
        (v.slotAt π).frame ∈ w.free

variable {w v : Snapshot} {role : Nat → Role} {parent child f p : Nat} {π : Place}

theorem Settled.recorded {O : Finset Nat} (h : w.Settled O) : w.Recorded := by
  intro f mem
  obtain ⟨role, stable⟩ := h.stable
  obtain ⟨π, table, -⟩ := (stable.tracked f (stable.at_rest f)).1 mem
  exact ⟨π, (stable.table f π).1 table⟩

/-- Where the table of a place is overlaid. -/
theorem overlaid_iff (h : w.Placed role) (live : w.Live child) (hπ : w.Has π)
    (present : (w.slotAt π).isPresent = true) :
    w.Overlaid parent child (w.slotAt π).frame ↔
      ∃ d, π = .user child d ∧ (w.forkSlot parent child d).isPresent = true := by
  constructor
  · rintro ⟨d, hd, there, present', frame⟩
    have table := h.lodged.table_slotAt (π := .user child d) ⟨live, hd⟩ present'
    rw [frame, h.lodged.table_slotAt hπ present] at table
    exact ⟨d, Role.table.inj table, there⟩
  · rintro ⟨d, rfl, there⟩
    exact ⟨d, hπ.2, there, present, rfl⟩

/-- A fork binds a table at a place, or reads no table for it. -/
theorem forkSlot_cases (w : Snapshot) (parent child : Nat) (π : Place) :
    (∃ d, π = .user child d ∧ (w.forkSlot parent child d).isPresent = true) ∨
      ∀ d, π = .user child d → (w.forkSlot parent child d).isPresent = false := by
  by_cases read : ∃ d, π = .user child d ∧ (w.forkSlot parent child d).isPresent = true
  · exact .inl read
  · refine .inr fun d eq => ?_
    by_contra there
    exact read ⟨d, eq, by simpa using there⟩

namespace ForkedOver

section
variable (forked : w.ForkedOver v parent child)
include forked

theorem live (q : Nat) : v.Live q ↔ w.Live q := by rw [Live, Live, forked.spaces]; rfl

theorem has (π : Place) : v.Has π ↔ w.Has π := by
  cases π with
  | user p d => exact and_congr_left fun _ => forked.live p
  | kernel d => exact Iff.rfl

/-- A table that is not overlaid is bound where it was. -/
theorem kept (h : w.Placed role) (live : w.Live child) (hπ : w.Has π)
    (present : (w.slotAt π).isPresent = true)
    (clear : ¬ w.Overlaid parent child (w.slotAt π).frame) :
    (v.slotAt π).isPresent = true ∧ (v.slotAt π).frame = (w.slotAt π).frame := by
  rw [overlaid_iff h live hπ present] at clear
  have same := forked.slot π hπ ((w.forkSlot_cases parent child π).resolve_left clear)
  exact ⟨same.present.trans present, same.frame (same.present.trans present)⟩

/-- A table was bound there before and is not overlaid, or it is a new one of the child. -/
theorem slot_cases (h : w.Placed role) (live : w.Live child) (hπ : w.Has π)
    (present : (v.slotAt π).isPresent = true) :
    (w.slotAt π).isPresent = true ∧ (v.slotAt π).frame = (w.slotAt π).frame ∧
        ¬ w.Overlaid parent child (w.slotAt π).frame ∨
      (∃ d < userSlots, π = .user child d) ∧ (v.slotAt π).frame ∈ w.free := by
  obtain ⟨d, rfl, there⟩ | absent := w.forkSlot_cases parent child π
  · exact .inr ⟨⟨d, hπ.2, rfl⟩, (forked.bound d hπ.2 there).2.1⟩
  · have same := forked.slot π hπ absent
    have before := same.present.symm.trans present
    refine .inl ⟨before, same.frame present, fun overlaid => ?_⟩
    obtain ⟨d, eq, there⟩ := (overlaid_iff h live hπ before).1 overlaid
    rw [absent d eq] at there
    cases there

theorem not_hasTable (h : w.Placed role) (live : w.Live child)
    (overlaid : w.Overlaid parent child f) : ¬ v.HasTable f := by
  rintro ⟨π, hπ, present, rfl⟩
  obtain ⟨-, frame, clear⟩ | ⟨-, mem⟩ :=
    forked.slot_cases h live ((forked.has π).1 hπ) present
  · exact clear (frame ▸ overlaid)
  · obtain ⟨d, hd, -, present', frame⟩ := overlaid
    have table := h.lodged.table_slotAt (π := .user child d) ⟨live, hd⟩ present'
    rw [frame, (h.lodged.free _).2 mem] at table
    cases table

theorem retables (h : w.Placed role) (live : w.Live parent) (live' : w.Live child) :
    w.Retables v parent child where
  tables f bound := by
    have some : ∃ p, w.Live p ∧ w.Tables p f := bound.elim (⟨parent, live, ·⟩) (⟨child, live', ·⟩)
    obtain ⟨p, hp, d, hd, present, rfl⟩ := some
    constructor
    · rintro ⟨q, hq, e, he, present', frame⟩ overlaid
      exact forked.not_hasTable h live' overlaid ⟨.user q e, ⟨hq, he⟩, present', frame⟩
    · intro clear
      have kept := forked.kept h live' (π := .user p d) ⟨hp, hd⟩ present clear
      exact ⟨p, (forked.live p).2 hp, d, hd, kept⟩
  lost f overlaid := by
    have out : f ∉ w.free := by
      obtain ⟨d, hd, -, present, frame⟩ := overlaid
      have table := h.lodged.table_slotAt (π := .user child d) ⟨live', hd⟩ present
      rw [frame] at table
      rw [← h.lodged.free, table]
      simp
    refine ⟨forked.not_hasTable h live' overlaid, fun mem => out (forked.free.subset mem), ?_⟩
    refine forked.records f fun d hd there new => out ?_
    rw [← new]
    exact (forked.bound d hd there).2.1
  records f mem := by
    by_cases new : ∃ d < userSlots, (w.forkSlot parent child d).isPresent = true ∧
        (v.slotAt (.user child d)).frame = f
    · obtain ⟨d, hd, there, rfl⟩ := new
      exact .inl ⟨.user child d, ⟨(forked.live child).2 live', hd⟩,
        (forked.bound d hd there).1, rfl⟩
    · have old := (forked.records f fun d hd there frame => new ⟨d, hd, there, frame⟩).2.1 mem
      by_cases bound : w.HasTable f ∧ ¬ w.Overlaid parent child f
      · obtain ⟨⟨π, hπ, present, rfl⟩, clear⟩ := bound
        exact .inl ⟨π, (forked.has π).2 hπ, forked.kept h live' hπ present clear⟩
      · exact .inr ⟨old, or_iff_not_imp_right.2 fun bound' => not_not.1 fun clear =>
          bound ⟨not_not.1 bound', clear⟩⟩
  shares := forked.shares
  pages π t hπ ht := by
    obtain ⟨d, rfl, there⟩ | absent := w.forkSlot_cases parent child π
    · obtain ⟨present, mem, -⟩ := forked.bound d hπ.2 there
      exact .inr ⟨d, hπ.2, rfl, present, mem⟩
    · exact .inl (forked.page π t hπ ht absent)

end
end ForkedOver

/-- A fork loses a table exactly if it binds one over it. -/
theorem Retables.keepsTables_iff (h : w.Retables v parent child) (recorded : w.Recorded) :
    w.KeepsTables v parent child ↔ ∀ f, ¬ w.Overlaid parent child f := by
  constructor
  · intro keeps f overlaid
    obtain ⟨unbound, out, -⟩ := h.lost f overlaid
    obtain ⟨d, hd, -, present, frame⟩ := overlaid
    obtain ⟨p, hp, e, he, bound⟩ | mem := keeps.tables f (.inr ⟨d, hd, present, frame⟩)
    · exact unbound ⟨.user p e, ⟨hp, he⟩, bound⟩
    · exact out mem
  · intro clear
    refine ⟨fun f bound => .inl ((h.tables f bound).2 (clear f)), fun f mem => ?_, h.shares⟩
    obtain bound | ⟨old, overlaid | stray⟩ := h.records f mem
    · exact bound
    · exact absurd overlaid (clear f)
    · exact absurd (recorded f old) stray

end Snapshot

namespace Kernel

variable {s : KernelState} {parent child : Nat}

/-- With a frame for each table and room in each count, a fork succeeds, whatever the child is. -/
theorem fork_forked (firm : s.snapshot.Firm) (live : s.snapshot.Live parent)
    (live' : s.snapshot.Live child)
    (enough : s.snapshot.tablesRead parent child ≤ s.pool.available)
    (room : ∀ f, s.snapshot.shares.get f + userSlots * tableEntries < Shares.countLimit) :
    ∃ t, fork parent child s = .ok () t ∧ s.snapshot.ForkedOver t.snapshot parent child := by
  have certain : Leads (fun _ _ => False) (fork parent child) s.snapshot fun _ v =>
      s.snapshot.ForkedOver v parent child := by
    refine (fork_forkedOver firm live live').weaken ?_
    intro f b lacks
    cases lacks with
    | frames few => exact absurd enough (Nat.not_le.2 few)
    | numbers many => exact absurd (room _) (Nat.not_lt.2 many)
  obtain ⟨_, t, run, forked⟩ := certain.succeeds
  exact ⟨t, run, forked⟩

/-- Where a fork has succeeded, both spaces were live. -/
theorem forkedOver_of_ok {t : KernelState} (firm : s.snapshot.Firm)
    (run : fork parent child s = .ok () t) : s.snapshot.Live parent ∧ s.snapshot.Live child ∧
      s.snapshot.ForkedOver t.snapshot parent child := by
  by_cases live : s.snapshot.Live parent ∧ s.snapshot.Live child
  · have forked := fork_forkedOver firm live.1 live.2 s rfl
    rw [run] at forked
    exact ⟨live.1, live.2, forked⟩
  · obtain ⟨t, refused, -⟩ := fork_refuses live s rfl
    rw [run] at refused
    cases refused

end Kernel

open Snapshot

namespace Session

variable {n reserved parent child : Nat} {setup : List (Nat × UInt32)} {σ : Session}
  {s t : KernelState} {log : List Exchange}

/-- A fork between any two spaces, in any state that calls lead to: callers may have mapped any
frame and forked any space into any other since they last kept to the rules. It loses the tables of
the child that it binds others over, and these alone. -/
theorem Shared.fork_retables (small : Ram.Addressable n)
    (prepares : KernelState.Prepares n reserved setup) (h : Shared Permits n reserved setup σ)
    (run : σ.state.Logs log s) (forked : Kernel.fork parent child s = .ok () t) :
    s.snapshot.Retables t.snapshot parent child ∧
      (s.snapshot.Recorded → (s.snapshot.KeepsTables t.snapshot parent child ↔
        ∀ f, ¬ s.snapshot.Overlaid parent child f)) ∧
      (log = [] → s.snapshot.Recorded) := by
  have firm := run.firm (h.firm small prepares)
  obtain ⟨role, placed⟩ := firm.placed
  obtain ⟨live, live', outcome⟩ := Kernel.forkedOver_of_ok firm forked
  have retables := outcome.retables placed live live'
  refine ⟨retables, retables.keepsTables_iff, ?_⟩
  rintro rfl
  cases run
  exact (h.settled (fun _ _ _ => id) small prepares).recorded

/-- A fork into an empty space loses nothing. -/
theorem Shared.fork_retables_empty : ∃ σ τ υ t, boot? 8 0 [] = some σ ∧
    σ.next? (.mapFresh 0 0x400000 .userRW) = some τ ∧ τ.next? .create = some υ ∧
    Ram.Addressable 8 ∧ KernelState.Prepares 8 0 [] ∧ Shared Permits 8 0 [] υ ∧
    υ.state.Logs [] υ.state ∧ Kernel.fork 0 1 υ.state = .ok () t ∧ υ.snapshot.Recorded ∧
    υ.snapshot.Retables t.snapshot 0 1 ∧ υ.snapshot.KeepsTables t.snapshot 0 1 := by
  obtain ⟨σ, τ, υ, boot, mint, create, live, live', vacant, one, enough, -, -, -, accounted⟩ :=
    one_page
  have small : Ram.Addressable 8 := by decide
  have prepares := KernelState.prepares_nil 8
  have user : dirIndex 0x400000 < mountTableSlot := by decide
  have reaches : Reaches Permits 8 0 [] υ :=
    ((Reaches.of_boot? boot).next? mint user).next? create trivial
  have shared := Shared.of_reaches reaches
  have settled := shared.settled (fun _ _ _ => id) small prepares
  obtain ⟨t, run, -, -⟩ := Kernel.fork_ok settled live live' (by decide) vacant
    (one.trans_le enough) (settled.countable accounted 0)
  have clear (f : Nat) : ¬ υ.snapshot.Overlaid 0 1 f := by
    rintro ⟨d, hd, -, present, -⟩
    rw [vacant d hd] at present
    cases present
  obtain ⟨retables, keeps, recorded⟩ :=
    Shared.fork_retables small prepares shared .start run
  exact ⟨σ, τ, υ, t, boot, mint, create, small, prepares, shared, .start, run, recorded rfl,
    retables, (keeps (recorded rfl)).2 clear⟩

/-- Two spaces with a page each, whose tables are bound at the same slot. -/
theorem two_tables : ∃ σ τ υ φ, boot? 9 0 [] = some σ ∧
    σ.next? (.mapFresh 0 0x400000 .userRW) = some τ ∧ τ.next? .create = some υ ∧
    υ.next? (.mapFresh 1 0x401000 .userRW) = some φ ∧ φ.snapshot.Live 0 ∧ φ.snapshot.Live 1 ∧
    φ.snapshot.Overlaid 0 1 0x107000 ∧ 0x107000 ∈ φ.snapshot.occupancy.counts ∧
    φ.snapshot.tablesRead 0 1 ≤ φ.state.pool.available ∧ φ.snapshot.Accounted := by
  have runs : (((((boot? 9 0 []).bind (·.next? (.mapFresh 0 0x400000 .userRW))).bind
      (·.next? .create)).filter fun υ => υ.snapshot.userPages (.of 1 0x401000) = none).bind
      fun υ => (υ.next? (.mapFresh 1 0x401000 .userRW)).filter fun φ => φ.snapshot.Live 0 ∧
        φ.snapshot.Live 1 ∧ ((φ.snapshot.forkSlot 0 1 1).isPresent = true ∧
          (φ.snapshot.slotAt (.user 1 1)).isPresent = true ∧
          (φ.snapshot.slotAt (.user 1 1)).frame = 0x107000) ∧
        0x107000 ∈ φ.snapshot.occupancy.counts ∧
        φ.snapshot.tablesRead 0 1 ≤ φ.state.pool.available).isSome = true := by decide +kernel
  obtain ⟨φ, run⟩ := Option.isSome_iff_exists.1 runs
  obtain ⟨υ, run, mapped⟩ := Option.bind_eq_some_iff.1 run
  obtain ⟨mint', holds⟩ := Option.filter_eq_some_iff.1 mapped
  obtain ⟨live, live', overlaid, counted, enough⟩ := of_decide_eq_true holds
  obtain ⟨run, none'⟩ := Option.filter_eq_some_iff.1 run
  replace none' := of_decide_eq_true none'
  obtain ⟨τ, run, create⟩ := Option.bind_eq_some_iff.1 run
  obtain ⟨σ, boot, mint⟩ := Option.bind_eq_some_iff.1 run
  have small : Ram.Addressable 9 := by decide
  have prepares := KernelState.prepares_nil 9
  have booted := booted_of_boot? small prepares boot
  have none : σ.snapshot.userPages (.of 0 0x400000) = none :=
    userPages_of_vacant (fun _ => booted.vacant 0) _
  have accounts : Reaches Accounts 9 0 [] φ :=
    (((Reaches.of_boot? boot).next? mint ⟨by decide, none⟩).next? create trivial).next? mint'
      ⟨by decide, none'⟩
  obtain ⟨settled, ledger⟩ := accounts.induction (I := fun w _ => w.Ledger fun _ => 0)
    (fun _ _ _ => Accounts.permits) small prepares (fun _ _ booted => booted.ledger)
    fun _ _ _ _ _ _ settled l allowed effect => l.accounts settled allowed effect
  exact ⟨σ, τ, υ, φ, boot, mint, create, mint', live, live', ⟨1, by decide, overlaid⟩, counted,
    enough, ledger.accounted settled⟩

/-- The child's table at that slot is lost in a fork. -/
theorem fork_loses_table : ∃ σ τ υ φ t, boot? 9 0 [] = some σ ∧
    σ.next? (.mapFresh 0 0x400000 .userRW) = some τ ∧ τ.next? .create = some υ ∧
    υ.next? (.mapFresh 1 0x401000 .userRW) = some φ ∧ Kernel.fork 0 1 φ.state = .ok () t ∧
    φ.snapshot.Recorded ∧ φ.snapshot.Tables 1 0x107000 ∧
    (∀ p, t.snapshot.Live p → ¬ t.snapshot.Tables p 0x107000) ∧ 0x107000 ∉ t.snapshot.free ∧
    0x107000 ∈ t.snapshot.occupancy.counts ∧ ¬ t.snapshot.HasTable 0x107000 ∧
    ¬ φ.snapshot.KeepsTables t.snapshot 0 1 := by
  obtain ⟨σ, τ, υ, φ, boot, mint, create, mint', live, live', overlaid, counted, enough,
    accounted⟩ := two_tables
  have small : Ram.Addressable 9 := by decide
  have prepares := KernelState.prepares_nil 9
  have user : dirIndex 0x400000 < mountTableSlot := by decide
  have user' : dirIndex 0x401000 < mountTableSlot := by decide
  have reaches : Reaches Permits 9 0 [] φ :=
    (((Reaches.of_boot? boot).next? mint user).next? create trivial).next? mint' user'
  have shared := Shared.of_reaches reaches
  have settled := shared.settled (fun _ _ _ => id) small prepares
  have firm := shared.firm small prepares
  obtain ⟨t, run, forked⟩ :=
    Kernel.fork_forked firm live live' enough (settled.room accounted)
  obtain ⟨role, placed⟩ := firm.placed
  have retables := forked.retables placed live live'
  obtain ⟨unbound, out, -, records⟩ := retables.lost _ overlaid
  have table : φ.snapshot.Tables 1 0x107000 := by
    obtain ⟨d, hd, -, present, frame⟩ := overlaid
    exact ⟨d, hd, present, frame⟩
  refine ⟨σ, τ, υ, φ, t, boot, mint, create, mint', run, settled.recorded, table, ?_, out,
    records.2 counted, unbound, fun keeps => ?_⟩
  · rintro p hp ⟨d, hd, present, frame⟩
    exact unbound ⟨.user p d, ⟨hp, hd⟩, present, frame⟩
  · exact (retables.keepsTables_iff settled.recorded).1 keeps _ overlaid

end Session
end VirtualMemory
