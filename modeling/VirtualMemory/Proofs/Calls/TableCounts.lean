import Mathlib.Data.Set.Card
import VirtualMemory.Proofs.Calls.Runs

/-!
# Tables are counted

Between two calls the record of every bound table is the number of its present entries, the records
are those of the tables that are not empty, and only kernel slots bind empty tables.
-/
namespace VirtualMemory

open Layout Snapshot

namespace Snapshot

variable {w : Snapshot} {O : Finset Nat} {π : Place}

/-- A table is bound at this place. -/
def Bound (w : Snapshot) (π : Place) : Prop := w.Has π ∧ (w.slotAt π).isPresent = true

/-- The frame of the table bound at a place. -/
def tableAt (w : Snapshot) (π : Place) : Nat := (w.slotAt π).frame

/-- The tables that hold at least one present entry. -/
def fullTables (w : Snapshot) : Set Nat :=
  {f | (∃ π, w.Bound π ∧ w.tableAt π = f) ∧ (w.page f).presentEntries.Nonempty}

theorem Settled.occupancy_eq (h : w.Settled O) (bound : w.Bound π) :
    w.occupancy.get (w.tableAt π) = (w.page (w.tableAt π)).presentEntries.card := by
  obtain ⟨role, stable⟩ := h.stable
  have counted := stable.count _ π (stable.table_slotAt bound.1 bound.2)
  rwa [Page.presentCount_eq_card] at counted

theorem Settled.mem_occupancy (h : w.Settled O) (f : Nat) :
    f ∈ w.occupancy.counts ↔ f ∈ w.fullTables := by
  obtain ⟨role, stable⟩ := h.stable
  rw [stable.tracked f (stable.at_rest f)]
  simp only [stable.table, Page.presentCount_eq_card, Finset.card_ne_zero]
  constructor
  · rintro ⟨π, ⟨has, present, rfl⟩, some⟩
    exact ⟨⟨π, ⟨has, present⟩, rfl⟩, some⟩
  · rintro ⟨⟨π, ⟨has, present⟩, rfl⟩, some⟩
    exact ⟨π, ⟨has, present, rfl⟩, some⟩

theorem Settled.tracked_eq (h : w.Settled O) : w.occupancy.tracked = w.fullTables.ncard := by
  have keys (f : Nat) : f ∈ w.occupancy.counts ↔ f ∈ w.occupancy.counts.keys.toFinset := by
    rw [List.mem_toFinset, Std.ExtTreeMap.mem_keys]
  have same : w.fullTables = ↑w.occupancy.counts.keys.toFinset := by
    ext f
    rw [← h.mem_occupancy, keys, Finset.mem_coe]
  rw [Occupancy.tracked_eq_card keys, same, Set.ncard_coe_finset]

theorem Settled.not_empty (h : w.Settled O) {p d : Nat} (bound : w.Bound (.user p d)) :
    (w.page (w.tableAt (.user p d))).presentEntries.Nonempty := by
  obtain ⟨t, ht, some⟩ := h.filled p d (by simp) bound.1 bound.2
  obtain ⟨e, leaf⟩ := Option.ne_none_iff_exists'.1 some
  obtain ⟨-, present, rfl⟩ := leaf?_eq_some.1 leaf
  exact ⟨t, Finset.mem_filter.2 ⟨Finset.mem_range.2 ht, present⟩⟩

end Snapshot

/-- However callers have used the kernel since a boot with prepared tables, the record of each
bound table is exact, the records are as many as the tables that hold something, and no user slot
binds an empty table. -/
theorem Session.Reaches.occupancy_exact {n reserved : Nat} {setup : List (Nat × UInt32)}
    {σ : Session} (small : Ram.Addressable n) (prepares : KernelState.Prepares n reserved setup)
    (h : Session.Reaches Permits n reserved setup σ) :
    (∀ π, σ.snapshot.Bound π → σ.snapshot.occupancy.get (σ.snapshot.tableAt π) =
        (σ.snapshot.page (σ.snapshot.tableAt π)).presentEntries.card) ∧
      σ.snapshot.occupancy.tracked = σ.snapshot.fullTables.ncard ∧
      (∀ f, f ∈ σ.snapshot.occupancy.counts ↔ f ∈ σ.snapshot.fullTables) ∧
      ∀ p d, σ.snapshot.Bound (.user p d) →
        (σ.snapshot.page (σ.snapshot.tableAt (.user p d))).presentEntries.Nonempty := by
  obtain ⟨settled, -⟩ := h.settled (fun _ _ _ => id) small prepares
  exact ⟨fun π => settled.occupancy_eq, settled.tracked_eq, settled.mem_occupancy,
    fun p d => settled.not_empty⟩

/-- A table with one entry stands in slot 800 before the boot. -/
theorem Session.Reaches.occupancy_exact_prepared :
    ∃ setup σ τ, setup = [(Ram.base + 4 * 800, UInt32.ofNat (Ram.frameAddress 2) ||| 3),
        (Ram.frameAddress 2 + 4 * 7, 0x200003)] ∧ Session.boot? 6 1 setup = some σ ∧
      σ.next? (.mapFresh 0 0x400000 .userRW) = some τ ∧ Ram.Addressable 6 ∧
      KernelState.Prepares 6 1 setup ∧ Session.Reaches Permits 6 1 setup τ ∧
      (∀ π, τ.snapshot.Bound π → τ.snapshot.occupancy.get (τ.snapshot.tableAt π) =
        (τ.snapshot.page (τ.snapshot.tableAt π)).presentEntries.card) ∧
      τ.snapshot.occupancy.tracked = τ.snapshot.fullTables.ncard ∧
      (∀ f, f ∈ τ.snapshot.occupancy.counts ↔ f ∈ τ.snapshot.fullTables) ∧
      ∀ p d, τ.snapshot.Bound (.user p d) →
        (τ.snapshot.page (τ.snapshot.tableAt (.user p d))).presentEntries.Nonempty := by
  have runs : ((Session.boot? 6 1 [(Ram.base + 4 * 800,
      UInt32.ofNat (Ram.frameAddress 2) ||| 3), (Ram.frameAddress 2 + 4 * 7, 0x200003)]).bind
      (·.next? (.mapFresh 0 0x400000 .userRW))).isSome = true := by decide +kernel
  obtain ⟨τ, run⟩ := Option.isSome_iff_exists.1 runs
  obtain ⟨σ, boot, call⟩ := Option.bind_eq_some_iff.1 run
  have user : dirIndex 0x400000 < mountTableSlot := by decide
  have reaches : Session.Reaches Permits 6 1 _ τ := (of_boot? boot).next? call user
  have prepares : KernelState.Prepares 6 1 [(Ram.base + 4 * 800,
      UInt32.ofNat (Ram.frameAddress 2) ||| 3), (Ram.frameAddress 2 + 4 * 7, 0x200003)] := by
    decide +kernel
  exact ⟨_, σ, τ, rfl, boot, call, by decide, prepares, reaches,
    occupancy_exact (by decide) prepares reaches⟩

end VirtualMemory
