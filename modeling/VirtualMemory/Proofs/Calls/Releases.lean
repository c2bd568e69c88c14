import VirtualMemory.Proofs.Calls.Runs

/-!
# What a released space gives back

The last owner of a space leaves, and the pool gains what the space was kept in: the tables of its
user half and then its directory frame. A space that is active has its user half in the resident
directory alone; the switch away from it writes the half back before the tables are looked for.
-/
namespace VirtualMemory.Session

open Layout Snapshot Kernel

/-- Whoever is not the last owner of a space only leaves it; the last one gives back what the space
was kept in, and that alone. -/
theorem decref_exact {n reserved : Nat} {setup : List (Nat × UInt32)}
    (small : Ram.Addressable n) (prepares : KernelState.Prepares n reserved setup) :
    (∀ (s : KernelState) (O : Finset Nat) (role : Nat → Role), s.snapshot.Stable O role →
      ∀ p r, s.spaces.find? p = some r → p ≠ Spaces.kernelId →
        (1 < r.owners → decref p s = .ok (r.owners - 1)
          { s with spaces := s.spaces.put p { r with owners := r.owners - 1 } }) ∧
        (r.owners = 1 → ∃ t, decref p s = .ok 0 t ∧
          s.snapshot.Released t.snapshot p r.directory)) ∧
      ∀ σ, Managed Permits n reserved setup σ → ∃ role, σ.snapshot.Stable σ.held role := by
  refine ⟨?_, fun σ managed => (managed.settled (fun _ _ _ => id) small prepares).stable⟩
  intro s O role h p r hr keep
  refine ⟨decref_shared hr, fun one => ?_⟩
  have released : Leads (fun _ _ => False) (decref p) s.snapshot fun a v =>
      a = 0 ∧ s.snapshot.Released v p r.directory := by
    refine decref_last hr one keep ((releaseSpace_leads h hr keep).mono ?_)
    rintro _ v ⟨role', -, gone⟩
    exact ⟨rfl, gone⟩
  obtain ⟨_, t, run, rfl, gone⟩ := released.succeeds
  exact ⟨t, run, gone⟩

/-- A second space dies while it is active, with one table, which only the resident directory
binds. -/
theorem decref_exact_active : ∃ σ τ υ ρ, boot? 8 0 [] = some σ ∧ σ.next? .create = some τ ∧
    τ.next? (.switch 1) = some υ ∧ υ.next? (.mapFresh 1 0x400000 .userRW) = some ρ ∧
    Ram.Addressable 8 ∧ KernelState.Prepares 8 0 [] ∧ Managed Permits 8 0 [] ρ ∧
    ρ.snapshot.spaces.active = 1 ∧ ρ.snapshot.spaces.find? 1 = some ⟨0x103000, 1⟩ ∧
    ρ.snapshot.tablesOf 1 = [0x105000] ∧
    ∃ t, decref 1 ρ.state = .ok 0 t ∧ ρ.snapshot.Released t.snapshot 1 0x103000 := by
  have runs : (((((boot? 8 0 []).bind (·.next? .create)).bind (·.next? (.switch 1))).bind
      (·.next? (.mapFresh 1 0x400000 .userRW))).filter fun ρ =>
        ρ.snapshot.spaces.active = 1 ∧ ρ.snapshot.spaces.find? 1 = some ⟨0x103000, 1⟩ ∧
        ρ.snapshot.tablesOf 1 = [0x105000]).isSome = true := by decide +kernel
  obtain ⟨ρ, run⟩ := Option.isSome_iff_exists.1 runs
  obtain ⟨run, holds⟩ := Option.filter_eq_some_iff.1 run
  obtain ⟨active, record, tables⟩ := of_decide_eq_true holds
  obtain ⟨υ, run, mint⟩ := Option.bind_eq_some_iff.1 run
  obtain ⟨τ, run, switch⟩ := Option.bind_eq_some_iff.1 run
  obtain ⟨σ, boot, create⟩ := Option.bind_eq_some_iff.1 run
  have small : Ram.Addressable 8 := by decide
  have prepares := KernelState.prepares_nil 8
  have user : dirIndex 0x400000 < mountTableSlot := by decide
  have managed : Managed Permits 8 0 [] ρ :=
    ((((Reaches.of_boot? boot).next? create trivial).next? switch trivial).next? mint user).managed
  obtain ⟨exact, stable⟩ := decref_exact small prepares
  obtain ⟨role, stable⟩ := stable ρ managed
  have last := (exact ρ.state ρ.held role stable 1 _ record (by decide)).2 rfl
  exact ⟨σ, τ, υ, ρ, boot, create, switch, mint, small, prepares, managed, active, record, tables,
    last⟩

end VirtualMemory.Session
