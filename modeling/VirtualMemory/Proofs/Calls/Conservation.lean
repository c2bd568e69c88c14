import VirtualMemory.Proofs.Calls.Runs

/-!
# No frame is lost

Between two calls every frame of memory has exactly one use, and uses are of frames of memory only.
The uses are read off the kernel's records, its directories and the frames that callers hold, and
not off any assignment of roles.
-/
namespace VirtualMemory

open Layout Snapshot

/-- What a frame can be in use for. -/
inductive FrameUse where
  | bootDirectory
  | mountTable
  | free
  /-- The user half of a space, while another space is resident. -/
  | directory (space : Nat)
  | table (place : Place)
  | held
  deriving DecidableEq, Repr

def FrameUse.role : FrameUse → Role
  | bootDirectory => .resident
  | mountTable => .window
  | free => .free
  | directory p => .directory p
  | table π => .table π
  | held => .owned

theorem FrameUse.role_injective : Function.Injective role := by
  intro a b same
  cases a <;> cases b <;> cases same <;> rfl

theorem FrameUse.exists_role {r : Role} (outside : r ≠ .outside) (spare : r ≠ .spare) :
    ∃ a, FrameUse.role a = r := by
  cases r with
  | outside => exact absurd rfl outside
  | spare => exact absurd rfl spare
  | resident => exact ⟨.bootDirectory, rfl⟩
  | window => exact ⟨.mountTable, rfl⟩
  | free => exact ⟨.free, rfl⟩
  | directory p => exact ⟨.directory p, rfl⟩
  | table π => exact ⟨.table π, rfl⟩
  | owned => exact ⟨.held, rfl⟩

namespace Snapshot

variable {w : Snapshot} {O : Finset Nat} {role : Nat → Role} {f : Nat}

/-- The frame at `f` has this use, if callers hold the frames in `O`. -/
def Uses (w : Snapshot) (O : Finset Nat) (f : Nat) : FrameUse → Prop
  | .bootDirectory => f = Ram.base
  | .mountTable => f = mountTable
  | .free => f ∈ w.free
  | .directory p => ∃ r, w.spaces.find? p = some r ∧ r.directory = f
  | .table π => w.Has π ∧ (w.slotAt π).isPresent = true ∧ (w.slotAt π).frame = f
  | .held => f ∈ O

theorem Stable.uses_iff (h : w.Stable O role) (a : FrameUse) : w.Uses O f a ↔ role f = a.role := by
  cases a with
  | bootDirectory => exact (h.wired.root ▸ h.resident f).symm
  | mountTable => exact (h.window f).symm
  | free => exact (h.free f).symm
  | directory p => exact (h.directory f p).symm
  | table π => exact (h.table f π).symm
  | held => exact (h.owned f).symm

theorem Settled.existsUnique_use (h : w.Settled O) (hf : Ram.IsFrame w.size f) :
    ∃! a, w.Uses O f a := by
  obtain ⟨role, stable⟩ := h.stable
  have inside : role f ≠ .outside := fun out => (stable.outside f).1 out hf
  obtain ⟨a, ha⟩ := FrameUse.exists_role inside (stable.at_rest f)
  refine ⟨a, (stable.uses_iff a).2 ha.symm, ?_⟩
  intro b hb
  exact FrameUse.role_injective (((stable.uses_iff b).1 hb).symm.trans ha.symm)

theorem Settled.isFrame_of_uses (h : w.Settled O) {a : FrameUse} (ha : w.Uses O f a) :
    Ram.IsFrame w.size f := by
  obtain ⟨role, stable⟩ := h.stable
  refine stable.isFrame ?_
  rw [(stable.uses_iff a).1 ha]
  cases a <;> simp [FrameUse.role]

theorem Settled.nodup_free (h : w.Settled O) : w.free.Nodup := by
  obtain ⟨role, stable⟩ := h.stable
  exact stable.nodup

end Snapshot

/-- However callers have used the kernel since its boot, each of its `n` frames has exactly one
use, nothing else has any, and no frame is free twice. -/
theorem Session.Reaches.frames_partitioned {n : Nat} {σ : Session} (small : Ram.Addressable n)
    (h : Session.Reaches Permits n 0 [] σ) :
    (∀ f, Ram.IsFrame n f → ∃! a, σ.snapshot.Uses σ.held f a) ∧
      (∀ f a, σ.snapshot.Uses σ.held f a → Ram.IsFrame n f) ∧ σ.snapshot.free.Nodup := by
  obtain ⟨settled, rfl⟩ := h.settled (fun _ _ _ => id) small (KernelState.prepares_nil n)
  exact ⟨fun f => settled.existsUnique_use, fun f a => settled.isFrame_of_uses,
    settled.nodup_free⟩

theorem Session.Reaches.frames_partitioned_mapped :
    ∃ σ τ, Session.boot? 6 0 [] = some σ ∧
      σ.next? (.mapFresh 0 0x400000 .userRW) = some τ ∧ Ram.Addressable 6 ∧
      Session.Reaches Permits 6 0 [] τ ∧
      (∀ f, Ram.IsFrame 6 f → ∃! a, τ.snapshot.Uses τ.held f a) ∧
      (∀ f a, τ.snapshot.Uses τ.held f a → Ram.IsFrame 6 f) ∧ τ.snapshot.free.Nodup := by
  have runs : ((Session.boot? 6 0 []).bind
      (·.next? (.mapFresh 0 0x400000 .userRW))).isSome = true := by decide +kernel
  obtain ⟨τ, run⟩ := Option.isSome_iff_exists.1 runs
  obtain ⟨σ, boot, call⟩ := Option.bind_eq_some_iff.1 run
  have user : dirIndex 0x400000 < mountTableSlot := by decide
  have reaches : Session.Reaches Permits 6 0 [] τ := (of_boot? boot).next? call user
  exact ⟨σ, τ, boot, call, by decide, reaches, frames_partitioned (by decide) reaches⟩

end VirtualMemory
