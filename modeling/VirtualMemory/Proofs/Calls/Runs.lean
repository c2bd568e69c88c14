import VirtualMemory.Proofs.Boot.Start
import VirtualMemory.Proofs.Calls.Effects

/-!
# Runs

A session is the kernel together with the frames that callers hold. It starts with a boot and goes
on with calls that are answered. What holds after every boot, and after the effect of every call
that callers may make, holds of all sessions. Memory ends where entries stop naming frames, as it
does on a processor without address extension (`Ram.Addressable`).
-/
namespace VirtualMemory

open Layout Snapshot

structure Session where
  state : KernelState
  /-- The frames that callers hold. -/
  held : Finset Nat

def Session.snapshot (σ : Session) : Snapshot := σ.state.snapshot

/-- The sessions of callers that keep to the rules `ok`. -/
inductive Session.Reaches (ok : Snapshot → Finset Nat → Call → Prop) (n reserved : Nat)
    (setup : List (Nat × UInt32)) : Session → Prop where
  | boot {s : KernelState} (booted : KernelState.boot n reserved setup = .ok s) :
      Reaches ok n reserved setup ⟨s, (s.snapshot.page s.snapshot.root).unbound reserved⟩
  | call {σ : Session} {c : Call} {r : Except ArgumentError Answer} {t : KernelState}
      (before : Reaches ok n reserved setup σ) (allowed : ok σ.snapshot σ.held c)
      (answered : c.perform σ.state = .ok r t) :
      Reaches ok n reserved setup ⟨t, c.held r t.snapshot σ.held⟩

/-- The sessions of callers that also keep the share counts of the frames that they hold, as they
see fit. -/
inductive Session.Managed (ok : Snapshot → Finset Nat → Call → Prop) (n reserved : Nat)
    (setup : List (Nat × UInt32)) : Session → Prop where
  | boot {s : KernelState} (booted : KernelState.boot n reserved setup = .ok s) :
      Managed ok n reserved setup ⟨s, (s.snapshot.page s.snapshot.root).unbound reserved⟩
  | call {σ : Session} {c : Call} {r : Except ArgumentError Answer} {t : KernelState}
      (before : Managed ok n reserved setup σ) (allowed : ok σ.snapshot σ.held c)
      (answered : c.perform σ.state = .ok r t) :
      Managed ok n reserved setup ⟨t, c.held r t.snapshot σ.held⟩
  | counted {σ : Session} {f count : Nat} {t : KernelState}
      (before : Managed ok n reserved setup σ) (mine : f ∈ σ.held)
      (range : count < Shares.countLimit)
      (done : Kernel.setShareCount f count σ.state = .ok () t) :
      Managed ok n reserved setup ⟨t, σ.held⟩

/-- From one session to another by calls that keep to the rules `ok`. -/
inductive Session.Follows (ok : Snapshot → Finset Nat → Call → Prop) (σ : Session) :
    Session → Prop where
  | start : Follows ok σ σ
  | call {τ : Session} {c : Call} {r : Except ArgumentError Answer} {t : KernelState}
      (before : Follows ok σ τ) (allowed : ok τ.snapshot τ.held c)
      (answered : c.perform τ.state = .ok r t) :
      Follows ok σ ⟨t, c.held r t.snapshot τ.held⟩

namespace Session

/-- The session that a boot starts, if it succeeds. -/
def boot? (n reserved : Nat) (setup : List (Nat × UInt32)) : Option Session :=
  match KernelState.boot n reserved setup with
  | .ok s => some ⟨s, (s.snapshot.page s.snapshot.root).unbound reserved⟩
  | .error _ => none

/-- The session after one more call, if it is answered. -/
def next? (σ : Session) (c : Call) : Option Session :=
  match c.perform σ.state with
  | .ok r t => some ⟨t, c.held r t.snapshot σ.held⟩
  | .error .. => none

variable {ok : Snapshot → Finset Nat → Call → Prop} {n reserved : Nat}
  {setup : List (Nat × UInt32)} {σ τ : Session} {c : Call}

theorem boot_of_boot? (h : boot? n reserved setup = some σ) :
    ∃ s, KernelState.boot n reserved setup = .ok s ∧
      σ = ⟨s, (s.snapshot.page s.snapshot.root).unbound reserved⟩ := by
  unfold boot? at h
  split at h
  · rename_i booted
    cases h
    exact ⟨_, booted, rfl⟩
  · cases h

theorem perform_of_next? (h : σ.next? c = some τ) :
    ∃ r t, c.perform σ.state = .ok r t ∧ τ = ⟨t, c.held r t.snapshot σ.held⟩ := by
  unfold Session.next? at h
  split at h
  · rename_i answered
    cases h
    exact ⟨_, _, answered, rfl⟩
  · cases h

theorem Reaches.of_boot? (h : boot? n reserved setup = some σ) : Reaches ok n reserved setup σ := by
  obtain ⟨s, booted, rfl⟩ := boot_of_boot? h
  exact .boot booted

theorem booted_of_boot? (small : Ram.Addressable n)
    (prepares : KernelState.Prepares n reserved setup) (h : boot? n reserved setup = some σ) :
    σ.snapshot.Booted reserved := by
  obtain ⟨s, booted, rfl⟩ := boot_of_boot? h
  exact (KernelState.boot_booted small prepares booted).2

theorem Reaches.next? (before : Reaches ok n reserved setup σ) (h : σ.next? c = some τ)
    (allowed : ok σ.snapshot σ.held c) : Reaches ok n reserved setup τ := by
  obtain ⟨r, t, answered, rfl⟩ := perform_of_next? h
  exact before.call allowed answered

end Session

namespace Snapshot

variable {w v : Snapshot} {O Q : Finset Nat} {c : Call} {r : Except ArgumentError Answer}

/-- Every call ends with the kernel at rest. -/
theorem Effect.settled (h : w.Settled O) (effect : w.Effect O c r v Q) : v.Settled Q := by
  cases effect with
  | refused => exact h
  | created settled => exact settled
  | reowned _ _ settled => exact settled
  | vacated _ settled => exact settled
  | switched _ settled => exact settled
  | added _ settled => exact settled
  | removed _ settled => exact settled
  | reprotected _ settled => exact settled
  | mapped settled => exact settled
  | unmapped settled => exact settled
  | minted _ _ settled => exact settled
  | dropped _ settled pages shared counts =>
    rw [← pages.shares] at shared counts
    obtain ⟨inside, hm⟩ := settled.shared _ shared
    rw [counts]
    exact settled.setShare inside hm _
  | forked _ _ _ _ settled => exact settled
  | faulted resolved => exact resolved.settled h
  | stored user resolved page =>
    have settled := resolved.settled h
    exact (settled.setPage (settled.pageAt?_owned user page) _).1
  | taken _ _ settled => exact settled
  | returned settled => exact settled

theorem Effect.size (effect : w.Effect O c r v Q) : v.size = w.size := by
  cases effect with
  | refused | reowned => rfl
  | created _ admitted => exact admitted.size
  | vacated _ _ gone => exact gone.size
  | switched _ _ switched => exact switched.size
  | added _ _ pages | removed _ _ pages | reprotected _ _ pages | minted _ _ _ pages
  | dropped _ _ pages => exact pages.size
  | mapped _ pages | unmapped _ pages | returned _ pages | taken _ _ _ pages => exact pages.size
  | forked _ _ _ _ _ forked => exact forked.size
  | faulted resolved => exact resolved.size
  | stored _ resolved => exact resolved.size

end Snapshot

namespace Session

variable {ok : Snapshot → Finset Nat → Call → Prop} {n reserved : Nat}
  {setup : List (Nat × UInt32)} {σ : Session}

/-- The answer to a permitted call comes with its effect. -/
theorem effect_of_perform {O : Finset Nat} {c : Call} {s t : KernelState}
    {r : Except ArgumentError Answer} (h : s.snapshot.Settled O)
    (permitted : s.snapshot.Permits O c) (answered : c.perform s = .ok r t) :
    s.snapshot.Effect O c r t.snapshot (c.held r t.snapshot O) := by
  have effect := Call.performs h permitted s rfl
  rwa [answered] at effect

/-- What boots establish and effects keep holds of every session, and the kernel is at rest. -/
theorem Reaches.induction {I : Snapshot → Finset Nat → Prop}
    (permitted : ∀ w O c, ok w O c → w.Permits O c) (small : Ram.Addressable n)
    (prepares : KernelState.Prepares n reserved setup)
    (first : ∀ v, v.size = n → v.Booted reserved → I v ((v.page v.root).unbound reserved))
    (step : ∀ w O c r v Q, w.Settled O → I w O → ok w O c → w.Effect O c r v Q → I v Q)
    (h : Reaches ok n reserved setup σ) : σ.snapshot.Settled σ.held ∧ I σ.snapshot σ.held := by
  induction h with
  | boot booted =>
    obtain ⟨size, settled⟩ := KernelState.boot_booted small prepares booted
    exact ⟨settled.settled, first _ size settled⟩
  | call before allowed answered ih =>
    have effect := effect_of_perform ih.1 (permitted _ _ _ allowed) answered
    exact ⟨effect.settled ih.1, step _ _ _ _ _ _ ih.1 ih.2 allowed effect⟩

/-- What a session has and effects keep, the sessions that follow have. -/
theorem Follows.induction {I : Snapshot → Finset Nat → Prop}
    (permitted : ∀ w O c, ok w O c → w.Permits O c)
    (step : ∀ w O c r v Q, w.Settled O → I w O → ok w O c → w.Effect O c r v Q → I v Q)
    (settled : σ.snapshot.Settled σ.held) (first : I σ.snapshot σ.held) (run : σ.Follows ok τ) :
    τ.snapshot.Settled τ.held ∧ I τ.snapshot τ.held := by
  induction run with
  | start => exact ⟨settled, first⟩
  | call before allowed answered ih =>
    have effect := effect_of_perform ih.1 (permitted _ _ _ allowed) answered
    exact ⟨effect.settled ih.1, step _ _ _ _ _ _ ih.1 ih.2 allowed effect⟩

/-- Every session has the frames it was booted with, and the kernel is at rest in it. -/
theorem Reaches.settled (permitted : ∀ w O c, ok w O c → w.Permits O c)
    (small : Ram.Addressable n) (prepares : KernelState.Prepares n reserved setup)
    (h : Reaches ok n reserved setup σ) : σ.snapshot.Settled σ.held ∧ σ.snapshot.size = n :=
  h.induction (I := fun w _ => w.size = n) permitted small prepares (fun _ size _ => size)
    fun _ _ _ _ _ _ _ same _ effect => effect.size.trans same

theorem Reaches.managed (h : Reaches ok n reserved setup σ) : Managed ok n reserved setup σ := by
  induction h with
  | boot booted => exact .boot booted
  | call before allowed answered ih => exact ih.call allowed answered

/-- The kernel is at rest whatever its callers count. -/
theorem Managed.settled (permitted : ∀ w O c, ok w O c → w.Permits O c)
    (small : Ram.Addressable n) (prepares : KernelState.Prepares n reserved setup)
    (h : Managed ok n reserved setup σ) : σ.snapshot.Settled σ.held := by
  induction h with
  | boot booted => exact (KernelState.boot_booted small prepares booted).2.settled
  | call before allowed answered ih =>
    exact (effect_of_perform ih (permitted _ _ _ allowed) answered).settled ih
  | @counted σ f count t before mine range done ih =>
    obtain ⟨role, stable⟩ := ih.stable
    change t.snapshot.Settled σ.held
    rw [Kernel.setShareCount_of_ok done]
    exact ih.setShare (ih.isFrame mine) (stable.ne_mount mine) count

end Session
end VirtualMemory
