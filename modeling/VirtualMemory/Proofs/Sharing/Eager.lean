import VirtualMemory.Proofs.Sharing.Memory

/-!
# Copying on write

Programs cannot tell that a fork shares frames: every call does to memory what it would do if forks
copied all of it at once. So what one space writes is never seen in another, in whatever order
faults, switches and forks come.
-/
namespace VirtualMemory

open Layout Snapshot

namespace Call

/-- What an answered call does to memory if a fork copies all that the parent has. -/
def Eager (c : Call) (r : Except ArgumentError Answer) (active : Nat) (m m' : UserMemory) : Prop :=
  match r, c with
  | .error _, _ | .ok _, .create | .ok _, .switch _ | .ok _, .pageFault .. => m' = m
  | .ok _, .fork parent child => m' = Function.update m child (m parent)
  | .ok _, .userWrite va b => (m active va).isSome = true ∧
    m' = Function.update m active (Function.update (m active) va (some b))
  | .ok _, .mapFresh p va _ => ∀ q a, m' q a ≠ m q a → q = p ∧ alignDown a = alignDown va
  | .ok _, .remove p _ _ | .ok _, .destroy p =>
    ∀ q a, m' q a ≠ m q a → q = p ∧ m' q a = none
  | .ok _, _ => False

/-- The call is about the memory of space `q`. -/
def Concerns (c : Call) (active q : Nat) : Prop :=
  match c with
  | .userWrite .. => q = active
  | .fork _ child => q = child
  | .mapFresh p _ _ | .remove p _ _ | .destroy p => q = p
  | _ => False

variable {c : Call} {r : Except ArgumentError Answer} {active q : Nat} {m m' : UserMemory}

theorem Eager.of_not_concerns (h : c.Eager r active m m') (aside : ¬ c.Concerns active q) :
    m' q = m q := by
  have only (p : Nat) (h : ∀ a, m' q a ≠ m q a → q = p) (other : q ≠ p) : m' q = m q := by
    funext a
    by_contra differs
    exact other (h a differs)
  cases r with
  | error => exact congrFun h q
  | ok =>
    cases c with
    | create | switch | pageFault => exact congrFun h q
    | fork parent child => exact (congrFun h q).trans (Function.update_of_ne aside _ _)
    | userWrite => exact (congrFun h.2 q).trans (Function.update_of_ne aside _ _)
    | mapFresh p | remove p | destroy p => exact only p (fun a differs => (h q a differs).1) aside
    | _ => cases h

end Call

namespace Snapshot

variable {w v : Snapshot} {O Q : Finset Nat} {c : Call} {r : Except ArgumentError Answer}
  {extra : Nat → Nat} {p : Nat}

/-- User programs never lead to counts that are too small. -/
theorem Ledger.user (h : w.Settled O) (l : w.Ledger extra) (effect : w.Effect O c r v Q)
    (user : w.UserCall O c) : ∃ extra', v.Ledger extra' := by
  by_cases moves : Moves c
  · exact ⟨extra, l.moves h effect moves user⟩
  cases effect with
  | refused => exact ⟨extra, l⟩
  | reowned _ record => exact ⟨extra, l.same (userPages_owning record _) rfl⟩
  | vacated _ _ gone => exact ⟨_, l.fewer gone.givesUp gone.shares⟩
  | minted fresh live settled pages =>
    exact ⟨_, l.minted h user live fresh settled pages.toRewrites⟩
  | removed _ _ pages => exact ⟨_, l.fewer (givesUp_removed pages.toRewrites) pages.shares⟩
  | created | switched | forked | faulted | stored => exact absurd trivial moves
  | taken call => rcases call with rfl | rfl <;> cases user
  | _ => cases user

theorem Effect.eager (h : w.Settled O) (l : w.Ledger extra) (effect : w.Effect O c r v Q)
    (user : w.UserCall O c) : c.Eager r w.spaces.active w.memory v.memory := by
  cases effect with
  | refused => rfl
  | created _ admitted =>
    exact memory_congr (contents_congr h admitted.data (admitted.userPages h))
  | @reowned c a p n r call record =>
    have same : (w.owning p r n).memory = w.memory :=
      memory_congr (contents_congr h (fun _ _ => rfl) (userPages_owning record n))
    rcases call with rfl | rfl | rfl
    · cases user
    · cases user
    · exact fun q a differs => absurd (by rw [same]) differs
  | vacated call _ gone =>
    rcases call with rfl | rfl
    · cases user
    · exact fun q a => memory_fewer (gone.givesUp.contents h gone.data)
  | switched _ _ switched => exact memory_congr (switched.contents h)
  | removed _ _ pages =>
    exact fun q a => memory_fewer ((givesUp_removed pages.toRewrites).contents h pages.data)
  | minted fresh live settled pages =>
    refine fun q a differs => (memory_page user ?_ differs).2
    intro x other
    exact contents_update_of_ne h (fun g hg => pages.data g (Finset.mem_insert_of_mem hg))
      (userPages_minted user live pages.toRewrites) other
  | forked live live' _ _ _ forked => exact memory_forked (forked.contents h live live')
  | faulted resolved => exact memory_congr (resolved.contents h user)
  | stored low resolved page writable =>
    have alone := (l.resolved h low resolved).exclusive
    have there := page
    rw [pageAt?_eq (resolved.settled h) low, resolved.spaces] at there
    exact resolved.memory_stored h low page fun y hy => alone.eq there writable hy
  | taken call => rcases call with rfl | rfl <;> cases user
  | _ => cases user

end Snapshot

namespace Session

/-- From one session to another by calls that are not about the memory of space `q`. -/
inductive Aside (q : Nat) (σ : Session) : Session → Prop where
  | start : Aside q σ σ
  | call {τ : Session} {c : Call} {r : Except ArgumentError Answer} {t : KernelState}
      (before : Aside q σ τ) (allowed : UserCall τ.snapshot τ.held c)
      (answered : c.perform τ.state = .ok r t)
      (aside : ¬ c.Concerns τ.state.spaces.active q) :
      Aside q σ ⟨t, c.held r t.snapshot τ.held⟩

variable {n : Nat} {σ : Session}

theorem Reaches.ledger (small : Ram.Addressable n) (h : Reaches UserCall n 0 [] σ) :
    σ.snapshot.Settled σ.held ∧ ∃ extra, σ.snapshot.Ledger extra :=
  h.induction (I := fun w _ => ∃ extra, w.Ledger extra) (fun _ _ _ => UserCall.permits) small
    (KernelState.prepares_nil n) (fun _ _ booted => ⟨_, booted.ledger⟩)
    fun _ _ _ _ _ _ settled ⟨_, l⟩ allowed effect => l.user settled effect allowed

theorem Reaches.eager (small : Ram.Addressable n) (h : Reaches UserCall n 0 [] σ) {c : Call}
    {r : Except ArgumentError Answer} {t : KernelState}
    (allowed : UserCall σ.snapshot σ.held c) (answered : c.perform σ.state = .ok r t) :
    c.Eager r σ.state.spaces.active σ.state.memory t.memory := by
  obtain ⟨settled, _, ledger⟩ := h.ledger small
  have effect := effect_of_perform settled allowed.permits answered
  rw [memory_eq settled, memory_eq (effect.settled settled)]
  exact effect.eager settled ledger allowed

theorem Reaches.aside {q : Nat} {τ : Session} (h : Reaches UserCall n 0 [] σ)
    (run : σ.Aside q τ) : Reaches UserCall n 0 [] τ := by
  induction run with
  | start => exact h
  | call _ allowed answered _ before => exact before.call allowed answered

/-- Copying on write refines copying at once: whatever user programs have had done since the boot,
the next call does to memory what it would do if forks copied all of it. And whatever they have
done after that, the memory of a space is as it was unless a call was about it. -/
theorem Reaches.copy_on_write (small : Ram.Addressable n) (h : Reaches UserCall n 0 [] σ) :
    (∀ c r t, UserCall σ.snapshot σ.held c → c.perform σ.state = .ok r t →
      c.Eager r σ.state.spaces.active σ.state.memory t.memory) ∧
    ∀ q τ, σ.Aside q τ → τ.state.memory q = σ.state.memory q := by
  refine ⟨fun c r t allowed answered => h.eager small allowed answered, ?_⟩
  intro q τ run
  induction run with
  | start => rfl
  | call run allowed answered aside same =>
    exact (((h.aside run).eager small allowed answered).of_not_concerns aside).trans same

theorem Reaches.copy_on_write_stored :
    ∃ σ τ υ, boot? 6 0 [] = some σ ∧ σ.next? (.mapFresh 0 0x400000 .userRW) = some τ ∧
      τ.next? (.userWrite 0x400007 5) = some υ ∧ Ram.Addressable 6 ∧
      Reaches UserCall 6 0 [] υ ∧
      (∀ c r t, UserCall υ.snapshot υ.held c → c.perform υ.state = .ok r t →
        c.Eager r υ.state.spaces.active υ.state.memory t.memory) ∧
      ∀ q ρ, υ.Aside q ρ → ρ.state.memory q = υ.state.memory q := by
  have runs : (((boot? 6 0 []).bind (·.next? (.mapFresh 0 0x400000 .userRW))).bind
      (·.next? (.userWrite 0x400007 5))).isSome = true := by decide +kernel
  obtain ⟨υ, run⟩ := Option.isSome_iff_exists.1 runs
  obtain ⟨τ, run, stored⟩ := Option.bind_eq_some_iff.1 run
  obtain ⟨σ, boot, mapped⟩ := Option.bind_eq_some_iff.1 run
  have user : 0x400000 < kernelStart := by decide
  have user' : 0x400007 < kernelStart := by decide
  have reaches : Reaches UserCall 6 0 [] υ :=
    ((of_boot? boot).next? mapped user).next? stored user'
  exact ⟨σ, τ, υ, boot, mapped, stored, by decide, reaches,
    copy_on_write (by decide) reaches⟩

end Session
end VirtualMemory
