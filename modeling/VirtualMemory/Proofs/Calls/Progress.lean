import VirtualMemory.Proofs.Calls.Runs

/-!
# Progress

A caller who keeps to the rules never meets a condition that the kernel cannot repair. Whatever has
been done since the boot, the next call is answered, unless the pool is empty when a frame is
needed, a counter has no number left, or the call is one that an owner must not make. Tables are
never overfull and never miscounted, no unaligned frame is mounted, no space is stuck while it
ends, and no private copy is turned away: these halts are out of reach.
-/
namespace VirtualMemory

open Layout Snapshot Kernel

/-- The sessions of callers that keep to the rules `ok`, while the share counts of frames are
anybody's to set. The window's table is no frame that could be shared. -/
inductive Session.Shared (ok : Snapshot → Finset Nat → Call → Prop) (n reserved : Nat)
    (setup : List (Nat × UInt32)) : Session → Prop where
  | boot {s : KernelState} (booted : KernelState.boot n reserved setup = .ok s) :
      Shared ok n reserved setup ⟨s, (s.snapshot.page s.snapshot.root).unbound reserved⟩
  | call {σ : Session} {c : Call} {r : Except ArgumentError Answer} {t : KernelState}
      (before : Shared ok n reserved setup σ) (allowed : ok σ.snapshot σ.held c)
      (answered : c.perform σ.state = .ok r t) :
      Shared ok n reserved setup ⟨t, c.held r t.snapshot σ.held⟩
  | counted {σ : Session} {f count : Nat} {t : KernelState}
      (before : Shared ok n reserved setup σ) (frame : Ram.IsFrame σ.snapshot.size f)
      (shareable : f ≠ mountTable) (range : count < Shares.countLimit)
      (done : Kernel.setShareCount f count σ.state = .ok () t) :
      Shared ok n reserved setup ⟨t, σ.held⟩

namespace Snapshot

variable (w : Snapshot) (O : Finset Nat)

/-- The calls of a caller who leaves the directory's two window slots alone. The calls that do a
part of the caller's own bookkeeping are not among them. -/
def Disciplined (c : Call) : Prop :=
  w.Permits O c ∧ match c with
  | .remove _ first last => ∀ i < (last - first) / pageSize,
    dirIndex (first + i * pageSize) < mountTableSlot
  | .unmap va => dirIndex va < mountTableSlot
  | .mapFresh .. | .drop .. | .userWrite .. => False
  | _ => True

/-- What can stop the kernel at a call: it has run out of something, or the call was not for its
owner to make. -/
inductive Ends (c : Call) : Failure → Books → Prop where
  | depleted {f : Failure} {b : Books} (out : Depleted f b) : Ends c f b
  | disowned {f : Failure} {b : Books} (broken : w.Disowned c f b) : Ends c f b

end Snapshot

/-- Disciplined calls are answered, but for these two reasons. -/
theorem Call.disciplined_performs {w : Snapshot} {O : Finset Nat} {c : Call} (h : w.Settled O)
    (ok : w.Disciplined O c) : c.Performs (w.Ends c) w O := by
  have sure {c : Call} (out : c.Performs Depleted w O) : c.Performs (w.Ends c) w O :=
    out.weaken fun _ _ => .depleted
  have mine {c : Call} (out : c.Performs (w.Disowned c) w O) : c.Performs (w.Ends c) w O :=
    out.weaken fun _ _ => .disowned
  obtain ⟨permitted, low⟩ := ok
  cases c with
  | create => exact sure (create_performs h)
  | incref => exact sure (incref_performs h)
  | decref => exact mine (decref_performs h)
  | destroy => exact mine (destroy_performs h)
  | switch => exact sure (switch_performs h)
  | add => exact sure (add_performs h permitted.1 permitted.2)
  | remove =>
    refine sure (remove_performs (fun _ _ => Depleted.stops) fun live first last ordered => ?_)
    exact remove_leads_below h live first last ordered low
  | protect => exact sure (protect_performs h permitted)
  | map => exact sure (map_performs h permitted.1 permitted.2)
  | unmap =>
    refine sure (unmap_performs h (fun _ _ => Depleted.stops) fun aligned => ?_)
    exact unmap_leads h aligned low
  | fork => exact sure (fork_performs h permitted)
  | pageFault => exact sure (pageFault_performs h permitted)
  | acquire => exact sure (acquire_performs h)
  | acquireRaw => exact sure (acquireRaw_performs h)
  | release => exact sure (release_performs h permitted.1 permitted.2)
  | mapFresh | drop | userWrite => exact low.elim

namespace Session.Shared

variable {ok : Snapshot → Finset Nat → Call → Prop} {n reserved : Nat}
  {setup : List (Nat × UInt32)} {σ τ : Session} {c : Call}

/-- The kernel is at rest whoever keeps the counts. -/
theorem settled (permitted : ∀ w O c, ok w O c → w.Permits O c) (small : Ram.Addressable n)
    (prepares : KernelState.Prepares n reserved setup) (h : Shared ok n reserved setup σ) :
    σ.snapshot.Settled σ.held := by
  induction h with
  | boot booted => exact (KernelState.boot_booted small prepares booted).2.settled
  | call before allowed answered ih =>
    exact (effect_of_perform ih (permitted _ _ _ allowed) answered).settled ih
  | @counted σ f count t before frame shareable range done ih =>
    change t.snapshot.Settled σ.held
    rw [Kernel.setShareCount_of_ok done]
    exact ih.setShare frame shareable count

theorem of_reaches (h : Reaches ok n reserved setup σ) : Shared ok n reserved setup σ := by
  induction h with
  | boot booted => exact .boot booted
  | call before allowed answered ih => exact ih.call allowed answered

/-- In every session of permitted calls, with whatever share counts, the next disciplined call is
answered; or it ends for want of a frame with the pool empty, or of a number with a counter at its
limit; or it drops an owner of a space that is gone, or the last one of the kernel's. -/
theorem next_call_answered (small : Ram.Addressable n)
    (prepares : KernelState.Prepares n reserved setup) (h : Shared Permits n reserved setup σ)
    (next : σ.snapshot.Disciplined σ.held c) :
    (∃ r t, c.perform σ.state = .ok r t) ∨
      ∃ f t, c.perform σ.state = .error f t ∧
        (f = .halt .outOfFrames ∧ t.pool.free = [] ∨
          f = .violation .additionOverflow ∧ t.snapshot.AtLimit ∨
          ∃ reason, f = .halt reason ∧ σ.snapshot.Disowns c reason) := by
  have settled := h.settled (fun _ _ _ => id) small prepares
  have ends := Call.disciplined_performs settled next σ.state rfl
  cases run : c.perform σ.state with
  | ok r t => exact .inl ⟨r, t, rfl⟩
  | error f t =>
    rw [run] at ends
    refine .inr ⟨f, t, rfl, ?_⟩
    cases ends with
    | depleted out =>
      cases out with
      | frames empty => exact .inl ⟨rfl, empty⟩
      | limit full => exact .inr (.inl ⟨rfl, full⟩)
    | disowned broken =>
      cases broken with
      | @halted reason _ broken => exact .inr (.inr ⟨reason, rfl, broken⟩)

/-- A write fault at a fresh page whose frame is said to be shared twice. -/
theorem next_call_answered_shared :
    ∃ σ τ t, Session.boot? 8 0 [] = some σ ∧
      σ.next? (.mapFresh 0 0x400000 .userRW) = some τ ∧ Ram.Addressable 8 ∧
      KernelState.Prepares 8 0 [] ∧ Kernel.setShareCount 0x103000 2 τ.state = .ok () t ∧
      Shared Permits 8 0 [] ⟨t, τ.held⟩ ∧
      t.snapshot.Disciplined τ.held (.pageFault 0x400000 7) ∧
      ((∃ r u, (Call.pageFault 0x400000 7).perform t = .ok r u) ∨
        ∃ f u, (Call.pageFault 0x400000 7).perform t = .error f u ∧
          (f = .halt .outOfFrames ∧ u.pool.free = [] ∨
            f = .violation .additionOverflow ∧ u.snapshot.AtLimit ∨
            ∃ reason, f = .halt reason ∧
              t.snapshot.Disowns (.pageFault 0x400000 7) reason)) := by
  have runs : ((Session.boot? 8 0 []).bind
      (·.next? (.mapFresh 0 0x400000 .userRW))).isSome = true := by decide +kernel
  obtain ⟨τ, run⟩ := Option.isSome_iff_exists.1 runs
  obtain ⟨σ, boot, call⟩ := Option.bind_eq_some_iff.1 run
  have user : dirIndex 0x400000 < mountTableSlot := by decide
  have reaches : Reaches Permits 8 0 [] τ := (Reaches.of_boot? boot).next? call user
  have prepares := KernelState.prepares_nil 8
  obtain ⟨-, size⟩ := reaches.settled (fun _ _ _ => id) (by decide) prepares
  obtain ⟨t, counted⟩ : ∃ t, Kernel.setShareCount 0x103000 2 τ.state = .ok () t := ⟨_, rfl⟩
  have shared := (of_reaches reaches).counted (f := 0x103000)
    (size ▸ Ram.isFrame_frameAddress.2 (by decide : 3 < 8)) (by decide) (by decide) counted
  have next : t.snapshot.Disciplined τ.held (.pageFault 0x400000 7) := ⟨user, trivial⟩
  exact ⟨σ, τ, t, boot, call, by decide, prepares, counted, shared, next,
    next_call_answered (by decide) prepares shared next⟩

end Session.Shared
end VirtualMemory
