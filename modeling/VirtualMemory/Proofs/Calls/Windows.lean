import VirtualMemory.Proofs.Calls.Rights
import VirtualMemory.Proofs.Operations.Windows

/-!
# Page calls and the window slots

Of the calls that map and unmap pages, only those that map a page into a window slot can put the
kernel's own windows out of place; the others leave them alone, whatever arguments they are given.
-/
namespace VirtualMemory

open Layout Snapshot Kernel

/-- Page calls that map nothing into a window slot. -/
inductive Call.SparesWindows : Call → Prop where
  | map {frame d t : Nat} {prot : Protection} (mount : d ≠ mountTableSlot)
      (self : d ≠ selfMapSlot) : SparesWindows (.map frame d t prot)
  | unmap (va : Nat) : SparesWindows (.unmap va)
  | add {p va frame : Nat} {prot : Protection} (mount : dirIndex va ≠ mountTableSlot)
      (self : dirIndex va ≠ selfMapSlot) : SparesWindows (.add p va frame prot)
  | remove (p first last : Nat) : SparesWindows (.remove p first last)

namespace Call

variable {w : Snapshot} {O : Finset Nat} {c : Call}

/-- An action that keeps the window slots, as a call. -/
theorem keeps_windows (h : Leads Depleted c.action w fun _ v => w.Windows v) :
    Leads Stops c.perform w fun _ v => w.Windows v :=
  (h.attempt (fun e _ no => no.stops e rfl) fun _ _ => id).weaken fun _ _ => Depleted.stops

/-- A call that is refused keeps them as well. -/
theorem refused_windows (h : w.Settled O) {e : ArgumentError} (no : Refuses c.action w e) :
    Leads Stops c.perform w fun _ v => w.Windows v :=
  no.attempt.leads (h.windows (.refl w) rfl)

/-- Every permitted call keeps the two slots: a range that is protected lies below them. -/
theorem perform_windows (h : w.Settled O) (permitted : w.Permits O c) :
    Leads Stops c.perform w fun _ v => w.Windows v := by
  by_cases protects : ∃ p first last prot, c = .protect p first last prot
  · obtain ⟨p, first, last, prot, rfl⟩ := protects
    by_cases ok : isAligned first = true ∧ isAligned last = true ∧ first ≤ last ∧ w.Live p
    · obtain ⟨firstAligned, lastAligned, ordered, live⟩ := ok
      refine keeps_windows (.bind ((protect_windows h live firstAligned lastAligned ordered prot
        permitted).mono fun _ v kept => .pure kept))
    · obtain ⟨e, no⟩ := forPages_refuses ok (protectPage prot)
      exact refused_windows h no.bind
  · refine (performs h permitted).mono fun r v effect => ?_
    have settled := effect.settled h
    exact settled.windows (effect.upholds h fun p first last prot same =>
      protects ⟨p, first, last, prot, same⟩) effect.size

/-- Whatever the arguments are, the two slots stay. -/
theorem SparesWindows.windows (spares : c.SparesWindows) (h : w.Settled O) :
    Leads Stops c.perform w fun _ v => w.Windows v := by
  cases spares with
  | @map f d t prot mount self =>
    by_cases ok : d < tableEntries ∧ t < tableEntries ∧ isAligned f = true
    · obtain ⟨hd, ht, aligned⟩ := ok
      have low := lt_mountTableSlot hd mount self
      refine keeps_windows (.bind ((map_windows h low ht aligned).mono ?_))
      exact fun _ v kept => .pure kept.1
    · obtain ⟨e, no⟩ := map_refuses ok prot
      exact refused_windows h no.bind
  | unmap va => exact perform_windows h trivial
  | @add p va f prot mount self =>
    by_cases ok : isAligned va = true ∧ isAligned f = true ∧ w.Live p
    · obtain ⟨alignedVa, aligned, live⟩ := ok
      have low := lt_mountTableSlot (dirIndex_lt va) mount self
      refine keeps_windows (.bind ((add_windows h live low alignedVa aligned).mono ?_))
      exact fun _ v kept => .pure kept
    · obtain ⟨e, no⟩ := add_refuses ok prot
      exact refused_windows h no.bind
  | remove => exact perform_windows h trivial

variable {f d t va : Nat} {prot : Protection} {s u : KernelState}

theorem map_answered (run : Kernel.map f d t prot s = .ok () u) :
    (map f d t prot).perform s = .ok (.ok .done) u := by
  rw [perform, attempt, action, bind_of_ok run]
  rfl

theorem unmap_answered (run : Kernel.unmap va s = .ok () u) :
    (unmap va).perform s = .ok (.ok .done) u := by
  rw [perform, attempt, action, bind_of_ok run]
  rfl

end Call

namespace Session.Shared

variable {n reserved : Nat} {setup : List (Nat × UInt32)} {σ : Session}

/-- Page calls that map nothing into a window slot keep both slots in place, and every frame can
still be mounted. A page that is mapped into the window's slot and removed again takes the window's
table with it; one that is mapped into the slot of the self-map replaces a slot of the directory,
which can be either of the two. -/
theorem windows_kept (small : Ram.Addressable n) (prepares : KernelState.Prepares n reserved setup)
    (h : Shared Permits n reserved setup σ) :
    (∀ c r t, Call.SparesWindows c → c.perform σ.state = .ok r t →
      t.snapshot.Wired ∧ σ.snapshot.Windows t.snapshot ∧ t.Mounts) ∧
    ∀ f prot, isAligned f = true →
      (∀ va, isAligned va = true → dirIndex va = mountTableSlot → ∃ s t,
        (Call.map f mountTableSlot (tableIndex va) prot).perform σ.state = .ok (.ok .done) s ∧
        (Call.unmap va).perform s = .ok (.ok .done) t ∧ t.snapshot.Severed ∧ t.MountsNothing) ∧
      ∀ d, d < tableEntries → ∃ t,
        (Call.map f selfMapSlot d prot).perform σ.state = .ok (.ok .done) t ∧
        t.snapshot.entry t.snapshot.root d = .of f prot.entryFlags := by
  have settled := h.settled (fun _ _ _ => id) small prepares
  obtain ⟨role, stable⟩ := settled.stable
  constructor
  · intro c r t spares answered
    have kept := spares.windows settled σ.state rfl
    rw [answered] at kept
    have wired := kept.wired stable.wired
    exact ⟨wired, kept, mount_of_wired wired⟩
  · intro f prot aligned
    constructor
    · intro va alignedVa hd
      obtain ⟨_, s, mapped, counted⟩ := Leads.succeeds (s := σ.state)
        (mapMount_leads stable (tableIndex_lt va) aligned prot)
      obtain ⟨_, t, unmapped, severed⟩ := Leads.succeeds (unmapMount_leads counted hd alignedVa)
      exact ⟨s, t, Call.map_answered mapped, Call.unmap_answered unmapped, severed,
        mount_severed severed⟩
    · intro d hd
      obtain ⟨_, t, mapped, replaced⟩ := Leads.succeeds (s := σ.state)
        (mapSelf_leads stable hd aligned prot)
      exact ⟨t, Call.map_answered mapped, replaced⟩

/-- A frame in the caller's hands is mapped below the window slots, or into either of them. -/
theorem windows_kept_acquired :
    ∃ σ τ, Session.boot? 8 0 [] = some σ ∧ σ.next? .acquireRaw = some τ ∧ Ram.Addressable 8 ∧
      KernelState.Prepares 8 0 [] ∧ Shared Permits 8 0 [] τ ∧
      (∃ r t, (Call.map 0x103000 1 0 .kernelRW).perform τ.state = .ok r t ∧
        t.snapshot.Wired ∧ τ.snapshot.Windows t.snapshot ∧ t.Mounts) ∧
      (∃ s t, (Call.map 0x103000 mountTableSlot 0 .kernelRW).perform τ.state = .ok (.ok .done) s ∧
        (Call.unmap 0xff800000).perform s = .ok (.ok .done) t ∧ t.snapshot.Severed ∧
        t.MountsNothing) ∧
      ∃ t, (Call.map 0x103000 selfMapSlot mountTableSlot .kernelRW).perform τ.state =
        .ok (.ok .done) t ∧ t.snapshot.entry t.snapshot.root mountTableSlot =
          .of 0x103000 Protection.kernelRW.entryFlags := by
  have runs : (((Session.boot? 8 0 []).bind (·.next? .acquireRaw)).filter fun τ =>
      (τ.next? (.map 0x103000 1 0 .kernelRW)).isSome = true).isSome = true := by decide +kernel
  obtain ⟨τ, run⟩ := Option.isSome_iff_exists.1 runs
  obtain ⟨run, goes⟩ := Option.filter_eq_some_iff.1 run
  obtain ⟨σ, boot, acquire⟩ := Option.bind_eq_some_iff.1 run
  have shared : Shared Permits 8 0 [] τ :=
    of_reaches ((Reaches.of_boot? boot).next? acquire trivial)
  have small : Ram.Addressable 8 := by decide
  have prepares := KernelState.prepares_nil 8
  have aligned : isAligned 0x103000 = true ∧ isAligned 0xff800000 = true := by decide
  obtain ⟨kept, lost⟩ := windows_kept small prepares shared
  obtain ⟨severs, replaces⟩ := lost 0x103000 .kernelRW aligned.1
  obtain ⟨r, t, answered⟩ : ∃ r t, (Call.map 0x103000 1 0 .kernelRW).perform τ.state = .ok r t := by
    unfold Session.next? at goes
    split at goes
    · exact ⟨_, _, ‹_›⟩
    · simp at goes
  have spares : Call.SparesWindows (.map 0x103000 1 0 .kernelRW) := .map (by decide) (by decide)
  exact ⟨σ, τ, boot, acquire, small, prepares, shared, ⟨r, t, answered, kept _ r t spares answered⟩,
    severs 0xff800000 aligned.2 (by decide), replaces mountTableSlot (by decide)⟩

end Session.Shared

/-- One page is mapped into the window's slot and removed again. -/
theorem Session.windows_lost :
    ∃ σ τ υ φ, Session.boot? 8 0 [] = some σ ∧ σ.next? .acquireRaw = some τ ∧
      τ.next? (.map 0x103000 mountTableSlot 0 .kernelRW) = some υ ∧
      υ.next? (.unmap 0xff800000) = some φ ∧ 0x103000 ∈ τ.held ∧
      (υ.snapshot.entry υ.snapshot.root mountTableSlot).frame = mountTable ∧
      mountTable ∉ υ.snapshot.free ∧
      (φ.snapshot.entry φ.snapshot.root mountTableSlot).isPresent = false ∧
      mountTable ∈ φ.snapshot.free ∧ ¬ φ.state.Mounts := by
  have runs : (((((Session.boot? 8 0 []).bind (·.next? .acquireRaw)).filter
      (0x103000 ∈ ·.held)).bind
      (·.next? (.map 0x103000 mountTableSlot 0 .kernelRW))).filter fun υ =>
        (υ.snapshot.entry υ.snapshot.root mountTableSlot).frame = mountTable ∧
        mountTable ∉ υ.snapshot.free ∧
        ((υ.next? (.unmap 0xff800000)).any fun φ =>
          Ram.IsFrame φ.snapshot.size φ.snapshot.root ∧
          Ram.IsFrame φ.snapshot.size 0x103000 ∧
          (φ.snapshot.entry φ.snapshot.root selfMapSlot).isPresent = true ∧
          (φ.snapshot.entry φ.snapshot.root selfMapSlot).frame = φ.snapshot.root ∧
          (φ.snapshot.entry φ.snapshot.root mountTableSlot).isPresent = false ∧
          mountTable ∈ φ.snapshot.free) = true).isSome = true := by decide +kernel
  obtain ⟨υ, run⟩ := Option.isSome_iff_exists.1 runs
  obtain ⟨run, holds⟩ := Option.filter_eq_some_iff.1 run
  obtain ⟨bound, kept, last⟩ := of_decide_eq_true holds
  obtain ⟨φ, unmap, holds⟩ := (Option.any_eq_true _ _).1 last
  obtain ⟨root, frame, self_present, self_frame, slot, table⟩ := of_decide_eq_true holds
  obtain ⟨τ, run, map⟩ := Option.bind_eq_some_iff.1 run
  obtain ⟨run, mine⟩ := Option.filter_eq_some_iff.1 run
  obtain ⟨σ, boot, acquire⟩ := Option.bind_eq_some_iff.1 run
  refine ⟨σ, τ, υ, φ, boot, acquire, map, unmap, of_decide_eq_true mine, bound, kept, slot, table,
    fun mounts => ?_⟩
  have severed : φ.snapshot.Severed := ⟨root, self_present, self_frame, slot, table⟩
  obtain ⟨t, mounted, -⟩ := mounts 0x103000 frame
  exact mount_severed severed _ _ _ _ t mounted

end VirtualMemory
