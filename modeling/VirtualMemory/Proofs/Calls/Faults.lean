import VirtualMemory.Proofs.Calls.Isolation
import VirtualMemory.Proofs.Calls.Progress
import VirtualMemory.Proofs.Operations.Reactions

/-!
# What becomes of faults

In every session a fault at a page that nobody accounts for is the policy's. At any other page it
ends with a page that may be written: the page itself if its frame is counted once, and a private
copy if it is counted more often. That is right for a write. But the kernel never asks whether there
was one, so that a read is answered no differently.
-/
namespace VirtualMemory

open Layout Snapshot Kernel

namespace Snapshot

variable {w u v : Snapshot} {O Q : Finset Nat} {role : Nat → Role} {va g : Nat} {e : Entry}

theorem grantedAt_alignDown (w : Snapshot) (va : Nat) (e : Entry) :
    w.grantedAt (alignDown va) e = w.grantedAt va e := by
  rw [grantedAt, dirIndex_alignDown, tableIndex_alignDown, grantedAt]

theorem givesUpPage_alignDown : w.GivesUpPage u O (alignDown va) e ↔ w.GivesUpPage u O va e := by
  constructor
  all_goals
    exact fun h => { h with
      leaf := by simpa only [dirIndex_alignDown, tableIndex_alignDown] using h.leaf }

theorem CopiedInto.at_alignDown (h : w.CopiedInto v O Q (alignDown va) e g) :
    w.CopiedInto v O Q va e g :=
  { h with leaf := pagesAt_alignDown w va ▸ h.leaf }

theorem CopiedInto.page (h : w.CopiedInto v O Q va e g) (settled : w.Settled O)
    (hd : dirIndex va < mountTableSlot) :
    v.pageAt? va = some (.of g Protection.userRWX.entryFlags) :=
  settled.pageAt?_of hd h.spaces h.leaf

/-- Its directory slot has the write right, too. -/
theorem isWritable_slot_grantedAt (h : w.Sound role) (hd : dirIndex va < mountTableSlot)
    (page : w.pageAt? va = some e) :
    ((w.grantedAt va e).entry w.root (dirIndex va)).isWritable = true := by
  have hd' := dirIndex_lt va
  obtain ⟨-, table, -, -⟩ := bound_of_leaf? h hd page
  have apart : w.root ≠ (w.entry w.root (dirIndex va)).frame := by
    intro same
    rw [← same, (h.resident _).2 rfl] at table
    cases table
  rw [grantedAt, entry_setEntry _ _ _ (tableIndex_lt va) hd', if_neg fun both => apart both.1,
    entry_setEntry _ _ _ hd' hd', if_pos ⟨rfl, rfl⟩, Entry.isWritable_set_writable]

end Snapshot

namespace Kernel

variable {s : KernelState} {O : Finset Nat} {va : Nat} {e : Entry} {code : UInt32}

theorem ok_of_run' {α : Type} {x : Kernel α} {a : α} (h : EStateM.run' x s = some a) :
    ∃ t, x s = .ok a t := by
  unfold EStateM.run' EStateM.run at h
  split at h
  · rename_i run
    cases h
    exact ⟨_, run⟩
  · cases h

/-- Nothing but the write right on both levels is new where it is granted. -/
structure Grants (s t : KernelState) (va : Nat) (e : Entry) : Prop where
  snapshot : t.snapshot = s.snapshot.grantedAt va e
  page : t.snapshot.pageAt? va = some (e.set EntryFlags.writable)
  slot : (t.snapshot.entry s.snapshot.root (dirIndex va)).isWritable = true

section Accounted
variable (h : s.snapshot.Settled O) (hd : dirIndex va < mountTableSlot)
  (page : s.snapshot.pageAt? va = some e) (right : TrapCode.isUser code = true → e.isUser = true)
include h hd page right

theorem pageFault_of_lone (lone : s.snapshot.shares.get e.frame = 1) :
    ∃ t, (∀ policy : Policy, pageFault policy va code s = .ok .writeGranted t) ∧
      Grants s t va e := by
  obtain ⟨role, stable⟩ := h.stable
  have sound := stable.toSound
  have hd' : dirIndex (alignDown va) < mountTableSlot := by rwa [dirIndex_alignDown]
  have page' : s.snapshot.pageAt? (alignDown va) = some e := by rwa [pageAt?_alignDown]
  obtain ⟨t, run, ht⟩ := grantWrite_yields sound hd' page' s rfl
  rw [grantedAt_alignDown] at ht
  have leads := grantWrite_leads (E := fun _ _ => True) h hd' page' s rfl
  rw [run] at leads
  have now := h.pageAt?_of hd' leads.2.spaces leads.2.leaf
  refine ⟨t, fun policy => ?_, ht, by rwa [pageAt?_alignDown] at now, ?_⟩
  · rw [pageFault_eq sound hd, reaction_of_lone page right lone]
    exact bind_of_ok run _
  · rw [ht]
    exact isWritable_slot_grantedAt sound hd page

theorem pageFault_of_several (several : 2 ≤ s.snapshot.shares.get e.frame) :
    ∃ u : KernelState, s.snapshot.GivesUpPage u.snapshot O va e ∧
      ∀ policy : Policy, pageFault policy va code s = (do
        installCopy (alignDown va) e.frame (← policy.privateFrame (alignDown va))
        return FaultOutcome.copied) u := by
  obtain ⟨role, stable⟩ := h.stable
  have hd' : dirIndex (alignDown va) < mountTableSlot := by rwa [dirIndex_alignDown]
  obtain ⟨u, gone, given⟩ := giveUpPage h (isAligned_alignDown va) hd' several
  refine ⟨u, givesUpPage_alignDown.1 gone, fun policy => ?_⟩
  rw [pageFault_eq stable.toSound hd, reaction_of_several page right several, ← bind_assoc]
  simp only [Reaction.action, bind, EStateM.bind, given policy]

end Accounted

/-- The recording policy finds such a frame. -/
theorem recording_lends {u x : KernelState} {va' g : Nat} (held : s.snapshot.KernelHeld O)
    (mine : e.frame ∈ O) (gone : s.snapshot.GivesUpPage u.snapshot O va e)
    (run : Policy.recording.privateFrame va' u = .ok g x) :
    u.snapshot.Lends x.snapshot O (insert g O) e.frame g := by
  have held' : u.snapshot.KernelHeld O := held.write (Finset.Subset.refl _) (by simp) gone.leaf
  have takes : Leads (fun _ _ => True) Policy.freshFrame u.snapshot fun g v =>
      u.snapshot.Lends v O (insert g O) e.frame g := by
    refine .bind (acquireRaw_leads (fun _ => trivial) fun g rest first => ?_)
    refine .bind (shareFrame_leads (fun _ => trivial) (.pure ?_))
    obtain ⟨-, fresh, -⟩ := gone.settled.hand first
    refine gone.settled.lends first (ne_of_mem_of_not_mem mine fresh).symm ?_
    rintro π t e' hπ ht leaf same
    have there := mem_mappings_of_page hπ ht leaf
    rw [same] at there
    exact fresh (gone.settled.mapping_held held' there)
  have leads := takes u rfl
  rwa [show Policy.freshFrame u = .ok g x from run] at leads

end Kernel

/-- The policy is asked about a fault once, about the very address and the whole code, and all that
the kernel does besides is to report it. -/
def KernelState.HandsOn (s : KernelState) (va : Nat) (code : UInt32) : Prop :=
  ∃ reports, ∀ policy : Policy, pageFault policy va code s = (do
    policy.resolve va (.ofTrapCode code)
    return FaultOutcome.delegated va (.ofTrapCode code)) { s with events := reports ++ s.events }

theorem Snapshot.Settled.handsOn {s : KernelState} {O : Finset Nat} {va : Nat} {code : UInt32}
    (h : s.snapshot.Settled O) (hd : dirIndex va < mountTableSlot)
    (unaccounted : s.snapshot.Unaccounted va code) : s.HandsOn va code := by
  obtain ⟨role, stable⟩ := h.stable
  obtain ⟨reports, same⟩ := delegate_eq unaccounted
  exact ⟨reports, fun policy => (pageFault_eq stable.toSound hd policy code).trans (same policy)⟩

/-- What becomes of a fault at `va`, whoever the policy is. Where a page is given up the policy is
asked for a frame, and whichever it lends gets what the old one holds, unless there is no frame left
for a table. -/
structure KernelState.Resolves (s : KernelState) (O : Finset Nat) (va : Nat) (code : UInt32) :
    Prop where
  delegated : s.snapshot.Unaccounted va code → s.HandsOn va code
  granted : ∀ e, s.snapshot.pageAt? va = some e →
    (TrapCode.isUser code = true → e.isUser = true) → s.snapshot.shares.get e.frame = 1 →
    ∃ t, (∀ policy : Policy, pageFault policy va code s = .ok .writeGranted t) ∧ Grants s t va e
  copied : ∀ e, s.snapshot.pageAt? va = some e →
    (TrapCode.isUser code = true → e.isUser = true) → 2 ≤ s.snapshot.shares.get e.frame →
    e.frame ∈ O ∧ ∃ u : KernelState, s.snapshot.GivesUpPage u.snapshot O va e ∧
      ∀ policy : Policy,
        (∀ f x, policy.privateFrame (alignDown va) u = .error f x →
          pageFault policy va code s = .error f x) ∧
        ∀ g x Q, policy.privateFrame (alignDown va) u = .ok g x →
          u.snapshot.Lends x.snapshot O Q e.frame g →
          (∃ t, pageFault policy va code s = .ok .copied t ∧
            s.snapshot.CopiedInto t.snapshot O Q va e g ∧
            t.snapshot.pageAt? va = some (.of g Protection.userRWX.entryFlags)) ∨
          ∃ t, pageFault policy va code s = .error (.halt .outOfFrames) t ∧ x.snapshot.free = [] ∧
            (x.snapshot.entry x.snapshot.root (dirIndex va)).isPresent = false

namespace Session

variable {n : Nat} {σ : Session} {va : Nat}

/-- In every session, whatever the share counts: a fault is handed on exactly where nobody accounts
for the page; where its frame is counted once it may be written, in place; and where it is counted
more often it is in a frame of its own that the policy found, with what the old one holds. -/
theorem Shared.fault_resolved (small : Ram.Addressable n) (h : Shared Permits n 0 [] σ)
    (hd : dirIndex va < mountTableSlot) (code : UInt32) : σ.state.Resolves σ.held va code := by
  have settled := h.settled (fun _ _ _ => id) small (KernelState.prepares_nil n)
  obtain ⟨role, stable⟩ := settled.stable
  refine ⟨settled.handsOn hd, fun e page right lone => ?_, fun e page right several => ?_⟩
  · exact pageFault_of_lone settled hd page right lone
  · have there := mem_mappings_of_page (has_here stable.live_active hd) (tableIndex_lt va) page
    have mine := settled.mapping_held (h.kernelHeld small) there
    obtain ⟨u, gone, run⟩ := pageFault_of_several settled hd page right several
    refine ⟨mine, u, gone, fun policy => ⟨fun f x failed => ?_, fun g x Q lent lends => ?_⟩⟩
    · rw [run policy]
      exact bind_of_error failed _
    · have installs := (run policy).trans (bind_of_ok lent _)
      obtain ⟨t, done, copied⟩ | ⟨t, failed, empty, absent⟩ :=
        installCopy_ends settled (offset_alignDown va) (by rwa [dirIndex_alignDown]) several
          (givesUpPage_alignDown.2 gone) lends
      · have copied := copied.at_alignDown
        exact .inl ⟨t, installs.trans (bind_of_ok done _), copied, copied.page settled hd⟩
      · rw [dirIndex_alignDown] at absent
        exact .inr ⟨t, installs.trans (bind_of_error failed _), empty, absent⟩

/-- A write fault at a fresh page that is said to be shared: the recording policy lends a frame. -/
theorem Shared.fault_resolved_copied :
    ∃ σ τ s e g t, boot? 8 0 [] = some σ ∧ σ.next? (.mapFresh 0 0x400000 .userRW) = some τ ∧
      Ram.Addressable 8 ∧ setShareCount 0x103000 2 τ.state = .ok () s ∧
      Shared Permits 8 0 [] ⟨s, τ.held⟩ ∧ s.snapshot.pageAt? 0x400000 = some e ∧
      e.isUser = true ∧ s.snapshot.shares.get e.frame = 2 ∧
      s.Resolves τ.held 0x400000 TrapCode.userWriteDenied ∧
      pageFault .recording 0x400000 TrapCode.userWriteDenied s = .ok .copied t ∧
      s.snapshot.CopiedInto t.snapshot τ.held (insert g τ.held) 0x400000 e g := by
  have runs : (((boot? 8 0 []).bind (·.next? (.mapFresh 0 0x400000 .userRW))).filter fun τ =>
      let s := { τ.state with shares := τ.state.shares.set 0x103000 2 }
      s.snapshot.pageAt? 0x400000 = some (.of 0x103000 Protection.userRW.entryFlags) ∧
        EStateM.run' (pageFault .recording 0x400000 TrapCode.userWriteDenied) s =
          some .copied).isSome = true := by decide +kernel
  obtain ⟨τ, run⟩ := Option.isSome_iff_exists.1 runs
  obtain ⟨run, holds⟩ := Option.filter_eq_some_iff.1 run
  obtain ⟨page, answered⟩ := of_decide_eq_true holds
  obtain ⟨t, done⟩ := ok_of_run' answered
  obtain ⟨σ, boot, mint⟩ := Option.bind_eq_some_iff.1 run
  set s := { τ.state with shares := τ.state.shares.set 0x103000 2 } with hs
  have small : Ram.Addressable 8 := by decide
  have low : dirIndex 0x400000 < mountTableSlot := by decide
  have reaches : Reaches Permits 8 0 [] τ := (Reaches.of_boot? boot).next? mint low
  obtain ⟨-, size⟩ := reaches.settled (fun _ _ _ => id) small (KernelState.prepares_nil 8)
  have counted : setShareCount 0x103000 2 τ.state = .ok () s := rfl
  have shared := (Shared.of_reaches reaches).counted (f := 0x103000)
    (size ▸ Ram.isFrame_frameAddress.2 (by decide : 3 < 8)) (by decide) (by decide) counted
  have resolves := fault_resolved small shared low TrapCode.userWriteDenied
  have frame : (Entry.of 0x103000 Protection.userRW.entryFlags).frame = 0x103000 := by decide
  have count :
      s.snapshot.shares.get (Entry.of 0x103000 Protection.userRW.entryFlags).frame = 2 := by
    rw [frame]
    exact (Shares.get_set ..).trans (if_pos rfl)
  obtain ⟨mine, u, gone, copies⟩ := resolves.copied _ page (by decide) count.ge
  obtain ⟨fails, copies⟩ := copies .recording
  cases lent : Policy.recording.privateFrame (alignDown 0x400000) u with
  | error f x => cases (fails f x lent).symm.trans done
  | ok g x =>
    have lends := recording_lends (shared.kernelHeld small) mine gone lent
    obtain ⟨t, done, copied, -⟩ | ⟨t', failed, -⟩ := copies g x _ lent lends
    · exact ⟨σ, τ, s, _, g, t, boot, mint, small, counted, shared, page, by decide, count, resolves,
        done, copied⟩
    · cases failed.symm.trans done

/-- The kernel does not ask whether there was a write. In every session, whatever the share counts:
a fault at a page that nobody accounts for is handed on, whatever its code; at any other it ends
like the fault of a write there, with the write right granted or the page given up for a copy. -/
theorem Shared.fault_regardless_of_write (small : Ram.Addressable n) (h : Shared Permits n 0 [] σ)
    (hd : dirIndex va < mountTableSlot) (code : UInt32) :
    (σ.snapshot.Unaccounted va code → σ.state.HandsOn va code) ∧
    (¬ σ.snapshot.Unaccounted va code →
      (∀ write, TrapCode.isUser write = TrapCode.isUser code → ∀ policy : Policy,
        pageFault policy va write σ.state = pageFault policy va code σ.state) ∧
      ∃ e, σ.snapshot.pageAt? va = some e ∧
        ((∃ t, (∀ policy : Policy, pageFault policy va code σ.state = .ok .writeGranted t) ∧
          Grants σ.state t va e) ∨
        ∃ u : KernelState, σ.snapshot.GivesUpPage u.snapshot σ.held va e ∧
          ∀ policy : Policy, pageFault policy va code σ.state = (do
            installCopy (alignDown va) e.frame (← policy.privateFrame (alignDown va))
            return FaultOutcome.copied) u)) := by
  have settled := h.settled (fun _ _ _ => id) small (KernelState.prepares_nil n)
  obtain ⟨role, stable⟩ := settled.stable
  refine ⟨settled.handsOn hd, fun accounted => ⟨fun write same policy => ?_, ?_⟩⟩
  · exact pageFault_congr stable.toSound hd accounted same policy
  · obtain ⟨e, page, right, counted⟩ := exists_of_accounted accounted
    obtain lone | several :
        σ.snapshot.shares.get e.frame = 1 ∨ 2 ≤ σ.snapshot.shares.get e.frame := by omega
    · exact ⟨e, page, .inl (pageFault_of_lone settled hd page right lone)⟩
    · exact ⟨e, page, .inr (pageFault_of_several settled hd page right several)⟩

/-- A session with one page that may only be read. -/
theorem readable_page : ∃ σ τ, boot? 8 0 [] = some σ ∧
    σ.next? (.mapFresh 0 0x400000 .userRead) = some τ ∧ Shared Permits 8 0 [] τ ∧
    τ.snapshot.pageAt? 0x400000 = some (.of 0x103000 Protection.userRead.entryFlags) ∧
    τ.snapshot.shares.get (Entry.of 0x103000 Protection.userRead.entryFlags).frame = 1 := by
  have runs : (((boot? 8 0 []).bind (·.next? (.mapFresh 0 0x400000 .userRead))).filter fun τ =>
      τ.snapshot.pageAt? 0x400000 = some (.of 0x103000 Protection.userRead.entryFlags) ∧
        τ.snapshot.shares.get (Entry.of 0x103000 Protection.userRead.entryFlags).frame =
          1).isSome = true := by decide +kernel
  obtain ⟨τ, run⟩ := Option.isSome_iff_exists.1 runs
  obtain ⟨run, holds⟩ := Option.filter_eq_some_iff.1 run
  obtain ⟨page, one⟩ := of_decide_eq_true holds
  obtain ⟨σ, boot, mint⟩ := Option.bind_eq_some_iff.1 run
  have low : dirIndex 0x400000 < mountTableSlot := by decide
  have reaches : Reaches Permits 8 0 [] τ := (Reaches.of_boot? boot).next? mint low
  exact ⟨σ, τ, boot, mint, .of_reaches reaches, page, one⟩

theorem Shared.fault_regardless_of_write_read :
    ∃ σ τ, boot? 8 0 [] = some σ ∧ σ.next? (.mapFresh 0 0x400000 .userRead) = some τ ∧
      Ram.Addressable 8 ∧ Shared Permits 8 0 [] τ ∧
      ¬ τ.snapshot.Unaccounted 0x400000 0x5 ∧ ∀ policy : Policy,
        pageFault policy 0x400000 TrapCode.userWriteDenied τ.state =
          pageFault policy 0x400000 0x5 τ.state := by
  obtain ⟨σ, τ, boot, mint, shared, page, one⟩ := readable_page
  have small : Ram.Addressable 8 := by decide
  have accounted : ¬ τ.snapshot.Unaccounted 0x400000 0x5 := by
    intro none
    obtain ⟨-, denied⟩ | zero := none _ page
    · exact absurd denied (by decide)
    · omega
  have low : dirIndex 0x400000 < mountTableSlot := by decide
  obtain ⟨-, alike⟩ := fault_regardless_of_write small shared low 0x5
  exact ⟨σ, τ, boot, mint, small, shared, accounted, (alike accounted).1 _ (by decide)⟩

/-- The fault of a read at a page that may only be read: no policy is asked, and the page may be
written after that. -/
theorem read_fault_grants_write :
    ∃ σ τ s, boot? 8 0 [] = some σ ∧ σ.next? (.mapFresh 0 0x400000 .userRead) = some τ ∧
      Shared Permits 8 0 [] τ ∧ TrapCode.isWrite 0x5 = false ∧
      τ.snapshot.pageAt? 0x400000 = some (.of 0x103000 Protection.userRead.entryFlags) ∧
      (∀ policy : Policy, pageFault policy 0x400000 0x5 τ.state = .ok .writeGranted s) ∧
      s.snapshot.pageAt? 0x400000 = some (.of 0x103000 Protection.userRW.entryFlags) := by
  obtain ⟨σ, τ, boot, mint, shared, page, one⟩ := readable_page
  have settled := shared.settled (fun _ _ _ => id) (by decide) (KernelState.prepares_nil 8)
  have low : dirIndex 0x400000 < mountTableSlot := by decide
  have right : TrapCode.isUser 0x5 = true →
      (Entry.of 0x103000 Protection.userRead.entryFlags).isUser = true := by decide
  obtain ⟨s, done, granted⟩ := pageFault_of_lone settled low page right one
  have same : (Entry.of 0x103000 Protection.userRead.entryFlags).set EntryFlags.writable =
      .of 0x103000 Protection.userRW.entryFlags := by decide
  exact ⟨σ, τ, s, boot, mint, shared, by decide, page, done, same ▸ granted.page⟩

end Session
end VirtualMemory
