import VirtualMemory.Proofs.Calls.Refusals
import VirtualMemory.Proofs.Mounts.Contents
import VirtualMemory.Proofs.Mounts.Spaces

/-!
# The window is put back

A request may answer, be refused, or stop the kernel halfway: the window's entry is always what it
was before, and the window can be used again. For this nothing need be known of the directory and
the mount table, but that no other way leads to them: no slot of any space, no space's own frame
and no free frame. This is so whenever the kernel is at rest.
-/
namespace VirtualMemory

open Layout Snapshot Kernel

/-- The call names no slot but those below the window's. What a user stores goes where its pages
lead, and that is no matter of slots. -/
def Call.Below : Call → Prop
  | add _ va _ _ | mapFresh _ va _ | unmap va | drop _ va _ | pageFault va _ =>
    dirIndex va < mountTableSlot
  | map _ d _ _ => d < mountTableSlot
  | remove _ first last | protect _ first last _ =>
    ∀ i < (last - first) / pageSize, dirIndex (first + i * pageSize) < mountTableSlot
  | userWrite .. => False
  | create | incref _ | decref _ | destroy _ | switch _ | fork .. | acquire | acquireRaw
  | release _ => True

/-- The request names no slot but those below the window's. A caller's own work on a mounted frame
is not looked into. -/
def Request.Below : Request → Prop
  | call c => c.Below
  | bindTable _ d _ | unbindTable d => d < mountTableSlot
  | refcount _ => True
  | mount .. => False

/-- A range of one page names the slot of that page. -/
theorem Layout.below_page {va : Nat} (hd : dirIndex va < mountTableSlot) :
    ∀ i < (va + pageSize - va) / pageSize, dirIndex (va + i * pageSize) < mountTableSlot := by
  intro i hi
  obtain rfl : i = 0 := by simp only [pageSize] at hi; omega
  simpa using hd

/-- Nothing leads to the directory and the mount table but the window slots, in whichever space. -/
structure Snapshot.Secluded (w : Snapshot) : Prop extends w.Shields w.window where
  stows : ∀ p, w.Stows p

namespace Snapshot

variable {w : Snapshot} {b : Books} {O : Finset Nat} {role : Nat → Role}

/-- The books may be kept anyhow, as long as the register stays and no frame is freed. -/
theorem Secluded.book (h : w.Secluded) (spaces : b.spaces = w.spaces)
    (free : ∀ f ∈ b.free, f ∈ w.free) : (w.book b).Secluded where
  toShields := h.toShields.book (spaces ▸ h.directory) fun f hf => h.free f (free f hf)
  stows p r hr other := h.stows p r (spaces ▸ hr) (spaces ▸ other)

/-- Where every frame has one role, the directory and the mount table have theirs. -/
theorem Sound.secluded (h : w.Sound role) : w.Secluded := by
  have apart {f : Nat} (root : f ≠ w.root) (mount : f ≠ mountTable) : Apart f :=
    ⟨h.wired.root ▸ root, mount⟩
  have named {f : Nat} (inside : Ram.IsFrame w.size f) : shown f = f :=
    h.wired.frame_of inside EntryFlags.low_kernelData
  have table {π : Place} (hπ : w.Has π) (present : (w.slotAt π).isPresent = true) :
      Apart (w.slotAt π).frame := by
    have bound := h.table_slotAt hπ present
    refine apart (fun root => ?_) fun mount => ?_
    · rw [(h.resident _).2 root] at bound
      cases bound
    · rw [(h.window _).2 mount] at bound
      cases bound
  refine { toHosts := ⟨h.wired.keeps, fun p r hr => ?_, fun f hf => ?_⟩, slot := ?_, stows := ?_ }
  · rw [named (h.housed.isFrame p r hr)]
    exact apart (h.housed.ne_root p r hr) (h.housed.ne_mount p r hr)
  · have free := (h.free f).2 hf
    have idle : (role f).Idle := by rw [free]; trivial
    rw [named (h.isFrame (by simp [free]))]
    exact apart (h.idle_ne_root idle) (h.idle_ne_mount idle)
  · intro d hd
    rw [← slotAt_here]
    exact table (has_here h.regular.active hd)
  · intro p r hr other d hd
    rw [named (h.housed.isFrame p r hr), ← home_of_ne other hr]
    exact table (π := .user p d) ⟨Option.isSome_of_eq_some hr, hd⟩

theorem Settled.secluded (h : w.Settled O) : w.Secluded :=
  h.stable.elim fun _ stable => stable.toSound.secluded

end Snapshot

namespace Kernel

variable {s : KernelState} {p va f d : Nat} {prot : Protection}

/-- The window's entry is what it was at `s`, after a success as after a failure. -/
abbrev Restores {α : Type} (x : Kernel α) (s : KernelState) : Prop :=
  Ends (fun t => t.snapshot.Keeps s.snapshot.window) x s
    fun _ t => t.snapshot.Keeps s.snapshot.window

theorem Restores.answer {α β : Type} {x : Kernel α} (h : Restores x s) (g : α → β) :
    Restores (do return g (← x)) s :=
  .bind (h.mono fun _ _ kept => .pure kept)

theorem add_restores (h : s.snapshot.Secluded) (hd : dirIndex va < mountTableSlot) :
    Restores (add p va f prot) s := by
  refine .ite (fun _ => .refuse h.toKeeps) fun _ => within_guards h.toShields (h.stows p) ?_
  intro t ht
  refine .bind ((map_guards ht hd).mono fun _ u hu => ?_)
  exact .invalidatePage fun v hv => hv.snapshot ▸ hu.1

theorem forPages_restores {first last : Nat} {body : Nat → Kernel Unit} (h : s.snapshot.Secluded)
    (low : ∀ i < (last - first) / pageSize, dirIndex (first + i * pageSize) < mountTableSlot)
    (work : ∀ (t : KernelState) c va, t.snapshot.Shields c → dirIndex va < mountTableSlot →
      Guards c (body va) t fun _ v => v.Shields c) : Restores (forPages p first last body) s := by
  refine .ite (fun _ => .refuse h.toKeeps) fun _ => .ite (fun _ => .refuse h.toKeeps) fun _ => ?_
  refine within_guards h.toShields (h.stows p) fun t ht => ?_
  exact .forEach (I := fun _ u => u.snapshot.Shields _) ht fun i u hi hu => work u _ _ hu (low i hi)

theorem mapFresh_restores (h : s.snapshot.Secluded) (hd : dirIndex va < mountTableSlot) :
    Restores (mapFresh p va prot) s := by
  have adds {f : Nat} {t : KernelState} {k : Except ArgumentError Unit → Kernel Nat}
      (ok : k (.ok ()) = return f) (refused : ∀ e, k (.error e) = violate (.refused e))
      (same : t.snapshot.window = s.snapshot.window) (ht : t.snapshot.Secluded) :
      Ends (fun u => u.snapshot.Keeps s.snapshot.window) (attempt (add p va f prot) >>= k) t
        fun _ u => u.snapshot.Keeps s.snapshot.window := by
    have restores : Restores (add p va f prot) t := add_restores ht hd
    rw [Restores, same] at restores
    refine .bind (.attempt (restores.mono fun _ _ kept => ?_) fun e u kept => ?_)
    · rw [ok]
      exact .pure kept
    · rw [refused]
      exact .violate kept
  refine .bind (.takeFrame h.toKeeps fun f rest free => .bind (.modify (adds rfl ?_ ?_ ?_)))
  · exact fun _ => rfl
  · rfl
  · refine h.book (b := { s.snapshot.toBooks with free := rest, shares := s.shares.set f 1 }) rfl ?_
    exact fun g hg => free ▸ List.mem_cons_of_mem _ hg

theorem drop_restores (h : s.snapshot.Secluded) (hd : dirIndex va < mountTableSlot) :
    Restores (Call.drop p va f).action s := by
  have removed := forPages_restores (p := p) h (below_page hd)
    fun t c va ht hd => unmap_guards ht hd
  have back {t u : KernelState} (kept : t.snapshot.Keeps s.snapshot.window) (hu : Recounts t u) :
      u.snapshot.Keeps s.snapshot.window := by
    rw [snapshot_of_machine hu.machine]
    exact kept.book _
  refine .bind (removed.mono fun _ t kept => .bind ?_)
  exact ((unshareFrame_counts f t).mono fun _ u hu => .pure (back kept hu)).weaken
    fun _ => back kept

end Kernel

/-- A request ends, in whichever way, with the window as it was. -/
theorem Request.restores {q : Request} {s : KernelState} (h : s.snapshot.Secluded)
    (below : q.Below) : Restores q.action s := by
  have shielded {α : Type} {x : Kernel α} {Q : α → Snapshot → Prop}
      (guards : Guards s.snapshot.window x s fun a v => Q a v ∧ v.Shields s.snapshot.window) :
      Restores x s := guards.mono fun _ _ kept => kept.2.toKeeps
  cases q with
  | mount => exact below.elim
  | refcount p =>
    exact .bind (.bind (.space h.toKeeps fun _ _ => .pure (.pure h.toKeeps)))
  | bindTable f d prot =>
    refine .bind ((bindTable_guards h.toKeeps below).mono ?_)
    rintro _ t ⟨o, ht⟩
    exact .pure (ht ▸ (h.toKeeps.book _).setSlot below _)
  | unbindTable d =>
    exact .bind ((unbindTable_guards h.toShields below).mono fun _ _ kept => .pure kept.toKeeps)
  | call c =>
    cases c with
    | create => exact .answer (create_guards h.toShields) _
    | incref p => exact .answer (incref_guards h.toKeeps) _
    | decref p => exact .answer (decref_guards h.toHosts) _
    | destroy p => exact .answer (destroy_guards h.toHosts) _
    | switch p => exact .answer ((switch_guards h.toHosts).mono fun _ _ kept => kept.1.toKeeps) _
    | add p va f prot => exact .answer (add_restores h below) _
    | remove p first last =>
      exact .answer (forPages_restores h below fun t c va ht hd => unmap_guards ht hd) _
    | protect p first last prot =>
      exact .answer (forPages_restores h below fun t c va ht hd => protectPage_guards ht hd) _
    | map f d t prot =>
      exact .answer ((map_guards h.toShields below).mono fun _ _ kept => kept.1.toKeeps) _
    | unmap va =>
      exact .answer ((unmap_guards h.toShields below).mono fun _ _ kept => kept.toKeeps) _
    | mapFresh p va prot => exact .answer (mapFresh_restores h below) _
    | drop p va f => exact drop_restores h below
    | fork parent child => exact .answer (fork_guards h.toShields (h.stows child)) _
    | pageFault va code =>
      exact .answer ((pageFault_guards h.toShields below code).mono fun _ _ k => k.toKeeps) _
    | userWrite => exact below.elim
    | acquire => exact .answer (shielded (acquire_guards h.toShields)) _
    | acquireRaw => exact .answer (shielded (acquireRaw_guards h.toShields)) _
    | release f =>
      exact .answer ((release_guards h.toKeeps).mono fun _ _ kept => kept ▸ h.toKeeps.book _) _

/-- In every state where nothing else leads to the directory and the mount table, the window shows
each mounted frame as it is and lets nothing else be changed, and it is put back after every
request: after an answer, after a refusal, and also where the request stopped the kernel. -/
theorem Snapshot.Secluded.window_restored {s : KernelState} (h : s.snapshot.Secluded) :
    (∀ f steps, Ram.IsFrame s.snapshot.size f → f ≠ s.snapshot.root → f ≠ mountTable →
      ∃ t, s.SetsWindow t (.of f EntryFlags.kernelData) ∧
        (∀ {α : Type} (body : Kernel α),
          Kernel.mount f body s = ensuring body (setWindow s.snapshot.window) t) ∧
        Gives (WindowStep.run steps) t (WindowStep.outcome (s.snapshot.page f) steps).1
          ((s.snapshot.setPage f (WindowStep.outcome (s.snapshot.page f) steps).2).mount f) ∧
        Gives (Kernel.mount f (WindowStep.run steps)) s
          (WindowStep.outcome (s.snapshot.page f) steps).1
          (s.snapshot.setPage f (WindowStep.outcome (s.snapshot.page f) steps).2)) ∧
    ∀ q : Request, q.Below → Restores q.action s := by
  refine ⟨fun f steps hf hr hm => ?_, fun q below => q.restores h below⟩
  obtain ⟨t, shows, eq⟩ := Ends.mountAligned_eq h.wired f
  refine ⟨t, shows, fun body => ?_, windowSteps_gives h.wired hf hr hm steps shows.snapshot,
    mount_gives h.wired hf hr hm steps⟩
  rw [Kernel.mount, if_pos hf.1, eq]

/-- After a boot: an entry written into a free frame, and any request. -/
theorem Snapshot.Secluded.window_restored_boot :
    ∃ σ, Session.boot? 8 0 [] = some σ ∧ σ.snapshot.Secluded ∧
      Gives (Kernel.mount 0x103000
          (WindowStep.run [.setEntry 5 (.of 0x104000 EntryFlags.kernelData), .entry 5]))
        σ.state (some [.done, .entry (.of 0x104000 EntryFlags.kernelData)])
        (σ.snapshot.setEntry 0x103000 5 (.of 0x104000 EntryFlags.kernelData)) ∧
      ∀ q : Request, q.Below → Restores q.action σ.state := by
  have runs : (Session.boot? 8 0 []).isSome = true := by decide +kernel
  obtain ⟨σ, boot⟩ := Option.isSome_iff_exists.1 runs
  have reaches : Session.Reaches Permits 8 0 [] σ := .of_boot? boot
  obtain ⟨settled, size⟩ := reaches.settled (fun _ _ _ => id) (by decide)
    (KernelState.prepares_nil 8)
  have secluded := settled.secluded
  obtain ⟨shows, restores⟩ := window_restored (s := σ.state) secluded
  obtain ⟨-, -, -, -, gives⟩ := shows 0x103000
    [.setEntry 5 (.of 0x104000 EntryFlags.kernelData), .entry 5]
    (size ▸ Ram.isFrame_frameAddress.2 (by decide : 3 < 8)) (secluded.wired.root ▸ by decide)
    (by decide)
  have outcome (p : Page) (e : Entry) : WindowStep.outcome p [.setEntry 5 e, .entry 5] =
      (some [.done, .entry e], p.setEntry 5 e) := by
    simp [WindowStep.outcome, WindowStep.Fits, WindowStep.page, WindowStep.answer, tableEntries,
      Page.entry_setEntry]
  rw [outcome] at gives
  exact ⟨σ, boot, secluded, gives, restores⟩

end VirtualMemory
