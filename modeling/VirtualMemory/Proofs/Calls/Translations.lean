import VirtualMemory.Proofs.Translations.Homes

/-!
# No stale translation

Wherever a request makes a page absent, leads it to another frame or takes a right from it, the
processor was told to drop the page, after the last write to a word of its walk. Bare mapping leaves
that order to its caller. What else the kernel relies on is that no table is bound twice and none is
free: nothing keeps a caller from binding a frame that is still in the pool, and then the next frame
to be acquired is cleared behind the back of its own pages.
-/
namespace VirtualMemory

open Layout Snapshot Kernel KernelState

namespace Snapshot

/-- No table is bound at two slots of the resident directory, and none is free. The directory and
the mount table are tables, too: the window slots lead to them, and no slot that is stored for
another space. -/
structure Solitary (w : Snapshot) : Prop where
  single : ∀ d < tableEntries, ∀ d' < tableEntries, (w.entry w.root d).isPresent = true →
    (w.entry w.root d').isPresent = true → (w.entry w.root d).frame = (w.entry w.root d').frame →
    d = d'
  unbound : ∀ f ∈ w.free, ∀ d < tableEntries, (w.entry w.root d).isPresent = true →
    (w.entry w.root d).frame ≠ shown f
  stows : ∀ p, w.Stows p

variable {w : Snapshot} {O : Finset Nat} {role : Nat → Role} {f : Nat}

namespace Solitary

theorem apart (h : w.Solitary) (wired : w.Wired) (hf : f ∈ w.free) : Apart (shown f) := by
  refine ⟨fun root => ?_, fun mount => ?_⟩
  · exact h.unbound f hf selfMapSlot (by decide) wired.self_present
      (wired.self_frame.trans (wired.root.trans root.symm))
  · exact h.unbound f hf mountTableSlot (by decide) wired.mount_present
      (wired.mount_frame.trans mount.symm)

theorem spares (h : w.Solitary) (wired : w.Wired) : w.Spares where
  wired := wired
  slot d hd present := by
    have hd' : d < tableEntries := hd.trans (by decide)
    refine ⟨fun root => ?_, fun mount => ?_⟩
    · have same := h.single d hd' selfMapSlot (by decide) present wired.self_present
        (root.trans (wired.root.symm.trans wired.self_frame.symm))
      exact absurd hd (by rw [same]; decide)
    · have same := h.single d hd' mountTableSlot (by decide) present wired.mount_present
        (mount.trans wired.mount_frame.symm)
      exact absurd hd (by rw [same]; decide)
  single := by
    rintro d d' f ⟨hd, present, rfl⟩ ⟨hd', present', same⟩
    exact h.single d (hd.trans (by decide)) d' (hd'.trans (by decide)) present present' same.symm
  unbound := by
    rintro _ ⟨f, hf, rfl⟩
    refine ⟨h.apart wired hf, ?_⟩
    rintro d ⟨hd, present, same⟩
    exact h.unbound f hf d (hd.trans (by decide)) present same

theorem secluded (h : w.Solitary) (wired : w.Wired)
    (homed : w.spaces.Homed fun f => Apart (shown f)) : w.Secluded where
  toHosts := ⟨wired.keeps, homed, fun _ hf => h.apart wired hf⟩
  slot := (h.spares wired).slot
  stows := h.stows

end Solitary

/-- Where every frame has one role, a table has one slot. -/
theorem Sound.slot_unique (h : w.Sound role) {d d' : Nat} (hd : d < mountTableSlot)
    (hd' : d' < tableEntries) (present : (w.entry w.root d).isPresent = true)
    (present' : (w.entry w.root d').isPresent = true)
    (same : (w.entry w.root d).frame = (w.entry w.root d').frame) : d = d' := by
  have apart := h.secluded.slot d hd present
  have bound := h.table_here hd present
  obtain low | rfl | rfl := slot_cases hd'
  · rw [same, h.table_here low present'] at bound
    have places := Role.table.inj bound
    -- slots of the user half are places of the active space, and the others the kernel's
    unfold Snapshot.here Place.seenBy at places
    split at places <;> split at places <;> cases places <;> rfl
  · exact absurd (same.trans h.wired.mount_frame) apart.2
  · exact absurd (same.trans (h.wired.self_frame.trans h.wired.root)) apart.1

theorem Sound.solitary (h : w.Sound role) : w.Solitary where
  single d hd d' hd' present present' same := by
    have windows : (w.entry w.root mountTableSlot).frame ≠ (w.entry w.root selfMapSlot).frame := by
      rw [h.wired.mount_frame, h.wired.self_frame]
      exact h.wired.mountTable_ne_root
    obtain low | high := slot_cases hd
    · exact h.slot_unique low hd' present present' same
    obtain low' | high' := slot_cases hd'
    · exact (h.slot_unique low' hd present' present same.symm).symm
    · obtain rfl | rfl := high <;> obtain rfl | rfl := high'
      · rfl
      · exact absurd same windows
      · exact absurd same.symm windows
      · rfl
  unbound f hf d hd present same := by
    have free := (h.free f).2 hf
    have apart := h.secluded.free f hf
    have named : shown f = f :=
      h.wired.frame_of (h.isFrame (by simp [free])) EntryFlags.low_kernelData
    obtain low | rfl | rfl := slot_cases hd
    · have bound := h.table_here low present
      rw [same, named, free] at bound
      cases bound
    · exact apart.2 (same.symm.trans h.wired.mount_frame)
    · exact apart.1 (same.symm.trans (h.wired.self_frame.trans h.wired.root))
  stows := h.secluded.stows

theorem Settled.solitary (h : w.Settled O) : w.Solitary :=
  h.stable.elim fun _ stable => stable.toSound.solitary

end Snapshot

/-- Every request but bare mapping, which leaves the order to drop its page to the caller. -/
def Request.Orders : Request → Prop
  | call (.map ..) => False
  | _ => True

namespace Kernel

variable {w : Snapshot} {s : KernelState} {p va : Nat} {prot : Protection}

theorem takeFrame_takes (s : KernelState) : Completes takeFrame s fun f t =>
    s.snapshot.free = f :: t.snapshot.free ∧ t.machine = s.machine :=
  .takeFrame trivial fun _ _ free => ⟨free, rfl⟩

theorem mapFresh_current (h : s.snapshot.Spares) (keep : ∀ va, w.Retains s.snapshot va)
    (hd : dirIndex va < mountTableSlot) :
    Completes (mapFresh p va prot) s fun _ v => Current w ∅ v := by
  refine .bind ((takeFrame_takes s).mono ?_)
  rintro f t ⟨free, machine⟩
  refine .bind (.modify (.bind (.attempt ?_ fun _ _ _ => .violate trivial)))
  have spares : t.snapshot.Spares :=
    (distinct_of_machine machine h).mono (stock_subset_of_cons free)
  have counted : Aside t { t with shares := t.shares.set f 1 } := ⟨rfl, rfl⟩
  refine (add_current (counted.spares spares) (fun va' => ?_) hd).mono fun _ u hu => .pure hu
  rw [snapshot_of_machine (counted.machine.trans machine)]
  exact keep va'

end Kernel

/-- A request that is answered leaves no translation behind that has been taken away. -/
theorem Request.current {q : Request} {s : KernelState} (h : s.snapshot.Secluded)
    (spares : s.snapshot.Spares) (below : q.Below) (orders : q.Orders) :
    Completes q.action s fun _ t => Current s.snapshot ∅ t := by
  have keep (va : Nat) : s.snapshot.Retains s.snapshot va := .refl _ va
  have current : Current s.snapshot ∅ s := .start keep
  have answer {α : Type} {x : Kernel α} {g : α → Answer}
      (done : Completes x s fun _ t => Current s.snapshot ∅ t) :
      Completes (do return g (← x)) s fun _ t => Current s.snapshot ∅ t :=
    .bind (done.mono fun _ _ kept => .pure kept)
  have flushed {α : Type} {x : Kernel α} {g : α → Answer}
      (done : Completes x s fun _ t => t.Flushed) :
      Completes (do return g (← x)) s fun _ t => Current s.snapshot ∅ t :=
    answer (done.mono fun _ _ => .of_flushed)
  cases q with
  | mount => exact below.elim
  | refcount p => exact .bind (.bind (.space trivial fun _ _ => .pure (.pure current)))
  | bindTable f d prot => exact flushed (bindTable_flushed f d prot s)
  | unbindTable d => exact flushed (unbindTable_flushed (lt_trans below (by decide)) s)
  | call c =>
    cases c with
    | create =>
      refine answer (.bind ((acquire_current spares subset_rfl current).mono ?_))
      rintro f t ⟨acquired, -⟩
      refine .get ?_
      split
      · exact .bind (.modify (.bind (.modify (.pure (acquired.aside rfl)))))
      · exact .violate trivial
    | incref p =>
      refine answer (.bind (.space trivial fun r _ => .ite (fun _ => ?_) fun _ => .violate trivial))
      exact .bind (.modify (.pure (current.aside rfl)))
    | decref p => exact answer (decref_current h.toShields (h.stows _) keep)
    | destroy p => exact answer (destroy_current h.toShields (h.stows _) keep)
    | switch p => exact answer (switch_current current p)
    | add p va f prot => exact answer (add_current spares keep below)
    | remove p first last => exact answer (remove_current spares keep below)
    | protect p first last prot =>
      exact answer (forPages_current spares keep below (protectPage_steady prot)
        fun t va ht hc hd => protectPage_current ht hc hd)
    | map => exact orders.elim
    | unmap va => exact answer ((unmap_current spares current below).mono fun _ v hv => hv.2.1)
    | mapFresh p va prot => exact answer (mapFresh_current spares keep below)
    | drop p va f =>
      refine .bind ((remove_current spares keep (below_page below)).mono
        fun _ t removed => .bind ?_)
      exact (unshareFrame_counts f t).completes.mono fun _ u hu => .pure (removed.aside hu.machine)
    | fork parent child => exact flushed (fork_flushed parent child s)
    | pageFault va code => exact answer (pageFault_current spares keep below code)
    | userWrite => exact below.elim
    | acquire => exact answer ((acquire_current spares subset_rfl current).mono fun _ v hv => hv.1)
    | acquireRaw => exact answer ((acquireRaw_takes s).mono fun _ v hv => current.aside hv.2)
    | release f => exact answer ((release_machine f s).mono fun _ v hv => current.aside hv)

/-- The state after the request, if it is answered or refused. -/
def Request.after? (q : Request) (s : KernelState) : Option KernelState :=
  match attempt q.action s with
  | .ok _ t => some t
  | .error .. => none

theorem Request.attempt_of_after? {q : Request} {s t : KernelState} (h : q.after? s = some t) :
    ∃ r, attempt q.action s = .ok r t := by
  unfold after? at h
  split at h
  · rename_i run
    cases h
    exact ⟨_, run⟩
  · cases h

/-- The states that a booted kernel can come to while no table is bound twice and none is free: by
requests, whether they are answered, refused or stop it, and by anything that happens to the pool,
to the counts, and to memory beside the resident directory. -/
inductive KernelState.Orderly (n reserved : Nat) (setup : List (Nat × UInt32)) :
    KernelState → Prop where
  | boot {s : KernelState} (booted : KernelState.boot n reserved setup = .ok s) :
      Orderly n reserved setup s
  | requested {s t : KernelState} {q : Request} (before : Orderly n reserved setup s)
      (solitary : s.snapshot.Solitary) (below : q.Below)
      (run : (∃ a, q.action s = .ok a t) ∨ ∃ f, q.action s = .error f t) :
      Orderly n reserved setup t
  | aside {s t : KernelState} (before : Orderly n reserved setup s) (spaces : t.spaces = s.spaces)
      (root : t.snapshot.root = s.snapshot.root) (size : t.snapshot.size = s.snapshot.size)
      (directory : t.snapshot.page s.snapshot.root = s.snapshot.page s.snapshot.root) :
      Orderly n reserved setup t

namespace KernelState.Orderly

variable {n reserved : Nat} {setup : List (Nat × UInt32)} {s t : KernelState}

/-- The window can be used, and no space is kept in the directory or the mount table. -/
theorem wired_homed (small : Ram.Addressable n) (prepares : Prepares n reserved setup)
    (h : Orderly n reserved setup s) :
    s.snapshot.Wired ∧ s.spaces.Homed fun f => Apart (shown f) := by
  induction h with
  | boot booted =>
    have secluded := (boot_booted small prepares booted).2.settled.secluded
    exact ⟨secluded.wired, secluded.directory⟩
  | requested _ solitary below run ih =>
    have restored := Request.restores (solitary.secluded ih.1 ih.2) below
    have lodged := Request.lodges below ih.2 fun _ hf => solitary.apart ih.1 hf
    obtain ⟨a, run⟩ | ⟨f, run⟩ := run
    · exact ⟨(restored.ok run).wired, lodged.ok run⟩
    · exact ⟨(restored.error run).wired, lodged.error run⟩
  | aside _ spaces root size directory ih =>
    refine ⟨ih.1.congr root size ?_ ?_, spaces ▸ ih.2⟩
    all_goals rw [Snapshot.entry, directory, Snapshot.entry]

theorem attempted {q : Request} {r : Except ArgumentError Answer} (h : Orderly n reserved setup s)
    (solitary : s.snapshot.Solitary) (below : q.Below) (run : attempt q.action s = .ok r t) :
    Orderly n reserved setup t := by
  refine h.requested solitary below ?_
  unfold attempt at run
  split at run <;> cases run
  · exact .inl ⟨_, ‹_›⟩
  · exact .inr ⟨_, ‹_›⟩

theorem reached (h : Orderly n reserved setup s) : Reached n reserved setup s := by
  induction h with
  | boot booted => exact .boot booted
  | requested _ _ _ run ih =>
    obtain ⟨a, run⟩ | ⟨f, run⟩ := run
    · exact ih.answered run
    · exact ih.failed run
  | aside _ spaces _ _ _ ih => exact ih.aside spaces

/-- After a request, other than bare mapping, that began with an empty trace and was answered, every
page has the translation it had, with no right less; or the trace shows that the processor was told
to drop the page, and no write after that to a word of the page's walk. -/
theorem no_stale_translation (small : Ram.Addressable n) (prepares : Prepares n reserved setup)
    (h : Orderly n reserved setup s) (solitary : s.snapshot.Solitary) {q : Request}
    (below : q.Below) (orders : q.Orders) {r : Except ArgumentError Answer}
    (answered : attempt q.action s.settled = .ok r t) (va : Nat) :
    s.snapshot.Retains t.snapshot va ∨ t.Dropped va := by
  obtain ⟨wired, homed⟩ := h.wired_homed small prepares
  have current := Request.current (s := s.settled) (solitary.secluded wired homed)
    (solitary.spares wired) below orders
  have refusals := q.checks (w := s.snapshot) h.reached.regular
  unfold attempt at answered
  unfold Checks at refusals
  split at refusals
  · -- refused before anything was done
    rw [refusals s.settled rfl] at answered
    cases answered
    exact .inl (.refl _ va)
  · cases run : q.action s.settled with
    | ok a u =>
      rw [run] at answered
      cases answered
      exact current.ok run va id
    | error f u =>
      have stops := refusals s.settled rfl
      rw [run] at answered stops
      cases f with
      | argument e => exact (stops.1 e rfl).elim
      | _ => cases answered

/-- A page that was just mapped is unmapped, and its table goes with it. -/
theorem no_stale_translation_unmapped :
    ∃ σ τ t r, Session.boot? 8 0 [] = some σ ∧
      σ.next? (.mapFresh 0 0x400000 .userRW) = some τ ∧ Ram.Addressable 8 ∧ Prepares 8 0 [] ∧
      Orderly 8 0 [] τ.state ∧ τ.snapshot.Solitary ∧ (Request.call (.unmap 0x400000)).Below ∧
      (Request.call (.unmap 0x400000)).Orders ∧
      attempt (Request.call (.unmap 0x400000)).action τ.state.settled = .ok r t ∧
      ¬ τ.snapshot.Retains t.snapshot 0x400000 ∧ t.Dropped 0x400000 := by
  have runs : (((Session.boot? 8 0 []).bind
      (·.next? (.mapFresh 0 0x400000 .userRW))).filter fun τ =>
        (τ.snapshot.translation 0x400000).isSome = true ∧
        ((Request.call (.unmap 0x400000)).after? τ.state.settled).any fun t =>
          (t.snapshot.translation 0x400000).isNone).isSome = true := by decide +kernel
  obtain ⟨τ, run⟩ := Option.isSome_iff_exists.1 runs
  obtain ⟨run, holds⟩ := Option.filter_eq_some_iff.1 run
  obtain ⟨there, last⟩ := of_decide_eq_true holds
  obtain ⟨t, unmap, gone⟩ := (Option.any_eq_true _ _).1 last
  obtain ⟨r, answered⟩ := Request.attempt_of_after? unmap
  obtain ⟨σ, boot, mint⟩ := Option.bind_eq_some_iff.1 run
  have small : Ram.Addressable 8 := by decide
  have prepares := prepares_nil 8
  have low : dirIndex 0x400000 < mountTableSlot := by decide
  have start : Session.Reaches Permits 8 0 [] σ := .of_boot? boot
  have settled := (start.settled (fun _ _ _ => id) small prepares).1
  have settled' := ((start.next? mint low).settled (fun _ _ _ => id) small prepares).1
  have orderly : Orderly 8 0 [] τ.state := by
    obtain ⟨s, booted, rfl⟩ := Session.boot_of_boot? boot
    obtain ⟨_, u, performed, rfl⟩ := Session.perform_of_next? mint
    exact .attempted (.boot booted) settled.solitary (q := .call (.mapFresh 0 0x400000 .userRW)) low
      performed
  have lost := not_retains there (Option.isNone_iff_eq_none.1 gone)
  refine ⟨σ, τ, t, r, boot, mint, small, prepares, orderly, settled'.solitary, low, trivial,
    answered, lost, ?_⟩
  exact (no_stale_translation small prepares orderly settled'.solitary
    (q := .call (.unmap 0x400000)) low trivial answered 0x400000).resolve_left lost

end KernelState.Orderly

/-- No table is bound twice, but one of them is free. The next frame to be acquired is that table:
it is cleared, and the processor is never told to drop the page that is gone. -/
theorem Request.acquire_clears_free_table :
    ∃ σ t u v r, Session.boot? 8 0 [] = some σ ∧
      (bindTable 0x103000 1 .userRWX).after? σ.state = some t ∧
      (call (.add 0 0x400000 0x105000 .userRW)).after? t = some u ∧
      (bindTable 0x103000 1 .userRWX).Below ∧ (call (.add 0 0x400000 0x105000 .userRW)).Below ∧
      (∀ d < tableEntries, ∀ d' < tableEntries,
        (u.snapshot.entry u.snapshot.root d).isPresent = true →
        (u.snapshot.entry u.snapshot.root d').isPresent = true →
        (u.snapshot.entry u.snapshot.root d).frame = (u.snapshot.entry u.snapshot.root d').frame →
        d = d') ∧
      attempt (call .acquire).action u.settled = .ok r v ∧
      ¬ u.snapshot.Retains v.snapshot 0x400000 ∧
      ∀ x ∈ v.machine.trace, ¬ x.Drops 0x400000 := by
  have runs : ((((Session.boot? 8 0 []).bind fun σ =>
      (bindTable 0x103000 1 .userRWX).after? σ.state).bind
      ((call (.add 0 0x400000 0x105000 .userRW)).after? ·)).filter fun u =>
        (∀ d < tableEntries, (u.snapshot.entry u.snapshot.root d).isPresent = true →
          d ∈ [1, mountTableSlot, selfMapSlot]) ∧
        ([1, mountTableSlot, selfMapSlot].map
          fun d => (u.snapshot.entry u.snapshot.root d).frame).Nodup ∧
        (u.snapshot.translation 0x400000).isSome = true ∧
        ((call .acquire).after? u.settled).any fun v =>
          (v.snapshot.translation 0x400000).isNone ∧
            ∀ x ∈ v.machine.trace, ¬ x.Drops 0x400000).isSome = true := by decide +kernel
  obtain ⟨u, run⟩ := Option.isSome_iff_exists.1 runs
  obtain ⟨run, holds⟩ := Option.filter_eq_some_iff.1 run
  obtain ⟨slots, frames, there, last⟩ := of_decide_eq_true holds
  obtain ⟨v, acquire, holds⟩ := (Option.any_eq_true _ _).1 last
  obtain ⟨gone, kept⟩ := of_decide_eq_true holds
  obtain ⟨r, answered⟩ := attempt_of_after? acquire
  obtain ⟨t, run, add⟩ := Option.bind_eq_some_iff.1 run
  obtain ⟨σ, boot, bound⟩ := Option.bind_eq_some_iff.1 run
  have low : 1 < mountTableSlot := by decide
  have low' : dirIndex 0x400000 < mountTableSlot := by decide
  refine ⟨σ, t, u, v, r, boot, bound, add, low, low', ?_, answered,
    not_retains there (Option.isNone_iff_eq_none.1 gone), kept⟩
  intro d hd d' hd' present present' same
  exact List.inj_on_of_nodup_map frames (slots d hd present) (slots d' hd' present') same

end VirtualMemory
