import VirtualMemory.Proofs.Calls.Forks
import VirtualMemory.Proofs.Calls.Progress
import VirtualMemory.Proofs.Sharing.Tidy

/-!
# Who sees what is stored after a fork

A fork isolates parent and child if every page of the parent is counted as often as it is mapped.
It counts one reference to each page, the child's; so a page that was never counted ends with two
references and a count of one, which the next fault takes for exclusive ownership. From then on
the two spaces write to each other's memory.
-/
namespace VirtualMemory

open Layout Snapshot

namespace Snapshot

variable {w v : Snapshot} {O : Finset Nat} {x : Position} {e : Entry} {p va f : Nat}
  {value : UInt8}

/-- Whoever refers to the frame sees a store that went there in place. -/
theorem StoredInPlace.memory (h : w.Settled O) (user : va < kernelStart)
    (stored : w.StoredInPlace v O va e.frame value)
    (page : w.userPages (.of w.spaces.active va) = some e) :
    v.Settled O ∧ ∀ q a, a < kernelStart → offset a = offset va →
      Position.of q a ∈ w.references e.frame → v.memory q a = some value := by
  obtain ⟨u, e', settled, moved, frame, rfl⟩ := stored
  have owned := h.userPages_owned page
  refine ⟨(settled.setPage owned _).1, ?_⟩
  intro q a user' same refers
  have there : (some e').map Entry.frame =
      (w.leaf? (w.here (dirIndex va)) (tableIndex va)).map Entry.frame := by
    rw [show w.leaf? _ _ = some e from (pageAt?_eq h user).trans page, Option.map_some,
      Option.map_some, frame]
  rw [← references_reframe (userFrames_replaced moved.spaces moved.leaf there)] at refers
  have near : offset va < 4096 := Nat.mod_lt _ (by decide)
  rw [Snapshot.memory, if_pos user', contents_setPage settled owned, if_pos refers,
    Option.map_some, same, Page.byte_setByte _ _ near near, if_pos rfl]

/-- A space that maps a frame once refers to it once. -/
theorem pagesIn_eq_one (page : w.userPages x = some e)
    (once : ∀ y e', w.userPages (x.1, y) = some e' → e'.frame = e.frame → y = x.2) :
    w.pagesIn x.1 (userSlots * tableEntries) e.frame = 1 := by
  have live : w.Live x.1 := (userPages_eq_some.1 page).1.1
  rw [pagesIn_eq_card live, Finset.card_eq_one]
  refine ⟨x, Finset.eq_singleton_iff_unique_mem.2 ⟨?_, ?_⟩⟩
  · exact Finset.mem_filter.2 ⟨mem_references_frame page, rfl⟩
  · rintro ⟨q, y⟩ hy
    obtain ⟨refers, rfl⟩ := Finset.mem_filter.1 hy
    obtain ⟨e', page', same⟩ := mem_references.1 refers
    exact Prod.ext rfl (once y e' page' same)

end Snapshot

namespace Kernel

variable {s t : KernelState} {O : Finset Nat} {e : Entry} {parent child va : Nat}

/-- A store where the page may be written, or nobody else is counted, is seen by whoever refers to
the frame. -/
theorem userWrite_seen (h : s.snapshot.Settled O) (user : va < kernelStart)
    (page : s.snapshot.userPages (.of s.spaces.active va) = some e) (right : e.isUser = true)
    (may : e.isWritable = true ∨ s.snapshot.shares.get e.frame = 1) (value : UInt8) :
    ∃ t, userWrite .recording va value s = .ok () t ∧ ∀ q a, a < kernelStart →
      offset a = offset va → Position.of q a ∈ s.snapshot.references e.frame →
        t.memory q a = some value := by
  have there : s.snapshot.pageAt? va = some e := (pageAt?_eq h user).trans page
  obtain ⟨_, t, run, stored⟩ := (userWrite_inPlace h user there right may value).succeeds
  obtain ⟨settled, seen⟩ := StoredInPlace.memory h user stored page
  exact ⟨t, run, fun q a => memory_eq settled ▸ seen q a⟩

/-- The outcome of a fork that succeeds. -/
theorem fork_of_ok (h : s.snapshot.Settled O) (live : s.snapshot.Live parent)
    (live' : s.snapshot.Live child) (ne : parent ≠ child) (vacant : s.snapshot.Vacant child)
    (run : fork parent child s = .ok () t) :
    t.snapshot.Settled O ∧ s.snapshot.Forked t.snapshot O parent child := by
  have leads := fork_leads h live live' ne vacant s rfl
  rwa [run] at leads

theorem memory_fork (h : s.snapshot.Settled O) (live : s.snapshot.Live parent)
    (live' : s.snapshot.Live child) (settled : t.snapshot.Settled O)
    (forked : s.snapshot.Forked t.snapshot O parent child) :
    t.memory = Function.update s.memory child (s.memory parent) := by
  rw [memory_eq h, memory_eq settled, memory_forked (forked.contents h live live')]

/-- Where the parent has a page that was not counted, and no other page in its frame, the child
sees what the parent stores there after the fork. -/
theorem fork_leaks (h : s.snapshot.Settled O) (live : s.snapshot.Live parent)
    (live' : s.snapshot.Live child) (ne : parent ≠ child) (vacant : s.snapshot.Vacant child)
    (run : fork parent child s = .ok () t) (user : va < kernelStart)
    (page : s.snapshot.userPages (.of parent va) = some e) (right : e.isUser = true)
    (uncounted : s.snapshot.shares.get e.frame = 0)
    (once : ∀ y e', s.snapshot.userPages (parent, y) = some e' → e'.frame = e.frame →
      y = (dirIndex va, tableIndex va)) (value : UInt8) :
    ∃ u, userWrite .recording va value t = .ok () u ∧ u.memory child va = some value := by
  obtain ⟨settled, forked⟩ := fork_of_ok h live live' ne vacant run
  have pages := forked.userPages live live'
  have shared (p : Nat) (either : p = parent ∨ p = child) :
      t.snapshot.userPages (.of p va) = some (e.clear EntryFlags.writable) := by
    rw [pages, forkedUserPages, Position.of, if_pos either]
    exact congrArg (Option.map (·.clear EntryFlags.writable)) page
  have active : t.spaces.active = parent := congrArg Spaces.active forked.spaces
  have one : t.snapshot.shares.get e.frame = 1 := by
    have once := pagesIn_eq_one (x := .of parent va) page once
    rw [forked.shares, uncounted, Nat.zero_add]
    exact once
  have resident := shared parent (.inl rfl)
  rw [← active] at resident
  obtain ⟨u, stored, seen⟩ := userWrite_seen settled user resident
    (by rwa [Entry.isUser_clear_writable]) (.inr (by rwa [Entry.frame_clear_writable])) value
  exact ⟨u, stored, seen child va user rfl (mem_references_frame (shared child (.inr rfl)))⟩

end Kernel

namespace Session

variable {n : Nat} {σ τ : Session} {S : Nat → Prop}

/-- Only callers' frames are mapped, whatever the share counts are. -/
theorem Shared.kernelHeld (small : Ram.Addressable n) (h : Shared Permits n 0 [] σ) :
    σ.snapshot.KernelHeld σ.held := by
  induction h with
  | boot booted =>
    exact (KernelState.boot_booted small (KernelState.prepares_nil n) booted).2.kernelHeld _
  | call before allowed answered ih =>
    have settled := before.settled (fun _ _ _ => id) small (KernelState.prepares_nil n)
    exact ih.effect settled allowed (effect_of_perform settled allowed answered)
  | @counted σ f count t before frame shareable range done ih =>
    change t.snapshot.KernelHeld σ.held
    rw [Kernel.setShareCount_of_ok done]
    exact ih.of_leaf (Finset.Subset.refl _) fun d t _ _ => leaf?_book (by rfl) _ t

/-- The frames that callers hold are among those that may be shared. -/
theorem Managed.shared (small : Ram.Addressable n) (h : Managed Permits n 0 [] σ) :
    Shared Permits n 0 [] σ := by
  induction h with
  | boot booted => exact .boot booted
  | call before allowed answered ih => exact ih.call allowed answered
  | counted before mine range done ih =>
    have settled := before.settled (fun _ _ _ => id) small (KernelState.prepares_nil n)
    obtain ⟨role, stable⟩ := settled.stable
    exact ih.counted (settled.isFrame mine) (stable.ne_mount mine) range done

theorem Managed.kernelHeld (small : Ram.Addressable n) (h : Managed Permits n 0 [] σ) :
    σ.snapshot.KernelHeld σ.held :=
  (h.shared small).kernelHeld small

/-- Guarded spaces stay guarded while programs run. -/
theorem Follows.guarded (settled : σ.snapshot.Settled σ.held)
    (held : σ.snapshot.KernelHeld σ.held) (g : σ.snapshot.Guarded S) (run : σ.Follows Runs τ) :
    τ.snapshot.Settled τ.held ∧ τ.snapshot.KernelHeld τ.held ∧ τ.snapshot.Guarded S :=
  run.induction (I := fun w O => w.KernelHeld O ∧ w.Guarded S) (fun _ _ _ => Runs.permits)
    (fun _ _ _ _ _ _ settled ih allowed effect =>
      ⟨ih.1.effect settled allowed.permits effect, ih.2.runs settled ih.1 allowed effect⟩)
    settled ⟨held, g⟩

/-- In session `τ`, whoever may write to a page of a space in `S` is the only one to refer to its
frame, and no other space sees what a space in `S` stores. -/
structure Isolates (τ : Session) (S : Nat → Prop) : Prop where
  alone : ∀ x e, S x.1 → τ.snapshot.userPages x = some e → e.isWritable = true →
    τ.snapshot.references e.frame = {x}
  unseen : ∀ va value r u, S τ.state.spaces.active → va < kernelStart →
    (Call.userWrite va value).perform τ.state = .ok r u →
      ∀ q, q ≠ τ.state.spaces.active → u.memory q = τ.state.memory q

theorem Follows.isolates (settled : σ.snapshot.Settled σ.held)
    (held : σ.snapshot.KernelHeld σ.held) (g : σ.snapshot.Guarded S) (run : σ.Follows Runs τ) :
    τ.Isolates S := by
  obtain ⟨settled', held', g'⟩ := run.guarded settled held g
  constructor
  · intro x e mine page writable
    refine Finset.eq_singleton_iff_unique_mem.2 ⟨mem_references_frame page, ?_⟩
    exact fun y => g'.lone.eq settled' mine page writable
  · intro va value r u mine user answered q other
    have effect := effect_of_perform settled' (c := .userWrite va value) user answered
    rw [memory_eq settled', memory_eq (effect.settled settled')]
    exact g'.memory_of_ne settled' held' mine effect other

/-- A fork of a space whose pages are counted in full isolates the two spaces from each other and
from all others, whatever programs do afterwards. A page that was not counted is shared for good:
what the parent stores there, the child reads. -/
theorem Managed.fork_isolates_backed {parent child : Nat} {t : KernelState}
    (small : Ram.Addressable n) (h : Managed Permits n 0 [] σ) (live : σ.snapshot.Live parent)
    (live' : σ.snapshot.Live child) (ne : parent ≠ child) (vacant : σ.snapshot.Vacant child)
    (run : Kernel.fork parent child σ.state = .ok () t) :
    (σ.snapshot.Backed (· = parent) → ∀ τ, Follows Runs ⟨t, σ.held⟩ τ →
      τ.Isolates fun p => p = parent ∨ p = child) ∧
    ∀ va e, va < kernelStart → σ.snapshot.userPages (.of parent va) = some e → e.isUser = true →
      σ.snapshot.shares.get e.frame = 0 →
      (∀ y e', σ.snapshot.userPages (parent, y) = some e' → e'.frame = e.frame →
        y = (dirIndex va, tableIndex va)) →
      ∀ value, ∃ u, Kernel.userWrite .recording va value t = .ok () u ∧
        u.memory child va = some value := by
  have settled := h.settled (fun _ _ _ => id) small (KernelState.prepares_nil n)
  obtain ⟨settled', forked⟩ := Kernel.fork_of_ok settled live live' ne vacant run
  constructor
  · intro backed τ follows
    refine Follows.isolates (σ := ⟨t, σ.held⟩) settled' ?_ ?_ follows
    · exact (h.kernelHeld small).of_leaf (Finset.Subset.refl _) fun d t hd ht =>
        forked.leaf _ t hd ht
    · exact .forked settled live live' forked backed rfl fun x e mine => absurd mine.1 mine.2
  · intro va e user page right uncounted once
    exact Kernel.fork_leaks settled live live' ne vacant run user page right uncounted once

theorem Managed.fork_isolates_backed_mapped :
    ∃ σ τ υ t, boot? 8 0 [] = some σ ∧ σ.next? (.mapFresh 0 0x400000 .userRW) = some τ ∧
      τ.next? .create = some υ ∧ Ram.Addressable 8 ∧ Managed Permits 8 0 [] υ ∧
      υ.snapshot.Live 0 ∧ υ.snapshot.Live 1 ∧ υ.snapshot.Vacant 1 ∧
      Kernel.fork 0 1 υ.state = .ok () t ∧ υ.snapshot.Backed (· = 0) ∧
      ∀ ρ, Follows Runs ⟨t, υ.held⟩ ρ → ρ.Isolates fun p => p = 0 ∨ p = 1 := by
  obtain ⟨σ, τ, υ, boot, mint, create, live, live', vacant, one, enough, -, -, -, accounted⟩ :=
    one_page
  have small : Ram.Addressable 8 := by decide
  have low : dirIndex 0x400000 < mountTableSlot := by decide
  have plain : Reaches Plain 8 0 [] υ :=
    ((Reaches.of_boot? boot).next? mint low).next? create trivial
  have permits : Reaches Permits 8 0 [] υ :=
    ((Reaches.of_boot? boot).next? mint low).next? create trivial
  obtain ⟨settled, tidy⟩ := plain.tidy small
  obtain ⟨t, run, -⟩ := Kernel.fork_ok settled live live' (by decide) vacant
    (one.trans_le enough) (settled.countable accounted 0)
  have backed : υ.snapshot.Backed (· = 0) := fun x e _ => tidy.backed x e trivial
  exact ⟨σ, τ, υ, t, boot, mint, create, small, permits.managed, live, live', vacant, run, backed,
    (fork_isolates_backed small permits.managed live live' (by decide) vacant run).1 backed⟩

/-- A page is mapped and never counted. After the fork the parent stores a byte there, and the
child reads it. -/
theorem Managed.fork_leaks_uncounted :
    ∃ σ t u, Managed Permits 8 0 [] σ ∧ σ.snapshot.Live 0 ∧ σ.snapshot.Live 1 ∧
      σ.snapshot.Vacant 1 ∧
      σ.snapshot.userPages (.of 0 0x400000) = some (.of 0x103000 Protection.userRW.entryFlags) ∧
      σ.snapshot.shares.get 0x103000 = 0 ∧ Kernel.fork 0 1 σ.state = .ok () t ∧
      t.memory 1 0x400000 = some 0 ∧ Kernel.userWrite .recording 0x400000 7 t = .ok () u ∧
      u.memory 1 0x400000 = some 7 := by
  have runs : ((((((boot? 8 0 []).bind (·.next? .acquireRaw)).filter (0x103000 ∈ ·.held)).bind
      (·.next? (.add 0 0x400000 0x103000 .userRW))).bind (·.next? .create)).filter fun σ =>
        σ.snapshot.Live 0 ∧ σ.snapshot.Live 1 ∧
        (∀ d < userSlots, (σ.snapshot.slotAt (.user 1 d)).isPresent = false) ∧
        (∀ d < userSlots, (σ.snapshot.slotAt (.user 0 d)).isPresent = true → d = 1) ∧
        (∀ t < tableEntries, (σ.snapshot.leaf? (.user 0 1) t).isSome = true → t = 0) ∧
        σ.snapshot.userPages (.of 0 0x400000) =
          some (.of 0x103000 Protection.userRW.entryFlags) ∧
        σ.state.shares.counts.isEmpty = true ∧ σ.snapshot.tablesIn 0 userSlots = 1 ∧
        1 ≤ σ.state.pool.available ∧ σ.state.memory 0 0x400000 = some 0).isSome = true := by
    decide +kernel
  obtain ⟨σ, run⟩ := Option.isSome_iff_exists.1 runs
  obtain ⟨run, holds⟩ := Option.filter_eq_some_iff.1 run
  obtain ⟨live, live', vacant, slots, entries, page, empty, one, enough, zero⟩ :=
    of_decide_eq_true holds
  obtain ⟨υ, run, create⟩ := Option.bind_eq_some_iff.1 run
  obtain ⟨τ, run, add⟩ := Option.bind_eq_some_iff.1 run
  obtain ⟨run, mine⟩ := Option.filter_eq_some_iff.1 run
  obtain ⟨ρ, boot, acquire⟩ := Option.bind_eq_some_iff.1 run
  have small : Ram.Addressable 8 := by decide
  have reaches : Reaches Permits 8 0 [] σ :=
    (((Reaches.of_boot? boot).next? acquire trivial).next? add
      ⟨by decide, of_decide_eq_true mine⟩).next? create trivial
  obtain ⟨settled, -⟩ := reaches.settled (fun _ _ _ => id) small (KernelState.prepares_nil 8)
  have none (f : Nat) : σ.snapshot.shares.get f = 0 := by
    change σ.state.shares.counts.getD f 0 = 0
    rw [Std.ExtTreeMap.isEmpty_iff.1 empty, Std.ExtTreeMap.getD_empty]
  have accounted : σ.snapshot.Accounted := fun f => by rw [none]; exact Nat.zero_le _
  obtain ⟨t, forks, settled', duplicated⟩ := Kernel.fork_ok settled live live' (by decide) vacant
    (one.trans_le enough) (settled.countable accounted 0)
  have once : ∀ y e, σ.snapshot.userPages (0, y) = some e →
      e.frame = (Entry.of 0x103000 Protection.userRW.entryFlags).frame →
        y = (dirIndex 0x400000, tableIndex 0x400000) := by
    rintro ⟨d, t⟩ e there -
    obtain ⟨has, ht, leaf⟩ := userPages_eq_some.1 there
    obtain rfl := slots d has.2 (leaf?_eq_some.1 leaf).1
    obtain rfl := entries t ht (by rw [leaf]; rfl)
    decide
  obtain ⟨u, stored, seen⟩ := Kernel.fork_leaks settled live live' (by decide) vacant forks
    (by decide) page (by decide) (none _) once 7
  have copied : t.memory 1 = σ.state.memory 0 := by
    rw [Kernel.memory_fork settled live live' settled' duplicated.toForked, Function.update_self]
  exact ⟨σ, t, u, reaches.managed, live, live', vacant, page, none _, forks, by rw [copied, zero],
    stored, seen⟩

end Session
end VirtualMemory
