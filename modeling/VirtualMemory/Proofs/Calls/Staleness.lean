import VirtualMemory.Proofs.Calls.PageWork
import VirtualMemory.Proofs.Twins.Faults
import VirtualMemory.Proofs.Twins.Fork

/-!
# Stale memory

What a free frame holds is never found out. Two states that differ in free frames only answer every
call the same, or stop the same, and differ in free frames only afterwards: tables and directories
are cleared before they are bound, pages that callers acquire are cleared too, and a private copy is
written all over before anybody can read it.
-/
namespace VirtualMemory

open Layout Snapshot Kernel

/-- The states have the same books, and the same bytes in all frames that are not free. -/
structure KernelState.Matches (s t : KernelState) : Prop where
  directory : t.machine.directory = s.machine.directory
  size : t.machine.ram.frames.size = s.machine.ram.frames.size
  pool : t.pool = s.pool
  shares : t.shares = s.shares
  occupancy : t.occupancy = s.occupancy
  spaces : t.spaces = s.spaces
  byte : ∀ pa, alignDown pa ∉ s.pool.free → t.machine.ram.byte? pa = s.machine.ram.byte? pa

namespace KernelState

variable {s t : KernelState}

/-- A byte of a free frame may be anything. -/
theorem matches_setByte {pa : Nat} (free : alignDown pa ∈ s.pool.free) (b : UInt8) :
    s.Matches { s with machine := { s.machine with ram := s.machine.ram.setByte pa b } } := by
  refine ⟨rfl, Ram.size_modifyPage .., rfl, rfl, rfl, rfl, fun qa out => ?_⟩
  by_cases low : Ram.base ≤ pa
  · change ((s.machine.ram.modifyPage pa _).page? qa).map _ = (s.machine.ram.page? qa).map _
    rw [Ram.page?_modifyPage _ _ low, if_neg]
    rintro ⟨low', same⟩
    refine out ?_
    rwa [show alignDown qa = alignDown pa by
      simp only [Ram.frameIndex, Ram.base, alignDown, pageSize] at *
      omega]
  · change (s.machine.ram.modifyPage pa _).byte? qa = _
    rw [Ram.modifyPage, if_neg low]

theorem matches_iff : s.Matches t ↔ s.snapshot.Alike t.snapshot ∅ := by
  constructor
  · intro h
    refine ⟨h.directory, h.size, ?_, fun f hf _ => ?_⟩
    · change Books.mk t.pool.free t.shares t.occupancy t.spaces = _
      rw [h.pool, h.shares, h.occupancy, h.spaces]
      rfl
    · refine Ram.pageAt_congr h.size fun pa there => h.byte pa ?_
      rwa [there]
  · intro h
    have spaces : t.spaces = s.spaces := h.spaces
    refine ⟨h.root, h.size, ?_, h.shares, h.occupancy, spaces, fun pa hf => ?_⟩
    · exact congrArg FramePool.mk h.free
    · have page : t.machine.ram.pageAt (alignDown pa) = s.machine.ram.pageAt (alignDown pa) :=
        h.page _ hf (Finset.notMem_empty _)
      have size : t.machine.ram.frames.size = s.machine.ram.frames.size := h.size
      rw [Ram.byte?_eq, Ram.byte?_eq, page, Ram.contains, Ram.contains, size]

end KernelState

/-- What callers do to the kernel, one step at a time: calls, and changes of share counts. -/
inductive Deed where
  | call (c : Call)
  | setShare (frame n : Nat)
  | share (frame : Nat)
  | unshare (frame : Nat)

namespace Deed

def perform : Deed → Kernel (Except ArgumentError Answer)
  | call c => c.perform
  | setShare frame n => do setShareCount frame n; return .ok .done
  | share frame => do shareFrame frame; return .ok .done
  | unshare frame => do unshareFrame frame; return .ok .done

/-- The frames that callers hold afterwards. -/
def held (x : Deed) (r : Except ArgumentError Answer) (v : Snapshot) (O : Finset Nat) :
    Finset Nat :=
  match x with
  | call c => c.held r v O
  | _ => O

end Deed

namespace Snapshot

/-- Callers map frames that they hold and release those that are mapped nowhere, keep away from the
directory's two window slots and fork into another space that is empty. At kernel addresses they
store only where they hold the frame of the page, and raise faults only where they hold it or it is
not counted. They have no frame handed to them uncleared, and keep no count for the window's table
or for what is no frame. -/
def Admits (w : Snapshot) (O : Finset Nat) : Deed → Prop
  | .call c => match c with
    | .remove _ first last | .protect _ first last _ =>
      ∀ i < (last - first) / pageSize, dirIndex (first + i * pageSize) < mountTableSlot
    | .unmap va => dirIndex va < mountTableSlot
    | .pageFault va _ => dirIndex va < mountTableSlot ∧ (kernelStart ≤ va →
      ∀ e, w.pageAt? va = some e → w.shares.get e.frame ≠ 0 → e.frame ∈ O)
    | .userWrite va _ => dirIndex va < mountTableSlot ∧ (kernelStart ≤ va →
      ∀ e, w.pageAt? va = some e → e.frame ∈ O)
    | .mapFresh .. | .drop .. | .acquireRaw => False
    | c => w.Permits O c
  | .setShare frame _ | .share frame | .unshare frame =>
    Ram.IsFrame w.size frame ∧ frame ≠ mountTable

variable {w : Snapshot} {O : Finset Nat} {va : Nat}

theorem Settled.held_at_fault {code : UInt32} (h : w.Settled O)
    (ok : w.Admits O (.call (.pageFault va code))) (e : Entry) (page : w.pageAt? va = some e)
    (counted : w.shares.get e.frame ≠ 0) : e.frame ∈ O := by
  by_cases user : va < kernelStart
  · exact h.pageAt?_owned user page
  · exact ok.2 (not_lt.1 user) e page counted

theorem Settled.held_at_store {value : UInt8} (h : w.Settled O)
    (ok : w.Admits O (.call (.userWrite va value))) (e : Entry) (page : w.pageAt? va = some e) :
    e.frame ∈ O := by
  by_cases user : va < kernelStart
  · exact h.pageAt?_owned user page
  · exact ok.2 (not_lt.1 user) e page

end Snapshot

namespace Call

variable {w v : Snapshot} {O : Finset Nat} {c : Call} {p : Nat}

/-- A call that is not refused does on both sides what its action does. -/
theorem perform_twins {Q : Except ArgumentError Answer → Snapshot → Snapshot → Prop}
    (h : w.spaces.Regular) (same : v.spaces = w.spaces) (refused : ∀ e, Q (.error e) w v)
    (clean : ArgumentError.first (c.objections w.spaces) = none →
      Twins c.action w v fun a w' v' => Q (.ok a) w' v') : Twins c.perform w v Q := by
  intro s t hs ht
  subst hs ht
  have spaces : t.spaces = s.spaces := same
  have regular : s.spaces.Regular := h
  cases first : ArgumentError.first (c.objections s.spaces) with
  | some e =>
    exact .inl ⟨_, s, t, perform_of_refused regular first,
      perform_of_refused (spaces ▸ regular) (spaces ▸ first), refused e⟩
  | none =>
    obtain ⟨a, s', t', left, right, ends⟩ | ⟨f, s', t', left, right⟩ := clean first s t rfl rfl
    · exact .inl ⟨.ok a, s', t', by rw [perform, attempt, left], by rw [perform, attempt, right],
        ends⟩
    · exact .inr ⟨f, s', t', stops_of_clean regular first left,
        stops_of_clean (spaces ▸ regular) (spaces ▸ first) right⟩

theorem OnPages.twins (on : c.OnPages p) (h : w.Paired v ∅)
    (clean : ArgumentError.first (c.objections w.spaces) = none) :
    Twins c.action w v fun _ w' v' => w'.Alike v' ∅ := by
  obtain ⟨alive, work⟩ := action_of_clean on clean
  rw [work]
  refine .bind ((within_twins h (live_of_not_dead alive) (fun v role => pageWork_edits on clean)
    fun w v => pageWork_twins on clean).mono ?_)
  exact fun _ w' v' ends => .pure ends.alike

/-- A call that callers may make, where nothing is to be said against its arguments. -/
theorem action_twins (h : w.Settled O) (alike : w.Alike v ∅) (ok : w.Admits O (.call c))
    (clean : ArgumentError.first (c.objections w.spaces) = none) :
    Twins c.action w v fun _ w' v' => w'.Alike v' ∅ := by
  have paired := h.paired alike
  have answered {α : Type} {x : Kernel α} {f : α → Answer}
      (ran : Twins x w v fun _ w' v' => w'.Alike v' ∅) :
      Twins (do return f (← x)) w v fun _ w' v' => w'.Alike v' ∅ :=
    .bind (ran.mono fun _ _ _ ends => .pure ends)
  have found {p : Nat} (alive : w.spaces.dead p = false) : ∃ r, w.spaces.find? p = some r :=
    Option.isSome_iff_exists.1 (live_of_not_dead alive)
  have unobjected := ArgumentError.first_eq_none.1 clean
  cases c with
  | create => exact answered (create_twins paired)
  | incref p =>
    obtain ⟨r, hr⟩ := found (p := p) (by simpa [objections] using unobjected)
    exact answered (incref_twins paired hr)
  | decref p => exact answered (decref_twins paired p)
  | destroy p =>
    obtain ⟨r, hr⟩ := found (p := p) (by simpa [objections] using unobjected)
    exact answered (destroy_twins paired hr)
  | switch p =>
    have live : w.Live p := live_of_not_dead (by simpa [objections] using unobjected)
    exact answered ((switch_twins paired live).mono fun _ _ _ ends => ends.2.1.alike)
  | add p va frame prot => exact OnPages.twins (p := p) ⟨rfl, ok.1⟩ paired clean
  | remove p first last => exact OnPages.twins (p := p) ⟨rfl, ok⟩ paired clean
  | protect p first last prot => exact OnPages.twins (p := p) ⟨rfl, ok⟩ paired clean
  | map frame d t prot =>
    obtain ⟨⟨hd, ht⟩, aligned⟩ :
        (d < tableEntries ∧ t < tableEntries) ∧ isAligned frame = true := by
      simpa [objections] using unobjected
    exact answered ((map_twins paired ok.1 ht aligned).mono fun _ _ _ ends => ends.alike)
  | unmap va => exact answered ((unmap_twins paired ok).mono fun _ _ _ ends => ends.alike)
  | mapFresh p va prot => exact ok.elim
  | drop p va frame => exact ok.elim
  | fork parent child =>
    obtain ⟨live, live'⟩ : w.spaces.dead parent = false ∧ w.spaces.dead child = false := by
      simpa [objections] using unobjected
    exact answered (fork_twins paired (live_of_not_dead live) (live_of_not_dead live') ok.1)
  | pageFault va code => exact answered (pageFault_twins h alike ok.1 (h.held_at_fault ok) code)
  | userWrite va value => exact answered (userWrite_twins h alike ok.1 (h.held_at_store ok) value)
  | acquire =>
    obtain ⟨role, placed⟩ := h.placed
    exact answered (acquire_twins paired.wired alike paired.wired' placed.lodged.usable
      fun f rest first => alike.takeCleared first)
  | acquireRaw => exact ok.elim
  | release frame =>
    exact answered (release_twins alike.books frame (alike.book fun f => List.mem_cons_of_mem _))

end Call

namespace Deed

variable {w v : Snapshot} {O : Finset Nat} {x : Deed}

/-- A step of callers is the same on both sides. -/
theorem twins (h : w.Settled O) (alike : w.Alike v ∅) (ok : w.Admits O x) :
    Twins x.perform w v fun _ w' v' => w'.Alike v' ∅ := by
  cases x with
  | call c =>
    obtain ⟨role, placed⟩ := h.placed
    exact Call.perform_twins placed.lodged.regular alike.spaces (fun _ => alike)
      (Call.action_twins h alike ok)
  | setShare frame n =>
    refine .bind (modify_twins alike.books (fun b => { b with shares := b.shares.set frame n })
      (fun _ => rfl) (.pure (alike.book fun _ => id)))
  | share frame =>
    exact .bind (shareFrame_twins alike.books frame (.pure (alike.book fun _ => id)))
  | unshare frame =>
    exact .bind (unshareFrame_twins alike.books frame fun _ => .pure (alike.book fun _ => id))

/-- A store leaves the kernel at rest, also at a kernel address. -/
theorem userWrite_settles {va : Nat} {value : UInt8} (h : w.Settled O)
    (ok : w.Admits O (.call (.userWrite va value))) :
    Leads Stops (userWrite .recording va value) w fun _ v => v.Settled (v.withPageAt va O) := by
  refine (userWrite_leads h ok.1 (h.held_at_store ok) value).mono ?_
  rintro _ _ ⟨u, e, resolved, page, -, rfl⟩
  have settled := resolved.settled h
  have mine := mem_withPageAt (O := O) page
  rw [settled.withPageAt_setPage ok.1 mine]
  exact (settled.setPage mine _).1

theorem permits_of_admits {c : Call} (ok : w.Admits O (.call c))
    (other : ∀ va value, c ≠ .userWrite va value) : w.Permits O c := by
  cases c with
  | remove | unmap => trivial
  | protect => exact ok
  | pageFault => exact ok.1
  | userWrite va value => exact absurd rfl (other va value)
  | mapFresh | drop | acquireRaw => exact ok.elim
  | _ => exact ok

/-- Every step leaves the kernel at rest. -/
theorem settles (h : w.Settled O) (ok : w.Admits O x) :
    Leads Stops x.perform w fun r v => v.Settled (x.held r v O) := by
  cases x with
  | call c =>
    by_cases write : ∃ va value, c = .userWrite va value
    · obtain ⟨va, value, rfl⟩ := write
      refine Leads.attempt (.bind ((userWrite_settles h ok).mono ?_)) (fun e b no => no e rfl)
        fun _ _ => id
      exact fun _ v settled => .pure settled
    · have permitted := permits_of_admits ok fun va value eq => write ⟨va, value, eq⟩
      exact (Call.performs h permitted).mono fun r v effect => effect.settled h
  | setShare frame n =>
    exact (setShareCount_yields frame n w).bind (.pure (h.setShare ok.1 ok.2 n))
  | share frame =>
    exact .bind (shareFrame_leads (fun _ => .violation _ _) (.pure (h.setShare ok.1 ok.2 _)))
  | unshare frame =>
    by_cases shared : w.shares.get frame = 0
    · exact .bind (unshareFrame_stops shared)
    · exact (unshareFrame_yields shared).bind (.pure (h.setShare ok.1 ok.2 _))

end Deed

/-- The same steps taken by callers of a booted kernel, and taken from a state that differs from
where it started in free frames. The rules are kept on the first side. -/
inductive Session.Shadows (n reserved : Nat) (setup : List (Nat × UInt32)) :
    Session → KernelState → Prop where
  | boot {s t : KernelState} (booted : KernelState.boot n reserved setup = .ok s)
      (same : s.Matches t) :
      Shadows n reserved setup ⟨s, (s.snapshot.page s.snapshot.root).unbound reserved⟩ t
  | deed {σ : Session} {s t t' : KernelState} {x : Deed} {r r' : Except ArgumentError Answer}
      (before : Shadows n reserved setup σ t) (ok : σ.snapshot.Admits σ.held x)
      (done : x.perform σ.state = .ok r s) (done' : x.perform t = .ok r' t') :
      Shadows n reserved setup ⟨s, x.held r s.snapshot σ.held⟩ t'

namespace Session

variable {n reserved : Nat} {setup : List (Nat × UInt32)} {σ : Session} {t : KernelState}

theorem Shadows.alike (small : Ram.Addressable n)
    (prepares : KernelState.Prepares n reserved setup) (run : Shadows n reserved setup σ t) :
    σ.snapshot.Settled σ.held ∧ σ.snapshot.Alike t.snapshot ∅ := by
  induction run with
  | boot booted same =>
    exact ⟨(KernelState.boot_booted small prepares booted).2.settled,
      KernelState.matches_iff.1 same⟩
  | @deed σ s t t' x r r' before ok done done' ih =>
    obtain ⟨settled, alike⟩ := ih
    have ends := Deed.settles settled ok σ.state rfl
    rw [done] at ends
    refine ⟨ends, ?_⟩
    obtain ⟨a, s', u', left, right, kept⟩ | ⟨f, s', u', left, -⟩ :=
      Deed.twins settled alike ok σ.state t rfl rfl
    · rw [done] at left
      rw [done'] at right
      cases left
      cases right
      exact kept
    · rw [done] at left
      cases left

/-- What free frames hold is never found out: as long as callers keep to the rules, both runs see
the same books, bytes and pages, and their next step has the same answer or stops both the same. -/
theorem stale_unseen (small : Ram.Addressable n)
    (prepares : KernelState.Prepares n reserved setup) (run : Shadows n reserved setup σ t) :
    σ.state.Matches t ∧
    (∀ π i, σ.snapshot.Has π → t.snapshot.leaf? π i = σ.snapshot.leaf? π i) ∧
    (∀ va, dirIndex va < mountTableSlot → ∃ m s' t',
      Kernel.lookup va σ.state = .ok m s' ∧ Kernel.lookup va t = .ok m t') ∧
    ∀ x, σ.snapshot.Admits σ.held x →
      (∃ r s' t', x.perform σ.state = .ok r s' ∧ x.perform t = .ok r t' ∧ s'.Matches t') ∨
        ∃ f s' t', x.perform σ.state = .error f s' ∧ x.perform t = .error f t' := by
  obtain ⟨settled, alike⟩ := run.alike small prepares
  have paired := settled.paired alike
  refine ⟨KernelState.matches_iff.2 alike, fun π i hπ => paired.leaf? hπ i, fun va hd => ?_,
    fun x ok => ?_⟩
  · obtain ⟨role, stable⟩ := settled.stable
    obtain ⟨s', found, -⟩ := lookup_yields stable.toSound hd σ.state rfl
    have both : Twins (Kernel.lookup va >>= pure) σ.snapshot t.snapshot fun _ _ _ => True :=
      lookup_twins paired hd (.pure trivial)
    rw [bind_pure] at both
    obtain ⟨m, s', t', left, right, -⟩ | ⟨f, s', t', left, -⟩ := both σ.state t rfl rfl
    · exact ⟨m, s', t', left, right⟩
    · rw [found] at left
      cases left
  · obtain ⟨r, s', t', left, right, ends⟩ | failed :=
      Deed.twins settled alike ok σ.state t rfl rfl
    · exact .inl ⟨r, s', t', left, right, KernelState.matches_iff.2 ends⟩
    · exact .inr failed

/-- A frame that was left dirty becomes the directory of a space. -/
theorem stale_unseen_recycled : ∃ σ t r s' t', boot? 8 0 [] = some σ ∧ Ram.Addressable 8 ∧
    KernelState.Prepares 8 0 [] ∧ Shadows 8 0 [] σ t ∧
    t.machine.ram.byte? 0x103005 ≠ σ.state.machine.ram.byte? 0x103005 ∧
    (Deed.call .create).perform σ.state = .ok r s' ∧ (Deed.call .create).perform t = .ok r t' ∧
    0x103000 ∉ s'.pool.free ∧ s'.Matches t' := by
  have runs : ((boot? 8 0 []).filter fun σ => σ.state.pool.free.contains 0x103000 ∧
      (σ.state.machine.ram.setByte 0x103005 0xEE).byte? 0x103005 ≠
        σ.state.machine.ram.byte? 0x103005 ∧
      ((σ.next? .create).any fun τ => !τ.state.pool.free.contains 0x103000) = true).isSome =
        true := by decide +kernel
  obtain ⟨σ, run⟩ := Option.isSome_iff_exists.1 runs
  obtain ⟨boot, holds⟩ := Option.filter_eq_some_iff.1 run
  obtain ⟨free, dirty, after⟩ := of_decide_eq_true holds
  obtain ⟨s, booted, rfl⟩ := boot_of_boot? boot
  have small : Ram.Addressable 8 := by decide
  have prepares := KernelState.prepares_nil 8
  have dirty_free : alignDown 0x103005 ∈ s.pool.free := List.contains_iff_mem.1 free
  have shadows : Shadows 8 0 [] _ _ := .boot booted (KernelState.matches_setByte dirty_free 0xEE)
  obtain ⟨τ, create, taken⟩ := (Option.any_eq_true _ _).1 after
  obtain ⟨r, s', done, rfl⟩ := perform_of_next? create
  obtain ⟨-, -, -, steps⟩ := stale_unseen small prepares shadows
  obtain ⟨r', u, t', left, right, same⟩ | ⟨f, u, t', left, -⟩ := steps (.call .create) trivial
  · cases done.symm.trans left
    exact ⟨_, _, r, s', t', boot, small, prepares, shadows, dirty, left, right,
      by simpa using taken, same⟩
  · cases done.symm.trans left

end Session
end VirtualMemory
