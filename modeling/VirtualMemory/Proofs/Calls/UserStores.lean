import VirtualMemory.Proofs.Calls.PageStores

/-!
# Stores of user programs

A store by a user program should go through only where the page has the write right and the user
right, and otherwise leave the byte alone. Before it faults the store is held to both; after its
fault, to the write right alone. That is enough at every page but those of the kernel's that may be
written: the fault is handed on, the page stays as it is, and the store goes there.
-/
namespace VirtualMemory

open Layout Snapshot Kernel

namespace Kernel

/-- The fault of a store by a user program, which is raised unless the page has both rights. -/
def raise (policy : Policy) (va : Nat) : Kernel Unit := do
  match ← lookup va with
  | some m =>
    if !(m.isWritable && m.isUser) then
      discard (pageFault policy va TrapCode.userWriteDenied)
  | none => discard (pageFault policy va TrapCode.userWriteAbsent)

end Kernel

namespace KernelState

/-- What was behind `va` in `s` has kept its byte in `t`, and no other byte is seen there. -/
structure KeepsByte (s t : KernelState) (va : Nat) : Prop where
  stored : ∀ pa, s.machine.access va = .ok pa → t.machine.loadByte pa = s.machine.loadByte pa
  seen : ∀ b, t.machine.loadVirtual va = .ok b → s.machine.loadVirtual va = .ok b

/-- Program and kernel see `value` at `va`, in a page with both rights; and the page had them when
the store was made. -/
structure StoresByRight (s t : KernelState) (va : Nat) (value : UInt8) : Prop where
  right : ∃ u m, raise .recording va s = .ok () u ∧ u.lookup? va = some (some m) ∧
    m.isWritable = true ∧ m.isUser = true ∧ u.machine.storeVirtual va value = .ok t.machine
  page : ∃ m, t.lookup? va = some (some m) ∧ m.isWritable = true ∧ m.isUser = true
  value : t.machine.loadVirtual va = .ok value

/-- A store by a user program is made by right, or it fails and nothing is stored. -/
def ObeysRights (s : KernelState) (va : Nat) (value : UInt8) : Prop :=
  Ends (s.KeepsByte · va) (userWrite .recording va value) s fun _ t => s.StoresByRight t va value

/-- At `va` there is a page of memory that may be written, but not by user programs. -/
def KernelWritable (s : KernelState) (va : Nat) : Prop :=
  ∃ m, s.lookup? va = some (some m) ∧ m.isWritable = true ∧ m.isUser = false ∧
    Ram.IsFrame s.snapshot.size m.frame

/-- A user page at `va` is in a frame that a walk to `va` does not read. -/
def ShowsOffPath (s : KernelState) (va : Nat) : Prop :=
  ∀ m, s.lookup? va = some (some m) → m.isUser = true → s.snapshot.OffPath va m.frame

variable {s t : KernelState} {va : Nat} {e : Entry}

theorem KeepsByte.of_machine (same : t.machine = s.machine) : s.KeepsByte t va :=
  ⟨fun pa _ => by rw [same], fun b => by rw [same]; exact id⟩

theorem KeepsByte.of_removes (h : s.snapshot.Shows va e) (gone : Removes s t va e) :
    s.KeepsByte t va := by
  refine ⟨fun pa reached => ?_, fun b seen => ?_⟩
  · obtain ⟨inside, rfl⟩ := of_access_of_shows h reached
    have near : offset va < pageSize := Nat.mod_lt _ (by decide)
    have inside' : Ram.IsFrame t.snapshot.size e.frame := gone.size ▸ inside
    rw [Machine.loadByte_eq inside near, Machine.loadByte_eq inside' near]
    exact congrArg (fun p : Page => Except.ok (p.byte _)) gone.page
  · rw [Machine.loadVirtual, access_of_lacks gone.lacks] at seen
    cases seen

end KernelState

namespace Kernel

variable {s u : KernelState} {O : Finset Nat} {va : Nat} {e : Entry} {code : UInt32} {value : UInt8}
  {policy : Policy}

theorem userWrite_eq (policy : Policy) (va : Nat) (value : UInt8) :
    userWrite policy va value = (do
      raise policy va
      retry va value) := by
  unfold userWrite raise retry
  rw [bind_assoc]
  congr 1
  funext m
  cases m with
  | none => rfl
  | some m =>
    simp only
    split <;> rfl

theorem userWrite_of_raised (raised : raise policy va s = .ok () u) (value : UInt8) :
    userWrite policy va value s = retry va value u := by
  rw [userWrite_eq, bind_of_ok raised]

theorem raise_of_lacks (h : s.snapshot.Lacks va) (policy : Policy) :
    raise policy va s = discard (pageFault policy va TrapCode.userWriteAbsent) s :=
  bind_of_ok (lookup_of_lacks h) _

theorem raise_of_shows (h : s.snapshot.Shows va e) (policy : Policy) :
    raise policy va s = if e.isWritable && e.isUser then .ok () s
      else discard (pageFault policy va TrapCode.userWriteDenied) s := by
  rw [raise, bind_of_ok (lookup_of_shows h)]
  simp only [Mapping.isWritable_ofEntry, Mapping.isUser_ofEntry]
  cases e.isWritable && e.isUser <;> rfl

/-! ## The second try -/

theorem retry_of_lacks (h : s.snapshot.Lacks va) (value : UInt8) :
    retry va value s = .error (.violation (.unresolvedWrite va)) s := by
  rw [retry, bind_of_ok (lookup_of_lacks h)]
  rfl

section Shown
variable (h : s.snapshot.Shows va e)
include h

theorem retry_of_readOnly (readOnly : e.isWritable = false) (value : UInt8) :
    retry va value s = .error (.violation (.readOnlyWrite va)) s := by
  rw [retry, bind_of_ok (lookup_of_shows h)]
  simp only [Mapping.isWritable_ofEntry, readOnly]
  rfl

theorem retry_of_writable (writable : e.isWritable = true) (value : UInt8) :
    retry va value s = drive (·.storeVirtual va value) s := by
  rw [retry, bind_of_ok (lookup_of_shows h)]
  simp only [Mapping.isWritable_ofEntry, writable, if_true]

end Shown

/-- The store goes through where it can be made by right once the fault is over. -/
theorem store_by_right (h : u.snapshot.Storable va e) (raised : raise .recording va s = .ok () u)
    (value : UInt8) : ∃ t, retry va value u = .ok () t ∧ s.StoresByRight t va value := by
  obtain ⟨t, run, stored, ht⟩ := store_of_shows h.toShows h.inside value
  obtain ⟨found, seen⟩ := seen_of_stored h.toShows h.inside h.off ht
  have writable : (Mapping.ofEntry e).isWritable = true :=
    (Mapping.isWritable_ofEntry e).trans h.writable
  have user : (Mapping.ofEntry e).isUser = true := (Mapping.isUser_ofEntry e).trans h.user
  exact ⟨t, (retry_of_writable h.toShows h.writable value).trans run,
    ⟨u, _, raised, lookup?_of_shows h.toShows, writable, user, stored⟩,
    ⟨_, found, writable, user⟩, seen⟩

/-! ## The fault -/

section Fault
variable (h : s.snapshot.Settled O)
include h

/-- A fault that is handed on changes neither memory nor the books. -/
theorem fault_of_unaccounted (unaccounted : s.snapshot.Unaccounted va code) :
    ∃ u, discard (pageFault .recording va code) s = .ok () u ∧ u.machine = s.machine ∧
      u.snapshot = s.snapshot := by
  obtain ⟨reports, same⟩ := delegate_eq unaccounted
  have run := (pageFault_of_settled h .recording code).trans (same .recording)
  exact ⟨_, bind_of_ok run _, rfl, rfl⟩

/-- Any other ends with a page that can be stored in, or with its page removed. -/
theorem fault_of_accounted (page : s.snapshot.pageAt? va = some e) (user : e.isUser = true)
    (off : s.snapshot.OffPath va e.frame) (counted : s.snapshot.shares.get e.frame ≠ 0)
    (code : UInt32) : Ends (fun t => Removes s t va e) (discard (pageFault .recording va code)) s
      fun _ t => ∃ e', t.snapshot.Storable va e' := by
  refine .discard (.congr ?_ (pageFault_of_settled h .recording code))
  have right : TrapCode.isUser code = true → e.isUser = true := fun _ => user
  obtain lone | several :
      s.snapshot.shares.get e.frame = 1 ∨ 2 ≤ s.snapshot.shares.get e.frame := by omega
  · have shows := h.shows page
    obtain ⟨shows', off'⟩ := shows.granted off
    rw [reaction_of_lone page right lone]
    have grants : Yields (grantWrite (alignDown va) e) s.snapshot ()
        (s.snapshot.grantedAt (alignDown va) e) := by
      refine grantWrite_of_present shows.wired ?_ ?_ <;> rw [dirIndex_alignDown]
      · exact shows.bound
      · exact shows.table
    rw [grantedAt_alignDown] at grants
    refine .bind ((Ends.of_yields grants).mono ?_)
    rintro _ t ⟨-, ht⟩
    refine .pure ⟨_, ht ▸ shows', ?_, ?_, Entry.isWritable_set_writable e, ?_⟩
    · rw [ht, Entry.frame_set_writable]
      exact (h.shared e.frame counted).1
    · rw [ht, Entry.frame_set_writable]
      exact off'
    · rw [Entry.isUser_set_writable]
      exact user
  · rw [reaction_of_several page right several]
    rw [← pageAt?_alignDown] at page
    rw [← offPath_alignDown] at off
    refine .bind ((copyPage_ends h (isAligned_alignDown va) page off several).weaken
      (fun _ gone => gone.of_alignDown) |>.mono ?_)
    rintro _ t ⟨e', storable⟩
    exact .pure ⟨e', storable.of_alignDown⟩

end Fault

/-! ## Stores -/

theorem obeys_of_refused {x : Failure} (raised : raise .recording va s = .ok () u)
    (same : u.machine = s.machine) (fails : retry va value u = .error x u) :
    s.ObeysRights va value :=
  .of_error ((userWrite_of_raised raised value).trans fails) (.of_machine same)

theorem unaccounted_of_kernel (page : s.snapshot.pageAt? va = some e) (kernel : e.isUser = false) :
    s.snapshot.Unaccounted va TrapCode.userWriteDenied := by
  intro e' there
  obtain rfl : e = e' := Option.some.inj (page.symm.trans there)
  exact .inl ⟨by decide, kernel⟩

section Store
variable (h : s.snapshot.Settled O)
include h

theorem lookup?_of_settled (va : Nat) :
    s.lookup? va = some ((s.snapshot.pageAt? va).map .ofEntry) := by
  cases page : s.snapshot.pageAt? va with
  | none => exact KernelState.run'_of_ok (lookup_of_lacks (h.lacks page))
  | some e => exact lookup?_of_shows (h.shows page)

theorem page_of_lookup? {m : Mapping} (found : s.lookup? va = some (some m)) :
    ∃ e, s.snapshot.pageAt? va = some e ∧ .ofEntry e = m := by
  rw [lookup?_of_settled h] at found
  exact Option.map_eq_some_iff.1 (Option.some.inj found)

/-- Where there is no page the fault is handed on, and the store fails. -/
theorem obeys_of_none (page : s.snapshot.pageAt? va = none) (value : UInt8) :
    s.ObeysRights va value := by
  have lacks := h.lacks page
  have unaccounted : s.snapshot.Unaccounted va TrapCode.userWriteAbsent := fun e there => by
    rw [page] at there
    cases there
  obtain ⟨u, fault, same, books⟩ := fault_of_unaccounted h unaccounted
  exact obeys_of_refused ((raise_of_lacks lacks .recording).trans fault) same
    (retry_of_lacks (books ▸ lacks) value)

section Page
variable (page : s.snapshot.pageAt? va = some e)
include page

/-- The fault of a store that is handed on. -/
theorem raise_of_unaccounted (denied : (e.isWritable && e.isUser) = false)
    (unaccounted : s.snapshot.Unaccounted va TrapCode.userWriteDenied) :
    ∃ u, raise .recording va s = .ok () u ∧ u.machine = s.machine ∧ u.snapshot = s.snapshot := by
  obtain ⟨u, fault, same, books⟩ := fault_of_unaccounted h unaccounted
  refine ⟨u, ?_, same, books⟩
  rw [raise_of_shows (h.shows page), denied]
  exact fault

/-- A page that may not be written stays so when its fault is handed on. -/
theorem obeys_of_readOnly (readOnly : e.isWritable = false)
    (unaccounted : s.snapshot.Unaccounted va TrapCode.userWriteDenied) (value : UInt8) :
    s.ObeysRights va value := by
  obtain ⟨u, raised, same, books⟩ := raise_of_unaccounted h page (by rw [readOnly]; rfl) unaccounted
  exact obeys_of_refused raised same (retry_of_readOnly (books ▸ h.shows page) readOnly value)

/-- What is outside memory is not stored in. -/
theorem obeys_of_outside (raised : raise .recording va s = .ok () u) (same : u.machine = s.machine)
    (books : u.snapshot = s.snapshot) (writable : e.isWritable = true)
    (outside : ¬ Ram.IsFrame s.snapshot.size e.frame) (value : UInt8) :
    s.ObeysRights va value := by
  have shows : u.snapshot.Shows va e := books ▸ h.shows page
  obtain ⟨x, run⟩ := store_of_outside shows (books ▸ outside) value
  exact obeys_of_refused raised same ((retry_of_writable shows writable value).trans run)

/-- A user page: the store is made in it, or in its copy, or it fails. -/
theorem obeys_of_user (user : e.isUser = true) (off : s.snapshot.OffPath va e.frame)
    (value : UInt8) : s.ObeysRights va value := by
  have shows := h.shows page
  cases writable : e.isWritable with
  | true =>
    have raised : raise .recording va s = .ok () s := by
      rw [raise_of_shows shows, writable, user]
      rfl
    by_cases inside : Ram.IsFrame s.snapshot.size e.frame
    · obtain ⟨t, run, right⟩ := store_by_right ⟨shows, inside, off, writable, user⟩ raised value
      exact .of_ok ((userWrite_of_raised raised value).trans run) right
    · exact obeys_of_outside h page raised rfl rfl writable inside value
  | false =>
    by_cases counted : s.snapshot.shares.get e.frame = 0
    · refine obeys_of_readOnly h page writable (fun e' there => .inr ?_) value
      obtain rfl : e = e' := Option.some.inj (page.symm.trans there)
      exact counted
    · have raises : Ends (fun t => Removes s t va e) (raise .recording va) s
          fun _ t => ∃ e', t.snapshot.Storable va e' := by
        refine (fault_of_accounted h page user off counted TrapCode.userWriteDenied).congr ?_
        rw [raise_of_shows shows, writable]
        rfl
      rw [KernelState.ObeysRights, userWrite_eq]
      refine .bind ((raises.ran.weaken fun _ => .of_removes shows).mono ?_)
      rintro _ u ⟨raised, e', storable⟩
      obtain ⟨t, run, right⟩ := store_by_right storable raised value
      exact .of_ok run right

/-- A page of the kernel's that may be written is stored in once its fault is handed on. -/
theorem store_in_kernel (kernel : e.isUser = false) (writable : e.isWritable = true)
    (inside : Ram.IsFrame s.snapshot.size e.frame) (value : UInt8) :
    ∃ t, userWrite .recording va value s = .ok () t ∧ t.snapshot = s.snapshot.setPage e.frame
      ((s.snapshot.page e.frame).setByte (offset va) value) := by
  obtain ⟨u, raised, -, books⟩ := raise_of_unaccounted h page (by rw [kernel, Bool.and_false])
    (unaccounted_of_kernel page kernel)
  have shows : u.snapshot.Shows va e := books ▸ h.shows page
  obtain ⟨t, run, -, ht⟩ := store_of_shows shows (books ▸ inside) value
  refine ⟨t, (userWrite_of_raised raised value).trans ?_, by rw [ht, books]⟩
  exact (retry_of_writable shows writable value).trans run

theorem not_obeys_of_kernel (kernel : e.isUser = false) (writable : e.isWritable = true)
    (inside : Ram.IsFrame s.snapshot.size e.frame) (value : UInt8) : ¬ s.ObeysRights va value := by
  intro obeys
  obtain ⟨t, run, -⟩ := store_in_kernel h page kernel writable inside value
  obtain ⟨u, m, raised, found, -, user, -⟩ := (obeys.ok run).right
  obtain ⟨v, raised', -, books⟩ := raise_of_unaccounted h page (by rw [kernel, Bool.and_false])
    (unaccounted_of_kernel page kernel)
  rw [raised] at raised'
  cases raised'
  -- the fault has left the page to the kernel, where the store is made
  rw [lookup?_of_shows (books ▸ h.shows page)] at found
  cases found
  rw [Mapping.isUser_ofEntry, kernel] at user
  cases user

/-- Any other page of the kernel's turns the store away. -/
theorem obeys_of_kernel (kernel : e.isUser = false)
    (never : e.isWritable = true → ¬ Ram.IsFrame s.snapshot.size e.frame) (value : UInt8) :
    s.ObeysRights va value := by
  have unaccounted := unaccounted_of_kernel page kernel
  cases writable : e.isWritable with
  | false => exact obeys_of_readOnly h page writable unaccounted value
  | true =>
    obtain ⟨u, raised, same, books⟩ :=
      raise_of_unaccounted h page (by rw [kernel, Bool.and_false]) unaccounted
    exact obeys_of_outside h page raised same books writable (never writable) value

end Page

/-- A store obeys the rights just where there is no page of the kernel's to store in. -/
theorem obeys_iff (off : s.ShowsOffPath va) (value : UInt8) :
    s.ObeysRights va value ↔ ¬ s.KernelWritable va := by
  constructor
  · rintro obeys ⟨m, found, writable, kernel, inside⟩
    obtain ⟨e, page, rfl⟩ := page_of_lookup? h found
    rw [Mapping.isWritable_ofEntry] at writable
    rw [Mapping.isUser_ofEntry] at kernel
    exact not_obeys_of_kernel h page kernel writable inside value obeys
  · intro never
    cases page : s.snapshot.pageAt? va with
    | none => exact obeys_of_none h page value
    | some e =>
      have found := lookup?_of_shows (h.shows page)
      cases user : e.isUser with
      | true =>
        exact obeys_of_user h page user (off _ found ((Mapping.isUser_ofEntry e).trans user)) value
      | false =>
        refine obeys_of_kernel h page user (fun writable inside => never ⟨_, found, ?_⟩) value
        exact ⟨(Mapping.isWritable_ofEntry e).trans writable,
          (Mapping.isUser_ofEntry e).trans user, inside⟩

end Store

end Kernel

/-! ## Sessions -/

namespace Snapshot.Settled

variable {w : Snapshot} {O : Finset Nat} {va : Nat} {e : Entry} (h : w.Settled O)
  (held : w.KernelHeld O) (page : w.pageAt? va = some e)
include h held page

/-- Callers' frames are neither tables nor the directory. -/
theorem offPath_of_low (low : dirIndex va < mountTableSlot) : w.OffPath va e.frame := by
  obtain ⟨role, stable⟩ := h.stable
  have there := mem_mappings_of_page (has_here stable.live_active low) (tableIndex_lt va) page
  have mine := h.mapping_held held there
  exact ⟨stable.ne_root mine, stable.ne_table mine (stable.table_here low (h.shows page).bound)⟩

/-- The tables that the self-map shows are not the directory, and the directory itself is shown to
the kernel only. -/
theorem offPath_of_user (self : (w.entry w.root selfMapSlot).isUser = false)
    (user : e.isUser = true) : w.OffPath va e.frame := by
  obtain ⟨role, stable⟩ := h.stable
  have shows := h.shows page
  obtain low | mount | top := slot_cases (dirIndex_lt va)
  · exact h.offPath_of_low held page low
  · exact absurd mount (h.dirIndex_ne_mount page)
  · have path : (w.entry w.root (dirIndex va)).frame = w.root := by rw [top, shows.wired.self_frame]
    have leaf := shows.leaf
    rw [path] at leaf
    suffices away : e.frame ≠ w.root from ⟨away, by rwa [path]⟩
    obtain low | mount | top := slot_cases (tableIndex_lt va)
    · subst leaf
      exact stable.table_ne_root (stable.table_here low shows.present)
    · rw [mount] at leaf
      rw [← leaf, shows.wired.mount_frame]
      exact shows.wired.mountTable_ne_root
    · rw [top] at leaf
      rw [leaf, user] at self
      cases self

end Snapshot.Settled

namespace Session

variable {n reserved : Nat} {setup : List (Nat × UInt32)} {σ : Session}

/-- No permitted call touches the last slot of the directory. -/
theorem Shared.self_slot (small : Ram.Addressable n)
    (prepares : KernelState.Prepares n reserved setup) (h : Shared Permits n reserved setup σ) :
    σ.snapshot.entry σ.snapshot.root selfMapSlot = .of Ram.base EntryFlags.kernelData := by
  induction h with
  | boot booted => exact KernelState.boot_self small prepares booted
  | @call σ c r t before allowed answered ih =>
    have settled := before.settled (fun _ _ _ => id) small prepares
    have kept := Call.perform_windows settled allowed σ.state rfl
    rw [answered] at kept
    exact (kept.slots selfMapSlot (by decide) (by decide)).trans ih
  | @counted σ f count t before frame shareable range done ih =>
    change t.snapshot.entry t.snapshot.root selfMapSlot = _
    rw [setShareCount_of_ok done]
    exact ih

theorem Shared.showsOffPath (small : Ram.Addressable n) (h : Shared Permits n 0 [] σ) (va : Nat) :
    σ.state.ShowsOffPath va := by
  have prepares := KernelState.prepares_nil n
  have settled := h.settled (fun _ _ _ => id) small prepares
  have self := h.self_slot small prepares
  intro m found user
  obtain ⟨e, page, rfl⟩ := page_of_lookup? settled found
  rw [Mapping.isUser_ofEntry] at user
  refine settled.offPath_of_user (h.kernelHeld small) page ?_ user
  rw [self]
  decide

/-- In every session, whatever the share counts, at every address and for every value: a store by a
user program is made by right, or it fails and nothing is stored, just where there is no page of the
kernel's that may be written; and into each of those pages it goes, with nothing else changed. Of a
user page that a loader left it is asked that no walk to it reads its frame. -/
theorem Shared.userWrite_obeys_iff (small : Ram.Addressable n)
    (prepares : KernelState.Prepares n reserved setup) (h : Shared Permits n reserved setup σ)
    (va : Nat) (value : UInt8) :
    (reserved = 0 → setup = [] → σ.state.ShowsOffPath va) ∧
    (σ.state.ShowsOffPath va →
      (σ.state.ObeysRights va value ↔ ¬ σ.state.KernelWritable va)) ∧
    ∀ m, σ.state.lookup? va = some (some m) → m.isWritable = true → m.isUser = false →
      Ram.IsFrame σ.snapshot.size m.frame →
      ∃ t, userWrite .recording va value σ.state = .ok () t ∧ t.snapshot = σ.snapshot.setPage
        m.frame ((σ.snapshot.page m.frame).setByte (offset va) value) := by
  have settled := h.settled (fun _ _ _ => id) small prepares
  refine ⟨?_, fun off => obeys_iff settled off value, fun m found writable kernel inside => ?_⟩
  · rintro rfl rfl
    exact h.showsOffPath small va
  · obtain ⟨e, page, rfl⟩ := page_of_lookup? settled found
    rw [Mapping.isWritable_ofEntry] at writable
    rw [Mapping.isUser_ofEntry] at kernel
    exact store_in_kernel settled page kernel writable inside value

/-- A session with a page for user programs and, next to it, one of the kernel's; both may be
written. -/
theorem user_and_kernel_page : ∃ σ τ υ, boot? 8 0 [] = some σ ∧
    σ.next? (.mapFresh 0 0x400000 .userRW) = some τ ∧
    τ.next? (.mapFresh 0 0x401000 .kernelRW) = some υ ∧ Shared Permits 8 0 [] υ ∧
    υ.state.lookup? 0x400abc = some (some ⟨0x103000, Protection.userRW.entryFlags⟩) ∧
    υ.state.lookup? 0x401abc = some (some ⟨0x105000, Protection.kernelRW.entryFlags⟩) ∧
    υ.state.machine.loadVirtual 0x401abc = .ok 0 ∧ Ram.IsFrame υ.snapshot.size 0x105000 := by
  have runs : ((((boot? 8 0 []).bind (·.next? (.mapFresh 0 0x400000 .userRW))).bind
      (·.next? (.mapFresh 0 0x401000 .kernelRW))).filter fun υ =>
        υ.state.lookup? 0x400abc = some (some ⟨0x103000, Protection.userRW.entryFlags⟩) ∧
        υ.state.lookup? 0x401abc = some (some ⟨0x105000, Protection.kernelRW.entryFlags⟩) ∧
        υ.state.machine.loadVirtual 0x401abc = .ok 0).isSome = true := by
    decide +kernel
  obtain ⟨υ, run⟩ := Option.isSome_iff_exists.1 runs
  obtain ⟨run, holds⟩ := Option.filter_eq_some_iff.1 run
  obtain ⟨user, kernel, zero⟩ := of_decide_eq_true holds
  obtain ⟨τ, run, mint'⟩ := Option.bind_eq_some_iff.1 run
  obtain ⟨σ, boot, mint⟩ := Option.bind_eq_some_iff.1 run
  have low : dirIndex 0x400000 < mountTableSlot ∧ dirIndex 0x401000 < mountTableSlot := by decide
  have reaches : Reaches Permits 8 0 [] υ :=
    ((Reaches.of_boot? boot).next? mint low.1).next? mint' low.2
  obtain ⟨-, size⟩ := reaches.settled (fun _ _ _ => id) (by decide) (KernelState.prepares_nil 8)
  exact ⟨σ, τ, υ, boot, mint, mint', .of_reaches reaches, user, kernel, zero,
    size ▸ Ram.isFrame_frameAddress.2 (by decide : 5 < 8)⟩

theorem Shared.userWrite_obeys_iff_mapped : ∃ σ τ υ, boot? 8 0 [] = some σ ∧
    σ.next? (.mapFresh 0 0x400000 .userRW) = some τ ∧
    τ.next? (.mapFresh 0 0x401000 .kernelRW) = some υ ∧ Ram.Addressable 8 ∧
    KernelState.Prepares 8 0 [] ∧ Shared Permits 8 0 [] υ ∧
    υ.state.ShowsOffPath 0x400abc ∧ υ.state.ShowsOffPath 0x401abc ∧
    υ.state.ObeysRights 0x400abc 7 ∧ ¬ υ.state.ObeysRights 0x401abc 7 ∧
    ∃ t, userWrite .recording 0x401abc 7 υ.state = .ok () t ∧ t.snapshot = υ.snapshot.setPage
      0x105000 ((υ.snapshot.page 0x105000).setByte (offset 0x401abc) 7) := by
  obtain ⟨σ, τ, υ, boot, mint, mint', shared, user, kernel, -, inside⟩ := user_and_kernel_page
  have small : Ram.Addressable 8 := by decide
  have prepares := KernelState.prepares_nil 8
  obtain ⟨off, iff, -⟩ := userWrite_obeys_iff small prepares shared 0x400abc 7
  obtain ⟨off', iff', stores⟩ := userWrite_obeys_iff small prepares shared 0x401abc 7
  have never : ¬ υ.state.KernelWritable 0x400abc := by
    rintro ⟨m, found, -, denied, -⟩
    rw [user] at found
    cases found
    exact absurd denied (by decide)
  have writable : υ.state.KernelWritable 0x401abc := ⟨_, kernel, by decide, by decide, inside⟩
  exact ⟨σ, τ, υ, boot, mint, mint', small, prepares, shared, off rfl rfl, off' rfl rfl,
    (iff (off rfl rfl)).2 never, fun obeys => (iff' (off' rfl rfl)).1 obeys writable,
    stores _ kernel (by decide) (by decide) inside⟩

/-- A user program stores to a page of the kernel's: the page stays the kernel's and holds the
value. -/
theorem kernel_page_stored_in : ∃ σ τ υ t, boot? 8 0 [] = some σ ∧
    σ.next? (.mapFresh 0 0x400000 .userRW) = some τ ∧
    τ.next? (.mapFresh 0 0x401000 .kernelRW) = some υ ∧ Shared Permits 8 0 [] υ ∧
    υ.state.lookup? 0x401abc = some (some ⟨0x105000, Protection.kernelRW.entryFlags⟩) ∧
    Mapping.isUser ⟨0x105000, Protection.kernelRW.entryFlags⟩ = false ∧
    υ.state.machine.loadVirtual 0x401abc = .ok 0 ∧
    userWrite .recording 0x401abc 7 υ.state = .ok () t ∧
    t.lookup? 0x401abc = some (some ⟨0x105000, Protection.kernelRW.entryFlags⟩) ∧
    t.machine.loadVirtual 0x401abc = .ok 7 ∧ ¬ υ.state.ObeysRights 0x401abc 7 := by
  obtain ⟨σ, τ, υ, boot, mint, mint', shared, -, found, zero, inside⟩ := user_and_kernel_page
  have small : Ram.Addressable 8 := by decide
  have low : dirIndex 0x401abc < mountTableSlot := by decide
  have settled := shared.settled (fun _ _ _ => id) small (KernelState.prepares_nil 8)
  obtain ⟨e, page, same⟩ := page_of_lookup? settled found
  have frame : e.frame = 0x105000 := congrArg Mapping.frame same
  have writable : e.isWritable = true := by
    rw [← Mapping.isWritable_ofEntry, same]
    decide
  have kernel : e.isUser = false := by
    rw [← Mapping.isUser_ofEntry, same]
    decide
  rw [← frame] at inside
  have off := settled.offPath_of_low (shared.kernelHeld small) page low
  obtain ⟨t, run, ht⟩ := store_in_kernel settled page kernel writable inside 7
  obtain ⟨still, seven⟩ := seen_of_stored (settled.shows page) inside off ht
  exact ⟨σ, τ, υ, t, boot, mint, mint', shared, found, by decide, zero, run, same ▸ still, seven,
    not_obeys_of_kernel settled page kernel writable inside 7⟩

end Session
end VirtualMemory
