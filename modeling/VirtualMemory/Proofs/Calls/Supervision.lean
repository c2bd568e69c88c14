import VirtualMemory.Proofs.Calls.Pages

/-!
# Pages of the kernel's at a fault

A page is open to user programs if both its slot and its entry have the user right. A fault that is
resolved in place opens none, and neither does one that is handed on and left alone. But a private
copy is mapped with every right, whoever the page was for: kernel accesses are not turned away from
pages without the user right, and no access is from those whose slot is without it.
-/
namespace VirtualMemory

open Layout Snapshot Kernel

namespace Snapshot

/-- User programs reach the page at entry `t` of a place. -/
def OpenAt (w : Snapshot) (π : Place) (t : Nat) : Prop :=
  (w.slotAt π).isUser = true ∧ ∃ e, w.leaf? π t = some e ∧ e.isUser = true

/-- Some page is open in `v` that was not in `w`. -/
def Opens (w v : Snapshot) : Prop :=
  ∃ π t, w.Has π ∧ t < tableEntries ∧ v.OpenAt π t ∧ ¬ w.OpenAt π t

variable {w v : Snapshot} {O : Finset Nat} {π : Place} {d t va : Nat} {e : Entry}

/-- A fault at the page `e` puts a copy in its place: the access may go there, and the frame is
counted more than once. -/
def Copies (w : Snapshot) (code : UInt32) (e : Entry) : Prop :=
  (TrapCode.isUser code = true → e.isUser = true) ∧ 2 ≤ w.shares.get e.frame

/-- What a fault at `va` does to the rights of user programs: a page of the kernel's becomes theirs
just where the access is the kernel's and the frame is counted more than once, and a page is opened
just where the one at fault is copied and was not open. -/
structure Supervises (w v : Snapshot) (va : Nat) (code : UInt32) : Prop where
  kernel : ∀ e, w.pageAt? va = some e → e.isUser = false → ∃ e', v.pageAt? va = some e' ∧
    (e'.isUser = true ↔ TrapCode.isUser code = false ∧ 2 ≤ w.shares.get e.frame)
  opens : w.Opens v ↔ ∃ e, w.pageAt? va = some e ∧ w.Copies code e ∧
    ¬ ((w.entry w.root (dirIndex va)).isUser = true ∧ e.isUser = true)

theorem not_opens (slot : ∀ π, w.Has π → (v.slotAt π).isUser = (w.slotAt π).isUser)
    (leaf : ∀ π t e, w.Has π → t < tableEntries → v.leaf? π t = some e →
      ∃ e', w.leaf? π t = some e' ∧ e'.isUser = e.isUser) : ¬ w.Opens v := by
  rintro ⟨π, t, hπ, ht, ⟨user, e, page, user'⟩, closed⟩
  obtain ⟨e', page', same⟩ := leaf π t e hπ ht page
  exact closed ⟨slot π hπ ▸ user, e', page', same.trans user'⟩

/-- The directory with a page opened at `va`, and nothing else new. -/
structure Exposes (w v : Snapshot) (va : Nat) : Prop where
  here : (v.slotAt (w.here (dirIndex va))).isUser = true
  elsewhere : ∀ π, w.Has π → π ≠ w.here (dirIndex va) → v.slotAt π = w.slotAt π

/-- After a copy, a page is open that was not where the copied page was not. -/
theorem Exposes.opens_iff {e' : Entry} (h : w.Exposes v va) (hd : dirIndex va < mountTableSlot)
    (active : w.Live w.spaces.active) (page : w.pageAt? va = some e) (user : e'.isUser = true)
    (leaf : ∀ π t, w.Has π → t < tableEntries → v.leaf? π t = w.pagesAt va e' π t) :
    w.Opens v ↔ ¬ ((w.entry w.root (dirIndex va)).isUser = true ∧ e.isUser = true) := by
  have has := has_here active hd
  have ht := tableIndex_lt va
  rw [← slotAt_here]
  constructor
  · rintro ⟨π, t, hπ, ht', ⟨slot, e'', now, right⟩, closed⟩ ⟨open_, open_'⟩
    rw [leaf π t hπ ht', pagesAt, pagesWith] at now
    by_cases same : π = w.here (dirIndex va) ∧ t = tableIndex va
    · obtain ⟨rfl, rfl⟩ := same
      exact closed ⟨open_, e, page, open_'⟩
    · rw [if_neg same] at now
      refine closed ⟨?_, e'', now, right⟩
      by_cases here : π = w.here (dirIndex va)
      · rw [here]
        exact open_
      · rwa [h.elsewhere π hπ here] at slot
  · intro closed
    refine ⟨_, tableIndex va, has, ht, ⟨h.here, e', ?_, user⟩, ?_⟩
    · rw [leaf _ _ has ht, pagesAt, pagesWith, if_pos ⟨rfl, rfl⟩]
    · rintro ⟨slot, e'', there, right⟩
      obtain rfl : e = e'' := Option.some.inj (page.symm.trans there)
      exact closed ⟨slot, right⟩

end Snapshot

theorem Snapshot.Settled.tallied {w : Snapshot} {O : Finset Nat} {d : Nat} (h : w.Settled O)
    (hd : d < mountTableSlot) (present : (w.entry w.root d).isPresent = true) :
    w.Tallied (w.entry w.root d).frame := by
  obtain ⟨role, stable⟩ := h.stable
  have table := stable.table_here hd present
  exact ⟨stable.isFrame (by simp [table]), stable.count _ _ table⟩

theorem Snapshot.Settled.lookup?_eq {s : KernelState} {O : Finset Nat} {va : Nat}
    (h : s.snapshot.Settled O) (hd : dirIndex va < mountTableSlot) :
    s.lookup? va = some ((s.snapshot.pageAt? va).map .ofEntry) := by
  rw [KernelState.lookup?_eq h.charted.wired.selfMapped, look_here (h.tallied hd)]
  rfl

namespace Kernel

variable {w : Snapshot} {O : Finset Nat} {s t : KernelState} {d i f va : Nat} {e : Entry}
  {code : UInt32} {o : FaultOutcome}

/-- What is known of the snapshots that an action can end in holds of the one it ends in. -/
theorem Yields.also {α : Type} {E : Failure → Books → Prop} {x : Kernel α} {a : α} {v : Snapshot}
    {Q : α → Snapshot → Prop} (h : Yields x w a v) (h' : Leads E x w Q) :
    Leads E x w fun b u => Q b u ∧ u = v :=
  h'.both (h.leads (E := E) rfl)

/-- Mapping where there is neither a table nor a frame for one does not end. -/
theorem map_starves {E : Failure → Books → Prop} {Q : Unit → Snapshot → Prop} (hw : w.Wired)
    (hd : d < tableEntries) (hi : i < tableEntries) (aligned : isAligned f = true)
    (absent : (w.entry w.root d).isPresent = false) (empty : w.free = []) (prot : Protection)
    (out : E (.halt .outOfFrames) w.toBooks) : Leads E (map f d i prot) w Q := by
  rw [map_eq hd hi aligned]
  refine (slot_yields hw hd).bind (.ite (fun _ => ?_) fun there => by simp [absent] at there)
  refine .bind (acquire_leads hw (by simp [empty]) (fun _ => out) fun g rest first => ?_)
  rw [empty] at first
  cases first

/-- A copy opens the slot of its page. -/
theorem installCopy_exposes (h : w.Charted) (hd : dirIndex va < mountTableSlot)
    (off : offset va = 0)
    (tallied : (w.entry w.root (dirIndex va)).isPresent = true →
      w.Tallied (w.entry w.root (dirIndex va)).frame) {copy : Nat}
    (inside : Ram.IsFrame w.size copy) (unreserved : ¬ w.Reserved copy)
    (source : Ram.IsFrame w.size f) (hm : f ≠ mountTable) :
    Leads (fun f _ => f = .halt .outOfFrames) (installCopy va f copy) w
      fun _ v => w.Exposes v va := by
  have hd' := dirIndex_lt va
  have hi := tableIndex_lt va
  refine .bind (.attempt (Q := fun _ v => w.Installs v copy (dirIndex va) (tableIndex va) .userRWX)
    (E := fun f _ => f = .halt .outOfFrames) ?_ (fun _ _ => nofun) ?_)
  · by_cases room : (w.entry w.root (dirIndex va)).isPresent = false → w.free ≠ []
    · obtain ⟨v, maps, installs⟩ := map_installs h hd hi tallied room inside.1
        (h.wired.lt_limit inside) .userRWX
      exact maps.leads installs
    · push Not at room
      exact map_starves h.wired hd' hi inside.1 room.1 room.2 .userRWX rfl
  · intro _ v installs
    have wired := installs.charted.wired
    have root : copy ≠ v.root := fun eq => unreserved (.inl (eq.trans installs.root))
    have dirs (p : Nat) (r : SpaceRecord) (hr : v.spaces.find? p = some r) : r.directory ≠ copy :=
      fun eq => unreserved (.inr (.inr ⟨p, r, installs.spaces ▸ hr, eq⟩))
    have found := installs.look _ _ (has_here h.active hd).shown hi
    rw [if_pos ⟨rfl, rfl⟩, ← here_congr installs.spaces] at found
    obtain ⟨table, leaf⟩ := of_look_here found
    obtain ⟨e, leaf, same⟩ := Option.map_eq_some_iff.1 leaf
    have frame : e.frame = copy := congrArg Mapping.frame same
    obtain ⟨present, there, entry⟩ := leaf?_eq_some.1 leaf
    rw [leafAt, slotAt_here] at entry
    rw [slotAt_here] at present
    have reached := access_yields wired rfl present (table present) entry there
      (by rw [frame, installs.size]; exact inside)
    rw [frame, off, Nat.add_zero] at reached
    refine (invalidatePage_yields _ _).bind (reached.bind ?_)
    refine (copyFrame_yields wired (installs.size ▸ source) hm (installs.size ▸ inside) root
      fun eq => unreserved (.inr (.inl eq))).bind ?_
    refine (countPageCopy_yields _).bind ((note_yields _ _).leads ⟨?_, fun π hπ other => ?_⟩)
    · rw [slotAt_setPage root dirs, ← here_congr installs.spaces, slotAt_here, installs.root,
        installs.rights.2]
      exact Bool.or_true _
    · rw [slotAt_setPage root dirs]
      exact installs.slotAt h hd hπ other

/-- A page that is replaced by a copy leaves its slot open, and all other slots as they were. -/
theorem copyPage_exposes (h : w.Settled O) (aligned : isAligned va = true)
    (hd : dirIndex va < mountTableSlot) (several : 2 ≤ w.shares.get e.frame) :
    Leads (fun _ _ => True) (copyPage .recording va e.frame) w fun _ v => w.Exposes v va := by
  obtain ⟨inside, hm⟩ := h.shared e.frame (by omega)
  have off : offset va = 0 := by rw [← alignDown_eq_self aligned, offset_alignDown]
  have counted := h.setShare inside hm (w.shares.get e.frame - 1)
  obtain ⟨v, unmaps, clears⟩ := unmap_clears counted.charted hd (counted.tallied hd) aligned
  rw [copyPage_eq]
  refine (unshareFrame_yields (by omega)).bind ?_
  refine .bind ((unmaps.also (unmap_leads counted aligned hd)).mono ?_)
  rintro _ v ⟨⟨settled, -⟩, rfl⟩
  refine .bind (.bind (acquireRaw_leads (fun _ => trivial) fun copy rest first => ?_))
  refine .bind (shareFrame_leads (fun _ => trivial) (.pure ?_))
  set x := v.book { v.toBooks with
    free := rest
    shares := v.shares.set copy (v.shares.get copy + 1) }
  obtain ⟨handed, unreserved, -⟩ := clears.charted.free copy (first ▸ List.mem_cons_self)
  have charted : x.Charted :=
    clears.charted.rebook rfl rfl (first ▸ List.sublist_cons_self copy rest)
  have tallied (present : (x.entry x.root (dirIndex va)).isPresent = true) :
      x.Tallied (x.entry x.root (dirIndex va)).frame := by
    have old := settled.tallied hd present
    exact ⟨old.inside, old.count⟩
  have size : x.size = w.size := clears.size
  refine ((installCopy_exposes charted hd off tallied handed unreserved (size ▸ inside) hm).weaken
    fun _ _ _ => trivial).mono fun _ y exposes => ?_
  have here : x.here (dirIndex va) = w.here (dirIndex va) := here_congr clears.spaces _
  refine ⟨here ▸ exposes.here, fun π hπ other => ?_⟩
  have has : x.Has π := (has_congr clears.spaces π).2 hπ
  have before : x.slotAt π = v.slotAt π := slotAt_book (w := v) rfl π
  rw [exposes.elsewhere π has (here ▸ other), before,
    clears.slotAt counted.charted hd hπ other]
  exact slotAt_book rfl π

/-- The write right opens nothing. -/
theorem grantWrite_not_opens (h : s.snapshot.Settled O) (hd : dirIndex va < mountTableSlot)
    (page : s.snapshot.pageAt? va = some e) (run : grantWrite va e s = .ok () t) :
    t.snapshot.pageAt? va = some (e.set EntryFlags.writable) ∧ ¬ s.snapshot.Opens t.snapshot := by
  obtain ⟨role, stable⟩ := h.stable
  have leads := grantWrite_leads (E := fun _ _ => True) h hd page s rfl
  obtain ⟨u, run', now⟩ := grantWrite_yields stable.toSound hd page s rfl
  rw [run] at leads run'
  cases run'
  have leaf := leads.2.leaf
  refine ⟨h.pageAt?_of hd leads.2.spaces leaf,
    not_opens (fun π hπ => ?_) fun π i e' hπ hi there => ?_⟩
  · have charted := h.charted
    obtain ⟨present, -⟩ := bound_of_leaf? stable.toSound hd page
    have dirs := charted.ne_directory (has_here charted.active hd) (slotAt_here.symm ▸ present)
    rw [slotAt_here] at dirs
    have slot : t.snapshot.slotAt π = if π = s.snapshot.here (dirIndex va) then
        (s.snapshot.entry s.snapshot.root (dirIndex va)).set EntryFlags.writable
        else s.snapshot.slotAt π := by
      rw [now]
      exact (slotAt_setPage (w := s.snapshot.setEntry s.snapshot.root (dirIndex va) _)
        (charted.here_ne_root hd present) dirs _ π).trans (slotAt_setSlot charted.housed hd _ hπ)
    rw [slot]
    split
    · rename_i here
      rw [here, slotAt_here, Entry.isUser_set_writable]
    · rfl
  · rw [leaf π i hπ hi, pagesWith] at there
    split at there
    · rename_i here
      cases there
      rw [here.1, here.2]
      exact ⟨e, page, (Entry.isUser_set_writable e).symm⟩
    · exact ⟨e', there, rfl⟩

/-! A fault is handed on, or the page may be written in place, or it is copied. -/

section Fault
variable (h : s.snapshot.Settled O) (hd : dirIndex va < mountTableSlot)
  (run : pageFault .recording va code s = .ok o t)
include h hd run

/-- A fault that the recording policy is asked about is only recorded. -/
theorem supervises_of_unaccounted (unaccounted : s.snapshot.Unaccounted va code) :
    s.snapshot.Supervises t.snapshot va code := by
  obtain ⟨role, stable⟩ := h.stable
  obtain ⟨reports, same⟩ := delegate_eq unaccounted
  rw [pageFault_eq stable.toSound hd, same] at run
  cases run
  refine ⟨fun e page denied => ⟨e, page, ?_⟩,
    iff_of_false (not_opens (fun _ _ => rfl) fun _ _ e _ _ there => ⟨e, there, rfl⟩) ?_⟩
  · rw [denied]
    refine iff_of_false nofun ?_
    rintro ⟨kernel, several⟩
    obtain ⟨user, -⟩ | zero := unaccounted e page
    · rw [kernel] at user
      cases user
    · omega
  · rintro ⟨e, page, ⟨right, several⟩, -⟩
    obtain ⟨user, denied⟩ | zero := unaccounted e page
    · rw [right user] at denied
      cases denied
    · omega

variable (page : s.snapshot.pageAt? va = some e)
  (right : TrapCode.isUser code = true → e.isUser = true)
include page right

theorem supervises_of_lone (lone : s.snapshot.shares.get e.frame = 1) :
    s.snapshot.Supervises t.snapshot va code := by
  obtain ⟨role, stable⟩ := h.stable
  rw [pageFault_eq stable.toSound hd, reaction_of_lone page right lone] at run
  obtain ⟨⟨⟩, u, granted, rest⟩ := bind_eq_ok.1 run
  cases rest
  obtain ⟨now, closed⟩ := grantWrite_not_opens h (by rwa [dirIndex_alignDown])
    (by rwa [pageAt?_alignDown]) granted
  rw [pageAt?_alignDown] at now
  refine ⟨fun e' page' denied => ⟨_, now, ?_⟩, iff_of_false closed ?_⟩
  · obtain rfl : e = e' := Option.some.inj (page.symm.trans page')
    rw [Entry.isUser_set_writable, denied]
    exact iff_of_false nofun fun both => by omega
  · rintro ⟨e', page', ⟨-, several⟩, -⟩
    obtain rfl : e = e' := Option.some.inj (page.symm.trans page')
    omega

theorem supervises_of_several (several : 2 ≤ s.snapshot.shares.get e.frame) :
    s.snapshot.Supervises t.snapshot va code := by
  obtain ⟨role, stable⟩ := h.stable
  have hd' : dirIndex (alignDown va) < mountTableSlot := by rwa [dirIndex_alignDown]
  have aligned := isAligned_alignDown va
  rw [pageFault_eq stable.toSound hd, reaction_of_several page right several] at run
  obtain ⟨⟨⟩, u, copied, rest⟩ := bind_eq_ok.1 run
  cases rest
  have leads := copyPage_leads h aligned (offset_alignDown va) hd' several s rfl
  have exposes := copyPage_exposes h aligned hd' several s rfl
  rw [copied] at leads exposes
  obtain ⟨copy, replaced⟩ := leads
  have now := h.pageAt?_of hd' replaced.spaces replaced.leaf
  rw [pageAt?_alignDown] at now
  have user : (Entry.of copy Protection.userRWX.entryFlags).isUser = true := by
    rw [Entry.isUser_of (replaced.frame ▸ Entry.frame_aligned _)]
    decide
  have opens := exposes.opens_iff hd' stable.live_active (by rwa [pageAt?_alignDown]) user
    replaced.leaf
  rw [dirIndex_alignDown] at opens
  refine ⟨fun e' page' denied => ⟨_, now, iff_of_true user ⟨?_, ?_⟩⟩,
    opens.trans ⟨fun closed => ⟨e, page, ⟨right, several⟩, closed⟩, ?_⟩⟩
  · obtain rfl : e = e' := Option.some.inj (page.symm.trans page')
    by_contra code
    rw [right (by simpa using code)] at denied
    cases denied
  · obtain rfl : e = e' := Option.some.inj (page.symm.trans page')
    exact several
  · rintro ⟨e', page', -, closed⟩
    obtain rfl : e = e' := Option.some.inj (page.symm.trans page')
    exact closed

omit page right

theorem pageFault_supervises : s.snapshot.Supervises t.snapshot va code := by
  by_cases unaccounted : s.snapshot.Unaccounted va code
  · exact supervises_of_unaccounted h hd run unaccounted
  · obtain ⟨e, page, right, counted⟩ := exists_of_accounted unaccounted
    obtain lone | several :
        s.snapshot.shares.get e.frame = 1 ∨ 2 ≤ s.snapshot.shares.get e.frame := by omega
    · exact supervises_of_lone h hd run page right lone
    · exact supervises_of_several h hd run page right several

end Fault
end Kernel

namespace Session

variable {n reserved : Nat} {setup : List (Nat × UInt32)} {σ : Session} {va : Nat} {code : UInt32}
  {o : FaultOutcome} {t : KernelState}

/-- In every session, whatever the share counts and the code: a fault makes a page of the kernel's
one for user programs if the access came from the kernel and the page's frame is counted more than
once, and not otherwise; and it opens any page, in whichever space, if the page at fault is copied
and was not open itself, and not otherwise. -/
theorem Shared.fault_opens_iff (small : Ram.Addressable n)
    (prepares : KernelState.Prepares n reserved setup) (h : Shared Permits n reserved setup σ)
    (hd : dirIndex va < mountTableSlot)
    (run : pageFault .recording va code σ.state = .ok o t) :
    (∀ m, σ.state.lookup? va = some (some m) → m.isUser = false →
      ∃ m', t.lookup? va = some (some m') ∧
        (m'.isUser = true ↔ TrapCode.isUser code = false ∧ 2 ≤ σ.snapshot.shares.get m.frame)) ∧
    (σ.snapshot.Opens t.snapshot ↔ ∃ m, σ.state.lookup? va = some (some m) ∧
      (TrapCode.isUser code = true → m.isUser = true) ∧ 2 ≤ σ.snapshot.shares.get m.frame ∧
      ¬ ((σ.snapshot.entry σ.snapshot.root (dirIndex va)).isUser = true ∧ m.isUser = true)) := by
  have settled := h.settled (fun _ _ _ => id) small prepares
  have ends := pageFault_leads settled hd code σ.state rfl
  rw [run] at ends
  obtain ⟨supervised, opens⟩ := pageFault_supervises settled hd run
  rw [settled.lookup?_eq hd, (ends.settled settled).lookup?_eq hd]
  refine ⟨fun m found denied => ?_, opens.trans ⟨?_, ?_⟩⟩
  · obtain ⟨e, page, rfl⟩ := Option.map_eq_some_iff.1 (Option.some.inj found)
    rw [Mapping.isUser_ofEntry] at denied
    obtain ⟨e', page', iff⟩ := supervised e page denied
    exact ⟨.ofEntry e', by rw [page']; rfl, by rw [Mapping.isUser_ofEntry]; exact iff⟩
  · rintro ⟨e, page, ⟨right, several⟩, closed⟩
    refine ⟨.ofEntry e, by rw [show σ.state.snapshot.pageAt? va = some e from page]; rfl, ?_⟩
    rw [Mapping.isUser_ofEntry]
    exact ⟨right, several, closed⟩
  · rintro ⟨m, found, right, several, closed⟩
    obtain ⟨e, page, rfl⟩ := Option.map_eq_some_iff.1 (Option.some.inj found)
    rw [Mapping.isUser_ofEntry] at right closed
    exact ⟨e, page, ⟨right, several⟩, closed⟩

/-- A session with one page of the kernel's whose frame is said to be shared: the kernel writes to
it. -/
theorem kernel_page_shared : ∃ σ τ s t, boot? 8 0 [] = some σ ∧
    σ.next? (.mapFresh 0 0x400000 .kernelRW) = some τ ∧
    setShareCount 0x103000 2 τ.state = .ok () s ∧ Shared Permits 8 0 [] ⟨s, τ.held⟩ ∧
    s.lookup? 0x400abc = some (some ⟨0x103000, Protection.kernelRW.entryFlags⟩) ∧
    s.snapshot.shares.get 0x103000 = 2 ∧
    pageFault .recording 0x400abc 0x3 s = .ok .copied t := by
  have runs : (((boot? 8 0 []).bind (·.next? (.mapFresh 0 0x400000 .kernelRW))).filter fun τ =>
      let s := { τ.state with shares := τ.state.shares.set 0x103000 2 }
      s.lookup? 0x400abc = some (some ⟨0x103000, Protection.kernelRW.entryFlags⟩) ∧
        EStateM.run' (pageFault .recording 0x400abc 0x3) s = some .copied).isSome = true := by
    decide +kernel
  obtain ⟨τ, run⟩ := Option.isSome_iff_exists.1 runs
  obtain ⟨run, holds⟩ := Option.filter_eq_some_iff.1 run
  obtain ⟨page, answered⟩ := of_decide_eq_true holds
  obtain ⟨σ, boot, mint⟩ := Option.bind_eq_some_iff.1 run
  obtain ⟨t, done⟩ := ok_of_run' answered
  set s := { τ.state with shares := τ.state.shares.set 0x103000 2 }
  have counted : setShareCount 0x103000 2 τ.state = .ok () s := rfl
  have low : dirIndex 0x400000 < mountTableSlot := by decide
  have reaches : Reaches Permits 8 0 [] τ := (Reaches.of_boot? boot).next? mint low
  obtain ⟨-, size⟩ := reaches.settled (fun _ _ _ => id) (by decide) (KernelState.prepares_nil 8)
  have shared := (Shared.of_reaches reaches).counted (f := 0x103000)
    (size ▸ Ram.isFrame_frameAddress.2 (by decide : 3 < 8)) (by decide) (by decide) counted
  exact ⟨σ, τ, s, t, boot, mint, counted, shared, page, (Shares.get_set ..).trans (if_pos rfl),
    done⟩

theorem Shared.fault_opens_iff_shared : ∃ σ τ s t, boot? 8 0 [] = some σ ∧
    σ.next? (.mapFresh 0 0x400000 .kernelRW) = some τ ∧ Ram.Addressable 8 ∧
    KernelState.Prepares 8 0 [] ∧ Shared Permits 8 0 [] ⟨s, τ.held⟩ ∧
    dirIndex 0x400abc < mountTableSlot ∧ pageFault .recording 0x400abc 0x3 s = .ok .copied t ∧
    (∃ m, t.lookup? 0x400abc = some (some m) ∧ m.isUser = true) ∧ s.snapshot.Opens t.snapshot := by
  obtain ⟨σ, τ, s, t, boot, mint, -, shared, page, several, run⟩ := kernel_page_shared
  have small : Ram.Addressable 8 := by decide
  have prepares := KernelState.prepares_nil 8
  have low : dirIndex 0x400abc < mountTableSlot := by decide
  obtain ⟨supervised, opens⟩ := fault_opens_iff small prepares shared low run
  obtain ⟨m, found, right⟩ := supervised _ page (by decide)
  exact ⟨σ, τ, s, t, boot, mint, small, prepares, shared, low, run,
    ⟨m, found, right.2 ⟨by decide, several.ge⟩⟩,
    opens.2 ⟨_, page, by decide, several.ge, fun both => absurd both.2 (by decide)⟩⟩

/-- The kernel writes to a page of its own whose frame is said to be shared. After that the page is
one that user programs may read, write and run. -/
theorem kernel_fault_opens_page : ∃ σ τ s t, boot? 8 0 [] = some σ ∧
    σ.next? (.mapFresh 0 0x400000 .kernelRW) = some τ ∧
    setShareCount 0x103000 2 τ.state = .ok () s ∧ Shared Permits 8 0 [] ⟨s, τ.held⟩ ∧
    TrapCode.isUser 0x3 = false ∧
    s.lookup? 0x400abc = some (some ⟨0x103000, Protection.kernelRW.entryFlags⟩) ∧
    Mapping.isUser ⟨0x103000, Protection.kernelRW.entryFlags⟩ = false ∧
    pageFault .recording 0x400abc 0x3 s = .ok .copied t ∧
    ∃ m, t.lookup? 0x400abc = some (some m) ∧ m.isUser = true := by
  obtain ⟨σ, τ, s, t, boot, mint, counted, shared, page, several, run⟩ := kernel_page_shared
  have settled := shared.settled (fun _ _ _ => id) (by decide) (KernelState.prepares_nil 8)
  have low : dirIndex 0x400abc < mountTableSlot := by decide
  have ends := pageFault_leads settled low 0x3 s rfl
  rw [run] at ends
  obtain ⟨supervised, -⟩ := pageFault_supervises settled low run
  have found := page
  rw [settled.lookup?_eq low] at found
  obtain ⟨e, there, same⟩ := Option.map_eq_some_iff.1 (Option.some.inj found)
  have denied : e.isUser = false := by
    rw [← Mapping.isUser_ofEntry, same]
    decide
  obtain ⟨e', now, right⟩ := supervised e there denied
  have several' : 2 ≤ s.snapshot.shares.get e.frame := by
    rw [show e.frame = 0x103000 from congrArg Mapping.frame same]
    exact several.ge
  refine ⟨σ, τ, s, t, boot, mint, counted, shared, by decide, page, by decide, run, .ofEntry e', ?_,
    by rw [Mapping.isUser_ofEntry]; exact right.2 ⟨by decide, several'⟩⟩
  rw [(ends.settled settled).lookup?_eq low, now]
  rfl

end Session
end VirtualMemory
