import VirtualMemory.Fault.UserWrite
import VirtualMemory.Proofs.Operations.Ranges

/-!
# Faults and stores

A fault leaves everything as it is, gives one page its write right back, or puts a private copy in
the page's place. The copy is a frame nobody has known, even where it is the table that the page
was the last entry of.
-/
namespace VirtualMemory

open Layout

theorem Layout.offset_alignDown (va : Nat) : offset (alignDown va) = 0 := by
  simp only [offset, alignDown, pageSize]
  omega

namespace Snapshot

/-- The page at `va` of the resident space. -/
def pageAt? (w : Snapshot) (va : Nat) : Option Entry :=
  w.leaf? (w.here (dirIndex va)) (tableIndex va)

/-- The pages with a new one at `va`. -/
def pagesAt (w : Snapshot) (va : Nat) (e : Entry) : Place → Nat → Option Entry :=
  w.pagesWith (w.here (dirIndex va)) (tableIndex va) (some e)

/-- The frames in `O` and the one behind `va`. -/
def withPageAt (w : Snapshot) (va : Nat) (O : Finset Nat) : Finset Nat :=
  (w.pageAt? va).elim O fun e => insert e.frame O

/-- The page `e` at `va` was replaced by `copy`, a frame with the same contents. -/
structure Copied (w v : Snapshot) (O : Finset Nat) (va : Nat) (e : Entry) (copy : Nat) : Prop where
  fresh : copy ∉ O
  settled : v.Settled (insert copy O)
  frame : (Entry.of copy Protection.userRWX.entryFlags).frame = copy
  size : v.size = w.size
  spaces : v.spaces = w.spaces
  shares : ∃ c : Shares, c = w.shares.set e.frame (w.shares.get e.frame - 1) ∧
    v.shares = c.set copy (c.get copy + 1)
  leaf : ∀ π t, w.Has π → t < tableEntries →
    v.leaf? π t = w.pagesAt va (.of copy Protection.userRWX.entryFlags) π t
  data : ∀ f ∈ O, v.page f = w.page f
  content : e.frame ∈ O → v.page copy = w.page e.frame
  upholds : w.Upholds v

/-- What a fault at `va` may leave behind, and which frames callers hold then. -/
inductive Resolved (w : Snapshot) (O : Finset Nat) (va : Nat) : Snapshot → Finset Nat → Prop where
  | untouched : Resolved w O va w O
  | granted {v : Snapshot} {e : Entry} (page : w.pageAt? va = some e)
      (lone : w.shares.get e.frame = 1) (settled : v.Settled O)
      (pages : w.Remaps v O (w.pagesAt va (e.set EntryFlags.writable))) : Resolved w O va v O
  | copied {v : Snapshot} {e : Entry} {copy : Nat} (page : w.pageAt? va = some e)
      (several : 2 ≤ w.shares.get e.frame) (replaced : w.Copied v O va e copy) :
      Resolved w O va v (insert copy O)

/-- A byte was stored at `va` in the frame `f` that is behind it already, whatever rights the page
was given before that. -/
def StoredInPlace (w v : Snapshot) (O : Finset Nat) (va f : Nat) (value : UInt8) : Prop :=
  ∃ u e, u.Settled O ∧ w.Rewrites u O (w.pagesAt va e) ∧ e.frame = f ∧
    v = u.setPage f ((u.page f).setByte (offset va) value)

variable {w v : Snapshot} {O Q : Finset Nat} {va : Nat}

theorem Resolved.settled (h : w.Settled O) (r : w.Resolved O va v Q) : v.Settled Q := by
  cases r with
  | untouched => exact h
  | granted _ _ settled => exact settled
  | copied _ _ replaced => exact replaced.settled

theorem Resolved.size (r : w.Resolved O va v Q) : v.size = w.size := by
  cases r with
  | untouched => rfl
  | granted _ _ _ pages => exact pages.size
  | copied _ _ replaced => exact replaced.size

theorem Resolved.upholds (r : w.Resolved O va v Q) : w.Upholds v := by
  cases r with
  | untouched => exact .refl w
  | granted _ _ _ pages => exact pages.toUpholds
  | copied _ _ replaced => exact replaced.upholds

theorem Resolved.spaces (r : w.Resolved O va v Q) : v.spaces = w.spaces := by
  cases r with
  | untouched => rfl
  | granted _ _ _ pages => exact pages.spaces
  | copied _ _ replaced => exact replaced.spaces

theorem pageAt?_alignDown (w : Snapshot) (va : Nat) : w.pageAt? (alignDown va) = w.pageAt? va := by
  rw [pageAt?, dirIndex_alignDown, tableIndex_alignDown, pageAt?]

theorem pagesAt_alignDown (w : Snapshot) (va : Nat) : w.pagesAt (alignDown va) = w.pagesAt va := by
  funext e
  rw [pagesAt, dirIndex_alignDown, tableIndex_alignDown, pagesAt]

theorem Copied.at_alignDown {e : Entry} {copy : Nat} (c : w.Copied v O (alignDown va) e copy) :
    w.Copied v O va e copy :=
  { c with leaf := pagesAt_alignDown w va ▸ c.leaf }

/-- What is seen where the page was written is what was written there. -/
theorem Settled.pageAt?_of (h : w.Settled O) (hd : dirIndex va < mountTableSlot)
    (spaces : v.spaces = w.spaces) {new : Option Entry} (leaf : ∀ π t, w.Has π → t < tableEntries →
      v.leaf? π t = w.pagesWith (w.here (dirIndex va)) (tableIndex va) new π t) :
    v.pageAt? va = new := by
  obtain ⟨role, stable⟩ := h.stable
  rw [pageAt?, here_congr spaces, leaf _ _ (has_here stable.live_active hd) (tableIndex_lt va),
    pagesWith, if_pos ⟨rfl, rfl⟩]

theorem dirIndex_user (user : va < kernelStart) : dirIndex va < userSlots := by
  simp only [dirIndex, kernelStart, userSlots] at *
  omega

/-- The user half is clear of the window slots. -/
theorem dirIndex_user_lt (user : va < kernelStart) : dirIndex va < mountTableSlot :=
  (dirIndex_user user).trans (by decide)

theorem Settled.here_user (h : w.Settled O) (user : va < kernelStart) :
    ∃ p, w.here (dirIndex va) = .user p (dirIndex va) ∧ w.Has (.user p (dirIndex va)) := by
  obtain ⟨role, stable⟩ := h.stable
  have low := dirIndex_user user
  exact ⟨_, if_pos low, stable.live_active, low⟩

/-- Behind a user address are the callers' frames only. -/
theorem Settled.pageAt?_owned (h : w.Settled O) (user : va < kernelStart) {e : Entry}
    (page : w.pageAt? va = some e) : e.frame ∈ O := by
  obtain ⟨p, here, has⟩ := h.here_user user
  rw [pageAt?, here] at page
  exact h.leaf_owned has (tableIndex_lt va) page

/-- A frame that callers hold already is no new one. -/
theorem withPageAt_of_held (held : ∀ e, w.pageAt? va = some e → e.frame ∈ O) :
    w.withPageAt va O = O := by
  unfold withPageAt
  cases page : w.pageAt? va with
  | none => rfl
  | some e => exact Finset.insert_eq_of_mem (held e page)

theorem mem_withPageAt {e : Entry} (page : w.pageAt? va = some e) :
    e.frame ∈ w.withPageAt va O := by
  rw [withPageAt, page]
  exact Finset.mem_insert_self _ _

/-- A fault that copies nothing leaves the callers' frame behind the address. -/
theorem Resolved.withPageAt_same (h : w.Settled O) (hd : dirIndex va < mountTableSlot)
    (held : ∀ e, w.pageAt? va = some e → e.frame ∈ O) (r : w.Resolved O va v Q) (same : Q = O) :
    v.withPageAt va O = O := by
  cases r with
  | untouched => exact withPageAt_of_held held
  | granted page _ _ pages =>
    refine withPageAt_of_held fun e' there => ?_
    rw [h.pageAt?_of hd pages.spaces pages.leaf, Option.some.injEq] at there
    subst there
    rw [Entry.frame_set_writable]
    exact held _ page
  | copied _ _ replaced =>
    exact absurd (same ▸ Finset.mem_insert_self _ _) replaced.fresh

/-- What is written into a frame does not change which frame is behind an address. -/
theorem Settled.withPageAt_setPage (h : w.Settled O) (hd : dirIndex va < mountTableSlot) {f : Nat}
    (hf : f ∈ O) (g : Page) (Q : Finset Nat) :
    (w.setPage f g).withPageAt va Q = w.withPageAt va Q := by
  obtain ⟨role, stable⟩ := h.stable
  have has := has_here stable.live_active hd
  have seen := (h.setPage hf g).2 _ (tableIndex va) has
  exact congrArg (fun e : Option Entry => e.elim Q fun e => insert e.frame Q) seen

end Snapshot

open Snapshot

namespace Kernel

variable {E : Failure → Books → Prop} {w : Snapshot} {O : Finset Nat} {role : Nat → Role}
  {va f : Nat} {e : Entry}

theorem delegateFault_leads (code : UInt32) :
    Leads E (delegateFault .recording va code) w fun o v => o ≠ .copied ∧ v = w := by
  refine (note_yields _ _).bind ?_
  refine Yields.bind (v := w) (a := ()) ?_ (.pure ⟨by simp, rfl⟩)
  refine silent_yields ?_ w
  exact fun _ => rfl

theorem countPageCopy_yields (w : Snapshot) : Yields countPageCopy w () w := by
  refine silent_yields ?_ w
  exact fun _ => rfl

/-- The frame behind a page that was just mapped. -/
theorem accessPage_yields (h : w.Settled O) (hd : dirIndex va < mountTableSlot)
    (aligned : offset va = 0) (page : w.pageAt? va = some e) (inside : Ram.IsFrame w.size e.frame) :
    Yields (access va) w e.frame w := by
  obtain ⟨role, stable⟩ := h.stable
  obtain ⟨present, table, there, shown⟩ := bound_of_leaf? stable.toSound hd page
  have reached := access_yields stable.wired rfl present
    (stable.isFrame (by simp [table])) there shown inside
  rwa [aligned, Nat.add_zero] at reached

/-- The contents of one frame are copied to another through the window. -/
theorem copyFrame_yields (hw : w.Wired) {g : Nat} (hf : Ram.IsFrame w.size f) (hm : f ≠ mountTable)
    (hg : Ram.IsFrame w.size g) (hr : g ≠ w.root) (hm' : g ≠ mountTable) :
    Yields (withFrame f do storePage g (← Window.page)) w () (w.setPage g (w.page f)) := by
  refine withFrame_yields hw hf.1 (hw.setPage hr _) (entry_setPage_of_ne _ _ _ hm'.symm _) ?_
  refine (windowPage_yields hw hf hm).trans ?_
  have stored := storePage_yields (w := w.mount f) hg (w.page f)
  rwa [setPage_mount w f hm'] at stored

/-- What is left to do of a copy once there is a frame for it. -/
def installCopy (page frame copy : Nat) : Kernel Unit := do
  match ← attempt (map copy (dirIndex page) (tableIndex page) Protection.userRWX) with
  | .ok _ => pure ()
  | .error e => halt (.privateCopyRefused page e)
  invalidatePage page
  let target ← access page
  withFrame frame do storePage target (← Window.page)
  countPageCopy
  note (.pageCopied page frame copy)

theorem copyPage_eq (policy : Policy) (page frame : Nat) :
    copyPage policy page frame = (do
      unshareFrame frame
      unmap page
      let copy ← policy.privateFrame page
      installCopy page frame copy) := rfl

/-- A caller's frame is mapped, and gets what another frame holds after that; unless there is no
frame for a table that it needs. -/
theorem installCopy_leads {copy : Nat} (h : w.Settled O) (off : offset va = 0)
    (hd : dirIndex va < mountTableSlot) (mine : copy ∈ O) (inside : Ram.IsFrame w.size f)
    (hm : f ≠ mountTable) :
    Leads (w.StarvesTable (dirIndex va)) (installCopy va f copy) w fun _ v => ∃ y, y.Settled O ∧
      w.Remaps y O (w.pagesAt va (.of copy Protection.userRWX.entryFlags)) ∧
      v = y.setPage copy (y.page f) := by
  obtain ⟨role, stable⟩ := h.stable
  refine .bind (.attempt (map_leads_unless h hd (tableIndex_lt va) mine .userRWX)
    (fun _ _ no => by cases no.1) ?_)
  rintro _ y ⟨hy, mapped⟩
  have frame := h.frame_of mine .userRWX
  have now : y.pageAt? va = some (.of copy Protection.userRWX.entryFlags) :=
    h.pageAt?_of hd mapped.spaces mapped.leaf
  refine (invalidatePage_yields _ _).bind ?_
  have reached := accessPage_yields hy hd off now (by rw [frame]; exact hy.isFrame mine)
  rw [frame] at reached
  refine reached.bind ?_
  obtain ⟨role', stable'⟩ := hy.stable
  refine (copyFrame_yields stable'.wired (mapped.size ▸ inside) hm (hy.isFrame mine)
    (stable'.ne_root mine) (stable'.ne_mount mine)).bind ?_
  exact (countPageCopy_yields _).bind ((note_yields _ _).leads ⟨y, hy, mapped, rfl⟩)

/-- A page that was removed and mapped again, in a new frame that then got its contents. -/
theorem copied_of_rewrites {y : Snapshot} {copy : Nat} {rest : List Nat} {c : Shares}
    (fresh : copy ∉ O) (hc : c = w.shares.set e.frame (w.shares.get e.frame - 1))
    (removed : (w.book { w.toBooks with shares := c }).Remaps v O
      (w.pagesWith (w.here (dirIndex va)) (tableIndex va) none)) {x : Snapshot}
    (hx : x = v.book { v.toBooks with
      free := rest, shares := v.shares.set copy (v.shares.get copy + 1) })
    (hy : y.Settled (insert copy O))
    (mapped : x.Remaps y (insert copy O) (x.pagesWith (w.here (dirIndex va)) (tableIndex va)
      (some (.of copy Protection.userRWX.entryFlags)))) :
    w.Copied (y.setPage copy (y.page e.frame)) O va e copy := by
  have mine := Finset.mem_insert_self copy O
  obtain ⟨settled, seen⟩ := hy.setPage mine (y.page e.frame)
  have old (g : Nat) (hg : g ∈ O) : y.page g = w.page g := by
    refine (mapped.data g (Finset.mem_insert_of_mem hg)).trans ?_
    rw [hx]
    exact removed.data g hg
  have has (π : Place) (hπ : w.Has π) : x.Has π := (has_congr (hx ▸ removed.spaces) π).2 hπ
  have upheld : w.Upholds x := by
    have books : v.Upholds x := by
      rw [hx]
      exact .book rfl
    have uncounted : w.Upholds (w.book { w.toBooks with shares := c }) := .book rfl
    exact uncounted.trans (removed.toUpholds.trans books)
  refine ⟨fresh, settled, hy.frame_of mine .userRWX, ?_, ?_, ⟨c, hc, ?_⟩, ?_, ?_, ?_,
    upheld.trans (mapped.toUpholds.trans (hy.upholds_setPage mine _))⟩
  · exact mapped.size.trans (hx ▸ removed.size)
  · exact mapped.spaces.trans (hx ▸ removed.spaces)
  · refine mapped.shares.trans ?_
    rw [hx]
    change v.shares.set copy (v.shares.get copy + 1) = _
    rw [removed.shares]
    rfl
  · intro π t hπ ht
    rw [seen π t ((has_congr mapped.spaces π).2 (has π hπ)), mapped.leaf π t (has π hπ) ht, pagesAt]
    unfold pagesWith
    split
    · rfl
    · rw [hx, leaf?_book (by rfl), removed.leaf π t hπ ht, pagesWith, if_neg ‹_›]
  · intro g hg
    rw [page_setPage, if_neg, old g hg]
    rintro rfl
    exact fresh hg
  · intro known
    rw [page_setPage_self, old _ known]

theorem copyPage_leads (h : w.Settled O) (aligned : isAligned va = true) (off : offset va = 0)
    (hd : dirIndex va < mountTableSlot) (several : 2 ≤ w.shares.get e.frame) :
    Leads Depleted (copyPage .recording va e.frame) w fun _ v => ∃ copy,
      w.Copied v O va e copy := by
  obtain ⟨inside, hm⟩ := h.shared e.frame (by omega)
  refine (unshareFrame_yields (by omega)).bind ?_
  refine .bind ((unmap_leads (h.setShare inside hm _) aligned hd).mono ?_)
  rintro _ v ⟨hv, removed⟩
  refine .bind (.bind (acquireRaw_leads .frames ?_))
  intro copy rest first
  obtain ⟨handed, fresh, inside', hm', -, -⟩ := hv.hand first
  refine .bind (shareFrame_leads (fun full => .limit (.inl ⟨_, full⟩)) (.pure ?_))
  set x := v.book { v.toBooks with
    free := rest
    shares := v.shares.set copy (v.shares.get copy + 1) } with hx
  have counted : x.Settled (insert copy O) := handed.setShare inside' hm' _
  have size : x.size = w.size := removed.size
  refine ((installCopy_leads counted off hd (Finset.mem_insert_self copy O) (size ▸ inside)
    hm).weaken fun _ _ => StarvesTable.depleted).mono ?_
  rintro _ _ ⟨y, hy, mapped, rfl⟩
  have here : x.here (dirIndex va) = w.here (dirIndex va) := here_congr (v := x) removed.spaces _
  rw [pagesAt, here] at mapped
  exact ⟨copy, copied_of_rewrites fresh rfl removed hx hy mapped⟩

/-- What becomes of a fault. The policy's frame, if it gave one, is the one behind `va` now. -/
theorem pageFault_leads (h : w.Settled O) (hd : dirIndex va < mountTableSlot) (code : UInt32) :
    Leads Depleted (pageFault .recording va code) w fun o v =>
      w.Resolved O va v (if o = .copied then v.withPageAt va O else O) := by
  obtain ⟨role, stable⟩ := h.stable
  have hd' : dirIndex (alignDown va) < mountTableSlot := by rwa [dirIndex_alignDown]
  have delegated : Leads Depleted (delegateFault .recording va code) w fun o v =>
      w.Resolved O va v (if o = .copied then v.withPageAt va O else O) := by
    refine (delegateFault_leads code).mono ?_
    rintro o v ⟨other, rfl⟩
    rw [if_neg other]
    exact .untouched
  refine (pageAt_yields stable.toSound hd').bind ?_
  rw [show w.leaf? _ _ = w.pageAt? va from w.pageAt?_alignDown va]
  cases page : w.pageAt? va with
  | none => exact delegated
  | some e =>
    have page' : w.pageAt? (alignDown va) = some e := by rwa [pageAt?_alignDown]
    refine .ite (fun _ => delegated) ?_
    intro _
    refine (shareCount_yields e.frame w).bind ?_
    rcases count : w.shares.get e.frame with _ | _ | n
    · exact (note_yields _ _).bind delegated
    · refine .bind ((grantWrite_leads h hd' page').mono ?_)
      rintro _ v ⟨hv, moved⟩
      refine .pure ?_
      rw [if_neg (by simp)]
      refine .granted page count hv ?_
      rwa [← pagesAt_alignDown]
    · refine .bind ((copyPage_leads h (isAligned_alignDown va) (offset_alignDown va) hd'
        (by omega)).mono ?_)
      rintro _ v ⟨copy, replaced⟩
      replace replaced := replaced.at_alignDown
      refine .pure ?_
      rw [if_pos rfl, withPageAt, h.pageAt?_of hd replaced.spaces replaced.leaf]
      change w.Resolved O va v (insert (Entry.of copy _).frame O)
      rw [replaced.frame]
      exact .copied page (by omega) replaced

/-! ## Stores -/

theorem lookup_yields (h : w.Sound role) (hd : dirIndex va < mountTableSlot) :
    Yields (lookup va) w ((w.pageAt? va).map Mapping.ofEntry) w :=
  (pageAt_yields h hd).trans (.pure _ _)

/-- The store of a user program once its fault, if one was raised, is over. -/
def retry (va : Nat) (value : UInt8) : Kernel Unit := do
  match ← lookup va with
  | some m =>
    if m.isWritable then drive (·.storeVirtual va value) else violate (.readOnlyWrite va)
  | none => violate (.unresolvedWrite va)

/-- A store at a caller's page that is writable, or there is none. -/
theorem retry_leads (h : w.Settled O) (hd : dirIndex va < mountTableSlot)
    (held : ∀ e, w.pageAt? va = some e → e.frame ∈ O) (value : UInt8)
    (stuck : (∀ e, w.pageAt? va = some e → e.isWritable ≠ true) →
      ∀ c, E (.violation c) w.toBooks) :
    Leads E (retry va value) w fun _ v => ∃ e, w.pageAt? va = some e ∧ e.isWritable = true ∧
      v = w.setPage e.frame ((w.page e.frame).setByte (offset va) value) := by
  obtain ⟨role, stable⟩ := h.stable
  refine (lookup_yields stable.toSound hd).bind ?_
  cases page : w.pageAt? va with
  | none => exact .violate (stuck (fun e there => by simp [page] at there) _)
  | some e =>
    refine .ite ?_ fun readOnly => .violate (stuck (fun e' there => ?_) _)
    · intro writable
      rw [Mapping.isWritable_ofEntry] at writable
      obtain ⟨present, table, there, shown⟩ := bound_of_leaf? stable.toSound hd page
      have data := stable.data (held e page)
      exact (storeVirtual_yields stable.wired rfl present (stable.isFrame (by simp [table])) there
        shown (stable.isFrame (by simp [data])) value).leads ⟨e, rfl, writable, rfl⟩
    · rw [page] at there
      cases there
      rwa [Mapping.isWritable_ofEntry] at readOnly

/-- After a fault, callers hold the frame behind the address, if they held the one before. -/
theorem fault_leads (h : w.Settled O) (hd : dirIndex va < mountTableSlot)
    (held : ∀ e, w.pageAt? va = some e → e.frame ∈ O) (code : UInt32) :
    Leads Stops (discard (pageFault .recording va code)) w
      fun _ u => w.Resolved O va u (u.withPageAt va O) := by
  refine .discard (((pageFault_leads h hd code).weaken fun _ _ => Depleted.stops).mono ?_)
  intro o u resolved
  by_cases copied : o = .copied
  · rwa [if_pos copied] at resolved
  · rw [if_neg copied] at resolved
    rwa [resolved.withPageAt_same h hd held rfl]

/-- A store by a user program is a fault, where one is raised, and then a change of one byte. -/
theorem userWrite_leads (h : w.Settled O) (hd : dirIndex va < mountTableSlot)
    (held : ∀ e, w.pageAt? va = some e → e.frame ∈ O) (value : UInt8) :
    Leads Stops (userWrite .recording va value) w fun _ v => ∃ u e,
      w.Resolved O va u (u.withPageAt va O) ∧ u.pageAt? va = some e ∧ e.isWritable = true ∧
      v = u.setPage e.frame ((u.page e.frame).setByte (offset va) value) := by
  obtain ⟨role, stable⟩ := h.stable
  have unfaulted : w.Resolved O va w (w.withPageAt va O) := by
    rw [withPageAt_of_held held]
    exact .untouched
  refine (lookup_yields stable.toSound hd).bind ?_
  have store (u : Snapshot) (resolved : w.Resolved O va u (u.withPageAt va O)) :
      Leads Stops (retry va value) u fun _ v => ∃ u e,
        w.Resolved O va u (u.withPageAt va O) ∧ u.pageAt? va = some e ∧ e.isWritable = true ∧
        v = u.setPage e.frame ((u.page e.frame).setByte (offset va) value) := by
    refine (retry_leads (resolved.settled h) hd (fun _ => mem_withPageAt) value
      fun _ _ _ => by simp).mono ?_
    exact fun _ v ⟨e, stored⟩ => ⟨u, e, resolved, stored⟩
  cases w.pageAt? va with
  | none => exact .bind ((fault_leads h hd held _).mono fun _ u => store u)
  | some e =>
    refine .ite ?_ fun _ => store w unfaulted
    intro _
    exact .bind ((fault_leads h hd held _).mono fun _ u => store u)

/-! ## Stores that no copy precedes -/

/-- A fault at a page of the last sharer gives it its write right back. -/
theorem pageFault_grants (h : w.Settled O) (hd : dirIndex va < mountTableSlot)
    (page : w.pageAt? va = some e) (right : e.isUser = true) (lone : w.shares.get e.frame = 1)
    (code : UInt32) :
    Leads E (pageFault .recording va code) w fun _ v => v.Settled O ∧
      w.Rewrites v O (w.pagesAt va (e.set EntryFlags.writable)) := by
  obtain ⟨role, stable⟩ := h.stable
  have hd' : dirIndex (alignDown va) < mountTableSlot := by rwa [dirIndex_alignDown]
  have page' : w.pageAt? (alignDown va) = some e := by rwa [pageAt?_alignDown]
  refine (pageAt_yields stable.toSound hd').bind ?_
  rw [show w.leaf? _ _ = some e from page']
  refine .ite (fun denied => by simp [right] at denied) fun _ => ?_
  refine (shareCount_yields e.frame w).bind ?_
  rw [lone]
  refine .bind ((grantWrite_leads h hd' page').mono ?_)
  rintro _ v ⟨hv, moved⟩
  exact .pure ⟨hv, by rw [← pagesAt_alignDown]; exact moved.toRewrites⟩

/-- Where the page may be written, or nobody else is counted, a store goes into the frame that is
there. -/
theorem userWrite_inPlace (h : w.Settled O) (user : va < kernelStart)
    (page : w.pageAt? va = some e) (right : e.isUser = true)
    (may : e.isWritable = true ∨ w.shares.get e.frame = 1) (value : UInt8) :
    Leads E (userWrite .recording va value) w fun _ v =>
      w.StoredInPlace v O va e.frame value := by
  obtain ⟨role, stable⟩ := h.stable
  have hd := dirIndex_user_lt user
  have store (u : Snapshot) (e' : Entry) (settled : u.Settled O)
      (moved : w.Rewrites u O (w.pagesAt va e')) (same : e'.frame = e.frame)
      (writable : e'.isWritable = true) :
      Leads E (retry va value) u fun _ v => w.StoredInPlace v O va e.frame value := by
    have there : u.pageAt? va = some e' := h.pageAt?_of hd moved.spaces moved.leaf
    refine (retry_leads settled hd (fun _ => settled.pageAt?_owned user) value
      fun none _ => absurd writable (none e' there)).mono ?_
    rintro _ v ⟨e'', there', -, hv⟩
    obtain rfl : e' = e'' := by simpa [there] using there'
    rw [same] at hv
    exact ⟨u, e', settled, moved, same, hv⟩
  refine (lookup_yields stable.toSound hd).bind ?_
  rw [page]
  refine .ite ?_ ?_
  · intro denied
    have readOnly : e.isWritable ≠ true := by
      simpa [Mapping.isWritable_ofEntry, Mapping.isUser_ofEntry, right] using denied
    have one := may.resolve_left readOnly
    refine .bind (.discard ((pageFault_grants h hd page right one _).mono ?_))
    rintro _ u ⟨settled, moved⟩
    exact store u _ settled moved e.frame_set_writable e.isWritable_set_writable
  · intro allowed
    have writable : e.isWritable = true := by
      simpa [Mapping.isWritable_ofEntry, Mapping.isUser_ofEntry, right] using allowed
    refine store w e h ((Rewrites.refl w O).congr ?_) rfl writable
    intro π t _ _
    rw [pagesAt, pagesWith]
    split
    · rename_i here
      rw [here.1, here.2]
      exact page
    · rfl

end Kernel
end VirtualMemory
