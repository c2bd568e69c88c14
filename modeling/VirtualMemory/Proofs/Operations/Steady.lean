import VirtualMemory.AddressSpace.Fork
import VirtualMemory.AddressSpace.Lifecycle
import VirtualMemory.AddressSpace.Range
import VirtualMemory.Fault.UserWrite
import VirtualMemory.Proofs.Operations.Fault

/-!
# Actions without refusals

Past its checks an operation has only halts and violations to fail with, whatever memory holds: a
frame that was mounted is aligned, and indices that were derived from an address are in range. Such
an action is `Steady`. What is steady also leaves the register of spaces alone, so a space that was
live before it is live after it.
-/
namespace VirtualMemory.Kernel

open Layout Snapshot

variable {α β : Type} {P : α → Prop} {Q : β → Prop} {d f : Nat}

/-- The action refuses nothing and leaves the register alone, also where it fails. Its answers
satisfy `P`. -/
def Steady (x : Kernel α) (P : α → Prop := fun _ => True) : Prop := ∀ w : Snapshot,
  Leads (fun f b => Stops f b ∧ b.spaces = w.spaces) x w fun a v => v.spaces = w.spaces ∧ P a

namespace Steady

variable {x : Kernel α} {g : KernelState → KernelState}

theorem pure {a : α} (h : P a) : Steady (pure a) P := fun _ => .pure ⟨rfl, h⟩

theorem done (a : α) : Steady (Pure.pure a) := pure trivial

theorem bind {k : α → Kernel β} (hx : Steady x P) (hk : ∀ a, P a → Steady (k a) Q) :
    Steady (x >>= k) Q := by
  intro w
  refine .bind ((hx w).mono ?_)
  rintro a v ⟨same, ha⟩
  rw [← same]
  exact hk a ha v

/-- `bind`, where nothing is known of the first answer. -/
theorem next {k : α → Kernel β} (hx : Steady x P) (hk : ∀ a, Steady (k a) Q) :
    Steady (x >>= k) Q := hx.bind fun a _ => hk a

theorem mono {R : α → Prop} (h : Steady x P) (hP : ∀ a, P a → R a) : Steady x R :=
  fun w => (h w).mono fun a _ ha => ⟨ha.1, hP a ha.2⟩

theorem ite {c : Prop} [Decidable c] {y : Kernel α} (hx : c → Steady x P)
    (hy : ¬ c → Steady y P) : Steady (if c then x else y) P :=
  fun w => .ite (fun h => hx h w) fun h => hy h w

theorem get {k : KernelState → Kernel α} (h : ∀ s, Steady (k s) P) : Steady (get >>= k) P :=
  fun w => .get fun s _ => h s w

theorem modify (h : ∀ s, (g s).spaces = s.spaces) : Steady (modify g) := by
  rintro w s rfl
  exact ⟨h s, trivial⟩

theorem note (e : Event) : Steady (note e) := modify fun _ => rfl

theorem halt (h : Halt) : Steady (halt h) P := by
  rintro w s rfl
  exact ⟨fun _ => nofun, rfl⟩

theorem violate (v : Violation) : Steady (violate v) P := by
  rintro w s rfl
  exact ⟨fun _ => nofun, rfl⟩

theorem inspect (m : Machine → Except Violation α) : Steady (inspect m) := by
  rintro w s rfl
  unfold Kernel.inspect
  cases m s.machine with
  | ok a => exact ⟨rfl, trivial⟩
  | error v => exact ⟨fun _ => nofun, rfl⟩

theorem drive (m : Machine → Except Violation Machine) : Steady (drive m) := by
  rintro w s rfl
  unfold Kernel.drive
  cases m s.machine with
  | ok a => exact ⟨rfl, trivial⟩
  | error v => exact ⟨fun _ => nofun, rfl⟩

/-- Without refusals there is nothing to hand back as a value. -/
theorem attempt (h : Steady x P) : Steady (attempt x) fun r => ∃ a, r = .ok a ∧ P a :=
  fun w => .attempt (h w) (fun e _ no => no.1 e rfl) fun a _ ha => ⟨ha.1, a, rfl, ha.2⟩

theorem ensuring {cleanup : Kernel Unit} (hx : Steady x P) (hc : Steady cleanup) :
    Steady (ensuring x cleanup) P := by
  rintro w s rfl
  have ran := hx _ s rfl
  unfold Kernel.ensuring
  cases e : x s with
  | ok a t =>
    rw [e] at ran
    have cleaned := hc.next (fun _ => pure ran.2) (k := fun _ => Pure.pure a) _ t rfl
    rw [ran.1] at cleaned
    exact cleaned
  | error f t =>
    rw [e] at ran
    have cleaned := hc _ t rfl
    cases c : cleanup t with
    | ok _ u =>
      rw [c] at cleaned
      simp only [c]
      exact ⟨ran.1, cleaned.1.trans ran.2⟩
    | error _ u =>
      rw [c] at cleaned
      simp only [c]
      exact ⟨ran.1, cleaned.2.trans ran.2⟩

theorem discard (h : Steady x P) : Steady (discard x) :=
  fun w => .discard ((h w).mono fun _ _ ha => ⟨ha.1, trivial⟩)

theorem forEach {body : Nat → Kernel Unit} (h : ∀ i, Steady (body i))
    (step start n : Nat) : Steady (forEach step body start n) := by
  induction n generalizing start with
  | zero => exact done _
  | succ n ih => exact (h start).next fun _ => ih _

theorem sumEach {body : Nat → Kernel Nat} {start n : Nat}
    (h : ∀ i, i < start + n → Steady (body i)) :
    Steady (sumEach body start n) := by
  induction n generalizing start with
  | zero => exact done _
  | succ n ih =>
    refine (h start (by omega)).next fun _ => ?_
    exact (ih fun i hi => h i (by omega)).next fun _ => done _

end Steady

/-! ## Memory -/

theorem access_steady (va : Nat) : Steady (access va) := .inspect _
theorem loadEntry_steady (pa : Nat) : Steady (loadEntry pa) := .inspect _
theorem storeEntry_steady (pa : Nat) (e : Entry) : Steady (storeEntry pa e) := .drive _
theorem loadPage_steady (pa : Nat) : Steady (loadPage pa) := .inspect _
theorem storePage_steady (pa : Nat) (p : Page) : Steady (storePage pa p) := .drive _
theorem invalidatePage_steady (va : Nat) : Steady (invalidatePage va) := .drive _
theorem flush_steady : Steady flush := .next (.modify fun _ => rfl) fun _ => .drive _

theorem checkSlot_steady (d : Nat) : Steady (checkSlot d) :=
  .ite (fun _ => .done _) fun _ => .violate _

theorem checkLeaf_steady (t : Nat) : Steady (checkLeaf t) :=
  .ite (fun _ => .done _) fun _ => .violate _

theorem slot_steady (d : Nat) : Steady (slot d) :=
  (checkSlot_steady d).next fun _ => (access_steady _).next fun _ => loadEntry_steady _

theorem setSlot_steady (d : Nat) (e : Entry) : Steady (setSlot d e) :=
  (checkSlot_steady d).next fun _ => (access_steady _).next fun _ => storeEntry_steady _ _

theorem leaf_steady (d t : Nat) : Steady (leaf d t) :=
  (checkLeaf_steady t).next fun _ => (access_steady _).next fun _ => loadEntry_steady _

theorem setLeaf_steady (d t : Nat) (e : Entry) : Steady (setLeaf d t e) :=
  (checkLeaf_steady t).next fun _ => (access_steady _).next fun _ => storeEntry_steady _ _

theorem leafAt?_steady (va : Nat) : Steady (leafAt? va) := by
  refine (slot_steady _).next fun _ => .ite (fun _ => ?_) fun _ => .done _
  exact (leaf_steady _ _).next fun _ => .done _

theorem lookup_steady (va : Nat) : Steady (lookup va) :=
  (leafAt?_steady va).next fun _ => .done _

theorem windowSlot_steady : Steady windowSlot :=
  (access_steady _).next fun _ => .done _

theorem mountAligned_steady {body : Kernel α} (h : Steady body P) (f : Nat) :
    Steady (mountAligned f body) P := by
  refine .next windowSlot_steady fun _ => (loadEntry_steady _).next fun _ => ?_
  refine (storeEntry_steady _ _).next fun _ => (invalidatePage_steady _).next fun _ => ?_
  refine h.ensuring (.next windowSlot_steady fun _ => ?_)
  exact (storeEntry_steady _ _).next fun _ => invalidatePage_steady _

/-- A frame that could be mounted is aligned. -/
theorem withFrame_steady {body : Kernel α} (h : Steady body P) (f : Nat) :
    Steady (withFrame f body) fun a => isAligned f = true ∧ P a :=
  .ite (fun aligned => (mountAligned_steady h f).mono fun _ ha => ⟨aligned, ha⟩) fun _ => .halt _

theorem checkIndex_steady (i : Nat) : Steady (Window.checkIndex i) :=
  .ite (fun _ => .done _) fun _ => .violate _

theorem windowEntry_steady (i : Nat) : Steady (Window.entry i) :=
  (checkIndex_steady i).next fun _ => (access_steady _).next fun _ => loadEntry_steady _

theorem windowSetEntry_steady (i : Nat) (e : Entry) : Steady (Window.setEntry i e) :=
  (checkIndex_steady i).next fun _ => (access_steady _).next fun _ => storeEntry_steady _ _

theorem windowPage_steady : Steady Window.page :=
  (access_steady _).next fun _ => loadPage_steady _

theorem windowSetPage_steady (p : Page) : Steady (Window.setPage p) :=
  (access_steady _).next fun _ => storePage_steady _ _

/-! ## Frames, counts and tables -/

theorem acquireRaw_steady : Steady acquireRaw := by
  refine .get fun s => ?_
  cases s.pool.alloc? with
  | none => exact .halt _
  | some r => exact .next (.modify fun _ => rfl) fun _ => .done _

theorem takeFrame_steady : Steady takeFrame := by
  refine .get fun s => ?_
  cases s.pool.take with
  | error v => exact .violate _
  | ok r => exact .next (.modify fun _ => rfl) fun _ => .done _

/-- Frames that were cleared are aligned. -/
theorem acquire_steady : Steady acquire fun f => isAligned f = true := by
  refine .next acquireRaw_steady fun f => ?_
  refine (withFrame_steady (windowSetPage_steady _) f).bind fun _ cleared => ?_
  exact (Steady.note _).next fun _ => .pure cleared.1

theorem release_steady (f : Nat) : Steady (release f) := by
  refine (Steady.note _).next fun _ => .get fun s => ?_
  cases s.pool.release f with
  | error v => exact .violate _
  | ok p => exact .modify fun _ => rfl

theorem seedTable_steady (f n : Nat) : Steady (seedTable f n) := .modify fun _ => rfl
theorem forgetTable_steady (f : Nat) : Steady (forgetTable f) := .modify fun _ => rfl

theorem tableOccupancy_steady (f : Nat) : Steady (tableOccupancy f) := .get fun _ => .done _

theorem countEntry_steady (f : Nat) : Steady (countEntry f) := by
  refine .get fun s => ?_
  cases s.occupancy.increment f with
  | error h => exact .halt _
  | ok o => exact .modify fun _ => rfl

theorem discountEntry_steady (f : Nat) : Steady (discountEntry f) := by
  refine .get fun s => ?_
  cases s.occupancy.decrement f with
  | error h => exact .halt _
  | ok o => exact .next (.modify fun _ => rfl) fun _ => .done _

theorem shareCount_steady (f : Nat) : Steady (shareCount f) :=
  .get fun _ => .done _

theorem shareFrame_steady (f : Nat) : Steady (shareFrame f) := by
  refine .get fun s => ?_
  cases s.shares.increment f with
  | error v => exact .violate _
  | ok c => exact .modify fun _ => rfl

theorem unshareFrame_steady (f : Nat) : Steady (unshareFrame f) := by
  refine .get fun s => ?_
  cases s.shares.decrement f with
  | error v => exact .violate _
  | ok c => exact .modify fun _ => rfl

/-- Binding refuses nothing but what it checks. -/
theorem bindTable_steady (hd : d < tableEntries) (aligned : isAligned f = true)
    (prot : Protection) : Steady (bindTable f d prot) := by
  rw [bindTable, if_neg (Nat.not_le.2 hd), aligned]
  refine (withFrame_steady (.next windowPage_steady fun _ => .done _) f).next fun _ => ?_
  refine (seedTable_steady _ _).next fun _ => (setSlot_steady _ _).next fun _ => ?_
  exact .next flush_steady fun _ => .note _

theorem unbindTable_steady (d : Nat) : Steady (unbindTable d) := by
  refine .ite (fun _ => .done _) fun _ => (slot_steady d).next fun e => ?_
  refine .ite (fun _ => ?_) fun _ => flush_steady
  refine (setSlot_steady _ _).next fun _ => (forgetTable_steady _).next fun _ => ?_
  exact (release_steady _).next fun _ => (Steady.note _).next fun _ => flush_steady

/-! ## Pages -/

theorem widenSlot_steady (d : Nat) (e : Entry) (g : EntryFlags) :
    Steady (widenSlot d e g) :=
  .ite (fun _ => setSlot_steady _ _) fun _ => .done _

/-- Mapping refuses nothing but what it checks: the table that it binds was just cleared. -/
theorem map_steady {t : Nat} (hd : d < tableEntries) (ht : t < tableEntries)
    (aligned : isAligned f = true) (prot : Protection) :
    Steady (map f d t prot) := by
  rw [map_eq hd ht aligned]
  have install : Steady (mapAt f d t prot) := by
    refine (slot_steady d).next fun e => (widenSlot_steady _ _ _).next fun _ => ?_
    refine (leaf_steady d t).next fun previous => (setLeaf_steady _ _ _).next fun _ => ?_
    exact .ite (fun _ => countEntry_steady _) fun _ => .done _
  refine (slot_steady d).next fun _ => .ite (fun _ => ?_) fun _ => install
  refine .bind acquire_steady fun table cleared => ?_
  exact (bindTable_steady hd cleared prot).next fun _ => install

/-- An index that is too large, or a frame that is not aligned, is refused before anything else. -/
theorem map_cases (f d t : Nat) (prot : Protection) :
    (∃ e, map f d t prot = refuse e) ∨ Steady (map f d t prot) := by
  by_cases ok : d < tableEntries ∧ t < tableEntries ∧ isAligned f = true
  · obtain ⟨hd, ht, aligned⟩ := ok
    exact .inr (map_steady hd ht aligned prot)
  · exact .inl (map_eq_refuse ok prot)

theorem unmap_steady (va : Nat) : Steady (unmap va) := by
  refine .ite (fun _ => .done _) fun _ => (slot_steady _).next fun e => ?_
  refine .ite (fun _ => ?_) fun _ => invalidatePage_steady _
  refine (leaf_steady _ _).next fun _ => .ite (fun _ => ?_) fun _ => invalidatePage_steady _
  refine (setLeaf_steady _ _ _).next fun _ => (discountEntry_steady _).next fun n => ?_
  refine .ite (fun _ => ?_) fun _ => invalidatePage_steady _
  exact (unbindTable_steady _).next fun _ => invalidatePage_steady _

theorem protectPage_steady (prot : Protection) (va : Nat) :
    Steady (protectPage prot va) := by
  refine (leafAt?_steady va).next fun e => ?_
  cases e with
  | none => exact .done _
  | some e => exact (setLeaf_steady _ _ _).next fun _ => invalidatePage_steady _

/-! ## Spaces -/

theorem copyUserHalf_steady (f g : Nat) : Steady (copyUserHalf f g) :=
  (loadPage_steady _).next fun _ => (loadPage_steady _).next fun _ => storePage_steady _ _

theorem shareLeaf_steady (table d t : Nat) : Steady (shareLeaf table d t) := by
  refine (windowEntry_steady t).next fun e => .ite (fun _ => ?_) fun _ => .done _
  refine (windowSetEntry_steady _ _).next fun _ => (setLeaf_steady _ _ _).next fun _ => ?_
  refine (countEntry_steady _).next fun _ => (shareFrame_steady _).next fun _ => ?_
  exact .done _

theorem shareTable_steady (directory : Nat) (hd : d < tableEntries) :
    Steady (shareTable directory d) := by
  refine (withFrame_steady (windowEntry_steady d) _).next fun e =>
    .ite (fun _ => ?_) fun _ => .done _
  refine .bind acquire_steady fun table cleared => (bindTable_steady hd cleared _).next fun _ => ?_
  exact (withFrame_steady (.sumEach fun t _ => shareLeaf_steady table d t) _).mono
    fun _ _ => trivial

theorem releaseUserTable_steady (directory d : Nat) :
    Steady (releaseUserTable directory d) := by
  refine (withFrame_steady (windowEntry_steady d) _).next fun e =>
    .ite (fun _ => ?_) fun _ => .done _
  refine (tableOccupancy_steady _).next fun _ => (forgetTable_steady _).next fun _ => ?_
  exact (release_steady _).next fun _ => .done _

theorem releaseUserTables_steady (directory : Nat) :
    Steady (releaseUserTables directory) := by
  refine (Steady.sumEach fun d _ => releaseUserTable_steady directory d).next fun dropped => ?_
  exact .ite (fun _ => .note _) fun _ => .done _

/-! ## Faults -/

theorem delegateFault_steady (va : Nat) (code : UInt32) :
    Steady (delegateFault .recording va code) := by
  refine (Steady.note _).next fun _ => Steady.next (P := fun _ => True) ?_ fun _ => .done _
  exact .modify fun _ => rfl

theorem countWriteGrant_steady : Steady countWriteGrant := .modify fun _ => rfl
theorem countPageCopy_steady : Steady countPageCopy := .modify fun _ => rfl

theorem grantWrite_steady (page : Nat) (e : Entry) : Steady (grantWrite page e) := by
  have grant : Steady (do
      setLeaf (dirIndex page) (tableIndex page) (e.set EntryFlags.writable)
      invalidatePage page
      countWriteGrant
      note (.writeGranted page e.frame)) := by
    refine (setLeaf_steady _ _ _).next fun _ => (invalidatePage_steady _).next fun _ => ?_
    exact .next countWriteGrant_steady fun _ => .note _
  refine (slot_steady _).next fun s => .ite (fun _ => ?_) fun _ => grant
  exact (setSlot_steady _ _).next fun _ => grant

theorem freshFrame_steady : Steady Policy.freshFrame := by
  refine .next acquireRaw_steady fun f => ?_
  exact (shareFrame_steady f).next fun _ => .done _

/-- Whatever frame the pool gives, a copy that cannot be mapped stops the kernel. -/
theorem copyPage_steady (page f : Nat) : Steady (copyPage .recording page f) := by
  refine (unshareFrame_steady f).next fun _ => (unmap_steady page).next fun _ => ?_
  refine Steady.next freshFrame_steady fun copy => ?_
  · have finish : Steady (do
        invalidatePage page
        let target ← access page
        withFrame f do storePage target (← Window.page)
        countPageCopy
        note (.pageCopied page f copy)) := by
      refine (invalidatePage_steady _).next fun _ => (access_steady _).next fun target => ?_
      have copied := Steady.next windowPage_steady fun p => storePage_steady target p
      refine (withFrame_steady copied f).next fun _ => ?_
      exact .next countPageCopy_steady fun _ => .note _
    refine Steady.next (P := fun _ => True) ?_ fun r => ?_
    · obtain ⟨e, refused⟩ | steady := map_cases copy (dirIndex page) (tableIndex page) .userRWX
      · rw [refused]
        exact Steady.done (Except.error e)
      · exact steady.attempt.mono fun _ _ => trivial
    · cases r with
      | ok _ => exact finish
      | error e => exact Steady.bind (P := fun _ => False) (.halt _) fun _ => False.elim

theorem pageFault_steady (va : Nat) (code : UInt32) :
    Steady (pageFault .recording va code) := by
  refine (leafAt?_steady _).next fun e => ?_
  cases e with
  | none => exact delegateFault_steady va code
  | some e =>
    refine .ite (fun _ => delegateFault_steady va code) fun _ => ?_
    refine (shareCount_steady _).next fun n => ?_
    match n with
    | 0 => exact (Steady.note _).next fun _ => delegateFault_steady va code
    | 1 => exact (grantWrite_steady _ _).next fun _ => .done _
    | _ + 2 => exact (copyPage_steady _ _).next fun _ => .done _

theorem userWrite_steady (va : Nat) (value : UInt8) :
    Steady (userWrite .recording va value) := by
  have store : Steady (retry va value) := by
    refine (lookup_steady va).next fun m => ?_
    cases m with
    | none => exact .violate _
    | some m => exact .ite (fun _ => .drive _) fun _ => .violate _
  refine (lookup_steady va).next fun m => ?_
  cases m with
  | none => exact (pageFault_steady va _).discard.next fun _ => store
  | some m =>
    exact .ite (fun _ => (pageFault_steady va _).discard.next fun _ => store) fun _ => store

end VirtualMemory.Kernel
