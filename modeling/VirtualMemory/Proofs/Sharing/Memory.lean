import VirtualMemory.Proofs.Sharing.Contents

/-!
# User memory

The bytes that programs read, space by space. Sharing frames until somebody writes to them cannot
be told from copying them at once: a fork copies all memory of the parent, a store changes one byte
of one space, and faults and switches change nothing.
-/
namespace VirtualMemory

open Layout Snapshot

/-- What is at an address of a space, if anything. -/
abbrev UserMemory := Nat → Nat → Option UInt8

/-- The byte that the processor finds at `va` below the directory of space `p`, which is the
resident one for the active space and a frame of its own for any other. -/
def KernelState.memory (s : KernelState) : UserMemory := fun p va =>
  if va < kernelStart then
    (s.spaces.find? p).bind fun r =>
      let directory := if p = s.spaces.active then s.machine.directory else r.directory
      (Machine.loadVirtual { s.machine with directory } va).toOption
  else none

namespace Snapshot

def memory (w : Snapshot) : UserMemory := fun p va =>
  if va < kernelStart then (w.contents (.of p va)).map (·.byte (offset va)) else none

variable {w v u : Snapshot} {O Q : Finset Nat} {p va a q f : Nat} {e : Entry}

/-- What a walk from the directory of a space reads is its user page. -/
theorem memory_eq {s : KernelState} (h : s.snapshot.Settled O) : s.memory = s.snapshot.memory := by
  obtain ⟨role, stable⟩ := h.stable
  funext p va
  unfold KernelState.memory memory
  refine if_ctx_congr Iff.rfl ?_ fun _ => rfl
  intro user
  unfold contents Position.of
  cases hr : s.spaces.find? p with
  | none =>
    have dead : ¬ s.snapshot.Live p := by simp [Live, KernelState.snapshot, hr]
    rw [userPages_of_not fun valid => dead valid.1]
    rfl
  | some r =>
    have live : s.snapshot.Live p := by simp [Live, KernelState.snapshot, hr]
    have has : s.snapshot.Has (.user p (dirIndex va)) := ⟨live, dirIndex_user user⟩
    have home : s.snapshot.home p = if p = s.spaces.active then s.machine.directory
        else r.directory := by
      unfold Snapshot.home
      simp [KernelState.snapshot, hr]
    have inside (present : (s.snapshot.slotAt (.user p (dirIndex va))).isPresent = true) :=
      stable.isFrame (f := (s.snapshot.slotAt (.user p (dirIndex va))).frame)
        (by simp [stable.table_slotAt has present])
    have target (present : (s.snapshot.slotAt (.user p (dirIndex va))).isPresent = true)
        (there : (s.snapshot.leafAt (.user p (dirIndex va)) (tableIndex va)).isPresent = true) :=
      stable.isFrame (f := (s.snapshot.leafAt (.user p (dirIndex va)) (tableIndex va)).frame)
        (by simp [stable.leaf p _ _ _ has (tableIndex_lt va)
          (leaf?_eq_some.2 ⟨present, there, rfl⟩)])
    have read := Machine.toOption_loadVirtual (m := { s.machine with
      directory := s.snapshot.home p }) va (stable.isFrame_home p) rfl inside rfl target
    change (Machine.loadVirtual { s.machine with
      directory := if p = s.spaces.active then s.machine.directory else r.directory } va).toOption
      = _
    rw [← home, read, userPages_of_has has (tableIndex_lt va), leaf?]
    by_cases there : (s.snapshot.slotAt (.user p (dirIndex va))).isPresent = true ∧
        (s.snapshot.leafAt (.user p (dirIndex va)) (tableIndex va)).isPresent = true
    · rw [if_pos there]
      exact if_pos there
    · rw [if_neg there]
      exact if_neg there

/-! ## What calls do to it -/

theorem memory_of_contents (same : v.contents (.of q a) = w.contents (.of p a)) :
    v.memory q a = w.memory p a := by
  unfold memory
  rw [same]

theorem memory_congr (same : v.contents = w.contents) : v.memory = w.memory := by
  funext q a
  exact memory_of_contents (by rw [same])

/-- Addresses of one page differ in their offsets only. -/
theorem of_eq_of (user : va < kernelStart) (user' : a < kernelStart) :
    Position.of q a = .of p va ↔ q = p ∧ alignDown a = alignDown va := by
  simp only [Position.of, Prod.mk.injEq, dirIndex, tableIndex, alignDown, kernelStart,
    pageSize] at *
  omega

theorem memory_forked {parent child : Nat}
    (same : ∀ x, v.contents x = w.contents (if x.1 = child then parent else x.1, x.2)) :
    v.memory = Function.update w.memory child (w.memory parent) := by
  funext q a
  rw [Function.update_apply]
  by_cases inChild : q = child
  · rw [if_pos inChild]
    refine memory_of_contents ((same _).trans ?_)
    rw [Position.of, if_pos inChild, Position.of]
  · rw [if_neg inChild]
    refine memory_of_contents ((same _).trans ?_)
    rw [Position.of, if_neg inChild]

/-- Where the contents of one page change, memory changes at the addresses of that page. -/
theorem memory_page (user : va < kernelStart)
    (only : ∀ x, x ≠ .of p va → v.contents x = w.contents x)
    (differs : v.memory q a ≠ w.memory q a) :
    a < kernelStart ∧ q = p ∧ alignDown a = alignDown va := by
  by_cases user' : a < kernelStart
  · rw [and_iff_right user', ← of_eq_of user user']
    by_contra other
    exact differs (memory_of_contents (only _ other))
  · exact absurd ((if_neg user').trans (if_neg user').symm) differs

/-- A byte changes in the page that is at `va`, and so it does at `va` and nowhere else. -/
theorem memory_stored {g : Page} {b : UInt8} (user : va < kernelStart)
    (page : w.contents (.of p va) = some g)
    (changed : v.contents =
      Function.update w.contents (.of p va) (some (g.setByte (offset va) b))) :
    v.memory = Function.update w.memory p (Function.update (w.memory p) va (some b)) := by
  have near (a : Nat) : offset a < 4096 := Nat.mod_lt _ (by decide)
  funext q a
  by_cases here : a < kernelStart ∧ q = p ∧ alignDown a = alignDown va
  · obtain ⟨user', rfl, line⟩ := here
    have position : Position.of q a = .of q va := (of_eq_of user user').2 ⟨rfl, line⟩
    have old : w.memory q a = some (g.byte (offset a)) := by
      rw [memory, if_pos user', position, page, Option.map_some]
    have new : v.memory q a = some (if offset a = offset va then b else g.byte (offset a)) := by
      rw [memory, if_pos user', position, changed, Function.update_self, Option.map_some,
        Page.byte_setByte g b (near va) (near a)]
    have same : offset a = offset va ↔ a = va := by
      simp only [offset, alignDown, pageSize] at *
      omega
    rw [new, Function.update_self, Function.update_apply, old]
    by_cases there : a = va
    · rw [if_pos (same.2 there), if_pos there]
    · rw [if_neg fun eq => there (same.1 eq), if_neg there]
  · have elsewhere : v.memory q a = w.memory q a := by
      by_contra differs
      refine here (memory_page user ?_ differs)
      intro x other
      rw [changed, Function.update_of_ne other]
    rw [elsewhere, Function.update_apply]
    split
    · subst q
      have other : a ≠ va := by
        rintro rfl
        exact here ⟨user, rfl, rfl⟩
      rw [Function.update_of_ne other]
    · rfl

/-- After a fault, a store into a frame that nobody else refers to changes one byte of one space. -/
theorem Resolved.memory_stored {b : UInt8} (h : w.Settled O) (user : va < kernelStart)
    (r : w.Resolved O va u Q) (page : u.pageAt? va = some e)
    (only : ∀ y ∈ u.references e.frame, y = .of w.spaces.active va) :
    (w.memory w.spaces.active va).isSome = true ∧
      (u.setPage e.frame ((u.page e.frame).setByte (offset va) b)).memory =
        Function.update w.memory w.spaces.active
          (Function.update (w.memory w.spaces.active) va (some b)) := by
  have settled := r.settled h
  have same : u.memory = w.memory := memory_congr (r.contents h user)
  rw [pageAt?_eq settled user, r.spaces] at page
  have before : u.contents (.of w.spaces.active va) = some (u.page e.frame) := by
    rw [Snapshot.contents, page, Option.map_some]
  have after := Snapshot.memory_stored user before (contents_stored settled page only
    ((u.page e.frame).setByte (offset va) b))
  rw [same] at after
  refine ⟨?_, after⟩
  rw [← same, memory, if_pos user, before]
  rfl

/-- Pages of one space are given up. -/
theorem memory_fewer (gone : ∀ x, v.contents x = w.contents x ∨ x.1 = p ∧ v.contents x = none)
    (differs : v.memory q a ≠ w.memory q a) : q = p ∧ v.memory q a = none := by
  obtain same | ⟨here, none⟩ := gone (.of q a)
  · exact absurd (memory_of_contents same) differs
  · refine ⟨here, ?_⟩
    unfold memory
    rw [none, Option.map_none, ite_self]

end Snapshot
end VirtualMemory
