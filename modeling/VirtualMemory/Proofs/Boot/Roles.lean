import VirtualMemory.Proofs.Boot.Loader
import VirtualMemory.Proofs.Operations.Fork

/-!
# Who owns what after the start

The numbers of the frames decide: the directory, the mount table, the reserved frames, the store of
the kernel's user half, the pool. A reserved frame is a table if some kernel slot binds it, and the
caller's otherwise.
-/
namespace VirtualMemory

open Layout Snapshot

/-- The kernel slot of directory `p` that binds frame `f`, if any. -/
def Page.bootSlot? (p : Page) (f : Nat) : Option Nat :=
  bootSlots.find? fun d => (p.entry d).isPresent && (p.entry d).frame == f

/-- The reserved frames that the boot loader left unbound. -/
def Page.unbound (p : Page) (reserved : Nat) : Finset Nat :=
  ((Finset.range reserved).image fun k => Ram.frameAddress (2 + k)).filter fun f =>
    p.bootSlot? f = none

/-- The role of frame number `k` after a start with directory `p`. -/
def bootRoleAt (p : Page) (reserved : Nat) : Nat → Role
  | 0 => .resident
  | 1 => .window
  | k + 2 =>
    if k < reserved then
      match p.bootSlot? (Ram.frameAddress (2 + k)) with
      | some d => .table (.kernel d)
      | none => .owned
    else if k = reserved then .directory Spaces.kernelId
    else .free

/-- The roles of `n` frames, by their addresses. -/
def bootRole (p : Page) (n reserved f : Nat) : Role :=
  if Ram.IsFrame n f then bootRoleAt p reserved (Ram.frameIndex f) else .outside

variable {n reserved d f : Nat} {p : Page}

namespace Page

theorem bootSlot?_eq_some (h : p.BootTables reserved) :
    p.bootSlot? f = some d ↔ userSlots ≤ d ∧ d < mountTableSlot ∧
      (p.entry d).isPresent = true ∧ (p.entry d).frame = f := by
  constructor
  · intro found
    obtain ⟨low, high⟩ := mem_bootSlots.1 (List.mem_of_find?_eq_some found)
    have here := List.find?_some found
    simp only [Bool.and_eq_true, beq_iff_eq] at here
    exact ⟨low, high, here⟩
  · rintro ⟨low, high, present, frame⟩
    cases found : p.bootSlot? f with
    | none =>
      have absent := List.find?_eq_none.1 found d (mem_bootSlots.2 ⟨low, high⟩)
      simp [present, frame] at absent
    | some i =>
      obtain ⟨low', high'⟩ := mem_bootSlots.1 (List.mem_of_find?_eq_some found)
      have here := List.find?_some found
      simp only [Bool.and_eq_true, beq_iff_eq] at here
      rw [h.apart i d low' high' low high here.1 present (here.2.trans frame.symm)]

theorem mem_unbound : f ∈ p.unbound reserved ↔
    (∃ k < reserved, f = Ram.frameAddress (2 + k)) ∧ p.bootSlot? f = none := by
  simp only [unbound, Finset.mem_filter, Finset.mem_image, Finset.mem_range, eq_comm]

end Page

theorem KernelState.mem_frameRange {a b : Nat} :
    f ∈ frameRange a b ↔ ∃ k, a ≤ k ∧ k < b ∧ Ram.frameAddress k = f := by
  simp only [frameRange, List.mem_map, List.mem_range'_1]
  apply exists_congr
  intro k
  rw [and_assoc]
  refine and_congr_right fun low => and_congr_left ?_
  intro _
  omega

theorem KernelState.nodup_frameRange (a b : Nat) : (frameRange a b).Nodup := by
  refine List.Nodup.map ?_ List.nodup_range'
  intro i j same
  simp only [Ram.frameAddress, pageSize] at same
  omega

/-! The roles are read off the number of the frame. -/

theorem Ram.frameAddress_inj {i j : Nat} : frameAddress i = frameAddress j ↔ i = j := by
  simp only [frameAddress, pageSize]
  omega

theorem Ram.exists_frameAddress (hf : IsFrame n f) : ∃ k < n, frameAddress k = f := by
  rw [isFrame_iff] at hf
  refine ⟨frameIndex f, ?_⟩
  simp only [frameIndex, frameAddress, base, pageSize] at *
  omega

theorem bootRole_eq_iff {r : Role} (hr : r ≠ .outside) :
    bootRole p n reserved f = r ↔
      ∃ k < n, Ram.frameAddress k = f ∧ bootRoleAt p reserved k = r := by
  unfold bootRole
  have index (k : Nat) : Ram.frameIndex (Ram.frameAddress k) = k := by
    simp only [Ram.frameIndex, Ram.frameAddress, pageSize]
    omega
  split
  · obtain ⟨k, hk, rfl⟩ := Ram.exists_frameAddress ‹_›
    rw [index]
    refine ⟨fun h => ⟨k, hk, rfl, h⟩, ?_⟩
    rintro ⟨i, -, same, h⟩
    rwa [← Ram.frameAddress_inj.1 same]
  · refine iff_of_false (Ne.symm hr) ?_
    rintro ⟨k, hk, rfl, -⟩
    exact ‹¬ _› (Ram.isFrame_frameAddress.2 hk)

section RoleAt
variable {k : Nat}

theorem bootRoleAt_resident : bootRoleAt p reserved k = .resident ↔ k = 0 := by
  rcases k with _ | _ | k <;> simp only [bootRoleAt] <;> (repeat' split) <;> simp

theorem bootRoleAt_window : bootRoleAt p reserved k = .window ↔ k = 1 := by
  rcases k with _ | _ | k <;> simp only [bootRoleAt] <;> (repeat' split) <;> simp

theorem bootRoleAt_directory {q : Nat} :
    bootRoleAt p reserved k = .directory q ↔ k = 2 + reserved ∧ q = Spaces.kernelId := by
  rcases k with _ | _ | k <;> simp only [bootRoleAt] <;> (repeat' split) <;>
    simp only [reduceCtorEq, Role.directory.injEq, false_iff] <;> omega

theorem bootRoleAt_free : bootRoleAt p reserved k = .free ↔ 3 + reserved ≤ k := by
  rcases k with _ | _ | k <;> simp only [bootRoleAt] <;> (repeat' split) <;>
    simp only [reduceCtorEq, false_iff, true_iff] <;> omega

/-- Reserved frames are tables or left to the caller. -/
theorem bootRoleAt_reserved (p : Page) (reserved k : Nat) : bootRoleAt p reserved k =
    (match p.bootSlot? (Ram.frameAddress k) with
      | some d => .table (.kernel d)
      | none => .owned) ∧ (∃ i < reserved, k = 2 + i) ∨
    (∀ π, bootRoleAt p reserved k ≠ .table π) ∧ bootRoleAt p reserved k ≠ .owned ∧
      ∀ i < reserved, k ≠ 2 + i := by
  rcases k with _ | _ | k
  · exact .inr ⟨by simp [bootRoleAt], by simp [bootRoleAt], by omega⟩
  · exact .inr ⟨by simp [bootRoleAt], by simp [bootRoleAt], by omega⟩
  · rw [Nat.add_comm k 2, Nat.add_comm 2 k, bootRoleAt, Nat.add_comm k 2]
    by_cases hk : k < reserved
    · rw [if_pos hk]
      exact .inl ⟨rfl, k, hk, rfl⟩
    · rw [if_neg hk]
      refine .inr ⟨fun π => ?_, ?_, by omega⟩ <;> split <;> simp

theorem bootRoleAt_table {π : Place} : bootRoleAt p reserved k = .table π ↔
    (∃ i < reserved, k = 2 + i) ∧
      ∃ d, p.bootSlot? (Ram.frameAddress k) = some d ∧ π = .kernel d := by
  obtain ⟨role, low⟩ | ⟨other, -, high⟩ := bootRoleAt_reserved p reserved k
  · rw [role, and_iff_right low]
    cases p.bootSlot? (Ram.frameAddress k) <;> simp [eq_comm]
  · exact iff_of_false (other π) fun ⟨⟨i, hi, hk⟩, _⟩ => high i hi hk

theorem bootRoleAt_owned : bootRoleAt p reserved k = .owned ↔
    (∃ i < reserved, k = 2 + i) ∧ p.bootSlot? (Ram.frameAddress k) = none := by
  obtain ⟨role, low⟩ | ⟨-, other, high⟩ := bootRoleAt_reserved p reserved k
  · rw [role, and_iff_right low]
    cases p.bootSlot? (Ram.frameAddress k) <;> simp
  · exact iff_of_false other fun ⟨⟨i, hi, hk⟩, _⟩ => high i hi hk

theorem bootRoleAt_ne : bootRoleAt p reserved k ≠ .outside ∧ bootRoleAt p reserved k ≠ .spare := by
  rcases k with _ | _ | k <;> simp only [bootRoleAt] <;> (repeat' split) <;> simp

end RoleAt

namespace Snapshot

/-- The state after a start. -/
structure Booted (v : Snapshot) (reserved : Nat) : Prop where
  wired : v.Wired
  room : 3 + reserved ≤ v.size
  free : v.free = KernelState.frameRange (3 + reserved) v.size
  shares : ∀ f, v.shares.get f = 0
  spaces : v.spaces = .withKernel (Ram.frameAddress (2 + reserved))
  user : ∀ d < userSlots, (v.entry v.root d).isPresent = false
  quiet : v.page mountTable = Page.zero
  tables : (v.page v.root).BootTables reserved
  mem : ∀ f, f ∈ v.occupancy.counts ↔ ∃ d, userSlots ≤ d ∧ d < mountTableSlot ∧
    (v.entry v.root d).isPresent = true ∧ (v.entry v.root d).frame = f ∧
    (v.page f).presentCount ≠ 0
  get : ∀ d, userSlots ≤ d → d < mountTableSlot → (v.entry v.root d).isPresent = true →
    v.occupancy.get (v.entry v.root d).frame = (v.page (v.entry v.root d).frame).presentCount

namespace Booted

variable {v : Snapshot} {π : Place}

theorem find? (h : v.Booted reserved) {q : Nat} {r : SpaceRecord} :
    v.spaces.find? q = some r ↔ q = Spaces.kernelId ∧ r = ⟨Ram.frameAddress (2 + reserved), 1⟩ := by
  rw [h.spaces, Spaces.find?_withKernel]
  split <;> simp_all [eq_comm]

/-- The only space is the active one, and its user half is empty. -/
theorem vacant (h : v.Booted reserved) (q : Nat) : v.Vacant q := by
  intro d hd
  have active : v.spaces.active = Spaces.kernelId := by rw [h.spaces]; rfl
  have home : v.home q = v.root := by
    unfold home
    rw [active]
    split
    · rfl
    · cases found : v.spaces.find? q with
      | none => rfl
      | some r => exact absurd (h.find?.1 found).1 ‹_›
  rw [slotAt, home]
  exact h.user d hd

/-- The tables that are bound. -/
theorem bound_iff (h : v.Booted reserved) :
    v.Has π ∧ (v.slotAt π).isPresent = true ∧ (v.slotAt π).frame = f ↔
      ∃ d, (v.page v.root).bootSlot? f = some d ∧ π = .kernel d := by
  simp only [Page.bootSlot?_eq_some h.tables]
  cases π with
  | user q d =>
    refine iff_of_false ?_ (by simp)
    intro bound
    have absent := h.vacant q d bound.1.2
    rw [absent] at bound
    cases bound.2.1
  | kernel d =>
    constructor
    · rintro ⟨⟨low, high⟩, present, frame⟩
      exact ⟨d, ⟨low, high, present, frame⟩, rfl⟩
    · rintro ⟨i, ⟨low, high, present, frame⟩, same⟩
      cases same
      exact ⟨⟨low, high⟩, present, frame⟩

theorem bootSlot?_reserved (h : v.Booted reserved) (bound : (v.page v.root).bootSlot? f = some d) :
    ∃ i < reserved, f = Ram.frameAddress (2 + i) := by
  obtain ⟨low, high, present, rfl⟩ := (Page.bootSlot?_eq_some h.tables).1 bound
  exact h.tables.reserved d low high present

theorem role_table (h : v.Booted reserved) (f : Nat) (π : Place) :
    bootRole (v.page v.root) v.size reserved f = .table π ↔
      v.Has π ∧ (v.slotAt π).isPresent = true ∧ (v.slotAt π).frame = f := by
  rw [h.bound_iff, bootRole_eq_iff (by simp)]
  simp only [bootRoleAt_table]
  constructor
  · rintro ⟨k, -, rfl, -, bound⟩
    exact bound
  · rintro ⟨d, bound, rfl⟩
    obtain ⟨i, hi, rfl⟩ := h.bootSlot?_reserved bound
    have := h.room
    exact ⟨2 + i, by omega, rfl, ⟨i, hi, rfl⟩, d, bound, rfl⟩

theorem sound (h : v.Booted reserved) :
    v.Sound (bootRole (v.page v.root) v.size reserved) where
  wired := h.wired
  regular := by
    refine ⟨?_, ?_, ?_⟩
    · rw [h.spaces]
      rfl
    · rw [h.spaces]
      rfl
    · intro q r hr
      rw [(h.find?.1 hr).1, h.spaces]
      exact Nat.one_pos
  outside f := by
    unfold bootRole
    split
    · exact iff_of_false bootRoleAt_ne.1 (not_not.2 ‹_›)
    · exact iff_of_true rfl ‹_›
  resident f := by
    have := h.room
    simp only [bootRole_eq_iff (r := .resident) (by simp), bootRoleAt_resident]
    rw [h.wired.root]
    refine ⟨?_, fun eq => ⟨0, by omega, eq.symm, rfl⟩⟩
    rintro ⟨k, -, rfl, rfl⟩
    rfl
  window f := by
    have := h.room
    simp only [bootRole_eq_iff (r := .window) (by simp), bootRoleAt_window]
    refine ⟨?_, fun eq => ⟨1, by omega, eq.symm, rfl⟩⟩
    rintro ⟨k, -, rfl, rfl⟩
    rfl
  free f := by
    simp only [bootRole_eq_iff (r := .free) (by simp), bootRoleAt_free]
    rw [h.free, KernelState.mem_frameRange]
    exact exists_congr fun k => ⟨fun ⟨hk, same, low⟩ => ⟨low, hk, same⟩,
      fun ⟨low, hk, same⟩ => ⟨hk, same, low⟩⟩
  nodup := h.free ▸ KernelState.nodup_frameRange _ _
  directory f q := by
    have := h.room
    simp only [bootRole_eq_iff (r := .directory q) (by simp), bootRoleAt_directory, h.find?]
    constructor
    · rintro ⟨k, -, rfl, rfl, rfl⟩
      exact ⟨_, ⟨rfl, rfl⟩, rfl⟩
    · rintro ⟨r, ⟨rfl, rfl⟩, rfl⟩
      exact ⟨_, by omega, rfl, rfl, rfl⟩
  table f π := h.role_table f π
  leaf q d t e hq ht he := by
    rw [leaf?_of_absent (h.vacant q d hq.2)] at he
    cases he
  count f π hf := by
    obtain ⟨d, bound, rfl⟩ := h.bound_iff.1 ((h.role_table f π).1 hf)
    obtain ⟨low, high, present, rfl⟩ := (Page.bootSlot?_eq_some h.tables).1 bound
    exact h.get d low high present
  tracked f _ := by
    rw [h.mem]
    simp only [h.role_table, h.bound_iff, Page.bootSlot?_eq_some h.tables]
    constructor
    · rintro ⟨d, low, high, present, frame, held⟩
      exact ⟨.kernel d, ⟨d, ⟨low, high, present, frame⟩, rfl⟩, held⟩
    · rintro ⟨-, ⟨d, ⟨low, high, present, frame⟩, -⟩, held⟩
      exact ⟨d, low, high, present, frame, held⟩
  quiet t _ := by
    rw [entry, h.quiet, Page.entry_zero]
    rfl

theorem settled (h : v.Booted reserved) : v.Settled ((v.page v.root).unbound reserved) where
  stable := by
    refine ⟨_, h.sound, ?_, ?_⟩
    · intro f
      unfold bootRole
      split
      · exact bootRoleAt_ne.2
      · simp
    · intro f
      rw [Page.mem_unbound, bootRole_eq_iff (by simp)]
      simp only [bootRoleAt_owned]
      constructor
      · rintro ⟨k, -, rfl, ⟨i, hi, rfl⟩, none⟩
        exact ⟨⟨i, hi, rfl⟩, none⟩
      · rintro ⟨⟨i, hi, rfl⟩, none⟩
        have := h.room
        exact ⟨2 + i, by omega, rfl, ⟨i, hi, rfl⟩, none⟩
  filled q d _ hq present := by
    rw [h.vacant q d hq.2] at present
    cases present
  shared f hf := absurd (h.shares f) hf
  kept q r hr := by
    rw [(h.find?.1 hr).2]
    exact Nat.one_pos

end Booted
end Snapshot
end VirtualMemory
