import VirtualMemory.Kernel.Boot
import VirtualMemory.Proofs.Bus

/-!
# The boot loader

Before the kernel starts, a boot loader may write to the reserved frames and to the kernel slots of
the directory. Whatever it writes there, the directory's other slots and the mount table stay as
the machine prepared them.
-/
namespace VirtualMemory

open Layout Snapshot

/-- Addresses that a boot loader may write to. -/
def Layout.Preparable (reserved pa : Nat) : Prop :=
  (∃ d, userSlots ≤ d ∧ d < mountTableSlot ∧ pa = Ram.base + 4 * d) ∨
    (Ram.frameAddress 2 ≤ pa ∧ pa < Ram.frameAddress (2 + reserved))

/-- The kernel slots of directory `p` bind reserved frames, each at one slot. -/
structure Page.BootTables (p : Page) (reserved : Nat) : Prop where
  plain : ∀ d, userSlots ≤ d → d < mountTableSlot → (p.entry d).isPresent = true →
    (p.entry d).isHuge = false
  reserved : ∀ d, userSlots ≤ d → d < mountTableSlot → (p.entry d).isPresent = true →
    ∃ k < reserved, (p.entry d).frame = Ram.frameAddress (2 + k)
  apart : ∀ d i, userSlots ≤ d → d < mountTableSlot → userSlots ≤ i → i < mountTableSlot →
    (p.entry d).isPresent = true → (p.entry i).isPresent = true →
    (p.entry d).frame = (p.entry i).frame → d = i

theorem Layout.preparable_iff {reserved pa : Nat} : Preparable reserved pa ↔
    (Ram.base + 4 * userSlots ≤ pa ∧ pa < Ram.base + 4 * mountTableSlot ∧ pa % 4 = 0) ∨
      (Ram.frameAddress 2 ≤ pa ∧ pa < Ram.frameAddress (2 + reserved)) := by
  refine or_congr_left ⟨?_, fun h => ⟨(pa - Ram.base) / 4, ?_⟩⟩
  · rintro ⟨d, low, high, rfl⟩
    simp only [userSlots, mountTableSlot, Ram.base] at *
    omega
  · simp only [userSlots, mountTableSlot, Ram.base] at *
    omega

instance (reserved pa : Nat) : Decidable (Preparable reserved pa) :=
  decidable_of_iff _ Layout.preparable_iff.symm

namespace Page

/-- The kernel slots that a boot loader may bind. -/
def bootSlots : List Nat := List.range' userSlots (mountTableSlot - userSlots)

theorem mem_bootSlots {d : Nat} : d ∈ bootSlots ↔ userSlots ≤ d ∧ d < mountTableSlot := by
  simp only [bootSlots, List.mem_range'_1, userSlots, mountTableSlot]

theorem bootTables_iff {p : Page} {reserved : Nat} : p.BootTables reserved ↔
    ∀ d ∈ bootSlots, (p.entry d).isPresent = true → (p.entry d).isHuge = false ∧
      (∃ k < reserved, (p.entry d).frame = Ram.frameAddress (2 + k)) ∧
      ∀ i ∈ bootSlots, (p.entry i).isPresent = true → (p.entry d).frame = (p.entry i).frame →
        d = i := by
  simp only [mem_bootSlots]
  constructor
  · rintro h d ⟨low, high⟩ present
    exact ⟨h.plain d low high present, h.reserved d low high present,
      fun i ⟨low', high'⟩ present' => h.apart d i low high low' high' present present'⟩
  · intro h
    refine ⟨fun d low high present => (h d ⟨low, high⟩ present).1,
      fun d low high present => (h d ⟨low, high⟩ present).2.1, ?_⟩
    intro d i low high low' high' present present'
    exact (h d ⟨low, high⟩ present).2.2 i ⟨low', high'⟩ present'

instance (p : Page) (reserved : Nat) : Decidable (p.BootTables reserved) :=
  decidable_of_iff _ bootTables_iff.symm

end Page

/-- A machine with the last two slots of its directory in place. -/
structure Machine.Windowed (m : Machine) (n : Nat) : Prop where
  directory : m.directory = Ram.base
  size : m.ram.frames.size = n
  self : (m.ram.pageAt Ram.base).entry selfMapSlot = .of Ram.base EntryFlags.kernelData
  mount : (m.ram.pageAt Ram.base).entry mountTableSlot = .of mountTable EntryFlags.kernelData

/-- A machine that a kernel can start on. -/
structure Machine.Prepared (m : Machine) (n : Nat) : Prop extends Windowed m n where
  user : ∀ d < userSlots, (m.ram.pageAt Ram.base).entry d = .empty
  quiet : m.ram.pageAt mountTable = Page.zero

variable {m m' : Machine} {n reserved pa d f : Nat} {p : Page}

/-- A store that succeeds changes one entry of one frame. -/
theorem Machine.pageAt_storeWord (hf : Ram.IsFrame m.ram.frames.size f) (low : f ≤ pa)
    (high : pa < f + pageSize) {w : UInt32} (h : m.storeWord pa w = .ok m') :
    m'.directory = m.directory ∧ m'.ram.frames.size = m.ram.frames.size ∧
      ∃ i < tableEntries, pa = f + 4 * i ∧ m'.ram.pageAt =
        Function.update m.ram.pageAt f ((m.ram.pageAt f).setEntry i ⟨w⟩) := by
  have even : pa % 4 = 0 := by
    by_contra odd
    simp [Machine.storeWord, Machine.checkWord, odd, bind, Except.bind] at h
  have aligned := (Ram.isFrame_iff.1 hf).1
  have hi : (pa - f) / 4 < tableEntries := by
    simp only [tableEntries, pageSize] at *
    omega
  have at_i : pa = f + 4 * ((pa - f) / 4) := by omega
  rw [at_i, Machine.storeWord_eq hf hi] at h
  cases h
  have bound : 4 * ((pa - f) / 4) < pageSize := by
    simp only [tableEntries, pageSize] at *
    omega
  exact ⟨rfl, Ram.size_modifyPage .., _, hi, at_i, Ram.pageAt_modifyPage hf bound _⟩

/-- A store that succeeds is to a frame. -/
theorem Machine.isFrame_of_storeWord {w : UInt32} (h : m.storeWord pa w = .ok m') :
    Ram.IsFrame m.ram.frames.size (pa - pa % pageSize) := by
  obtain ⟨-, -, h⟩ := of_bind_ok h
  obtain ⟨⟨⟩, inside, -⟩ := of_bind_ok h
  refine Ram.isFrame_of_contains (isAligned_alignDown pa) (Nat.mod_lt pa (by decide)) ?_
  rw [Nat.sub_add_cancel (Nat.mod_le ..)]
  exact contains_of_checkRam inside

/-- Stores elsewhere leave the last two slots of the directory in place. -/
theorem Machine.Windowed.store (h : m.Windowed n)
    (away : pa < Ram.base + 4 * mountTableSlot ∨ Ram.base + pageSize ≤ pa) {w : UInt32}
    (stored : m.storeWord pa w = .ok m') : m'.Windowed n := by
  obtain ⟨directory, size, i, hi, at_i, pages⟩ := Machine.pageAt_storeWord
    (isFrame_of_storeWord stored) (by omega) (by simp only [pageSize]; omega) stored
  have kept (k : Nat) (high : mountTableSlot ≤ k) (hk : k < tableEntries) :
      (m'.ram.pageAt Ram.base).entry k = (m.ram.pageAt Ram.base).entry k := by
    rw [pages]
    by_cases here : pa - pa % pageSize = Ram.base
    · rw [here, Function.update_self, Page.entry_setEntry _ _ hi hk, if_neg]
      simp only [mountTableSlot, pageSize, Ram.base] at *
      omega
    · rw [Function.update_of_ne (Ne.symm here)]
  exact ⟨directory.trans h.directory, size.trans h.size,
    (kept _ (by decide) (by decide)).trans h.self, (kept _ (by decide) (by decide)).trans h.mount⟩

/-- The two slots lie beyond everything that a boot loader may write to. -/
theorem Layout.Preparable.away (allowed : Preparable reserved pa) :
    pa < Ram.base + 4 * mountTableSlot ∨ Ram.base + pageSize ≤ pa := by
  have := preparable_iff.1 allowed
  simp only [Ram.frameAddress, pageSize] at *
  omega

theorem Machine.Prepared.store (h : m.Prepared n) (room : 3 + reserved ≤ n)
    (allowed : Preparable reserved pa) {w : UInt32} (stored : m.storeWord pa w = .ok m') :
    m'.Prepared n := by
  have windowed := h.toWindowed.store allowed.away stored
  obtain ⟨d, low, high, rfl⟩ | ⟨low, high⟩ := allowed
  · have top : Ram.IsFrame m.ram.frames.size Ram.base := by
      have := (Ram.isFrame_frameAddress (n := n) (k := 0)).2 (by omega)
      rwa [h.size]
    obtain ⟨-, -, i, hi, at_i, pages⟩ := Machine.pageAt_storeWord top (by omega)
      (by simp only [mountTableSlot, pageSize] at *; omega) stored
    obtain rfl : d = i := by omega
    refine ⟨windowed, fun k hk => ?_, ?_⟩
    · have inside : k < tableEntries := by simp only [userSlots, tableEntries] at *; omega
      rw [pages, Function.update_self, Page.entry_setEntry _ _ hi inside, if_neg (by omega)]
      exact h.user k hk
    · rw [pages, Function.update_of_ne (by decide), h.quiet]
  · have aligned : (pa - pa % pageSize) % 4096 = 0 := by
      simp only [pageSize]
      omega
    have inside : Ram.IsFrame m.ram.frames.size (pa - pa % pageSize) := by
      rw [h.size, Ram.isFrame_iff]
      simp only [Ram.frameAddress, Ram.base, pageSize] at *
      omega
    obtain ⟨-, -, i, -, -, pages⟩ := Machine.pageAt_storeWord inside (by omega)
      (by simp only [pageSize]; omega) stored
    have apart : Ram.base ≠ pa - pa % pageSize ∧ mountTable ≠ pa - pa % pageSize := by
      simp only [mountTable, Ram.frameAddress, Ram.base, pageSize] at *
      omega
    refine ⟨windowed, ?_, ?_⟩
    · rw [pages, Function.update_of_ne apart.1]
      exact h.user
    · rw [pages, Function.update_of_ne apart.2, h.quiet]

/-- What every store of a boot loader keeps is there when it is done. -/
theorem Machine.stores_induction {P : Machine → Prop} {setup : List (Nat × UInt32)} (first : P m)
    (step : ∀ x ∈ setup, ∀ u v : Machine, P u → u.storeWord x.1 x.2 = .ok v → P v)
    (stored : setup.foldlM (fun m (x : Nat × UInt32) => m.storeWord x.1 x.2) m = .ok m') :
    P m' := by
  induction setup generalizing m with
  | nil =>
    cases stored
    exact first
  | cons x setup ih =>
    rw [List.foldlM_cons] at stored
    obtain ⟨u, one, rest⟩ := of_bind_ok stored
    exact ih (step x List.mem_cons_self m u first one)
      (fun y hy => step y (List.mem_cons_of_mem _ hy)) rest

/-- The directory before a boot loader writes to it. -/
def bootDirectory : Page :=
  PerfectTree.splice userSlots Page.zero
    ((Page.zero.setEntry selfMapSlot (.of Ram.base EntryFlags.kernelData)).setEntry mountTableSlot
      (.of mountTable EntryFlags.kernelData))

theorem prepareDirectory_zero :
    Page.zero.prepareDirectory Ram.base mountTable = .ok bootDirectory := by
  rw [Page.prepareDirectory, Entry.of?_aligned (by decide), Entry.of?_aligned (by decide)]
  rfl

theorem entry_bootDirectory (hd : d < tableEntries) : bootDirectory.entry d =
    if d = mountTableSlot then .of mountTable EntryFlags.kernelData
    else if d = selfMapSlot then .of Ram.base EntryFlags.kernelData
    else .empty := by
  rw [bootDirectory, Page.entry_splice _ _ _ hd, Page.entry_setEntry _ _ (by decide) hd,
    Page.entry_setEntry _ _ (by decide) hd, Page.entry_zero]
  by_cases user : d < userSlots
  · have mount : d ≠ mountTableSlot := by
      simp only [userSlots, mountTableSlot] at *
      omega
    have self : d ≠ selfMapSlot := by
      simp only [userSlots, selfMapSlot] at *
      omega
    rw [if_pos user, if_neg mount, if_neg self]
  · rw [if_neg user]

theorem Ram.pageAt_blank (hf : Ram.IsFrame n f) : (Ram.blank n).pageAt f = Page.zero := by
  have := Ram.isFrame_iff.1 hf
  have bound : frameIndex f < n := by
    simp only [frameIndex, frameAddress, base, pageSize] at *
    omega
  rw [pageAt, if_pos hf.1, page?, if_pos hf.2.1, Ram.blank, Array.getElem?_replicate, if_pos bound]
  rfl

/-- The boot loader finds blank memory, but for the directory. -/
theorem bootMachine_eq_ok {setup : List (Nat × UInt32)}
    (h : KernelState.bootMachine n setup = .ok m) : 2 ≤ n ∧ ∃ m₀ : Machine,
      m₀.directory = Ram.base ∧ m₀.ram.frames.size = n ∧
      m₀.ram.pageAt Ram.base = bootDirectory ∧ m₀.ram.pageAt mountTable = Page.zero ∧
      setup.foldlM (fun m (x : Nat × UInt32) => m.storeWord x.1 x.2) m₀ = .ok m := by
  have size : (Ram.blank n).frames.size = n := Array.size_replicate
  unfold KernelState.bootMachine Machine.blank at h
  by_cases large : n * pageSize < 0x8000000000000000
  · rw [if_pos large] at h
    have address (k : Nat) : Machine.frameAddress ⟨Ram.blank n, Ram.base, 0, 0, []⟩ k =
        if k < n then .ok (Ram.frameAddress k) else .error .frameIndex := by
      rw [Machine.frameAddress, size]
    by_cases room : 2 ≤ n
    · have top : Ram.IsFrame n Ram.base := Ram.isFrame_frameAddress (k := 0).2 (by omega)
      have window : Ram.IsFrame n mountTable := Ram.isFrame_frameAddress.2 (by omega)
      have page : Machine.loadPage ⟨Ram.blank n, Ram.base, 0, 0, []⟩ Ram.base = .ok Page.zero := by
        rw [Machine.loadPage_eq (by rwa [size]), Ram.pageAt_blank top]
      have first : Machine.frameAddress ⟨Ram.blank n, Ram.base, 0, 0, []⟩ 0 = .ok Ram.base :=
        (address 0).trans (if_pos (by omega))
      have second : Machine.frameAddress ⟨Ram.blank n, Ram.base, 0, 0, []⟩ 1 = .ok mountTable :=
        (address 1).trans (if_pos (by omega))
      simp only [bind, Except.bind, first, second, page, prepareDirectory_zero] at h
      have pages := Ram.pageAt_modifyPage (r := Ram.blank n) (f := Ram.base) (k := 0)
        (by rwa [size]) (by decide) fun _ => bootDirectory
      rw [Nat.add_zero] at pages
      refine ⟨room, _, rfl, (Ram.size_modifyPage ..).trans size, ?_, ?_, h⟩
      · exact (congrFun pages _).trans (Function.update_self ..)
      · refine (congrFun pages _).trans ((Function.update_of_ne (by decide) _ _).trans ?_)
        exact Ram.pageAt_blank window
    · have second := (address 1).trans (if_neg (by omega))
      simp only [bind, Except.bind, second] at h
      split at h <;> cases h
  · rw [if_neg large] at h
    cases h

theorem Machine.Windowed.of_bootDirectory (directory : m.directory = Ram.base)
    (size : m.ram.frames.size = n) (top : m.ram.pageAt Ram.base = bootDirectory) :
    m.Windowed n where
  directory := directory
  size := size
  self := by rw [top, entry_bootDirectory (by decide), if_neg (by decide), if_pos rfl]
  mount := by rw [top, entry_bootDirectory (by decide), if_pos rfl]

theorem bootMachine_prepared {setup : List (Nat × UInt32)} (room : 3 + reserved ≤ n)
    (allowed : ∀ x ∈ setup, Preparable reserved x.1)
    (h : KernelState.bootMachine n setup = .ok m) : m.Prepared n := by
  obtain ⟨-, m₀, directory, size, top, quiet, stored⟩ := bootMachine_eq_ok h
  refine Machine.stores_induction (P := (Machine.Prepared · n))
    ⟨.of_bootDirectory directory size top, ?_, quiet⟩
    (fun x hx u v hu one => hu.store room (allowed x hx) one) stored
  intro d hd
  simp only [userSlots] at hd
  rw [top, entry_bootDirectory (by simp only [tableEntries]; omega), if_neg, if_neg]
  · simp only [selfMapSlot]
    omega
  · simp only [mountTableSlot]
    omega

/-- A boot loader that keeps away from the last two slots of the directory. -/
def KernelState.SparesMachineSlots (setup : List (Nat × UInt32)) : Prop :=
  ∀ x ∈ setup, x.1 < Ram.base + 4 * mountTableSlot ∨ Ram.base + pageSize ≤ x.1

instance (setup : List (Nat × UInt32)) : Decidable (KernelState.SparesMachineSlots setup) :=
  inferInstanceAs (Decidable (∀ x ∈ setup, _))

theorem bootMachine_windowed {setup : List (Nat × UInt32)}
    (away : KernelState.SparesMachineSlots setup) (h : KernelState.bootMachine n setup = .ok m) :
    2 ≤ n ∧ m.Windowed n := by
  obtain ⟨room, m₀, directory, size, top, -, stored⟩ := bootMachine_eq_ok h
  exact ⟨room, Machine.stores_induction (P := (Machine.Windowed · n))
    (.of_bootDirectory directory size top) (fun x hx u v hu one => hu.store (away x hx) one) stored⟩

/-- A boot loader that writes where it may, and binds reserved frames, each at one kernel slot. -/
structure KernelState.Prepares (n reserved : Nat) (setup : List (Nat × UInt32)) : Prop where
  stores : ∀ x ∈ setup, Preparable reserved x.1
  tables : ∀ m, bootMachine n setup = .ok m → (m.ram.pageAt m.directory).BootTables reserved

theorem KernelState.prepares_iff {setup : List (Nat × UInt32)} : Prepares n reserved setup ↔
    (∀ x ∈ setup, Preparable reserved x.1) ∧ match bootMachine n setup with
      | .ok m => (m.ram.pageAt m.directory).BootTables reserved
      | .error _ => True := by
  constructor
  · intro h
    refine ⟨h.stores, ?_⟩
    split
    · exact h.tables _ ‹_›
    · trivial
  · rintro ⟨stores, tables⟩
    refine ⟨stores, ?_⟩
    intro m hm
    rwa [hm] at tables

instance (setup : List (Nat × UInt32)) : Decidable (KernelState.Prepares n reserved setup) :=
  have : Decidable (match KernelState.bootMachine n setup with
      | .ok m => (m.ram.pageAt m.directory).BootTables reserved
      | .error _ => True) :=
    match KernelState.bootMachine n setup with
    | .ok m => inferInstanceAs (Decidable ((m.ram.pageAt m.directory).BootTables reserved))
    | .error _ => inferInstanceAs (Decidable True)
  decidable_of_iff _ KernelState.prepares_iff.symm

/-- Without a boot loader no kernel slot binds a table. -/
theorem KernelState.prepares_nil (n : Nat) : Prepares n 0 [] where
  stores _ hx := by cases hx
  tables m hm := by
    obtain ⟨-, m₀, directory, -, top, -, stored⟩ := bootMachine_eq_ok hm
    cases stored
    have absent (d : Nat) (low : userSlots ≤ d) (high : d < mountTableSlot) :
        (bootDirectory.entry d).isPresent = false := by
      simp only [mountTableSlot] at high
      rw [entry_bootDirectory (by simp only [tableEntries]; omega), if_neg, if_neg]
      · rfl
      · simp only [selfMapSlot]
        omega
      · simp only [mountTableSlot]
        omega
    rw [directory, top]
    refine ⟨fun d low high there => ?_, fun d low high there => ?_,
      fun d i low high _ _ there => ?_⟩ <;> simp [absent d low high] at there

end VirtualMemory
