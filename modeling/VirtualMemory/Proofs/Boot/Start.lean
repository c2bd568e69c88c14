import VirtualMemory.Proofs.Boot.Roles

/-!
# The start of the kernel

The kernel takes the first free frame for its own user half and counts the tables it finds bound.
What it starts from is what the boot loader left behind, and what it ends with is settled.
-/
namespace VirtualMemory

open Layout Snapshot

variable {m : Machine} {n reserved : Nat}

namespace Snapshot

/-- The tables bound below slot `userSlots + k` are recorded. -/
structure Seeded (u v : Snapshot) (k : Nat) : Prop where
  same : v = u.book { u.toBooks with occupancy := v.occupancy }
  mem : ∀ f, f ∈ v.occupancy.counts ↔ ∃ d, userSlots ≤ d ∧ d < userSlots + k ∧
    (u.entry u.root d).isPresent = true ∧ (u.entry u.root d).frame = f ∧
    (u.page f).presentCount ≠ 0
  get : ∀ d, userSlots ≤ d → d < userSlots + k → (u.entry u.root d).isPresent = true →
    v.occupancy.get (u.entry u.root d).frame = (u.page (u.entry u.root d).frame).presentCount

variable {u v : Snapshot} {k : Nat}

theorem Seeded.skip (h : u.Seeded v k)
    (absent : (u.entry u.root (userSlots + k)).isPresent = false) : u.Seeded v (k + 1) where
  same := h.same
  mem f := by
    rw [h.mem]
    refine exists_congr fun d => and_congr_right fun _ => ⟨?_, ?_⟩
    · exact fun ⟨bound, rest⟩ => ⟨by omega, rest⟩
    · rintro ⟨bound, present, rest⟩
      refine ⟨?_, present, rest⟩
      have : d ≠ userSlots + k := by
        rintro rfl
        simp [absent] at present
      omega
  get d low high present := by
    refine h.get d low ?_ present
    have : d ≠ userSlots + k := by
      rintro rfl
      simp [absent] at present
    omega

theorem Seeded.next (h : u.Seeded v k) {e : Entry} (he : u.entry u.root (userSlots + k) = e)
    (present : e.isPresent = true) :
    u.Seeded (v.book { v.toBooks with
      occupancy := v.occupancy.seed e.frame (u.page e.frame).presentCount }) (k + 1) where
  same := congrArg (fun x => x.book { x.toBooks with
    occupancy := v.occupancy.seed e.frame (u.page e.frame).presentCount }) h.same
  mem f := by
    refine Occupancy.mem_seed.trans ?_
    rw [h.mem]
    by_cases here : e.frame = f
    · subst here
      rw [if_pos rfl]
      refine ⟨fun held => ⟨userSlots + k, Nat.le_add_right _ _, Nat.lt_succ_self _, he ▸ present,
        he ▸ rfl, held⟩, ?_⟩
      exact fun ⟨_, _, _, _, _, held⟩ => held
    · rw [if_neg here]
      refine exists_congr fun d => and_congr_right fun _ => ⟨?_, ?_⟩
      · exact fun ⟨bound, rest⟩ => ⟨by omega, rest⟩
      · rintro ⟨bound, present, frame, rest⟩
        refine ⟨?_, present, frame, rest⟩
        have : d ≠ userSlots + k := by
          rintro rfl
          exact here (he ▸ frame)
        omega
  get d low high there := by
    have small := Page.presentCount_le (u.page e.frame)
    refine Occupancy.get_seed.trans ?_
    by_cases here : e.frame = (u.entry u.root d).frame
    · rw [if_pos here, ← here]
      exact Nat.mod_eq_of_lt (by simp only [tableEntries, Occupancy.countLimit] at *; omega)
    · rw [if_neg here]
      refine h.get d low ?_ there
      have : d ≠ userSlots + k := by
        rintro rfl
        exact here (he ▸ rfl)
      omega

end Snapshot

namespace Kernel

variable {E : Failure → Books → Prop} {u v w : Snapshot} {k : Nat}

theorem seedBootTable_leads (hu : u.Wired) (h : u.Seeded v k) (hk : userSlots + k < mountTableSlot)
    (tables : (u.page u.root).BootTables reserved)
    (inside : ∀ i < reserved, Ram.IsFrame u.size (Ram.frameAddress (2 + i))) :
    Leads E (seedBootTable (userSlots + k)) v fun _ x => u.Seeded x (k + 1) := by
  have low : userSlots ≤ userSlots + k := Nat.le_add_right _ _
  have hk' := Sound.slot_lt hk
  have wired : v.Wired := h.same ▸ hu.book _
  have page : v.page = u.page := by rw [h.same, page_book]
  have root : v.root = u.root := by rw [h.same, root_book]
  have size : v.size = u.size := by rw [h.same, size_book]
  have entry (f i : Nat) : v.entry f i = u.entry f i := by rw [h.same, entry_book]
  refine (slot_yields wired hk').bind ?_
  rw [entry, root]
  generalize he : u.entry u.root (userSlots + k) = e
  by_cases present : e.isPresent = true
  · have there : (u.entry u.root (userSlots + k)).isPresent = true := he ▸ present
    have plain := tables.plain _ low hk there
    obtain ⟨i, hi, frame⟩ := tables.reserved _ low hk there
    change (u.entry u.root _).isHuge = false at plain
    change (u.entry u.root _).frame = _ at frame
    rw [he] at plain frame
    have frameIn : Ram.IsFrame v.size e.frame := by
      rw [size, frame]
      exact inside i hi
    have read := table_yields wired hk' (by rw [root, entry, he]) present frameIn
    rw [page] at read
    simp only [present, plain, Bool.not_false, Bool.and_self, if_true]
    refine read.bind ?_
    exact (seedTable_yields _ _ _).leads (h.next he present)
  · simp only [present, Bool.false_and, Bool.false_eq_true, if_false]
    exact .pure (h.skip (by rw [he]; simpa using present))

/-- The first free frame becomes the store of the kernel's user half. -/
theorem start_leads (hw : w.Wired) {store : Nat} {rest : List Nat} (first : w.free = store :: rest)
    (inside : Ram.IsFrame w.size store) (hm : store ≠ mountTable) (hr : store ≠ w.root)
    (tables : (w.page w.root).BootTables reserved)
    (reservedIn : ∀ i < reserved, Ram.IsFrame w.size (Ram.frameAddress (2 + i)))
    (none : ∀ f, f ∉ w.occupancy.counts) :
    Leads Exhausted start w fun _ v => ∃ x,
      ((w.book { w.toBooks with free := rest }).setPage store Page.zero).Seeded x
        (mountTableSlot - userSlots) ∧
      v = x.book { x.toBooks with spaces := .withKernel store } := by
  refine .bind (acquireRaw_leads .frames ?_)
  intro f rest' first'
  obtain ⟨rfl, rfl⟩ := List.cons.inj (first.symm.trans first')
  set u := (w.book { w.toBooks with free := rest }).setPage store Page.zero with hu
  have wired : u.Wired := (hw.book { w.toBooks with free := rest }).setPage hr _
  refine (zero_yields (hw.book { w.toBooks with free := rest }) inside hm hr).bind ?_
  rw [← hu]
  have top : u.page u.root = w.page w.root := by
    rw [hu, page_setPage]
    exact if_neg hr.symm
  refine .bind (Leads.mono (Leads.forEach (fun k v => u.Seeded v k)
    ⟨rfl, ?_, fun d low high => by omega⟩ ?_) ?_)
  · intro f
    exact iff_of_false (none f) fun ⟨d, low, high, _⟩ => by omega
  · intro k v hk seeded
    rw [Nat.mul_one]
    refine seedBootTable_leads wired seeded ?_ (top ▸ tables) reservedIn
    simp only [userSlots, mountTableSlot] at *
    omega
  · intro _ x seeded
    have registered : Yields (modify fun s : KernelState =>
        { s with spaces := .withKernel store }) x ()
        (x.book { x.toBooks with spaces := .withKernel store }) := by
      refine modify_yields ?_
      rintro s rfl
      rfl
    refine registered.bind (.get ?_)
    intro s hs
    exact (note_yields _ _).leads ⟨x, seeded, rfl⟩

end Kernel

/-! ## The whole boot -/

theorem KernelState.boot_eq_ok {setup : List (Nat × UInt32)} {s : KernelState}
    (h : boot n reserved setup = .ok s) : 3 + reserved ≤ n ∧ ∃ m, bootMachine n setup = .ok m ∧
      Kernel.start (raw m ⟨frameRange (2 + reserved) n⟩) = .ok () s := by
  unfold boot at h
  by_cases wide : 3 + reserved ≥ addressLimit
  · rw [if_pos wide] at h
    cases h
  · by_cases narrow : n < 3 + reserved
    · rw [if_neg wide, if_pos narrow] at h
      cases h
    · rw [if_neg wide, if_neg narrow] at h
      refine ⟨by omega, ?_⟩
      cases machine : bootMachine n setup with
      | error e =>
        simp only [machine] at h
        cases h
      | ok m =>
        simp only [machine] at h
        cases started : Kernel.start (raw m ⟨frameRange (2 + reserved) n⟩) with
        | error e t =>
          simp only [started] at h
          cases h
        | ok a t =>
          simp only [started] at h
          cases h
          exact ⟨m, rfl, started⟩

theorem Machine.Windowed.wired (h : m.Windowed n) (room : 2 ≤ n)
    (small : Ram.Addressable n) (pool : FramePool) :
    (KernelState.raw m pool).snapshot.Wired where
  root := h.directory
  room := by
    change 2 ≤ m.ram.frames.size
    rwa [h.size]
  addressable := by
    change Ram.frameAddress m.ram.frames.size ≤ _
    rwa [h.size]
  self_present := by
    change ((m.ram.pageAt m.directory).entry selfMapSlot).isPresent = true
    rw [h.directory, h.self, Entry.isPresent_kernelData]
  self_frame := by
    change ((m.ram.pageAt m.directory).entry selfMapSlot).frame = m.directory
    rw [h.directory, h.self, Entry.frame_of (by decide) (by decide) EntryFlags.low_kernelData]
  mount_present := by
    change ((m.ram.pageAt m.directory).entry mountTableSlot).isPresent = true
    rw [h.directory, h.mount, Entry.isPresent_kernelData]
  mount_frame := by
    change ((m.ram.pageAt m.directory).entry mountTableSlot).frame = mountTable
    rw [h.directory, h.mount, Entry.frame_of (by decide) (by decide) EntryFlags.low_kernelData]

theorem KernelState.frameRange_eq_cons {a b : Nat} (h : a < b) :
    frameRange a b = Ram.frameAddress a :: frameRange (a + 1) b := by
  rw [frameRange, show b - a = b - (a + 1) + 1 by omega, List.range'_succ, List.map_cons]
  rfl

/-- What a kernel starts from. -/
structure Snapshot.Startable (w : Snapshot) (reserved : Nat) : Prop where
  wired : w.Wired
  room : 3 + reserved ≤ w.size
  free : w.free = KernelState.frameRange (2 + reserved) w.size
  shares : ∀ f, w.shares.get f = 0
  untracked : ∀ f, f ∉ w.occupancy.counts
  user : ∀ d < userSlots, (w.entry w.root d).isPresent = false
  quiet : w.page mountTable = Page.zero
  tables : (w.page w.root).BootTables reserved

theorem Machine.Prepared.startable (h : m.Prepared n) (room : 3 + reserved ≤ n)
    (small : Ram.Addressable n)
    (tables : (m.ram.pageAt m.directory).BootTables reserved) :
    (KernelState.raw m ⟨KernelState.frameRange (2 + reserved) n⟩).snapshot.Startable reserved where
  wired := h.wired (by omega) small _
  room := by
    change _ ≤ m.ram.frames.size
    rwa [h.size]
  free := by
    change _ = KernelState.frameRange _ m.ram.frames.size
    rw [h.size]
    rfl
  shares := Shares.get_empty
  untracked _ := Std.ExtTreeMap.not_mem_empty
  user d hd := by
    change ((m.ram.pageAt m.directory).entry d).isPresent = false
    rw [h.directory, h.user d hd, Entry.isPresent_empty]
  quiet := h.quiet
  tables := tables

/-- A start from there cannot fail in any other way than by an empty pool, and it has one frame. -/
theorem Kernel.start_booted {w : Snapshot} (h : w.Startable reserved) :
    Leads Exhausted start w fun _ v => v.size = w.size ∧ v.Booted reserved ∧
      v.page (Ram.frameAddress (2 + reserved)) = Page.zero ∧ v.page v.root = w.page w.root := by
  have room := h.room
  have first := KernelState.frameRange_eq_cons (a := 2 + reserved) (b := w.size) (by omega)
  rw [← h.free, show 2 + reserved + 1 = 3 + reserved by omega] at first
  generalize hs : Ram.frameAddress (2 + reserved) = store at first
  have inside : Ram.IsFrame w.size store := hs ▸ Ram.isFrame_frameAddress.2 (by omega)
  have hm : store ≠ mountTable := by
    rw [← hs, mountTable, ne_eq, Ram.frameAddress_inj]
    omega
  have hr : store ≠ w.root := by
    rw [← hs, h.wired.root, ne_eq, show Ram.base = Ram.frameAddress 0 from rfl,
      Ram.frameAddress_inj]
    omega
  refine (start_leads h.wired first inside hm hr h.tables
    (fun i hi => Ram.isFrame_frameAddress.2 (by omega)) h.untracked).mono ?_
  rintro _ _ ⟨x, seeded, rfl⟩
  set u := (w.book { w.toBooks with free := KernelState.frameRange (3 + reserved) w.size }).setPage
    store Page.zero with hu
  have top : u.page w.root = w.page w.root := by
    rw [hu, page_setPage]
    exact if_neg hr.symm
  have wired : u.Wired :=
    (h.wired.book { w.toBooks with free := KernelState.frameRange (3 + reserved) w.size }).setPage
      hr _
  have tables : (u.page u.root).BootTables reserved := top ▸ h.tables
  have mem := seeded.mem
  have get := seeded.get
  have last : userSlots + (mountTableSlot - userSlots) = mountTableSlot := by decide
  rw [last] at mem get
  rw [seeded.same]
  refine ⟨rfl, ⟨(wired.book _).book _, room, rfl, h.shares, by rw [hs]; rfl, ?_, ?_,
    tables, mem, get⟩, ?_, top⟩
  · intro d hd
    exact (congrArg (fun p => (Page.entry p d).isPresent) top).trans (h.user d hd)
  · exact (page_setPage ..).trans ((if_neg hm.symm).trans h.quiet)
  · exact page_setPage_self ..

/-- A boot that succeeds leaves the kernel as described, and the frame cleared that waits for the
user half of the kernel's space. -/
theorem KernelState.boot_cleared {setup : List (Nat × UInt32)} {s : KernelState}
    (small : Ram.Addressable n) (prepares : Prepares n reserved setup)
    (h : boot n reserved setup = .ok s) : s.snapshot.size = n ∧ s.snapshot.Booted reserved ∧
      s.snapshot.page (Ram.frameAddress (2 + reserved)) = Page.zero := by
  obtain ⟨room, m, machine, started⟩ := boot_eq_ok h
  have prepared := bootMachine_prepared room prepares.stores machine
  have ends := Kernel.start_booted (prepared.startable room small (prepares.tables m machine)) _ rfl
  rw [started] at ends
  exact ⟨ends.1.trans prepared.size, ends.2.1, ends.2.2.1⟩

/-- The last slot of the directory is still the one that the machine was prepared with. -/
theorem KernelState.boot_self {setup : List (Nat × UInt32)} {s : KernelState}
    (small : Ram.Addressable n) (prepares : Prepares n reserved setup)
    (h : boot n reserved setup = .ok s) :
    s.snapshot.entry s.snapshot.root selfMapSlot = .of Ram.base EntryFlags.kernelData := by
  obtain ⟨room, m, machine, started⟩ := boot_eq_ok h
  have prepared := bootMachine_prepared room prepares.stores machine
  have ends := Kernel.start_booted (prepared.startable room small (prepares.tables m machine)) _ rfl
  rw [started] at ends
  have top : s.snapshot.page s.snapshot.root = m.ram.pageAt m.directory := ends.2.2.2
  rw [entry, top, prepared.directory, prepared.self]

theorem KernelState.boot_booted {setup : List (Nat × UInt32)} {s : KernelState}
    (small : Ram.Addressable n) (prepares : Prepares n reserved setup)
    (h : boot n reserved setup = .ok s) :
    s.snapshot.size = n ∧ s.snapshot.Booted reserved :=
  have cleared := boot_cleared small prepares h
  ⟨cleared.1, cleared.2.1⟩

end VirtualMemory
