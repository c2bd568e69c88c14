import VirtualMemory.Proofs.Calls.Runs
import VirtualMemory.Proofs.Ends

/-!
# The self-map and the walk

The kernel reads its tables through addresses that the processor translates by the same tables. As
long as the last slot of the loaded directory leads to the directory itself, it finds what a walk
finds, whatever else memory holds: tables may be bound twice or lie outside memory, and may be the
directory or the mount table. What it writes that way is one word that walks read.
-/
namespace VirtualMemory

open Layout Snapshot Kernel

/-! ## Addresses -/

namespace Layout

theorem pageAddress_eq {d t : Nat} (hd : d < tableEntries) (ht : t < tableEntries) :
    pageAddress d t = 0x400000 * d + 0x1000 * t := by
  simp only [tableEntries] at hd ht
  have low : 0x1000 * t < 2 ^ 22 := by omega
  have parts : (d <<< 22) ||| (t <<< 12) = 2 ^ 22 * d + 0x1000 * t := by
    rw [Nat.two_pow_add_eq_or_of_lt low, Nat.shiftLeft_eq, Nat.shiftLeft_eq, Nat.mul_comm d,
      Nat.mul_comm t]
  rw [pageAddress, parts, addressLimit]
  omega

theorem isAligned_pageAddress {d t : Nat} (hd : d < tableEntries) (ht : t < tableEntries) :
    isAligned (pageAddress d t) = true := by
  rw [isAligned_iff, pageAddress_eq hd ht]
  omega

theorem dirIndex_pageAddress {d t : Nat} (hd : d < tableEntries) (ht : t < tableEntries) :
    dirIndex (pageAddress d t) = d := by
  rw [pageAddress_eq hd ht, dirIndex]
  simp only [tableEntries] at hd ht
  omega

theorem tableIndex_pageAddress {d t : Nat} (hd : d < tableEntries) (ht : t < tableEntries) :
    tableIndex (pageAddress d t) = t := by
  rw [pageAddress_eq hd ht, tableIndex]
  simp only [tableEntries] at hd ht
  omega

end Layout

/-! ## Memory -/

theorem Ram.contains_add_iff {r : Ram} {f k : Nat} (aligned : isAligned f = true)
    (hk : k < pageSize) : r.contains (f + k) = true ↔ IsFrame r.frames.size f := by
  rw [isAligned_iff] at aligned
  rw [contains, Bool.and_eq_true, decide_eq_true_eq, decide_eq_true_eq, isFrame_iff]
  simp only [frameAddress, frameIndex, base, pageSize] at *
  omega

namespace Machine

variable {m : Machine} {f i va : Nat} {e l : Entry}

/-- The last slot of the loaded directory is present and leads to the directory itself. -/
def SelfMapped (m : Machine) : Prop := ∃ e, m.loadEntry (m.directory + 4 * selfMapSlot) = .ok e ∧
  e.isPresent = true ∧ e.frame = m.directory

/-- The walk to `va` reads its slot at this address. -/
def slotWord (m : Machine) (va : Nat) : Nat := m.directory + 4 * dirIndex va

/-- If the slot is present, it reads its leaf at this one. -/
def leafWord (m : Machine) (va : Nat) : Nat :=
  ((m.ram.pageAt m.directory).entry (dirIndex va)).frame + 4 * tableIndex va

theorem loadEntry_outside (aligned : isAligned f = true) (hi : i < tableEntries)
    (outside : ¬ Ram.IsFrame m.ram.frames.size f) :
    m.loadEntry (f + 4 * i) = .error (.outsideRam (f + 4 * i)) := by
  have word : checkWord (f + 4 * i) = .ok () := by
    rw [isAligned_iff] at aligned
    exact if_pos (by omega)
  have near : 4 * i < pageSize := by simp only [tableEntries, pageSize] at *; omega
  have none : m.ram.word? (f + 4 * i) = none := by
    rw [Ram.word?_eq, if_neg fun inside => outside ((Ram.contains_add_iff aligned near).1 inside)]
  simp [loadEntry, loadWord, word, none, orOutside, bind, Except.bind]

/-- A directory that can be read through itself lies in memory. -/
theorem SelfMapped.isFrame (h : m.SelfMapped) : Ram.IsFrame m.ram.frames.size m.directory := by
  obtain ⟨e, loaded, -, frame⟩ := h
  by_contra outside
  rw [loadEntry_outside (frame ▸ e.frame_aligned) (by decide) outside] at loaded
  cases loaded

theorem SelfMapped.entry (h : m.SelfMapped) :
    ((m.ram.pageAt m.directory).entry selfMapSlot).isPresent = true ∧
      ((m.ram.pageAt m.directory).entry selfMapSlot).frame = m.directory := by
  have inside := h.isFrame
  obtain ⟨e, loaded, present, frame⟩ := h
  rw [loadEntry_eq inside (by decide), Except.ok.injEq] at loaded
  exact loaded ▸ ⟨present, frame⟩

/-! One walk, by what the slot is. -/

theorem walk_of_absent (h : Ram.IsFrame m.ram.frames.size m.directory)
    (absent : ((m.ram.pageAt m.directory).entry (dirIndex va)).isPresent = false) :
    m.walk va = .ok none := by
  rw [walk_eq h]
  simp [absent, pure, Except.pure]

section Present
variable (h : Ram.IsFrame m.ram.frames.size m.directory)
  (he : (m.ram.pageAt m.directory).entry (dirIndex va) = e) (present : e.isPresent = true)
include h he present

theorem walk_of_inside (inside : Ram.IsFrame m.ram.frames.size e.frame)
    (hl : (m.ram.pageAt e.frame).entry (tableIndex va) = l) :
    m.walk va = .ok (if l.isPresent = true then some (l.frame + offset va) else none) := by
  rw [walk_eq h, he]
  simp only [present, if_true, loadEntry_eq inside (tableIndex_lt va), hl]
  rfl

theorem walk_of_outside (outside : ¬ Ram.IsFrame m.ram.frames.size e.frame) :
    m.walk va = .error (.outsideRam (e.frame + 4 * tableIndex va)) := by
  rw [walk_eq h, he]
  simp only [present, if_true, loadEntry_outside e.frame_aligned (tableIndex_lt va) outside]
  rfl

end Present

/-- Through the self-map, the frame behind the view of slot `d` is the one that the slot leads to;
it is asked for nowhere but in memory. -/
theorem SelfMapped.access_tableView (h : m.SelfMapped) {d : Nat} (hd : d < tableEntries)
    (he : (m.ram.pageAt m.directory).entry d = e) (present : e.isPresent = true) :
    m.access (tableView d) =
      if Ram.IsFrame m.ram.frames.size e.frame then .ok e.frame
      else .error (.outsideRam e.frame) := by
  obtain ⟨self, frame⟩ := h.entry
  have top := h.isFrame
  have slot := congrArg (m.ram.pageAt m.directory).entry (dirIndex_tableView hd)
  have walked := walk_of_inside top slot self (by rwa [frame]) (l := e)
    (by rw [frame, tableIndex_tableView hd, he])
  rw [if_pos present, offset_tableView, Nat.add_zero] at walked
  have inside := Ram.contains_add_iff (r := m.ram) e.frame_aligned (k := 0) (by decide)
  rw [Nat.add_zero] at inside
  unfold access
  rw [walked]
  by_cases frame : Ram.IsFrame m.ram.frames.size e.frame
  · simp [checkRam, inside.2 frame, frame, bind, Except.bind, pure, Except.pure]
  · have out : m.ram.contains e.frame = false := Bool.eq_false_iff.2 (frame ∘ inside.1)
    simp [checkRam, out, frame, bind, Except.bind]

end Machine

/-! ## What the kernel finds -/

/-- A lookup of `va` and a walk to it find the same page, or none, or fail; and they fail where a
present slot leads out of memory. -/
structure KernelState.FindsAlike (s : KernelState) (va : Nat) : Prop where
  page : ∀ pa, s.machine.walk va = .ok (some pa) ↔
    ∃ m, lookup va s = .ok (some m) s ∧ m.frame + offset va = pa
  none : s.machine.walk va = .ok none ↔ lookup va s = .ok none s
  fails : (∃ c, s.machine.walk va = .error c) ↔ ∃ f, lookup va s = .error f s
  outside : (∃ c, s.machine.walk va = .error c) ↔
    (s.snapshot.entry s.snapshot.root (dirIndex va)).isPresent = true ∧
      ¬ Ram.IsFrame s.snapshot.size (s.snapshot.entry s.snapshot.root (dirIndex va)).frame

/-- The word at `pa` is `value` in `t`. All other words are as they are in `s`, and so is all else
but the trace, which tells of that one store. -/
structure KernelState.Overwrites (s t : KernelState) (pa : Nat) (value : UInt32) : Prop where
  word : t.machine.loadWord pa = .ok value
  others : ∀ qa, qa / 4 ≠ pa / 4 → t.machine.ram.word? qa = s.machine.ram.word? qa
  rest : t = { s with machine := { s.machine with
    ram := t.machine.ram
    trace := .storeWord pa value :: s.machine.trace } }

namespace Kernel

variable {s : KernelState} {d t va f i : Nat} {e l : Entry}

theorem storeEntry_overwrites (hf : Ram.IsFrame s.snapshot.size f) (hi : i < tableEntries)
    (e : Entry) : ∃ u, storeEntry (f + 4 * i) e s = .ok () u ∧
      s.Overwrites u (f + 4 * i) e.raw := by
  have stored := Machine.storeWord_eq (m := s.machine) hf hi e.raw
  have bound : 4 * i < pageSize := by simp only [tableEntries, pageSize] at *; omega
  have pages := Ram.pageAt_modifyPage (r := s.machine.ram) hf bound (·.set i e.raw)
  have aligned := (isAligned_iff f).1 hf.1
  refine ⟨_, by rw [storeEntry, drive, stored], ?_, fun qa other => ?_, rfl⟩
  · have page := Ram.page?_add (r := s.machine.ram.modifyPage (f + 4 * i) (·.set i e.raw))
      (by rwa [Ram.size_modifyPage]) bound
    have index : (f + 4 * i) % pageSize / 4 = i := by simp only [pageSize] at *; omega
    rw [pages, Function.update_self] at page
    have word : (s.machine.ram.modifyPage (f + 4 * i) (·.set i e.raw)).word? (f + 4 * i) =
        some e.raw := by
      rw [Ram.word?, page, index, Option.map_some, Page.get_set _ _ hi hi, if_pos rfl]
    rw [Machine.loadWord, Machine.checkWord_entry (m := s.machine) hf i]
    exact congrArg (Machine.orOutside _) word
  · rw [Ram.word?_eq, Ram.word?_eq, Ram.contains, Ram.contains, Ram.size_modifyPage, pages,
      Function.update_apply]
    by_cases here : alignDown qa = f
    · -- in the frame itself, every other index keeps its word
      have index : qa % pageSize / 4 ≠ i := by
        simp only [alignDown, pageSize] at *
        omega
      rw [if_pos here, here, Page.get_set _ _ hi (by simp only [pageSize]; omega), if_neg index]
    · rw [if_neg here]

section SelfMapped
variable (h : s.machine.SelfMapped)
include h

theorem directoryBase_eq : directoryBase s = .ok s.snapshot.root s := by
  have inside := h.isFrame
  obtain ⟨self, frame⟩ := h.entry
  have reached := h.access_tableView (d := selfMapSlot) (by decide) rfl self
  rw [frame, if_pos inside] at reached
  rw [directoryBase, access, inspect, directoryView_eq, reached]
  rfl

theorem slot_eq (hd : d < tableEntries) :
    slot d s = .ok (s.snapshot.entry s.snapshot.root d) s := by
  have loaded := Machine.loadEntry_eq (m := s.machine) h.isFrame hd
  rw [slot, checkSlot, if_pos hd]
  refine (bind_of_ok (directoryBase_eq h) _).trans ?_
  rw [loadEntry, inspect, show s.snapshot.root = s.machine.directory from rfl, loaded]
  rfl

theorem setSlot_overwrites (hd : d < tableEntries) (e : Entry) :
    ∃ u, setSlot d e s = .ok () u ∧ s.Overwrites u (s.snapshot.root + 4 * d) e.raw := by
  obtain ⟨u, stored, overwrites⟩ := storeEntry_overwrites (s := s) h.isFrame hd e
  refine ⟨u, ?_, overwrites⟩
  rw [setSlot, checkSlot, if_pos hd]
  exact (bind_of_ok (directoryBase_eq h) _).trans stored

section Present
variable (hd : d < tableEntries) (he : s.snapshot.entry s.snapshot.root d = e)
  (present : e.isPresent = true)
include hd he present

theorem tableBase_eq (inside : Ram.IsFrame s.snapshot.size e.frame) :
    tableBase d s = .ok e.frame s := by
  have reached := (h.access_tableView hd he present).trans (if_pos inside)
  rw [tableBase, access, inspect, reached]

theorem tableBase_fails (outside : ¬ Ram.IsFrame s.snapshot.size e.frame) :
    tableBase d s = .error (.violation (.outsideRam e.frame)) s := by
  have reached := (h.access_tableView hd he present).trans (if_neg outside)
  rw [tableBase, access, inspect, reached]

theorem leaf_eq (inside : Ram.IsFrame s.snapshot.size e.frame) (ht : t < tableEntries) :
    leaf d t s = .ok (s.snapshot.entry e.frame t) s := by
  have loaded := Machine.loadEntry_eq (m := s.machine) inside ht
  rw [leaf, checkLeaf, if_pos ht]
  refine (bind_of_ok (tableBase_eq h hd he present inside) _).trans ?_
  rw [loadEntry, inspect, loaded]
  rfl

theorem leaf_fails (outside : ¬ Ram.IsFrame s.snapshot.size e.frame) (ht : t < tableEntries) :
    leaf d t s = .error (.violation (.outsideRam e.frame)) s := by
  rw [leaf, checkLeaf, if_pos ht]
  exact bind_of_error (tableBase_fails h hd he present outside) _

theorem setLeaf_overwrites (inside : Ram.IsFrame s.snapshot.size e.frame) (ht : t < tableEntries)
    (e' : Entry) :
    ∃ u, setLeaf d t e' s = .ok () u ∧ s.Overwrites u (e.frame + 4 * t) e'.raw := by
  obtain ⟨u, stored, overwrites⟩ := storeEntry_overwrites (s := s) inside ht e'
  refine ⟨u, ?_, overwrites⟩
  rw [setLeaf, checkLeaf, if_pos ht]
  exact (bind_of_ok (tableBase_eq h hd he present inside) _).trans stored

end Present

/-! One lookup, by what the slot is. -/

theorem lookup_of_absent
    (absent : (s.snapshot.entry s.snapshot.root (dirIndex va)).isPresent = false) :
    lookup va s = .ok none s := by
  rw [lookup, leafAt?, bind_assoc, bind_of_ok (slot_eq h (dirIndex_lt va)), absent]
  rfl

section Present
variable (he : s.snapshot.entry s.snapshot.root (dirIndex va) = e) (present : e.isPresent = true)
include he present

theorem lookup_of_inside (inside : Ram.IsFrame s.snapshot.size e.frame)
    (hl : s.snapshot.entry e.frame (tableIndex va) = l) :
    lookup va s = .ok (if l.isPresent = true then some (.ofEntry l) else none) s := by
  have read := leaf_eq h (dirIndex_lt va) he present inside (tableIndex_lt va)
  rw [lookup, leafAt?, bind_assoc, bind_of_ok (slot_eq h (dirIndex_lt va)), he, if_pos present,
    bind_assoc, bind_of_ok read, hl]
  cases l.isPresent <;> rfl

theorem lookup_of_outside (outside : ¬ Ram.IsFrame s.snapshot.size e.frame) :
    lookup va s = .error (.violation (.outsideRam e.frame)) s := by
  have read := leaf_fails h (dirIndex_lt va) he present outside (tableIndex_lt va)
  rw [lookup, leafAt?, bind_assoc, bind_of_ok (slot_eq h (dirIndex_lt va)), he, if_pos present,
    bind_assoc, bind_of_error read]

end Present

theorem findsAlike (va : Nat) : s.FindsAlike va := by
  have root := h.isFrame
  cases present : (s.snapshot.entry s.snapshot.root (dirIndex va)).isPresent with
  | false =>
    have walked := Machine.walk_of_absent root present
    have found := lookup_of_absent h present
    constructor <;> simp [walked, found, present]
  | true =>
    by_cases inside :
        Ram.IsFrame s.snapshot.size (s.snapshot.entry s.snapshot.root (dirIndex va)).frame
    · obtain ⟨l, hl⟩ : ∃ l, s.snapshot.entry (s.snapshot.entry s.snapshot.root (dirIndex va)).frame
        (tableIndex va) = l := ⟨_, rfl⟩
      have walked := Machine.walk_of_inside root rfl present inside hl
      have found := lookup_of_inside h rfl present inside hl
      cases there : l.isPresent <;>
        constructor <;> simp [walked, found, there, present, inside, Mapping.ofEntry]
    · have walked := Machine.walk_of_outside root rfl present inside
      have found := lookup_of_outside h rfl present inside
      constructor <;> simp [walked, found, present, inside]

end SelfMapped
end Kernel

theorem Snapshot.Wired.selfMapped {s : KernelState} (h : s.snapshot.Wired) :
    s.machine.SelfMapped :=
  ⟨_, Machine.loadEntry_eq h.isFrame_root (by decide), h.self_present, h.self_frame⟩

namespace KernelState

/-- Wherever the last slot of the loaded directory leads to the directory, a lookup of any address
and a walk to it find the same. Writing entry `t` of the table at slot `d`, or the slot, changes the
one word that walks to that page read as their leaf, or as their slot; and the leaves behind the
last slot are the slots. -/
theorem selfMap_exact {s : KernelState} (h : s.machine.SelfMapped) :
    (∀ va, s.FindsAlike va) ∧
    (∀ d < tableEntries, ∀ t < tableEntries, ∀ e : Entry,
      (s.snapshot.entry s.snapshot.root d).isPresent = true →
      Ram.IsFrame s.snapshot.size (s.snapshot.entry s.snapshot.root d).frame →
      ∃ u, setLeaf d t e s = .ok () u ∧
        s.Overwrites u (s.machine.leafWord (pageAddress d t)) e.raw) ∧
    (∀ d < tableEntries, ∀ t < tableEntries, ∀ e : Entry, ∃ u, setSlot d e s = .ok () u ∧
      s.Overwrites u (s.machine.slotWord (pageAddress d t)) e.raw) ∧
    ∀ d < tableEntries, ∀ t < tableEntries,
      s.machine.leafWord (pageAddress selfMapSlot d) = s.machine.slotWord (pageAddress d t) := by
  refine ⟨findsAlike h, fun d hd t ht e present inside => ?_, fun d hd t ht e => ?_,
    fun d hd t ht => ?_⟩
  · rw [Machine.leafWord, dirIndex_pageAddress hd ht, tableIndex_pageAddress hd ht]
    exact setLeaf_overwrites h hd rfl present inside ht e
  · rw [Machine.slotWord, dirIndex_pageAddress hd ht]
    exact setSlot_overwrites h hd e
  · rw [Machine.leafWord, Machine.slotWord, dirIndex_pageAddress (by decide) hd,
      tableIndex_pageAddress (by decide) hd, dirIndex_pageAddress hd ht, h.entry.2]

theorem selfMap_exact_booted : ∃ σ, Session.boot? 8 0 [] = some σ ∧ σ.state.machine.SelfMapped ∧
    (∀ va, σ.state.FindsAlike va) ∧
    (∃ u, setLeaf mountTableSlot 7 (.of 0x104000 EntryFlags.kernelData) σ.state = .ok () u ∧
      σ.state.Overwrites u (σ.state.machine.leafWord 0xff807000) 0x104003) ∧
    (∃ u, setSlot 5 (.of 0x104000 EntryFlags.kernelData) σ.state = .ok () u ∧
      σ.state.Overwrites u (σ.state.machine.slotWord 0x1407000) 0x104003) ∧
    σ.state.machine.leafWord 0xffc05000 = σ.state.machine.slotWord 0x1407000 := by
  have runs : (Session.boot? 8 0 []).isSome = true := by decide +kernel
  obtain ⟨σ, boot⟩ := Option.isSome_iff_exists.1 runs
  have booted := Session.booted_of_boot? (by decide) (prepares_nil 8) boot
  obtain ⟨role, stable⟩ := booted.settled.stable
  have wired := stable.wired
  have h : σ.state.machine.SelfMapped := wired.selfMapped
  obtain ⟨finds, leaves, slots, selves⟩ := selfMap_exact h
  exact ⟨σ, boot, h, finds, leaves mountTableSlot (by decide) 7 (by decide) _ wired.mount_present
    wired.isFrame_mount, slots 5 (by decide) 7 (by decide) _, selves 5 (by decide) 7 (by decide)⟩

end KernelState
end VirtualMemory
