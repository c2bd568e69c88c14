import VirtualMemory.Proofs.Ends

/-!
# Actions on the bus

The steps by which the kernel reaches memory, told by the whole state that they end in: what memory
holds then, and the one transaction that it took. Where an address is not mapped, or not to memory,
they fail and leave everything as it was.
-/
namespace VirtualMemory

open Layout Snapshot

/-- The entry behind the window. -/
def Snapshot.window (w : Snapshot) : Entry := w.entry mountTable mountEntry

/-- One transaction leads from `s` to `t`, where the snapshot is `v`. -/
structure KernelState.Moves (s t : KernelState) (x : Transaction) (v : Snapshot) : Prop where
  snapshot : t.snapshot = v
  trace : t.machine.trace = x :: s.machine.trace

/-- Two transactions lead from `s` to `t`, where the window's entry is `e` and nothing else new. -/
structure KernelState.SetsWindow (s t : KernelState) (e : Entry) : Prop where
  snapshot : t.snapshot = s.snapshot.setEntry mountTable mountEntry e
  trace : t.machine.trace = .invalidatePage windowView ::
    .storeWord (mountTable + 4 * mountEntry) e.raw :: s.machine.trace

/-- The address `va` is mapped to frame `f` of memory. -/
structure Snapshot.Maps (w : Snapshot) (va f : Nat) : Prop where
  bound : (w.entry w.root (dirIndex va)).isPresent = true
  table : Ram.IsFrame w.size (w.entry w.root (dirIndex va)).frame
  present : (w.entry (w.entry w.root (dirIndex va)).frame (tableIndex va)).isPresent = true
  frame : (w.entry (w.entry w.root (dirIndex va)).frame (tableIndex va)).frame = f
  inside : Ram.IsFrame w.size f

theorem Ram.isFrame_of_contains {r : Ram} {f k : Nat} (aligned : isAligned f = true)
    (hk : k < pageSize) (inside : r.contains (f + k) = true) : IsFrame r.frames.size f := by
  simp only [contains, Bool.and_eq_true, decide_eq_true_eq] at inside
  rw [isFrame_iff]
  rw [isAligned_iff] at aligned
  simp only [frameAddress, frameIndex, base, pageSize] at *
  omega

namespace Machine

variable {m : Machine} {pa : Nat} {e : Entry}

/-- If a sequence succeeds, both of its parts do. -/
theorem of_bind_ok {α β : Type} {x : Except Violation α} {f : α → Except Violation β} {b : β}
    (h : (x >>= f) = .ok b) : ∃ a, x = .ok a ∧ f a = .ok b := by
  cases x with
  | ok a => exact ⟨a, rfl, h⟩
  | error v => cases h

theorem contains_of_checkRam (h : m.checkRam pa = .ok ()) : m.ram.contains pa = true := by
  unfold checkRam at h
  split at h
  · assumption
  · cases h

theorem contains_of_loadEntry (h : m.loadEntry pa = .ok e) : m.ram.contains pa = true := by
  obtain ⟨w, word, -⟩ := of_bind_ok h
  obtain ⟨-, -, read⟩ := of_bind_ok word
  rw [Ram.contains_iff_isSome]
  unfold Ram.word? at read
  cases page : m.ram.page? pa with
  | some p => rfl
  | none =>
    rw [page] at read
    cases read

/-- An address that can be reached is mapped to memory, through a table in memory. -/
theorem maps_of_access {s : KernelState} (root : Ram.IsFrame s.snapshot.size s.snapshot.root)
    {va : Nat} (h : s.machine.access va = .ok pa) :
    ∃ f, s.snapshot.Maps va f ∧ pa = f + offset va := by
  have index := tableIndex_lt va
  have small : 4 * tableIndex va < pageSize := by simp only [tableEntries, pageSize] at *; omega
  obtain ⟨found, walked, h⟩ := of_bind_ok h
  rw [walk_eq root] at walked
  simp only at walked
  split at walked
  · rename_i bound
    obtain ⟨leaf, load, walked⟩ := of_bind_ok walked
    have table := Ram.isFrame_of_contains (Entry.frame_aligned _) small (contains_of_loadEntry load)
    obtain rfl := Except.ok.inj ((loadEntry_eq table index).symm.trans load)
    cases walked
    split at h
    · rename_i there
      obtain ⟨⟨⟩, inside, h⟩ := of_bind_ok h
      cases h
      split at there
      · cases there
        exact ⟨_, ⟨bound, table, ‹_›, rfl, Ram.isFrame_of_contains (Entry.frame_aligned _)
          (Nat.mod_lt _ (by decide)) (contains_of_checkRam inside)⟩, rfl⟩
      · cases there
    · cases h
  · cases walked
    cases h

end Machine

namespace Kernel.Ends

variable {α : Type} {F : KernelState → Prop} {s : KernelState} {d f i t va : Nat} {e : Entry}
  {p : Page}

theorem access {Q : Nat → KernelState → Prop}
    (root : Ram.IsFrame s.snapshot.size s.snapshot.root) (hF : F s)
    (h : ∀ f, s.snapshot.Maps va f → Q (f + offset va) s) : Ends F (access va) s Q := by
  refine (access_looks va).ends hF fun pa run => ?_
  unfold Kernel.access inspect at run
  split at run
  · rename_i reached
    cases run
    obtain ⟨f, maps, rfl⟩ := Machine.maps_of_access root reached
    exact h f maps
  · cases run

theorem loadEntry {Q : Entry → KernelState → Prop} (inside : Ram.IsFrame s.snapshot.size f)
    (hi : i < tableEntries) (h : Q (s.snapshot.entry f i) s) :
    Ends F (loadEntry (f + 4 * i)) s Q :=
  .of_ok ((Looks.inspect _).run_eq (loadEntry_yields inside hi)) h

theorem loadPage {Q : Page → KernelState → Prop} (inside : Ram.IsFrame s.snapshot.size f)
    (h : Q (s.snapshot.page f) s) : Ends F (loadPage f) s Q :=
  .of_ok ((loadPage_looks f).run_eq (loadPage_yields inside)) h

section Steps
variable {Q : Unit → KernelState → Prop}

theorem storeEntry (inside : Ram.IsFrame s.snapshot.size f) (hi : i < tableEntries)
    (h : ∀ t, s.Moves t (.storeWord (f + 4 * i) e.raw) (s.snapshot.setEntry f i e) → Q () t) :
    Ends F (storeEntry (f + 4 * i) e) s Q := by
  obtain ⟨t, run, ht⟩ := storeEntry_yields inside hi e s rfl
  refine .of_ok run (h t ⟨ht, ?_⟩)
  have stored := Machine.storeWord_eq inside hi e.raw
  rw [Kernel.storeEntry, drive, stored] at run
  cases run
  rfl

theorem storePage (inside : Ram.IsFrame s.snapshot.size f)
    (h : ∀ t, s.Moves t (.storePage f) (s.snapshot.setPage f p) → Q () t) :
    Ends F (storePage f p) s Q := by
  obtain ⟨t, run, ht⟩ := storePage_yields inside p s rfl
  refine .of_ok run (h t ⟨ht, ?_⟩)
  have stored := Machine.storePage_eq inside p
  rw [Kernel.storePage, drive, stored] at run
  cases run
  rfl

/-- Outside memory nothing is stored. -/
theorem storePage_of_aligned (aligned : isAligned f = true) (hF : F s)
    (h : ∀ t, s.Moves t (.storePage f) (s.snapshot.setPage f p) → Q () t) :
    Ends F (Kernel.storePage f p) s Q := by
  by_cases inside : Ram.IsFrame s.snapshot.size f
  · exact storePage inside h
  · have out : s.machine.ram.contains f = false := by
      rw [Bool.eq_false_iff]
      exact fun there => inside (Ram.isFrame_of_contains (k := 0) aligned (by decide) there)
    have fails : s.machine.storePage f p = .error (.outsideRam f) := by
      rw [Machine.storePage, Machine.checkRam, out]
      rfl
    unfold Ends Kernel.storePage drive
    simp only [fails]
    exact hF

theorem invalidatePage (h : ∀ t, s.Moves t (.invalidatePage va) s.snapshot → Q () t) :
    Ends F (invalidatePage va) s Q := h _ ⟨rfl, rfl⟩

theorem flush (h : ∀ t, s.Moves t .flush s.snapshot → Q () t) : Ends F flush s Q := h _ ⟨rfl, rfl⟩

end Steps

section Wired
variable (hw : s.snapshot.Wired)
include hw

theorem tableBase {Q : Nat → KernelState → Prop} (hd : d < tableEntries) (hF : F s)
    (h : (s.snapshot.entry s.snapshot.root d).isPresent = true →
      Ram.IsFrame s.snapshot.size (s.snapshot.entry s.snapshot.root d).frame →
        Q (s.snapshot.entry s.snapshot.root d).frame s) : Ends F (tableBase d) s Q := by
  refine .access hw.isFrame_root hF fun f maps => ?_
  obtain ⟨-, -, present, rfl, inside⟩ := maps
  rw [dirIndex_tableView hd, hw.self_frame, tableIndex_tableView hd] at present inside ⊢
  rw [offset_tableView, Nat.add_zero]
  exact h present inside

theorem directoryBase {Q : Nat → KernelState → Prop} (h : Q s.snapshot.root s) :
    Ends F directoryBase s Q :=
  .of_ok ((access_looks _).run_eq (directoryBase_yields hw)) h

theorem slot {Q : Entry → KernelState → Prop} (hd : d < tableEntries)
    (h : Q (s.snapshot.entry s.snapshot.root d) s) : Ends F (slot d) s Q :=
  .of_ok ((slot_looks d).run_eq (slot_yields hw hd)) h

theorem setSlot {Q : Unit → KernelState → Prop} (hd : d < tableEntries)
    (h : ∀ t, s.Moves t (.storeWord (s.snapshot.root + 4 * d) e.raw)
      (s.snapshot.setEntry s.snapshot.root d e) → Q () t) : Ends F (setSlot d e) s Q := by
  refine .bind (.of_ok (checkSlot_looks d |>.run_eq (checkSlot_yields hd _)) ?_)
  exact .bind (.directoryBase hw (.storeEntry hw.isFrame_root hd h))

/-- Where no table in memory is bound, its entries cannot be reached. -/
theorem leaf {Q : Entry → KernelState → Prop} (hd : d < tableEntries) (hF : F s)
    (h : t < tableEntries → (s.snapshot.entry s.snapshot.root d).isPresent = true →
      Ram.IsFrame s.snapshot.size (s.snapshot.entry s.snapshot.root d).frame →
        Q (s.snapshot.entry (s.snapshot.entry s.snapshot.root d).frame t) s) :
    Ends F (leaf d t) s Q := by
  refine .bind (.ite (fun ht => .pure ?_) fun _ => .violate hF)
  exact .bind (.tableBase hw hd hF fun present inside =>
    .loadEntry inside ht (h ht present inside))

theorem setLeaf {Q : Unit → KernelState → Prop} (hd : d < tableEntries) (hF : F s)
    (h : t < tableEntries → (s.snapshot.entry s.snapshot.root d).isPresent = true →
      Ram.IsFrame s.snapshot.size (s.snapshot.entry s.snapshot.root d).frame →
        ∀ u, s.Moves u
          (.storeWord ((s.snapshot.entry s.snapshot.root d).frame + 4 * t) e.raw)
          (s.snapshot.setEntry (s.snapshot.entry s.snapshot.root d).frame t e) → Q () u) :
    Ends F (setLeaf d t e) s Q := by
  refine .bind (.ite (fun ht => .pure ?_) fun _ => .violate hF)
  exact .bind (.tableBase hw hd hF fun present inside =>
    .storeEntry inside ht (h ht present inside))

theorem windowSlot {Q : Nat → KernelState → Prop} (h : Q (mountTable + 4 * mountEntry) s) :
    Ends F windowSlot s Q :=
  .of_ok (windowSlot_looks.run_eq (windowSlot_yields hw)) h

theorem setWindow {Q : Unit → KernelState → Prop} (h : ∀ t, s.SetsWindow t e → Q () t) :
    Ends F (setWindow e) s Q := by
  refine .bind (.windowSlot hw (.bind ?_))
  refine .storeEntry hw.isFrame_mountTable (by decide) fun t ht => ?_
  refine .invalidatePage fun u hu => h u ⟨hu.snapshot.trans ht.snapshot, ?_⟩
  rw [hu.trace, ht.trace]

/-- Mounting is to point the window at the frame, to run the body there, and to put the entry back
in the end. -/
theorem mountAligned_eq (f : Nat) : ∃ t, s.SetsWindow t (.of f EntryFlags.kernelData) ∧
    ∀ {α : Type} (body : Kernel α), Kernel.mountAligned f body s =
      Kernel.ensuring body (Kernel.setWindow s.snapshot.window) t := by
  have inside := hw.isFrame_mountTable
  have slot := windowSlot_looks.run_eq (windowSlot_yields hw)
  have load := (loadEntry_looks _).run_eq (loadEntry_yields inside (i := mountEntry) (by decide))
  have shows : Ends (fun _ => False) (do
      Kernel.storeEntry (mountTable + 4 * mountEntry) (.of f EntryFlags.kernelData)
      Kernel.invalidatePage windowView) s
        fun _ t => s.SetsWindow t (.of f EntryFlags.kernelData) := by
    refine .bind (.storeEntry inside (by decide) fun t ht => .invalidatePage fun u hu => ?_)
    exact ⟨hu.snapshot.trans ht.snapshot, by rw [hu.trace, ht.trace]⟩
  -- the steps before the body are one run, whatever the body is
  unfold Ends at shows
  split at shows
  · rename_i t run
    refine ⟨t, shows, fun body => ?_⟩
    obtain ⟨_, u, store, invalidate⟩ := bind_eq_ok.1 run
    unfold Kernel.mountAligned
    rw [bind_of_ok slot, bind_of_ok load, bind_of_ok store, bind_of_ok invalidate, Snapshot.window]
  · exact shows.elim

/-- Whatever the body does between: the window's entry is what it was before, in the end. -/
theorem mountAligned {body : Kernel α} {Q : α → KernelState → Prop}
    (h : ∀ t, s.SetsWindow t (.of f EntryFlags.kernelData) →
      Ends (fun u => Ends F (Kernel.setWindow s.snapshot.window) u fun _ v => F v) body t
        fun a u => u.snapshot.Wired ∧ ∀ v, u.SetsWindow v s.snapshot.window → Q a v) :
    Ends F (mountAligned f body) s Q := by
  obtain ⟨t, shows, eq⟩ := mountAligned_eq hw f
  have ends : Ends F (Kernel.ensuring body (Kernel.setWindow s.snapshot.window)) t Q := by
    exact .ensuring ((h t shows).mono fun a v hv => .setWindow hv.1 (hv.2 ·))
  unfold Ends at ends ⊢
  rwa [eq]

/-! The window, and what it shows. -/

theorem base {Q : Nat → KernelState → Prop} (hF : F s)
    (h : s.snapshot.window.isPresent = true →
      Ram.IsFrame s.snapshot.size s.snapshot.window.frame →
        Q s.snapshot.window.frame s) : Ends F Window.base s Q := by
  refine .access hw.isFrame_root hF fun f maps => ?_
  obtain ⟨-, -, present, rfl, inside⟩ := maps
  have slot : dirIndex windowView = mountTableSlot := rfl
  have leaf : tableIndex windowView = mountEntry := rfl
  have edge : offset windowView = 0 := rfl
  rw [slot, leaf, hw.mount_frame] at present inside ⊢
  rw [edge, Nat.add_zero]
  exact h present inside

theorem windowEntry {Q : Entry → KernelState → Prop} (hF : F s)
    (h : i < tableEntries → Ram.IsFrame s.snapshot.size s.snapshot.window.frame →
      Q (s.snapshot.entry s.snapshot.window.frame i) s) :
    Ends F (Window.entry i) s Q := by
  refine .bind (.ite (fun hi => .pure ?_) fun _ => .violate hF)
  exact .bind (.base hw hF fun _ inside => .loadEntry inside hi (h hi inside))

theorem windowSetEntry {Q : Unit → KernelState → Prop} (hF : F s)
    (h : i < tableEntries → Ram.IsFrame s.snapshot.size s.snapshot.window.frame →
      ∀ t, s.Moves t (.storeWord (s.snapshot.window.frame + 4 * i) e.raw)
        (s.snapshot.setEntry s.snapshot.window.frame i e) → Q () t) :
    Ends F (Window.setEntry i e) s Q := by
  refine .bind (.ite (fun hi => .pure ?_) fun _ => .violate hF)
  exact .bind (.base hw hF fun _ inside => .storeEntry inside hi (h hi inside))

theorem windowPage {Q : Page → KernelState → Prop} (hF : F s)
    (h : Ram.IsFrame s.snapshot.size s.snapshot.window.frame →
      Q (s.snapshot.page s.snapshot.window.frame) s) :
    Ends F Window.page s Q :=
  .bind (.base hw hF fun _ inside => .loadPage inside (h inside))

theorem windowSetPage {Q : Unit → KernelState → Prop} (hF : F s)
    (h : Ram.IsFrame s.snapshot.size s.snapshot.window.frame →
      ∀ t, s.Moves t (.storePage s.snapshot.window.frame)
        (s.snapshot.setPage s.snapshot.window.frame p) → Q () t) :
    Ends F (Window.setPage p) s Q :=
  .bind (.base hw hF fun _ inside => .storePage inside (h inside))

end Wired

theorem withFrame {body : Kernel α} {Q : α → KernelState → Prop}
    (hF : F { s with events := .fatal (.unalignedMount f) :: s.events })
    (h : Ends F (Kernel.mountAligned f body) s Q) : Ends F (withFrame f body) s Q :=
  .ite (fun _ => h) fun _ => .halt hF

end Kernel.Ends
end VirtualMemory
