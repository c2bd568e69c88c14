import Mathlib.Logic.Function.Basic
import VirtualMemory.Machine.Walk
import VirtualMemory.Memory.Table
import VirtualMemory.Proofs.Entries

/-!
# Memory by frames

Seen from its frames, memory is a function from frame addresses to pages. Every access of the
machine that stays inside a frame reads or changes that function at one point.
-/
namespace VirtualMemory

open Layout

namespace Page

theorem entry_setEntry (p : Page) {i j : Nat} (e : Entry) (hi : i < tableEntries)
    (hj : j < tableEntries) : (p.setEntry i e).entry j = if j = i then e else p.entry j := by
  simp only [entry, setEntry, get_set p e.raw hi hj]
  split <;> rfl

@[simp] theorem entry_zero (i : Nat) : zero.entry i = Entry.empty := by simp [entry, zero]; rfl

/-- A table is determined by its entries. -/
theorem ext_entry {p q : Page} (h : ∀ i < tableEntries, p.entry i = q.entry i) : p = q :=
  PerfectTree.ext_get fun i hi => congrArg Entry.raw (h i hi)

theorem wordOfBytes_byteOfWord (w : UInt32) : wordOfBytes (byteOfWord w) = w := by
  have low := w.toNat_lt
  apply UInt32.toNat_inj.1
  simp only [byteOfWord, wordOfBytes, UInt8.toNat_ofNat', UInt32.toNat_ofNat',
    Nat.shiftRight_eq_div_pow, Nat.reduceMul, Nat.reducePow]
  omega

/-- A page is determined by its bytes. -/
theorem ext_byte {p q : Page} (h : ∀ k < pageSize, p.byte k = q.byte k) : p = q := by
  refine PerfectTree.ext_get fun i hi => ?_
  rw [← wordOfBytes_byteOfWord (p.get i), ← wordOfBytes_byteOfWord (q.get i)]
  have byte (j : Nat) (hj : j < 4) : byteOfWord (p.get i) j = byteOfWord (q.get i) j := by
    have same := h (4 * i + j) (by simp only [PerfectTree.size, pageSize] at *; omega)
    rwa [byte, byte, show (4 * i + j) / 4 = i by omega, show (4 * i + j) % 4 = j by omega] at same
  simp only [wordOfBytes, byte 0 (by decide), byte 1 (by decide), byte 2 (by decide),
    byte 3 (by decide)]

theorem setEntry_entry (p : Page) {i : Nat} (hi : i < tableEntries) :
    p.setEntry i (p.entry i) = p := by
  apply ext_entry
  intro j hj
  rw [entry_setEntry p _ hi hj]
  split
  · subst_vars; rfl
  · rfl

theorem setEntry_setEntry (p : Page) {i : Nat} (a b : Entry) (hi : i < tableEntries) :
    (p.setEntry i a).setEntry i b = p.setEntry i b := by
  apply ext_entry
  intro j hj
  simp only [entry_setEntry _ _ hi hj]
  split <;> rfl

/-- The first `k` entries of `p`, followed by those of `q`. -/
theorem entry_splice (k : Nat) (p q : Page) {i : Nat} (hi : i < tableEntries) :
    entry (PerfectTree.splice k p q) i = if i < k then p.entry i else q.entry i := by
  simp only [entry, PerfectTree.get_splice, mod_size_of_lt hi]
  split <;> rfl

end Page

namespace Ram

/-- `f` is the address of one of `n` frames. -/
def IsFrame (n f : Nat) : Prop := isAligned f = true ∧ base ≤ f ∧ f < frameAddress n

instance (n f : Nat) : Decidable (IsFrame n f) := inferInstanceAs (Decidable (_ ∧ _))

theorem isFrame_iff {n f : Nat} : IsFrame n f ↔ f % 4096 = 0 ∧ base ≤ f ∧ f < frameAddress n := by
  rw [IsFrame, isAligned_iff]

theorem isFrame_frameAddress {n k : Nat} : IsFrame n (frameAddress k) ↔ k < n := by
  simp only [isFrame_iff, frameAddress, base, pageSize]
  omega

/-- The page in the frame at `f`; other addresses hold nothing but zeros. -/
def pageAt (r : Ram) (f : Nat) : Page :=
  if isAligned f then (r.page? f).getD Page.zero else Page.zero

/-- Physical addresses are 32 bits wide, like the entries that hold them: a processor without
address extension has no frame past them. -/
def Addressable (n : Nat) : Prop := frameAddress n ≤ 0x100000000

instance (n : Nat) : Decidable (Addressable n) := inferInstanceAs (Decidable (_ ≤ _))

/-- That is, there are entries for all frames. -/
theorem addressable_iff {n : Nat} :
    Addressable n ↔ ∀ f, IsFrame n f → ∃ e : Entry, e.frame = f := by
  constructor
  · intro small f hf
    have low : f < 0x100000000 := hf.2.2.trans_le small
    exact ⟨.of f EntryFlags.kernelData, Entry.frame_of hf.1 low EntryFlags.low_kernelData⟩
  · intro named
    cases n with
    | zero => exact (by decide : frameAddress 0 ≤ 0x100000000)
    | succ k =>
      obtain ⟨e, he⟩ := named _ (isFrame_frameAddress.2 (Nat.lt_succ_self k))
      have aligned := e.frame_aligned
      have low := e.frame_lt
      rw [isAligned_iff] at aligned
      simp only [Addressable, frameAddress, base, pageSize] at *
      omega

variable {r : Ram} {f k : Nat}

theorem frameIndex_add (hf : IsFrame r.frames.size f) (hk : k < pageSize) :
    base ≤ f + k ∧ frameIndex (f + k) = frameIndex f ∧ frameIndex f < r.frames.size := by
  simp only [isFrame_iff, frameAddress, base, frameIndex, pageSize] at *
  omega

theorem page?_add (hf : IsFrame r.frames.size f) (hk : k < pageSize) :
    r.page? (f + k) = some (r.pageAt f) := by
  obtain ⟨inside, same, bound⟩ := frameIndex_add hf hk
  simp only [page?, pageAt, if_pos inside, same, hf.1, if_true, if_pos hf.2.1,
    Array.getElem?_eq_getElem bound, Option.getD_some]

theorem contains_add (hf : IsFrame r.frames.size f) (hk : k < pageSize) :
    r.contains (f + k) = true := by
  rw [contains_iff_isSome, page?_add hf hk, Option.isSome_some]

/-- Every address of memory lies in the page of some frame. -/
theorem page?_eq (r : Ram) (pa : Nat) :
    r.page? pa = if r.contains pa then some (r.pageAt (alignDown pa)) else none := by
  by_cases inside : r.contains pa = true
  · rw [if_pos inside]
    simp only [contains, Bool.and_eq_true, decide_eq_true_eq] at inside
    obtain ⟨low, high⟩ := inside
    have frame : IsFrame r.frames.size (alignDown pa) := by
      simp only [isFrame_iff, frameAddress, alignDown, frameIndex, base, pageSize] at *
      omega
    have page := page?_add frame (k := pa % pageSize) (Nat.mod_lt _ (by decide))
    rwa [show alignDown pa + pa % pageSize = pa from Nat.sub_add_cancel (Nat.mod_le _ _)] at page
  · rw [if_neg inside]
    rw [contains_iff_isSome] at inside
    simpa using inside

theorem word?_eq (r : Ram) (pa : Nat) : r.word? pa =
    if r.contains pa then some ((r.pageAt (alignDown pa)).get (pa % pageSize / 4)) else none := by
  rw [word?, page?_eq]
  split <;> rfl

theorem byte?_eq (r : Ram) (pa : Nat) : r.byte? pa =
    if r.contains pa then some ((r.pageAt (alignDown pa)).byte (pa % pageSize)) else none := by
  rw [byte?, page?_eq]
  split <;> rfl

theorem pageAt_of_outside (outside : ¬ IsFrame r.frames.size f) : r.pageAt f = Page.zero := by
  unfold pageAt
  split
  · have out : r.contains f = false := by
      rw [Bool.eq_false_iff]
      intro inside
      simp only [contains, Bool.and_eq_true, decide_eq_true_eq] at inside
      refine outside ⟨‹_›, inside.1, ?_⟩
      simp only [frameAddress, frameIndex, base, pageSize] at *
      omega
    rw [page?_eq, out]
    rfl
  · rfl

/-- The same bytes make the same page. -/
theorem pageAt_congr {r' : Ram} (size : r'.frames.size = r.frames.size)
    (byte : ∀ pa, alignDown pa = f → r'.byte? pa = r.byte? pa) : r'.pageAt f = r.pageAt f := by
  by_cases inside : IsFrame r.frames.size f
  · refine Page.ext_byte fun k hk => ?_
    have aligned := (isAligned_iff f).1 inside.1
    have same := byte (f + k) (by simp only [alignDown, pageSize] at *; omega)
    rw [byte?, byte?, page?_add inside hk, page?_add (size ▸ inside) hk, Option.map_some,
      Option.map_some, Option.some.injEq] at same
    rwa [show (f + k) % pageSize = k by simp only [pageSize] at *; omega] at same
  · rw [pageAt_of_outside inside, pageAt_of_outside (size ▸ inside)]

/-- Changing the page that holds an address changes what is at its frame, and no other frame. -/
theorem pageAt_modifyPage (hf : IsFrame r.frames.size f) (hk : k < pageSize) (g : Page → Page) :
    (r.modifyPage (f + k) g).pageAt = Function.update r.pageAt f (g (r.pageAt f)) := by
  obtain ⟨inside, same, -⟩ := frameIndex_add hf hk
  have here := page?_add hf (k := 0) (by decide)
  funext q
  simp only [Function.update_apply, pageAt, page?_modifyPage r g inside, same]
  by_cases hq : q = f
  · subst hq
    simp only [hf.1, if_true, hf.2.1, and_self, Nat.add_zero] at here ⊢
    simp [here]
  · rw [if_neg hq]
    by_cases aligned : isAligned q = true
    · have apart : ¬ (base ≤ q ∧ frameIndex q = frameIndex f) := by
        have := isFrame_iff.1 hf
        rw [isAligned_iff] at aligned
        simp only [base, frameIndex, pageSize] at *
        omega
      rw [if_neg apart]
    · simp [aligned]

end Ram

namespace Machine

variable {m : Machine} {f i k : Nat}

theorem checkRam_add (hf : Ram.IsFrame m.ram.frames.size f) (hk : k < pageSize) :
    m.checkRam (f + k) = .ok () := by
  rw [checkRam, Ram.contains_add hf hk, if_pos rfl]

theorem checkWord_entry (hf : Ram.IsFrame m.ram.frames.size f) (i : Nat) :
    checkWord (f + 4 * i) = .ok () := by
  have := Ram.isFrame_iff.1 hf
  exact if_pos (by omega)

theorem loadEntry_eq (hf : Ram.IsFrame m.ram.frames.size f) (hi : i < tableEntries) :
    m.loadEntry (f + 4 * i) = .ok ((m.ram.pageAt f).entry i) := by
  have aligned := Ram.isFrame_iff.1 hf
  have index : (f + 4 * i) % pageSize / 4 = i := by
    simp only [tableEntries, pageSize] at *; omega
  have page := Ram.page?_add hf (k := 4 * i) (by simp only [tableEntries, pageSize] at *; omega)
  simp [loadEntry, loadWord, checkWord_entry hf, Ram.word?, page, index, orOutside, bind,
    Except.bind, pure, Except.pure, Page.entry]

/-- Memories of one size hold the same word at an address that no frame tells apart. -/
theorem loadWord_congr {m' : Machine} (size : m'.ram.frames.size = m.ram.frames.size) {pa : Nat}
    (same : pa % 4 = 0 → (m'.ram.pageAt (alignDown pa)).get (pa % pageSize / 4) =
      (m.ram.pageAt (alignDown pa)).get (pa % pageSize / 4)) :
    m'.loadWord pa = m.loadWord pa := by
  unfold loadWord checkWord
  by_cases aligned : pa % 4 = 0
  · rw [Ram.word?_eq, Ram.word?_eq, same aligned, Ram.contains, Ram.contains, size]
  · simp [aligned, bind, Except.bind]

theorem storeWord_eq (hf : Ram.IsFrame m.ram.frames.size f) (hi : i < tableEntries) (w : UInt32) :
    m.storeWord (f + 4 * i) w = .ok { m with
      ram := m.ram.modifyPage (f + 4 * i) (·.set i w)
      trace := .storeWord (f + 4 * i) w :: m.trace } := by
  have aligned := Ram.isFrame_iff.1 hf
  have index : (f + 4 * i) % pageSize / 4 = i := by
    simp only [tableEntries, pageSize] at *; omega
  have inside := checkRam_add hf (k := 4 * i) (by simp only [tableEntries, pageSize] at *; omega)
  simp [storeWord, checkWord_entry hf, inside, Ram.setWord, index, bind, Except.bind, pure,
    Except.pure]

theorem loadPage_eq (hf : Ram.IsFrame m.ram.frames.size f) :
    m.loadPage f = .ok (m.ram.pageAt f) := by
  have page := Ram.page?_add hf (k := 0) (by decide)
  rw [Nat.add_zero] at page
  rw [loadPage, page, orOutside]

theorem storePage_eq (hf : Ram.IsFrame m.ram.frames.size f) (p : Page) :
    m.storePage f p = .ok { m with
      ram := m.ram.modifyPage f fun _ => p
      trace := .storePage f :: m.trace } := by
  have inside := checkRam_add hf (k := 0) (by decide)
  rw [Nat.add_zero] at inside
  simp [storePage, inside, bind, Except.bind, pure, Except.pure]

theorem storeByte_eq (hf : Ram.IsFrame m.ram.frames.size f) (hk : k < pageSize) (b : UInt8) :
    m.storeByte (f + k) b = .ok { m with
      ram := m.ram.modifyPage (f + k) (·.setByte k b)
      trace := .storeByte (f + k) b :: m.trace } := by
  have aligned := Ram.isFrame_iff.1 hf
  have index : (f + k) % pageSize = k := by simp only [pageSize] at *; omega
  simp [storeByte, checkRam_add hf hk, Ram.setByte, index, bind, Except.bind, pure, Except.pure]

theorem loadByte_eq (hf : Ram.IsFrame m.ram.frames.size f) (hk : k < pageSize) :
    m.loadByte (f + k) = .ok ((m.ram.pageAt f).byte k) := by
  have aligned := Ram.isFrame_iff.1 hf
  have index : (f + k) % pageSize = k := by simp only [pageSize] at *; omega
  simp [loadByte, Ram.byte?, Ram.page?_add hf hk, index, orOutside]

/-- One step of the walk: the entry for `va` in the table at `f`. -/
theorem walk_eq (hd : Ram.IsFrame m.ram.frames.size m.directory) (va : Nat) :
    m.walk va =
      let slot := (m.ram.pageAt m.directory).entry (dirIndex va)
      if slot.isPresent then do
        let leaf ← m.loadEntry (slot.frame + 4 * tableIndex va)
        return if leaf.isPresent then some (leaf.frame + offset va) else none
      else return none := by
  rw [walk, loadEntry_eq hd (dirIndex_lt va)]
  rfl

/-- What a program reads at `va`, where tables and pages are frames. -/
theorem toOption_loadVirtual (va : Nat) {slot leaf : Entry}
    (hd : Ram.IsFrame m.ram.frames.size m.directory)
    (hs : (m.ram.pageAt m.directory).entry (dirIndex va) = slot)
    (inside : slot.isPresent = true → Ram.IsFrame m.ram.frames.size slot.frame)
    (hl : (m.ram.pageAt slot.frame).entry (tableIndex va) = leaf)
    (target : slot.isPresent = true → leaf.isPresent = true →
      Ram.IsFrame m.ram.frames.size leaf.frame) :
    (m.loadVirtual va).toOption = if slot.isPresent = true ∧ leaf.isPresent = true then
      some ((m.ram.pageAt leaf.frame).byte (offset va)) else none := by
  have near : offset va < pageSize := Nat.mod_lt _ (by decide)
  unfold loadVirtual access
  rw [walk_eq hd, hs]
  by_cases present : slot.isPresent = true
  · have second := loadEntry_eq (inside present) (tableIndex_lt va)
    rw [hl] at second
    by_cases mapped : leaf.isPresent = true
    · have byte := loadByte_eq (target present mapped) near
      have there := checkRam_add (target present mapped) near
      simp [present, mapped, second, byte, there, bind, Except.bind, pure, Except.pure,
        Except.toOption]
    · simp [present, mapped, second, bind, Except.bind, pure, Except.pure, throw, throwThe,
        MonadExceptOf.throw, Except.toOption]
  · simp [present, bind, Except.bind, pure, Except.pure, throw, throwThe, MonadExceptOf.throw,
      Except.toOption]

end Machine
end VirtualMemory
