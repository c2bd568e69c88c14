import VirtualMemory.Proofs.Calls.Progress
import VirtualMemory.Proofs.Calls.Ranges

/-!
# The other bits of protected pages

Protecting a range builds each of its entries anew, from the frame and the rights that are asked
for. The rest of the word is kept only as far as it was clear: whatever is set between the rights
and the frame is lost. Entries that the kernel makes have nothing there, and forks and faults add
nothing, so what is lost is what a boot loader has left in the kernel's tables.
-/
namespace VirtualMemory

open Layout

namespace Entry

/-- No flag is set but presence and the two rights. -/
def Bare (e : Entry) : Prop := ∀ k, 3 ≤ k → k < 12 → e.raw.toNat.testBit k = false

variable {e : Entry} {f k : Nat}

theorem testBit_frame (e : Entry) (k : Nat) :
    e.frame.testBit k = (decide (12 ≤ k) && e.raw.toNat.testBit k) := by
  change (e.raw.toNat / 4096 * 4096).testBit k = _
  rw [Nat.mul_comm, show (4096 : Nat) = 2 ^ 12 from rfl, Nat.testBit_two_pow_mul,
    Nat.testBit_div_two_pow]
  by_cases high : 12 ≤ k
  · simp [high]
  · simp [high]

/-- An entry for the frame of another has its bits above the flags. -/
theorem testBit_of_frame (e : Entry) (prot : Protection) (high : 12 ≤ k) :
    (of e.frame prot.entryFlags).raw.toNat.testBit k = e.raw.toNat.testBit k := by
  rw [of, UInt32.toNat_or, Nat.testBit_or, UInt32.toNat_ofNat', Nat.mod_eq_of_lt e.frame_lt,
    testBit_frame, testBit_low prot.low_entryFlags high]
  simp [high]

theorem testBit_of_flags (hf : isAligned f = true) (prot : Protection) (low : k < 12) :
    (of f prot.entryFlags).raw.toNat.testBit k =
      decide (k = 0 ∨ k = 1 ∧ prot.grantsWrite = true ∨ k = 2 ∧ prot.grantsUser = true) := by
  rw [testBit_of hf low]
  revert k
  unfold Protection.entryFlags
  cases prot.grantsWrite <;> cases prot.grantsUser <;> decide

theorem bare_of (hf : isAligned f = true) (prot : Protection) : (of f prot.entryFlags).Bare := by
  intro k lower upper
  rw [testBit_of_flags hf prot upper, decide_eq_false_iff_not]
  omega

theorem Bare.clear (bare : e.Bare) (g : EntryFlags) : (e.clear g).Bare := by
  intro k lower upper
  rw [testBit_clear, bare k lower upper, Bool.false_and]

theorem Bare.set_writable (bare : e.Bare) : (e.set EntryFlags.writable).Bare := by
  intro k lower upper
  have off : EntryFlags.writable.bits.toNat.testBit k = false := by
    revert k
    decide
  rw [set, UInt32.toNat_or, Nat.testBit_or, bare k lower upper, off, Bool.or_false]

/-- An entry built anew from the frame agrees beside the rights just where there was nothing. -/
theorem sameBesideRights_of_frame (present : e.isPresent = true) (prot : Protection) :
    e.SameBesideRights (of e.frame prot.entryFlags) ↔ e.Bare := by
  rw [isPresent_eq] at present
  constructor
  · intro same k lower upper
    rw [← same k (by omega) (by omega)]
    exact bare_of e.frame_aligned prot k lower upper
  · intro bare k write user
    by_cases high : 12 ≤ k
    · exact testBit_of_frame e prot high
    · rw [testBit_of_flags e.frame_aligned prot (by omega)]
      rcases Nat.eq_zero_or_pos k with rfl | positive
      · simp [present]
      · rw [bare k (by omega) (by omega)]
        simpa [write, user] using positive.ne'

end Entry

namespace Snapshot

variable {w v : Snapshot} {O Q : Finset Nat} {K : Nat → Nat → Prop} {π : Place} {p t va : Nat}
  {e : Entry}

/-- The page of space `p` at `va`, if it is present at both levels. -/
def leafIn? (w : Snapshot) (p va : Nat) : Option Entry :=
  w.leaf? (.seenBy p (dirIndex va)) (tableIndex va)

/-- User pages are bare, and of the kernel's all but the entries `K`. -/
structure BareBut (w : Snapshot) (K : Nat → Nat → Prop) : Prop where
  user : ∀ x e, w.userPages x = some e → e.Bare
  kernel : ∀ d t e, w.Has (.kernel d) → t < tableEntries → w.leaf? (.kernel d) t = some e →
    e.Bare ∨ K d t

namespace BareBut

theorem same (bare : w.BareBut K) (user : v.userPages = w.userPages)
    (kernel : ∀ d t, w.Has (.kernel d) → t < tableEntries →
      v.leaf? (.kernel d) t = w.leaf? (.kernel d) t) : v.BareBut K where
  user x e page := bare.user x e (user ▸ page)
  kernel d t e hd ht page := bare.kernel d t e hd ht (kernel d t hd ht ▸ page)

/-- Nothing else than where pages are found matters. -/
theorem congr (bare : w.BareBut K) (spaces : v.spaces = w.spaces)
    (leaf : ∀ π t, w.Has π → t < tableEntries → v.leaf? π t = w.leaf? π t) : v.BareBut K :=
  bare.same (userPages_congr (live_congr spaces) fun _ _ t hp ht => leaf _ t hp ht)
    fun _ t hd ht => leaf _ t hd ht

/-- One entry is written, with no flags but those that were there. -/
theorem write (bare : w.BareBut K) (spaces : v.spaces = w.spaces) {ρ : Place} {j : Nat}
    {new : Option Entry} (fresh : ∀ e, new = some e →
      e.Bare ∨ w.Has ρ ∧ ∃ e', w.leaf? ρ j = some e' ∧ (e'.Bare → e.Bare))
    (leaf : ∀ π i, w.Has π → i < tableEntries → v.leaf? π i = w.pagesWith ρ j new π i) :
    v.BareBut K where
  user x e page := by
    obtain ⟨here, rfl⟩ | ⟨-, old⟩ := userPages_with spaces leaf page
    · rcases fresh e rfl with clean | ⟨hρ, e', old, clean⟩
      · exact clean
      · obtain ⟨q, d, i⟩ := x
        obtain ⟨-, hi, -⟩ := userPages_eq_some.1 page
        obtain ⟨rfl, rfl⟩ := Prod.mk.inj here
        exact clean (bare.user _ e' (userPages_eq_some.2 ⟨hρ, hi, old⟩))
    · exact bare.user x e old
  kernel d i e hd hi page := by
    rw [leaf (.kernel d) i hd hi, pagesWith] at page
    split at page
    · rename_i here
      obtain ⟨rfl, rfl⟩ := here
      rcases fresh e page with clean | ⟨-, e', old, clean⟩
      · exact .inl clean
      · exact (bare.kernel d i e' hd hi old).imp_left clean
    · exact bare.kernel d i e hd hi page

/-- Entries are taken away, or built anew. -/
theorem rewritten (bare : w.BareBut K) (spaces : v.spaces = w.spaces) {hit : Place → Nat → Prop}
    [∀ π t, Decidable (hit π t)] {g : Option Entry → Option Entry} (none : g none = none)
    (fresh : ∀ o e, g o = some e → e.Bare)
    (leaf : ∀ π i, w.Has π → i < tableEntries → v.leaf? π i = w.pagesOver hit g π i) :
    v.BareBut K where
  user x e page := by
    rw [userPages_over spaces none leaf] at page
    dsimp only at page
    split at page
    · exact fresh _ e page
    · exact bare.user x e page
  kernel d t e hd ht page := by
    rw [leaf (.kernel d) t hd ht, pagesOver] at page
    split at page
    · exact .inl (fresh _ e page)
    · exact bare.kernel d t e hd ht page

theorem removed {first last : Nat} (bare : w.BareBut K)
    (pages : w.Rewrites v O (w.pagesBut p first last)) : v.BareBut K :=
  bare.rewritten pages.spaces rfl (fun _ _ none => by cases none) pages.leaf

theorem forked {parent child : Nat} (bare : w.BareBut K) (live : w.Live parent)
    (live' : w.Live child) (forked : w.Forked v O parent child) : v.BareBut K where
  user x e page := by
    rw [forked.userPages live live', forkedUserPages] at page
    split at page
    · obtain ⟨e', old, rfl⟩ := Option.map_eq_some_iff.1 page
      exact (bare.user _ e' old).clear _
    · exact bare.user x e page
  kernel d t e hd ht page := by
    rw [forked.leaf (.kernel d) t hd ht] at page
    exact bare.kernel d t e hd ht page

theorem resolved (h : w.Settled O) (bare : w.BareBut K) (hd : dirIndex va < mountTableSlot)
    (r : w.Resolved O va v Q) : v.BareBut K := by
  cases r with
  | untouched => exact bare
  | @granted v e page lone settled pages =>
    obtain ⟨role, stable⟩ := h.stable
    refine bare.write pages.spaces ?_ pages.leaf
    rintro _ ⟨⟩
    exact .inr ⟨has_here stable.live_active hd, e, page, Entry.Bare.set_writable⟩
  | @copied v e copy page several replaced =>
    refine bare.write replaced.spaces ?_ replaced.leaf
    rintro _ ⟨⟩
    exact .inl (Entry.bare_of (replaced.frame ▸ Entry.frame_aligned _) _)

end BareBut

/-- The kernel makes no entry with a flag beside presence and the rights, and adds none to one. -/
theorem BareBut.effect {c : Call} {r : Except ArgumentError Answer} (h : w.Settled O)
    (bare : w.BareBut K) (permitted : w.Permits O c) (effect : w.Effect O c r v Q) :
    v.BareBut K := by
  cases effect with
  | refused => exact bare
  | created _ admitted =>
    exact bare.same (admitted.userPages h) fun d t hd _ => admitted.leaf _ t hd
  | reowned _ record =>
    exact bare.same (userPages_owning record _) fun d t _ _ => leaf?_owning record _ _ t
  | vacated _ _ gone =>
    refine ⟨fun x e page => ?_, fun d t e hd ht page => ?_⟩
    · rw [gone.userPages] at page
      dsimp only at page
      split at page
      · cases page
      · exact bare.user x e page
    · exact bare.kernel d t e hd ht (gone.leaf (.kernel d) t hd ▸ page)
  | switched _ _ switched =>
    exact bare.same (switched.userPages h) fun d t hd _ => h.leaf?_switched switched hd t
  | added _ _ pages | mapped _ pages =>
    refine bare.write pages.spaces ?_ pages.leaf
    rintro _ ⟨⟩
    exact .inl (Entry.bare_of (h.isFrame permitted.2).1 _)
  | removed _ _ pages => exact bare.removed pages.toRewrites
  | reprotected _ _ pages =>
    refine bare.rewritten pages.spaces rfl ?_ pages.leaf
    intro o e new
    obtain ⟨e', -, rfl⟩ := Option.map_eq_some_iff.1 new
    exact Entry.bare_of e'.frame_aligned _
  | unmapped _ pages only =>
    obtain rfl | rfl := only
    · exact bare.congr pages.spaces pages.leaf
    · exact bare.write pages.spaces (fun _ none => by cases none) pages.leaf
  | minted fresh _ settled pages =>
    refine (bare.congr (v := w.book _) (by rfl) fun π t _ _ => leaf?_book (by rfl) π t).write
      pages.spaces ?_ pages.leaf
    rintro _ ⟨⟩
    exact .inl (Entry.bare_of (settled.isFrame (Finset.mem_insert_self _ _)).1 _)
  | dropped _ _ pages =>
    exact (bare.removed pages.toRewrites).congr (by rfl) fun π t _ _ => leaf?_book (by rfl) π t
  | forked live live' _ _ _ forked => exact bare.forked live live' forked
  | faulted resolved => exact bare.resolved h permitted resolved
  | stored user resolved page =>
    have settled := resolved.settled h
    have low : dirIndex _ < mountTableSlot := (dirIndex_user user).trans (by decide)
    have owned := settled.pageAt?_owned user page
    exact (bare.resolved h low resolved).congr (by rfl) fun π t hπ _ =>
      (settled.setPage owned _).2 π t hπ
  | taken _ _ _ pages | returned _ pages => exact bare.congr pages.spaces pages.leaf

/-- After a boot all that is not bare was left by the boot loader. -/
theorem Booted.bareBut {reserved : Nat} (h : w.Booted reserved) :
    w.BareBut fun d t => ∃ e, w.leaf? (.kernel d) t = some e ∧ ¬ e.Bare where
  user x e page := by
    obtain ⟨has, -, leaf⟩ := userPages_eq_some.1 page
    have empty := h.vacant x.1 x.2.1 has.2
    rw [leaf?_of_absent empty] at leaf
    cases leaf
  kernel d t e _ _ page := by
    by_cases bare : e.Bare
    · exact .inl bare
    · exact .inr ⟨e, page, bare⟩

end Snapshot

instance (first last va : Nat) : Decidable (InRange first last va) :=
  inferInstanceAs (Decidable (_ ∧ _))

/-- Kernel tables are every space's. -/
theorem Place.seenBy_inj {p q d d' : Nat} :
    Place.seenBy q d = .seenBy p d' ↔ d = d' ∧ (q = p ∨ userSlots ≤ d) := by
  unfold Place.seenBy
  split <;> split <;> simp <;> omega

/-- Where the pages of a range are, in the kernel's half as well. -/
theorem Layout.hits_iff_inRange {first last : Nat} (p q va : Nat)
    (firstAligned : isAligned first = true) (lastAligned : isAligned last = true)
    (low : last ≤ mountTableSlot * tableEntries * pageSize) :
    Snapshot.hits p first ((last - first) / pageSize) (.seenBy q (dirIndex va)) (tableIndex va) ↔
      InRange first last va ∧ (q = p ∨ userSlots ≤ dirIndex va) := by
  rw [isAligned_iff] at firstAligned lastAligned
  simp only [mountTableSlot, tableEntries, pageSize] at low
  constructor
  · rintro ⟨i, hi, place, entry⟩
    obtain ⟨slot, reach⟩ := Place.seenBy_inj.1 place
    refine ⟨?_, reach⟩
    simp only [InRange, dirIndex, tableIndex, pageSize] at *
    omega
  · rintro ⟨inside, reach⟩
    refine ⟨(va % 0x100000000 - first) / pageSize, ?_, Place.seenBy_inj.2 ⟨?_, reach⟩, ?_⟩ <;>
      simp only [InRange, dirIndex, tableIndex, pageSize] at * <;> omega

namespace Snapshot

variable {w v : Snapshot} {O : Finset Nat} {p first last : Nat} {prot : Protection}

/-- What protecting a range does to the words of its pages, and to no others. -/
structure Rebuilds (w v : Snapshot) (p first last : Nat) (prot : Protection) : Prop where
  /-- The frame stays, and of the flags only presence, with the rights that are asked for. -/
  present : ∀ va e, InRange first last va → w.leafIn? p va = some e →
    ∃ e', v.leafIn? p va = some e' ∧ ∀ k, e'.raw.toNat.testBit k =
      if 12 ≤ k then e.raw.toNat.testBit k else
        decide (k = 0 ∨ k = 1 ∧ prot.grantsWrite = true ∨ k = 2 ∧ prot.grantsUser = true)
  absent : ∀ va, InRange first last va → w.leafIn? p va = none → v.leafIn? p va = none
  others : ∀ q va, w.Live q → dirIndex va < mountTableSlot →
    ¬ (InRange first last va ∧ (q = p ∨ userSlots ≤ dirIndex va)) →
      v.leafIn? q va = w.leafIn? q va
  /-- All but the rights is kept just where there was nothing else. -/
  kept : (∀ va e e', InRange first last va → w.leafIn? p va = some e → v.leafIn? p va = some e' →
      e.SameBesideRights e') ↔
    ∀ va e, InRange first last va → w.leafIn? p va = some e → e.Bare

theorem rebuilds (firstAligned : isAligned first = true) (lastAligned : isAligned last = true)
    (low : last ≤ mountTableSlot * tableEntries * pageSize) (live : w.Live p)
    (pages : w.Rewrites v O (w.pagesOver (hits p first ((last - first) / pageSize))
      (Option.map fun e => .of e.frame prot.entryFlags))) : w.Rebuilds v p first last prot := by
  have below {va : Nat} (inside : InRange first last va) : dirIndex va < mountTableSlot := by
    simp only [InRange, dirIndex, mountTableSlot, tableEntries, pageSize] at *
    omega
  have leaf (q va : Nat) (hq : w.Live q) (hva : dirIndex va < mountTableSlot) :
      v.leafIn? q va = if InRange first last va ∧ (q = p ∨ userSlots ≤ dirIndex va) then
        (w.leafIn? q va).map fun e => .of e.frame prot.entryFlags else w.leafIn? q va := by
    rw [leafIn?, pages.leaf _ _ (has_seenBy hq hva) (tableIndex_lt va), pagesOver]
    simp only [hits_iff_inRange p q va firstAligned lastAligned low]
    rfl
  have new (va : Nat) (inside : InRange first last va) :
      v.leafIn? p va = (w.leafIn? p va).map fun e => .of e.frame prot.entryFlags := by
    rw [leaf p va live (below inside), if_pos ⟨inside, .inl rfl⟩]
  refine ⟨fun va e inside page => ⟨_, by rw [new va inside, page]; rfl, fun k => ?_⟩,
    fun va inside none => by rw [new va inside, none]; rfl,
    fun q va hq hva out => by rw [leaf q va hq hva, if_neg out], ?_⟩
  · split
    · exact Entry.testBit_of_frame e prot ‹_›
    · exact Entry.testBit_of_flags e.frame_aligned prot (by omega)
  · have each (va : Nat) (e e' : Entry) (inside : InRange first last va)
        (page : w.leafIn? p va = some e) (page' : v.leafIn? p va = some e') :
        e.SameBesideRights e' ↔ e.Bare := by
      rw [new va inside, page] at page'
      obtain rfl := Option.some.inj page'
      exact Entry.sameBesideRights_of_frame (leaf?_eq_some.1 page).2.1 prot
    constructor
    · intro same va e inside page
      have page' := new va inside
      rw [page] at page'
      exact (each va e _ inside page page').1 (same va e _ inside page page')
    · exact fun bare va e e' inside page page' =>
        (each va e e' inside page page').2 (bare va e inside page)

end Snapshot

namespace Session

open Snapshot Kernel KernelState

variable {n reserved : Nat} {setup : List (Nat × UInt32)} {σ : Session}

/-- What is not bare in a session was left by the boot loader, in a table of the kernel's. -/
theorem Shared.bareBut (small : Ram.Addressable n)
    (prepares : KernelState.Prepares n reserved setup) (h : Shared Permits n reserved setup σ) :
    ∃ s, KernelState.boot n reserved setup = .ok s ∧ σ.snapshot.BareBut fun d t =>
      ∃ e, s.snapshot.leaf? (.kernel d) t = some e ∧ ¬ e.Bare := by
  induction h with
  | @boot s booted =>
    exact ⟨s, booted, (KernelState.boot_booted small prepares booted).2.bareBut⟩
  | call before allowed answered ih =>
    obtain ⟨s, booted, bare⟩ := ih
    have settled := before.settled (fun _ _ _ => id) small prepares
    exact ⟨s, booted, bare.effect settled allowed (effect_of_perform settled allowed answered)⟩
  | @counted σ f count t before frame shareable range done ih =>
    obtain ⟨s, booted, bare⟩ := ih
    refine ⟨s, booted, ?_⟩
    change t.snapshot.BareBut _
    rw [Kernel.setShareCount_of_ok done]
    exact bare.congr (by rfl) fun π t _ _ => leaf?_book (by rfl) π t

/-- Protecting a range, of user pages or of the kernel's, gives its pages just the rights that are
asked for and leaves them in their frames. Every other flag is cleared, so all else is kept if and
only if there was none. In every session pages with other flags are those that the boot loader has
given some, in the kernel's tables. -/
theorem protect_rebuilds {first last : Nat} (firstAligned : isAligned first = true)
    (lastAligned : isAligned last = true) (ordered : first ≤ last)
    (low : last ≤ mountTableSlot * tableEntries * pageSize) (p : Nat) (prot : Protection) :
    (∀ (s : KernelState) O, s.snapshot.Settled O → s.snapshot.Live p →
      ∃ t, protect p first last prot s = .ok () t ∧ t.snapshot.Settled O ∧
        s.snapshot.Rebuilds t.snapshot p first last prot) ∧
    ∀ n reserved setup σ, Ram.Addressable n → KernelState.Prepares n reserved setup →
      Shared Permits n reserved setup σ → σ.snapshot.Settled σ.held ∧
        ∃ s, KernelState.boot n reserved setup = .ok s ∧ ∀ q va e, σ.snapshot.Live q →
          dirIndex va < mountTableSlot → σ.snapshot.leafIn? q va = some e → ¬ e.Bare →
            userSlots ≤ dirIndex va ∧ ∃ e', s.snapshot.leafIn? q va = some e' ∧ ¬ e'.Bare := by
  constructor
  · intro s O h live
    have below : ∀ i < (last - first) / pageSize,
        dirIndex (first + i * pageSize) < mountTableSlot := by
      intro i hi
      rw [isAligned_iff] at firstAligned lastAligned
      simp only [dirIndex, mountTableSlot, tableEntries, pageSize] at *
      omega
    obtain ⟨⟨⟩, t, run, settled, pages⟩ :=
      (protect_leads h live firstAligned lastAligned ordered prot below).succeeds
    exact ⟨t, run, settled, rebuilds firstAligned lastAligned low live pages⟩
  · intro n reserved setup σ small prepares shared
    obtain ⟨s, booted, bare⟩ := shared.bareBut small prepares
    refine ⟨shared.settled (fun _ _ _ => id) small prepares, s, booted, ?_⟩
    intro q va e live hd page dirty
    have has := has_seenBy live hd
    unfold leafIn? Place.seenBy at page has ⊢
    split at page
    · rename_i user
      rw [if_pos user] at has
      exact absurd (bare.user _ e (userPages_eq_some.2 ⟨has, tableIndex_lt va, page⟩)) dirty
    · rename_i kernel
      rw [if_neg kernel] at has ⊢
      exact ⟨Nat.le_of_not_lt kernel,
        (bare.kernel _ _ e has (tableIndex_lt va) page).resolve_left dirty⟩

/-- A boot loader has left a page of the kernel's, accessed, dirty and global, below slot 800. -/
theorem protect_rebuilds_prepared : ∃ setup σ, setup = [(0x100c80, 0x102003), (0x102000, 0xb8163)] ∧
    boot? 8 1 setup = some σ ∧ Ram.Addressable 8 ∧ KernelState.Prepares 8 1 setup ∧
    Shared Permits 8 1 setup σ ∧ σ.snapshot.Settled σ.held ∧ σ.snapshot.Live 0 ∧
    ∃ t, protect 0 0xC8000000 0xC8001000 .kernelRead σ.state = .ok () t ∧
      σ.snapshot.Rebuilds t.snapshot 0 0xC8000000 0xC8001000 .kernelRead := by
  have runs : ((boot? 8 1 [(0x100c80, 0x102003), (0x102000, 0xb8163)]).filter fun σ =>
      σ.snapshot.Live 0).isSome = true := by decide +kernel
  obtain ⟨σ, run⟩ := Option.isSome_iff_exists.1 runs
  obtain ⟨boot, live⟩ := Option.filter_eq_some_iff.1 run
  have live : σ.snapshot.Live 0 := of_decide_eq_true live
  have prepares : KernelState.Prepares 8 1 [(0x100c80, 0x102003), (0x102000, 0xb8163)] := by
    decide +kernel
  have shared : Shared Permits 8 1 [(0x100c80, 0x102003), (0x102000, 0xb8163)] σ :=
    .of_reaches (Reaches.of_boot? boot)
  have firstAligned : isAligned 0xC8000000 = true := by decide
  have lastAligned : isAligned 0xC8001000 = true := by decide
  obtain ⟨protects, keeps⟩ :=
    protect_rebuilds firstAligned lastAligned (by decide) (by decide) 0 .kernelRead
  obtain ⟨settled, -⟩ := keeps 8 1 _ σ (by decide) prepares shared
  obtain ⟨t, run, -, rebuilds⟩ := protects σ.state σ.held settled live
  exact ⟨_, σ, rfl, boot, by decide, prepares, shared, settled, live, t, run, rebuilds⟩

/-- Protecting that page leaves nothing of its flags but presence. -/
theorem protect_clears_flags : ∃ setup σ t, setup = [(0x100c80, 0x102003), (0x102000, 0xb8163)] ∧
    boot? 8 1 setup = some σ ∧ Shared Permits 8 1 setup σ ∧
    protect 0 0xC8000000 0xC8001000 .kernelRead σ.state = .ok () t ∧
    σ.state.lookup? 0xC8000000 = some (some ⟨0xb8000, ⟨0x163⟩⟩) ∧
    t.lookup? 0xC8000000 = some (some ⟨0xb8000, EntryFlags.present⟩) := by
  have runs : ((boot? 8 1 [(0x100c80, 0x102003), (0x102000, 0xb8163)]).filter fun σ =>
      σ.state.lookup? 0xC8000000 = some (some ⟨0xb8000, ⟨0x163⟩⟩) ∧
      EStateM.run' (do protect 0 0xC8000000 0xC8001000 .kernelRead; lookup 0xC8000000) σ.state =
        some (some ⟨0xb8000, EntryFlags.present⟩)).isSome = true := by decide +kernel
  obtain ⟨σ, run⟩ := Option.isSome_iff_exists.1 runs
  obtain ⟨boot, holds⟩ := Option.filter_eq_some_iff.1 run
  obtain ⟨before, after⟩ := of_decide_eq_true holds
  obtain ⟨u, done⟩ := ok_of_run' after
  obtain ⟨⟨⟩, t, protects, found⟩ := bind_eq_ok.1 done
  exact ⟨_, σ, t, rfl, boot, .of_reaches (Reaches.of_boot? boot), protects, before,
    run'_of_ok found⟩

end Session
end VirtualMemory
