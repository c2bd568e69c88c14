import VirtualMemory.Proofs.Calls.Faults
import VirtualMemory.Proofs.Charts.Spaces

/-!
# One page more, one page less

Mapping makes one page be found that was not, or that was another, and unmapping takes one away. No
other lookup of a page tells, in whichever space it is made. A table comes from the pool when it is
needed, and goes back when its last page goes.
-/
namespace VirtualMemory

open Layout Snapshot Kernel

theorem Layout.eq_selfMapSlot {d : Nat} (hd : d < tableEntries) (high : ¬ d < selfMapSlot) :
    d = selfMapSlot := by
  simp only [selfMapSlot, tableEntries] at *
  omega

namespace Snapshot

variable {w v : Snapshot} {π : Place} {d p t : Nat}

/-- The resident space has two places for two slots. -/
theorem here_inj {d' : Nat} : w.here d' = w.here d ↔ d' = d := by
  refine ⟨fun same => ?_, fun same => by rw [same]⟩
  unfold here Place.seenBy at same
  split at same <;> split at same <;> simp_all

/-- Slot `d` as space `p` has it. -/
def slotIn (w : Snapshot) (p d : Nat) : Entry :=
  if d < mountTableSlot then w.slotAt (.seenBy p d) else w.entry w.root d

/-- What a lookup finds in space `p`. Behind the last slot it finds the slots of the space. -/
def lookIn (w : Snapshot) (p d t : Nat) : Option (Option Mapping) :=
  if d < selfMapSlot then w.look (.seenBy p d) t
  else some (if (w.slotIn p t).isPresent = true then some (.ofEntry (w.slotIn p t)) else none)

theorem look_of_self (hw : w.Wired) (t : Nat) : w.look (.kernel selfMapSlot) t =
    some (if (w.entry w.root t).isPresent = true then some (.ofEntry (w.entry w.root t))
      else none) := by
  have frame : (w.slotAt (.kernel selfMapSlot)).frame = w.root := hw.self_frame
  have present : (w.slotAt (.kernel selfMapSlot)).isPresent = true := hw.self_present
  rw [look_of_inside (frame ▸ hw.isFrame_root), leaf?, leafAt, frame]
  simp only [present, true_and]
  split <;> rfl

theorem Switched.wired (h : w.Wired) (s : w.Switched v p) : v.Wired :=
  h.congr s.root s.size (s.kernel _ _ (by decide) (by decide))
    (s.kernel _ _ (by decide) (by decide))

theorem slotIn_switched (s : w.Switched v p) (live : w.Live p) (hd : d < tableEntries) :
    v.entry v.root d = w.slotIn p d := by
  unfold slotIn
  split
  · rename_i low
    rw [← slotAt_here, s.here, s.slotAt _ (has_seenBy live low)]
  · rw [s.root]
    exact s.kernel _ _ (by simp only [userSlots, mountTableSlot] at *; omega) hd

theorem slotIn_active (w : Snapshot) (d : Nat) :
    w.slotIn w.spaces.active d = w.entry w.root d := by
  unfold slotIn
  split
  · exact slotAt_here
  · rfl

end Snapshot

/-! ## Lookups -/

namespace KernelState

variable {s t : KernelState} {p va : Nat}

/-- What a lookup of `va` finds, if it does not fail. -/
def lookup? (s : KernelState) (va : Nat) : Option (Option Mapping) := EStateM.run' (lookup va) s

/-- What it finds while space `p` is resident. -/
def lookupIn? (s : KernelState) (p va : Nat) : Option (Option Mapping) :=
  EStateM.run' (switch p >>= fun _ => lookup va) s

theorem run'_of_ok {α : Type} {x : Kernel α} {a : α} (run : x s = .ok a t) :
    EStateM.run' x s = some a := by
  delta EStateM.run' EStateM.run
  rw [run]

theorem run'_of_error {α : Type} {x : Kernel α} {f : Failure} (run : x s = .error f t) :
    EStateM.run' x s = none := by
  delta EStateM.run' EStateM.run
  rw [run]

theorem lookup?_eq (h : s.machine.SelfMapped) (va : Nat) : s.lookup? va =
    s.snapshot.look (s.snapshot.here (dirIndex va)) (tableIndex va) := by
  cases present : (s.snapshot.entry s.snapshot.root (dirIndex va)).isPresent with
  | false =>
    exact (run'_of_ok (lookup_of_absent h present)).trans
      (look_of_absent (by rwa [slotAt_here]) _).symm
  | true =>
    by_cases inside :
        Ram.IsFrame s.snapshot.size (s.snapshot.entry s.snapshot.root (dirIndex va)).frame
    · refine (run'_of_ok (lookup_of_inside h rfl present inside rfl)).trans ?_
      rw [look_of_inside (by rwa [slotAt_here]), leaf?_here]
      simp only [present, true_and]
      split <;> rfl
    · refine (run'_of_error (lookup_of_outside h rfl present inside)).trans ?_
      rw [look, if_pos (by rw [slotAt_here]; exact ⟨present, inside⟩)]

/-- A lookup in space `p` finds what there is in space `p`, whichever space is active. -/
theorem lookupIn?_eq (h : s.snapshot.Charted) (live : s.snapshot.Live p) (va : Nat) :
    s.lookupIn? p va = s.snapshot.lookIn p (dirIndex va) (tableIndex va) := by
  obtain ⟨v, switches, switched⟩ := switch_yields h.toSwitchable live
  obtain ⟨t, run, rfl⟩ := switches s rfl
  have wired := switched.wired h.wired
  have found : s.lookupIn? p va = t.lookup? va := by
    delta lookupIn? EStateM.run' EStateM.run
    rw [bind_of_ok run]
    rfl
  rw [found, lookup?_eq wired.selfMapped, switched.here, lookIn]
  split
  · rename_i low
    exact h.look_switched switched (shown_seenBy live low) _
  · rename_i high
    rw [eq_selfMapSlot (dirIndex_lt va) high]
    change t.snapshot.look (.kernel selfMapSlot) _ = _
    rw [look_of_self wired, slotIn_switched switched live (tableIndex_lt va)]

theorem lookup?_eq_lookIn (h : s.snapshot.Wired) (va : Nat) :
    s.lookup? va = s.snapshot.lookIn s.snapshot.spaces.active (dirIndex va) (tableIndex va) := by
  rw [lookup?_eq h.selfMapped, lookIn]
  split
  · rfl
  · rename_i high
    rw [eq_selfMapSlot (dirIndex_lt va) high]
    change s.snapshot.look (.kernel selfMapSlot) _ = _
    rw [look_of_self h, slotIn_active]

/-- Lookups of pages find in `t` what they find in `s`, in every space. Only where the slot `d` is
the one of the active space, its entry `i` shows `m`. -/
structure FindsBut (s t : KernelState) (d i : Nat) (m : Option Mapping) : Prop where
  here : ∀ va, dirIndex va = d → tableIndex va = i → t.lookup? va = some m
  kept : ∀ va, dirIndex va < selfMapSlot → ¬ (dirIndex va = d ∧ tableIndex va = i) →
    t.lookup? va = s.lookup? va
  elsewhere : ∀ p va, s.snapshot.Live p → dirIndex va < selfMapSlot →
    ¬ (.seenBy p (dirIndex va) = s.snapshot.here d ∧ tableIndex va = i) →
    t.lookupIn? p va = s.lookupIn? p va

theorem findsBut_of_look {d i : Nat} {m : Option Mapping} (hs : s.snapshot.Charted)
    (ht : t.snapshot.Charted) (spaces : t.snapshot.spaces = s.snapshot.spaces)
    (hd : d < mountTableSlot) (look : ∀ π u, s.snapshot.Shown π → u < tableEntries →
      t.snapshot.look π u =
        if π = s.snapshot.here d ∧ u = i then some m else s.snapshot.look π u) :
    s.FindsBut t d i m := by
  have resident (va : Nat) (low : dirIndex va < selfMapSlot) : t.lookup? va =
      if dirIndex va = d ∧ tableIndex va = i then some m else s.lookup? va := by
    rw [lookup?_eq ht.wired.selfMapped, lookup?_eq hs.wired.selfMapped, here_congr spaces,
      look (s.snapshot.here _) _ (shown_seenBy hs.active low) (tableIndex_lt va)]
    refine if_congr (and_congr_left fun _ => ?_) rfl rfl
    exact here_inj
  refine ⟨fun va same same' => ?_, fun va low other => ?_, fun p va live low other => ?_⟩
  · have low : dirIndex va < selfMapSlot := by
      simp only [selfMapSlot, mountTableSlot] at *
      omega
    rw [resident va low, if_pos ⟨same, same'⟩]
  · rw [resident va low, if_neg other]
  · have live' : t.snapshot.Live p := by rwa [Live, spaces]
    rw [lookupIn?_eq ht live', lookupIn?_eq hs live, lookIn, lookIn, if_pos low, if_pos low,
      look _ _ (shown_seenBy live low) (tableIndex_lt va), if_neg other]

/-- Mapping `f` at entry `i` of slot `d` has done that and nothing else. -/
structure MapsPage (s t : KernelState) (f d i : Nat) (prot : Protection) : Prop
    extends s.snapshot.Installs t.snapshot f d i prot,
      s.FindsBut t d i (some ⟨f, prot.entryFlags⟩) where
  writable : (t.snapshot.entry s.snapshot.root d).isWritable =
    ((s.snapshot.entry s.snapshot.root d).isPresent &&
      (s.snapshot.entry s.snapshot.root d).isWritable || prot.grantsWrite)
  user : (t.snapshot.entry s.snapshot.root d).isUser =
    ((s.snapshot.entry s.snapshot.root d).isPresent &&
      (s.snapshot.entry s.snapshot.root d).isUser || prot.grantsUser)

/-- Unmapping `va` has done that and nothing else. -/
structure UnmapsPage (s t : KernelState) (va : Nat) : Prop
    extends s.snapshot.Clears t.snapshot (dirIndex va) (tableIndex va),
      s.FindsBut t (dirIndex va) (tableIndex va) none where
  last_iff : s.snapshot.pageAt? va ≠ none →
    (s.snapshot.occupancy.get (s.snapshot.entry s.snapshot.root (dirIndex va)).frame = 1 ↔
      ∀ j < tableEntries, (s.snapshot.entry
        (s.snapshot.entry s.snapshot.root (dirIndex va)).frame j).isPresent = true →
        j = tableIndex va)

theorem mapsPage {f d i : Nat} {prot : Protection} (h : s.snapshot.Charted)
    (hd : d < mountTableSlot) (installs : s.snapshot.Installs t.snapshot f d i prot) :
    s.MapsPage t f d i prot :=
  ⟨installs, findsBut_of_look h installs.charted installs.spaces hd installs.look,
    installs.rights.1, installs.rights.2⟩

theorem unmapsPage (h : s.snapshot.Charted) (hd : dirIndex va < mountTableSlot)
    (tallied : (s.snapshot.entry s.snapshot.root (dirIndex va)).isPresent = true →
      s.snapshot.Tallied (s.snapshot.entry s.snapshot.root (dirIndex va)).frame)
    (clears : s.snapshot.Clears t.snapshot (dirIndex va) (tableIndex va)) :
    s.UnmapsPage t va := by
  refine ⟨clears, findsBut_of_look h clears.charted clears.spaces hd clears.look, fun there => ?_⟩
  rw [pageAt?, leaf?_here] at there
  split at there
  · rename_i both
    exact (tallied both.1).eq_one_iff (tableIndex_lt va) both.2
  · exact absurd rfl there

/-- Where no page is found, unmapping is one more invalidation. -/
theorem unmap_of_absent (h : s.machine.SelfMapped) (aligned : isAligned va = true)
    (inside : (s.snapshot.entry s.snapshot.root (dirIndex va)).isPresent = true →
      Ram.IsFrame s.snapshot.size (s.snapshot.entry s.snapshot.root (dirIndex va)).frame)
    (none : s.snapshot.pageAt? va = none) :
    unmap va s = .ok () { s with machine := s.machine.invalidatePage va } := by
  rw [unmap, if_neg (by simp [aligned])]
  refine (bind_of_ok (slot_eq h (dirIndex_lt va)) _).trans ?_
  cases present : (s.snapshot.entry s.snapshot.root (dirIndex va)).isPresent with
  | false => rfl
  | true =>
    have read := leaf_eq h (dirIndex_lt va) rfl present (inside present) (tableIndex_lt va)
    have absent : (s.snapshot.entry (s.snapshot.entry s.snapshot.root (dirIndex va)).frame
        (tableIndex va)).isPresent = false := by
      rw [pageAt?, leaf?_here] at none
      simpa [present] using none
    refine (bind_of_ok read _).trans ?_
    rw [absent]
    rfl

/-- From `s` to `u` a page was mapped at slot `d` and taken away again. The slot, if it led to a
table before, keeps the rights that the page needed; a look behind the last slot may tell. -/
structure Restores (s u : KernelState) (d : Nat) (prot : Protection) : Prop where
  pool : u.pool = s.pool
  occupancy : u.occupancy = s.occupancy
  lookups : ∀ va, ((s.snapshot.entry s.snapshot.root d).isPresent = true →
    ¬ (dirIndex va = selfMapSlot ∧ tableIndex va = d)) → u.lookup? va = s.lookup? va
  elsewhere : ∀ p va, s.snapshot.Live p → ((s.snapshot.entry s.snapshot.root d).isPresent = true →
    ¬ (dirIndex va = selfMapSlot ∧ .seenBy p (tableIndex va) = s.snapshot.here d)) →
    u.lookupIn? p va = s.lookupIn? p va
  slot : (s.snapshot.entry s.snapshot.root d).isPresent = true →
    u.snapshot.entry s.snapshot.root d = (s.snapshot.entry s.snapshot.root d).widened prot

section Back
variable {u : KernelState} {f d i : Nat} {prot : Protection} (h : s.snapshot.Charted)
  (hd : d < mountTableSlot) (hi : i < tableEntries)
  (kept : (s.snapshot.entry s.snapshot.root d).isPresent = true →
    s.snapshot.Tallied (s.snapshot.entry s.snapshot.root d).frame ∧ ∃ j < tableEntries,
      (s.snapshot.entry (s.snapshot.entry s.snapshot.root d).frame j).isPresent = true)
  (installs : s.snapshot.Installs t.snapshot f d i prot) (clears : t.snapshot.Clears u.snapshot d i)
  (none : s.snapshot.leaf? (s.snapshot.here d) i = none)
include h hd hi kept installs clears none

theorem lookIn_back (live : s.snapshot.Live p) {d' i' : Nat} (hi' : i' < tableEntries)
    (other : (s.snapshot.entry s.snapshot.root d).isPresent = true →
      ¬ (d' = selfMapSlot ∧ .seenBy p i' = s.snapshot.here d)) (hd' : d' < tableEntries) :
    u.snapshot.lookIn p d' i' = s.snapshot.lookIn p d' i' := by
  unfold lookIn
  split
  · rename_i low
    exact look_back installs clears none (fun present => (kept present).1) (shown_seenBy live low)
      hi'
  · rename_i high
    have self := eq_selfMapSlot hd' high
    obtain ⟨-, -, slot⟩ := books_back installs clears none h hd hi kept
    unfold slotIn
    by_cases low : i' < mountTableSlot
    · have has := has_seenBy live low
      rw [if_pos low, if_pos low]
      by_cases here : .seenBy p i' = s.snapshot.here d
      · have absent : (s.snapshot.entry s.snapshot.root d).isPresent = false := by
          by_contra present
          exact other (by simpa using present) ⟨self, here⟩
        have now := here_congr (clears.spaces.trans installs.spaces) d
        have root := clears.root.trans installs.root
        rw [here, slotAt_here, ← now, slotAt_here, root, slot, absent]
        simp
      · have before := installs.slotAt h hd has here
        have after := clears.slotAt installs.charted hd ((has_congr installs.spaces _).2 has)
          (here_congr installs.spaces d ▸ here)
        rw [after, before]
    · have away : i' ≠ d := by omega
      have after := clears.slots i' hi' away
      rw [installs.root] at after
      rw [if_neg low, if_neg low, clears.root, installs.root, after, installs.slots i' hi' away]

theorem restores : s.Restores u d prot := by
  obtain ⟨free, occupancy, slot⟩ := books_back installs clears none h hd hi kept
  have spaces := clears.spaces.trans installs.spaces
  refine ⟨congrArg FramePool.mk free, occupancy, fun va other => ?_, fun p va live other => ?_,
    fun present => slot.trans (if_pos present)⟩
  · rw [lookup?_eq_lookIn clears.charted.wired, lookup?_eq_lookIn h.wired, spaces]
    refine lookIn_back h hd hi kept installs clears none h.active (tableIndex_lt va)
      (fun present both => other present ⟨both.1, here_inj.1 both.2⟩) (dirIndex_lt va)
  · have live' : u.snapshot.Live p := by rwa [Live, spaces]
    rw [lookupIn?_eq clears.charted live', lookupIn?_eq h live]
    exact lookIn_back h hd hi kept installs clears none live (tableIndex_lt va) other
      (dirIndex_lt va)

end Back
end KernelState

namespace Session

open KernelState

/-- On a charted state, mapping a frame ends, and it has mapped that one page: it is found with the
rights that were asked for, every other page is found as before in whichever space, and only the
directory, the table, its record and, for a new table, the pool are written. And every session keeps
its state charted, whatever the share counts. -/
theorem map_exact :
    (∀ (s : KernelState) (f d i : Nat) (prot : Protection), s.snapshot.Charted →
      d < mountTableSlot → i < tableEntries → isAligned f = true → f < 0x100000000 →
      ((s.snapshot.entry s.snapshot.root d).isPresent = true →
        (s.snapshot.entry s.snapshot.root d).isHuge = false) →
      ((s.snapshot.entry s.snapshot.root d).isPresent = false → s.pool.free ≠ []) →
      ∃ t, map f d i prot s = .ok () t ∧ s.MapsPage t f d i prot) ∧
    ∀ n reserved setup σ, Ram.Addressable n → KernelState.Prepares n reserved setup →
      Shared Permits n reserved setup σ → σ.snapshot.Charted := by
  refine ⟨fun s f d i prot h hd hi aligned small plain room => ?_,
    fun n reserved setup σ small prepares shared =>
      (shared.settled (fun _ _ _ => id) small prepares).charted⟩
  obtain ⟨v, maps, installs⟩ := map_installs h hd hi
    (fun present => h.tallied hd present (plain present)) room aligned small prot
  obtain ⟨t, run, rfl⟩ := maps s rfl
  exact ⟨t, run, mapsPage h hd installs⟩

theorem map_exact_booted : ∃ σ, boot? 8 0 [] = some σ ∧ σ.snapshot.Charted ∧
    ∃ t, map 0x103000 1 2 .userRW σ.state = .ok () t ∧
      σ.state.MapsPage t 0x103000 1 2 .userRW := by
  have runs : ((boot? 8 0 []).filter fun σ =>
      (σ.snapshot.entry σ.snapshot.root 1).isPresent = false ∧ σ.state.pool.free ≠ []).isSome =
        true := by decide +kernel
  obtain ⟨σ, run⟩ := Option.isSome_iff_exists.1 runs
  obtain ⟨boot, holds⟩ := Option.filter_eq_some_iff.1 run
  obtain ⟨absent, room⟩ := of_decide_eq_true holds
  obtain ⟨maps, charted⟩ := map_exact
  have charted := charted 8 0 [] σ (by decide) (KernelState.prepares_nil 8)
    (.of_reaches (.of_boot? boot))
  exact ⟨σ, boot, charted, maps σ.state 0x103000 1 2 .userRW charted (by decide) (by decide)
    (by decide) (by decide) (fun present => absurd (absent.symm.trans present) nofun) fun _ => room⟩

/-- On a charted state, unmapping a page ends, and it has taken away that one page, and the table
with the last of its pages; unmapping it again does nothing. At an address that is not aligned it
does nothing either. A page that was not there, mapped and taken away again, leaves the pool, the
records and the lookups as they were. Only the rights that a slot was widened with stay, and they
show where directories are looked at as tables. -/
theorem unmap_exact :
    (∀ (s : KernelState) (va : Nat), s.snapshot.Charted → isAligned va = true →
      dirIndex va < mountTableSlot →
      ((s.snapshot.entry s.snapshot.root (dirIndex va)).isPresent = true →
        (s.snapshot.entry s.snapshot.root (dirIndex va)).isHuge = false) →
      ∃ t, unmap va s = .ok () t ∧ s.UnmapsPage t va ∧
        unmap va t = .ok () { t with machine := t.machine.invalidatePage va }) ∧
    (∀ (s : KernelState) (va : Nat), isAligned va = false → unmap va s = .ok () s) ∧
    (∀ (s : KernelState) (f d i : Nat) (prot : Protection), s.snapshot.Charted →
      d < mountTableSlot → i < tableEntries → isAligned f = true → f < 0x100000000 →
      ((s.snapshot.entry s.snapshot.root d).isPresent = true →
        (s.snapshot.entry s.snapshot.root d).isHuge = false ∧ ∃ j < tableEntries,
          (s.snapshot.entry (s.snapshot.entry s.snapshot.root d).frame j).isPresent = true) →
      ((s.snapshot.entry s.snapshot.root d).isPresent = false → s.pool.free ≠ []) →
      s.lookup? (pageAddress d i) = some none →
      ∃ t u, map f d i prot s = .ok () t ∧ unmap (pageAddress d i) t = .ok () u ∧
        s.Restores u d prot) ∧
    ∀ n reserved setup σ, Ram.Addressable n → KernelState.Prepares n reserved setup →
      Shared Permits n reserved setup σ → σ.snapshot.Charted := by
  refine ⟨fun s va h aligned hd plain => ?_, fun s va off => ?_, ?_,
    fun n reserved setup σ small prepares shared =>
      (shared.settled (fun _ _ _ => id) small prepares).charted⟩
  · have tallied (present : (s.snapshot.entry s.snapshot.root (dirIndex va)).isPresent = true) :=
      h.tallied hd present (plain present)
    obtain ⟨v, unmaps, clears⟩ := unmap_clears h hd tallied aligned
    obtain ⟨t, run, rfl⟩ := unmaps s rfl
    have gone := clears.look _ (tableIndex va) (has_here h.active hd).shown (tableIndex_lt va)
    rw [if_pos ⟨rfl, rfl⟩, ← here_congr clears.spaces] at gone
    obtain ⟨inside, none⟩ := of_look_here gone
    exact ⟨t, run, unmapsPage h hd tallied clears,
      unmap_of_absent clears.charted.wired.selfMapped aligned inside
        (Option.map_eq_none_iff.1 none)⟩
  · rw [unmap, if_pos (by simp [off])]
    rfl
  · intro s f d i prot h hd hi aligned small kept room absent
    have tallied (present : (s.snapshot.entry s.snapshot.root d).isPresent = true) :=
      h.tallied hd present (kept present).1
    obtain ⟨v, maps, installs⟩ := map_installs h hd hi tallied room aligned small prot
    obtain ⟨t, run, rfl⟩ := maps s rfl
    have hd' := Sound.slot_lt hd
    have slot := dirIndex_pageAddress hd' hi
    have index := tableIndex_pageAddress hd' hi
    rw [lookup?_eq h.wired.selfMapped, slot, index] at absent
    obtain ⟨-, none⟩ := of_look_here absent
    have plain := installs.plain fun present => (kept present).1
    have bound := installs.charted.tallied hd (installs.root.symm ▸ installs.present)
    rw [installs.root] at bound
    have bound' (_ : (t.snapshot.entry t.snapshot.root (dirIndex (pageAddress d i))).isPresent =
        true) : t.snapshot.Tallied
          (t.snapshot.entry t.snapshot.root (dirIndex (pageAddress d i))).frame := by
      rw [slot, installs.root]
      exact bound plain
    obtain ⟨v, unmaps, clears⟩ := unmap_clears installs.charted (slot.symm ▸ hd) bound'
      (isAligned_pageAddress hd' hi)
    obtain ⟨u, run', rfl⟩ := unmaps t rfl
    rw [slot, index] at clears
    exact ⟨t, u, run, run', restores h hd hi (fun present => ⟨tallied present, (kept present).2⟩)
      installs clears (Option.map_eq_none_iff.1 none)⟩

/-- A session with one page of the kernel's. -/
theorem kernel_page : ∃ σ τ, boot? 8 0 [] = some σ ∧
    σ.next? (.mapFresh 0 0x400000 .kernelRW) = some τ ∧ Shared Permits 8 0 [] τ ∧
    τ.snapshot.entry τ.snapshot.root 1 = .of 0x104000 Protection.kernelRW.entryFlags ∧
    τ.snapshot.entry 0x104000 0 = .of 0x103000 Protection.kernelRW.entryFlags ∧
    τ.state.lookup? 0x401000 = some none := by
  have runs : (((boot? 8 0 []).bind (·.next? (.mapFresh 0 0x400000 .kernelRW))).filter fun τ =>
      τ.snapshot.entry τ.snapshot.root 1 = .of 0x104000 Protection.kernelRW.entryFlags ∧
        τ.snapshot.entry 0x104000 0 = .of 0x103000 Protection.kernelRW.entryFlags ∧
        τ.state.lookup? 0x401000 = some none).isSome = true := by decide +kernel
  obtain ⟨τ, run⟩ := Option.isSome_iff_exists.1 runs
  obtain ⟨run, holds⟩ := Option.filter_eq_some_iff.1 run
  obtain ⟨slot, page, none⟩ := of_decide_eq_true holds
  obtain ⟨σ, boot, mint⟩ := Option.bind_eq_some_iff.1 run
  have low : dirIndex 0x400000 < mountTableSlot := by decide
  have reaches : Reaches Permits 8 0 [] τ := (Reaches.of_boot? boot).next? mint low
  exact ⟨σ, τ, boot, mint, .of_reaches reaches, slot, page, none⟩

theorem unmap_exact_mapped : ∃ σ τ, boot? 8 0 [] = some σ ∧
    σ.next? (.mapFresh 0 0x400000 .kernelRW) = some τ ∧ τ.snapshot.Charted ∧
    (∃ t, unmap 0x400000 τ.state = .ok () t ∧ τ.state.UnmapsPage t 0x400000 ∧
      unmap 0x400000 t = .ok () { t with machine := t.machine.invalidatePage 0x400000 }) ∧
    unmap 0x400abc τ.state = .ok () τ.state ∧
    ∃ t u, map 0x103000 1 1 .kernelRW τ.state = .ok () t ∧ unmap 0x401000 t = .ok () u ∧
      τ.state.Restores u 1 .kernelRW := by
  obtain ⟨σ, τ, boot, mint, shared, slot, page, none⟩ := kernel_page
  obtain ⟨unmaps, unaligned, back, charted⟩ := unmap_exact
  have charted := charted 8 0 [] τ (by decide) (KernelState.prepares_nil 8) shared
  have frame : (τ.snapshot.entry τ.snapshot.root 1).frame = 0x104000 := by
    rw [slot]
    decide
  have plain : (τ.snapshot.entry τ.snapshot.root 1).isHuge = false := by
    rw [slot]
    decide
  refine ⟨σ, τ, boot, mint, charted, unmaps τ.state 0x400000 charted (by decide) (by decide)
    fun _ => plain, unaligned τ.state 0x400abc (by decide), ?_⟩
  refine back τ.state 0x103000 1 1 .kernelRW charted (by decide) (by decide) (by decide) (by decide)
    (fun _ => ⟨plain, 0, by decide, ?_⟩) (fun absent => ?_) none
  · exact (congrArg (τ.snapshot.entry · 0) frame).trans page ▸ rfl
  · have there : (τ.snapshot.entry τ.snapshot.root 1).isPresent = false := absent
    rw [slot] at there
    cases there

/-- A page for user programs, mapped beside a page of the kernel's and taken away again: behind the
last slot it shows that the slot was widened. -/
theorem unmap_leaves_rights : ∃ σ τ t u, boot? 8 0 [] = some σ ∧
    σ.next? (.mapFresh 0 0x400000 .kernelRW) = some τ ∧ Shared Permits 8 0 [] τ ∧
    τ.state.lookup? 0x400000 = some (some ⟨0x103000, Protection.kernelRW.entryFlags⟩) ∧
    τ.state.lookup? 0x401000 = some none ∧
    map 0x103000 1 1 .userRW τ.state = .ok () t ∧ unmap 0x401000 t = .ok () u ∧
    τ.state.lookup? 0xffc01000 = some (some ⟨0x104000, Protection.kernelRW.entryFlags⟩) ∧
    u.lookup? 0xffc01000 = some (some ⟨0x104000, Protection.userRW.entryFlags⟩) := by
  have runs : (((boot? 8 0 []).bind (·.next? (.mapFresh 0 0x400000 .kernelRW))).filter fun τ =>
      τ.state.lookup? 0x400000 = some (some ⟨0x103000, Protection.kernelRW.entryFlags⟩) ∧
      τ.state.lookup? 0x401000 = some none ∧
      τ.state.lookup? 0xffc01000 = some (some ⟨0x104000, Protection.kernelRW.entryFlags⟩) ∧
      EStateM.run' (do map 0x103000 1 1 .userRW; unmap 0x401000; lookup 0xffc01000) τ.state =
        some (some ⟨0x104000, Protection.userRW.entryFlags⟩)).isSome = true := by decide +kernel
  obtain ⟨τ, run⟩ := Option.isSome_iff_exists.1 runs
  obtain ⟨run, holds⟩ := Option.filter_eq_some_iff.1 run
  obtain ⟨page, none, before, after⟩ := of_decide_eq_true holds
  obtain ⟨σ, boot, mint⟩ := Option.bind_eq_some_iff.1 run
  have low : dirIndex 0x400000 < mountTableSlot := by decide
  have reaches : Reaches Permits 8 0 [] τ := (Reaches.of_boot? boot).next? mint low
  obtain ⟨v, done⟩ := ok_of_run' after
  obtain ⟨⟨⟩, t, mapped, rest⟩ := bind_eq_ok.1 done
  obtain ⟨⟨⟩, u, unmapped, found⟩ := bind_eq_ok.1 rest
  exact ⟨σ, τ, t, u, boot, mint, .of_reaches reaches, page, none, mapped, unmapped, before,
    run'_of_ok found⟩

end Session
end VirtualMemory
