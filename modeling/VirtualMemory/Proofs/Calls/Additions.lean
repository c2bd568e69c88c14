import VirtualMemory.Proofs.Calls.Ranges
import VirtualMemory.Proofs.Charts.Additions

/-!
# Mappings that do not touch each other

Pages that are added to different places are found there whatever the order of the calls, and slots
end with the same rights, tables with the same counts. The order tells only which free frame becomes
which table. That can be seen where slots are looked at as pages, behind the last slot.
-/
namespace VirtualMemory

open Layout Snapshot Kernel

namespace KernelState

/-- How many pages are counted in the table at slot `d` of space `p`, if there is one. -/
def countIn? (s : KernelState) (p d : Nat) : Option Nat :=
  if (s.snapshot.slotIn p d).isPresent = true then
    some (s.occupancy.get (s.snapshot.slotIn p d).frame) else none

/-- The two differ in memory, and in which frames are tables of which slots. -/
structure SameMappings (t u : KernelState) : Prop where
  lookups : ∀ p va, t.snapshot.Live p → dirIndex va < selfMapSlot →
    t.lookupIn? p va = u.lookupIn? p va
  views : ∀ p va, t.snapshot.Live p → dirIndex va = selfMapSlot →
    (t.lookupIn? p va).map (·.map Mapping.flags) = (u.lookupIn? p va).map (·.map Mapping.flags)
  rights : ∀ p d, t.snapshot.Live p → d < tableEntries →
    (t.snapshot.slotIn p d).flags = (u.snapshot.slotIn p d).flags
  counts : ∀ p d, t.snapshot.Live p → d < tableEntries → t.countIn? p d = u.countIn? p d
  pool : t.pool = u.pool
  shares : t.shares = u.shares
  spaces : t.spaces = u.spaces

variable {s t u : KernelState} {L : List Addition} {p d va : Nat}

theorem sameMappings (admits : s.snapshot.Addable L) (h : s.snapshot.Adds t.snapshot L)
    (h' : s.snapshot.Adds u.snapshot L) (spaces : t.spaces = u.spaces) : t.SameMappings u := by
  have live {q : Nat} : t.snapshot.Live q → s.snapshot.Live q := (h.live q).1
  have found {x : KernelState} (hx : s.snapshot.Adds x.snapshot L) {q : Nat}
      (hq : t.snapshot.Live q) (va : Nat) :
      x.lookupIn? q va = x.snapshot.lookIn q (dirIndex va) (tableIndex va) :=
    lookupIn?_eq hx.tabled.toCharted ((hx.live q).2 (live hq)) va
  -- A slot is that of a place, or one of the two of the window, which no addition touches.
  have slots {q d : Nat} (hq : t.snapshot.Live q) (hd : d < tableEntries) :
      (t.snapshot.slotIn q d).isPresent = (u.snapshot.slotIn q d).isPresent ∧
        (t.snapshot.slotIn q d).flags = (u.snapshot.slotIn q d).flags ∧
          t.countIn? q d = u.countIn? q d := by
    unfold countIn? slotIn
    by_cases low : d < mountTableSlot
    · rw [if_pos low, if_pos low]
      have has := has_seenBy (live hq) low
      refine ⟨h.isPresent_eq h' has, h.flags_eq h' has, ?_⟩
      rw [← h.isPresent_eq h' has]
      split
      · exact congrArg some (h.record_eq h' (fun a => admits.has) has ‹_›)
      · rfl
    · rw [if_neg low, if_neg low]
      have kept {x : KernelState} (hx : s.snapshot.Adds x.snapshot L) :
          x.snapshot.entry x.snapshot.root d = s.snapshot.entry s.snapshot.root d := by
        rw [hx.root]
        exact hx.window d (Nat.le_of_not_lt low) hd
      have wired := h.tabled.wired
      have reserved : t.snapshot.Reserved (t.snapshot.entry t.snapshot.root d).frame := by
        obtain rfl | rfl : d = mountTableSlot ∨ d = selfMapSlot := by
          simp only [mountTableSlot, selfMapSlot, tableEntries] at *
          omega
        · exact .inr (.inl wired.mount_frame)
        · exact .inl wired.self_frame
      rw [h.reserved, kept h] at reserved
      have has (a : Addition) (ha : a ∈ L) := admits.has ha
      have record {x : KernelState} (hx : s.snapshot.Adds x.snapshot L) :
          x.occupancy.get (s.snapshot.entry s.snapshot.root d).frame = _ :=
        hx.record_reserved has reserved
      rw [kept h, kept h', record h, record h']
      exact ⟨rfl, rfl, rfl⟩
  refine ⟨fun q va hq low => ?_, fun q va hq self => ?_, fun q d hq hd => (slots hq hd).2.1,
    fun q d hq hd => (slots hq hd).2.2, congrArg FramePool.mk (h.free_eq h'),
    h.shares.trans h'.shares.symm, spaces⟩
  · rw [found h hq, found h' hq, lookIn_of_lt low, lookIn_of_lt low]
    exact h.look_eq h' (shown_seenBy (live hq) low) (tableIndex_lt va)
  · rw [found h hq, found h' hq, self, lookIn_self, lookIn_self]
    obtain ⟨present, flags, -⟩ := slots hq (tableIndex_lt va)
    rw [present]
    split
    · exact congrArg (fun f => some (some f)) flags
    · rfl

end KernelState

namespace Session

open KernelState

/-- Additions of pages of their own all succeed, in whichever order they are made, and the order
does not tell afterwards. Only an address amid a page is refused. And every session keeps its state
so, and callers hold frames that can be added. -/
theorem additions_commute :
    (∀ (s : KernelState) (L M : List Addition), s.snapshot.Tabled → s.snapshot.Addable L →
      L.Perm M → ∃ t u, addAll L s = .ok () t ∧ addAll M s = .ok () u ∧ t.SameMappings u ∧
        t.spaces = s.spaces ∧ t.snapshot.Tabled ∧ u.snapshot.Tabled) ∧
    (∀ (s : KernelState) (p va f : Nat) (prot : Protection), isAligned va = false →
      ∃ t, add p va f prot s = .error (.argument .misaligned) t ∧ t.snapshot = s.snapshot) ∧
    ∀ n reserved setup σ, Ram.Addressable n → KernelState.Prepares n reserved setup →
      Shared Permits n reserved setup σ → σ.snapshot.Tabled ∧
        ∀ f ∈ σ.held, isAligned f = true ∧ f < 0x100000000 := by
  refine ⟨fun s L M h admits perm => ?_, fun s p va f prot amid => ?_,
    fun n reserved setup σ small prepares shared => ?_⟩
  · obtain ⟨⟨⟩, t, run, adds, spaces⟩ := (addAll_adds h admits).succeeds
    obtain ⟨⟨⟩, u, run', adds', spaces'⟩ := (addAll_adds h (admits.perm perm)).succeeds
    exact ⟨t, u, run, run', sameMappings admits adds (adds'.perm perm.symm)
      (spaces.trans spaces'.symm), spaces, adds.tabled, adds'.tabled⟩
  · rw [add, if_pos (by simp [amid])]
    exact Refuses.refuse _ s.snapshot s rfl
  · have settled := shared.settled (fun _ _ _ => id) small prepares
    obtain ⟨role, stable⟩ := settled.stable
    refine ⟨settled.furnished.toTabled, fun f mine => ?_⟩
    have inside := stable.isFrame (f := f) (by simp [(stable.owned f).2 mine])
    exact ⟨inside.1, stable.wired.lt_limit inside⟩

/-- Three pages in two spaces, none of which has a table. -/
def threePages : List Addition :=
  [⟨0, 0x400000, 0x103000, .userRW⟩, ⟨1, 0x400000, 0x104000, .userRW⟩,
    ⟨0, 0x401000, 0x104000, .userRead⟩]

/-- A session in which a caller holds two frames, and there are two spaces. -/
theorem two_frames : ∃ σ, Reaches Permits 16 0 [] σ ∧ σ.snapshot.Live 0 ∧ σ.snapshot.Live 1 ∧
    0x103000 ∈ σ.held ∧ 0x104000 ∈ σ.held ∧ 3 ≤ σ.snapshot.free.length := by
  have runs : ((((boot? 16 0 []).bind (·.next? .acquireRaw)).bind (·.next? .acquireRaw)).bind
      (·.next? .create)).any (fun σ => σ.snapshot.Live 0 ∧ σ.snapshot.Live 1 ∧
        0x103000 ∈ σ.held ∧ 0x104000 ∈ σ.held ∧ 3 ≤ σ.snapshot.free.length) = true := by
    decide +kernel
  obtain ⟨υ, run, holds⟩ := Option.any_eq_true _ _ |>.1 runs
  obtain ⟨τ, run, create⟩ := Option.bind_eq_some_iff.1 run
  obtain ⟨σ, run, second⟩ := Option.bind_eq_some_iff.1 run
  obtain ⟨ρ, boot, first⟩ := Option.bind_eq_some_iff.1 run
  exact ⟨υ, (((Reaches.of_boot? boot).next? first trivial).next? second trivial).next? create
    trivial, of_decide_eq_true holds⟩

theorem additions_commute_mapped : ∃ σ, Reaches Permits 16 0 [] σ ∧ 0x103000 ∈ σ.held ∧
    0x104000 ∈ σ.held ∧ σ.snapshot.Tabled ∧ σ.snapshot.Addable threePages ∧
    threePages.Perm threePages.reverse ∧ ∃ t u, addAll threePages σ.state = .ok () t ∧
      addAll threePages.reverse σ.state = .ok () u ∧ t.SameMappings u := by
  obtain ⟨σ, reaches, live, live', first, second, room⟩ := two_frames
  obtain ⟨commute, -, sessions⟩ := additions_commute
  obtain ⟨tabled, -⟩ := sessions 16 0 [] σ (by decide) (KernelState.prepares_nil 16)
    (.of_reaches reaches)
  have admits : σ.snapshot.Addable threePages := by
    refine ⟨?_, by decide, by decide, by decide, by decide, (card_fresh_le _ _).trans room⟩
    simp only [threePages, List.forall_mem_cons]
    exact ⟨live, live', live, nofun⟩
  obtain ⟨t, u, run, run', same, -⟩ :=
    commute σ.state threePages threePages.reverse tabled admits threePages.reverse_perm.symm
  exact ⟨σ, reaches, first, second, tabled, admits, threePages.reverse_perm.symm, t, u, run, run',
    same⟩

/-- An address amid a page is refused, though its space is live, its frame is held, and frames are
free. -/
theorem addition_refused : ∃ σ, Shared Permits 16 0 [] σ ∧ σ.snapshot.Tabled ∧
    σ.snapshot.Live 0 ∧ 0x400abc < kernelStart ∧ isAligned 0x103000 = true ∧ 0x103000 ∈ σ.held ∧
    3 ≤ σ.state.pool.available ∧
    ∀ t, addAll [⟨0, 0x400abc, 0x103000, .userRW⟩] σ.state ≠ .ok () t := by
  obtain ⟨σ, reaches, live, -, first, -, room⟩ := two_frames
  have settled := (Shared.of_reaches reaches).settled (fun _ _ _ => id) (by decide)
    (KernelState.prepares_nil 16)
  refine ⟨σ, .of_reaches reaches, settled.furnished.toTabled, live, by decide, by decide, first,
    room, fun t run => ?_⟩
  obtain ⟨⟨⟩, u, added, -⟩ := bind_eq_ok.1 run
  have refused : add 0 0x400abc 0x103000 .userRW σ.state =
      .error (.argument .misaligned) σ.state := rfl
  rw [refused] at added
  cases added

end Session
end VirtualMemory
