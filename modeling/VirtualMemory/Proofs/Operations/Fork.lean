import VirtualMemory.AddressSpace.Fork
import VirtualMemory.Proofs.Operations.Forking

/-!
# Fork

A fork of a live space into an empty one succeeds unless the pool has fewer frames than the parent
has tables, or some share count would leave its range. Either failure stops the kernel.
-/
namespace VirtualMemory

open Layout Snapshot

namespace Kernel

variable {w v : Snapshot} {O : Finset Nat} {role : Nat → Role}
  {parent child k n t source table : Nat}

/-- What a fork runs out of, if it does: frames for the child's tables, or numbers for a count. -/
inductive ForkStops (w : Snapshot) (parent : Nat) : Failure → Books → Prop where
  | frames {b : Books} (empty : b.free = [])
      (few : w.free.length < w.tablesIn parent userSlots) :
      ForkStops w parent (.halt .outOfFrames) b
  | limit {b : Books} {f : Nat} (full : Shares.countLimit ≤ b.shares.get f + 1)
      (many : Shares.countLimit ≤
        w.shares.get f + w.pagesIn parent (userSlots * tableEntries) f) :
      ForkStops w parent (.violation .additionOverflow) b

theorem ForkStops.depleted {f : Failure} {b : Books} (h : ForkStops w parent f b) :
    Depleted f b := by
  cases h with
  | frames empty => exact .frames empty
  | limit full => exact .limit (.inl ⟨_, full⟩)

theorem ForkStops.of_switched {f : Failure} {b : Books} (settled : w.Settled O) {p : Nat}
    (s : w.Switched v p) (live : w.Live parent) (h : ForkStops v parent f b) :
    ForkStops w parent f b := by
  cases h with
  | frames empty few =>
    rw [tablesIn_switched s live (Nat.le_refl _), s.books] at few
    exact .frames empty few
  | limit full many =>
    rw [pagesIn_switched settled s live, s.books] at many
    exact .limit full many

/-- One entry is looked at. If it holds a page, both tables hold it afterwards. -/
theorem shareLeaf_leads (h : w.Sharing v O role parent child k n source table)
    (ht : t < tableEntries) (hn : n = k * tableEntries + t) (ne : parent ≠ child)
    (none : ∀ d u, d < userSlots → w.leaf? (.user child d) u = none) {window : Page}
    (quiet : v.page mountTable = window) :
    Leads (ForkStops w parent) (shareLeaf table k t) (v.mount source) fun _ x => ∃ u,
      x = u.mount source ∧ w.Sharing u O role parent child k (n + 1) source table ∧
        u.page mountTable = window := by
  have stable := h.stable
  obtain ⟨bound, -, slot⟩ := (stable.table source _).1 h.sourceRole
  have hk : k < tableEntries := by
    have := bound.2
    simp only [userSlots, tableEntries] at *
    omega
  have inside := stable.isFrame (f := source) (by simp [h.sourceRole])
  have inside' := stable.isFrame (f := table) (by simp [h.tableRole])
  have hm := stable.table_ne_mount h.sourceRole
  have hm' := stable.table_ne_mount h.tableRole
  have has := (has_congr h.spaces (.user parent k)).1 bound
  refine (windowEntry_yields stable.wired inside hm ht).bind ?_
  refine .ite ?_ fun absent => .pure ⟨v, rfl, ?_, quiet⟩
  · intro there
    generalize page : v.entry source t = e at there ⊢
    have root := stable.table_ne_root h.sourceRole
    have has' := (has_congr h.spaces (.user child k)).1 ((stable.table table _).1 h.tableRole).1
    have free := (h.todo ht (Nat.le_of_eq hn) has').trans (none k t bound.2)
    set u₁ := v.setEntry source t (e.clear EntryFlags.writable) with hu₁
    set u₂ := u₁.setEntry table t (e.clear EntryFlags.writable) with hu₂
    have wired : u₁.Wired := stable.wired.setPage root _
    have written := mountedSetLeaf_yields (f := source) wired hk
      (entry_setPage_of_ne _ _ _ root.symm k) h.slot (h.frame ▸ inside') (h.frame ▸ hm') ht
      (e.clear EntryFlags.writable)
    rw [h.frame, ← hu₂] at written
    have spare : u₂.occupancy.get table < tableEntries := by
      change v.occupancy.get table < _
      rw [stable.count _ _ h.tableRole]
      exact Page.presentCount_lt ht (stable.absent_entry h.tableRole free)
    have seen : w.leaf? (.user parent k) t = some e := by
      rw [← h.todo ht (Nat.le_of_eq hn) has]
      exact leaf?_eq_some.2 ⟨(h.stable.table source _ |>.1 h.sourceRole).2.1, there,
        by rw [Snapshot.leafAt, slot, page]⟩
    refine (windowSetEntry_yields stable.wired inside hm ht _).bind ?_
    refine written.bind ?_
    refine (countEntry_yields (w := u₂.mount source) spare).bind (.bind (shareFrame_leads ?_ ?_))
    · intro full
      refine .limit full ?_
      have counted := h.shares e.frame
      have more := pagesIn_lt bound.2 ht seen
      rw [Entry.frame_clear_writable] at full ⊢
      change Shares.countLimit ≤ v.shares.get e.frame + 1 at full
      rw [← hn] at more
      omega
    rw [Entry.frame_clear_writable]
    refine .pure ⟨_, rfl, h.next ht hn ne page there (none k t bound.2) rfl, ?_⟩
    change u₂.page mountTable = window
    rw [hu₂, page_setEntry, if_neg hm'.symm, hu₁, page_setEntry, if_neg hm.symm, quiet]
  · have page : w.leaf? (.user parent k) t = Option.none := by
      rw [← h.todo ht (Nat.le_of_eq hn) has, Snapshot.leaf?, if_neg]
      rw [Snapshot.leafAt, slot]
      exact fun both => absent both.2
    exact { h with toForking := h.toForking.skip ht hn page (none k t bound.2) }

/-- One slot is looked at, and its table shared. -/
theorem shareTable_leads {r : SpaceRecord} (h : w.Rounds v O role parent child k)
    (hk : k < userSlots) (ne : parent ≠ child) (active : w.spaces.active = child)
    (hr : w.spaces.find? parent = some r)
    (none : ∀ d u, d < userSlots → w.leaf? (.user child d) u = none) :
    Leads (ForkStops w parent) (shareTable r.directory k) v fun _ u => ∃ role',
      w.Rounds u O role' parent child (k + 1) := by
  have stable := h.stable
  have hh := stable.housed
  have hd : k < mountTableSlot := by
    simp only [userSlots, mountTableSlot] at *
    omega
  have hk' := Sound.slot_lt hd
  have hr' : v.spaces.find? parent = some r := h.spaces ▸ hr
  have active' : v.spaces.active = child := h.spaces ▸ active
  have here : v.here k = .user child k := by rw [Snapshot.here, Place.seenBy, if_pos hk, active']
  have slot : v.slotAt (.user parent k) = v.entry r.directory k := by
    rw [slotAt, home_of_ne (by rw [active']; exact ne) hr']
  have live : v.Live parent := Option.isSome_iff_exists.2 ⟨r, hr'⟩
  have below : v.slotAt (.user parent k) = w.slotAt (.user parent k) :=
    h.spared.slots _ ((has_congr h.spaces _).1 ⟨live, hk⟩) (by simp [ne])
  refine (entryOf_yields stable.wired (hh.isFrame _ _ hr') (hh.ne_mount _ _ hr') hk').bind ?_
  rw [← slot]
  refine .ite ?_ ?_
  · intro present
    have table := stable.table_slotAt (π := .user parent k) ⟨live, hk⟩ present
    have absent : (v.entry v.root k).isPresent = false := by
      rw [← slotAt_here, here]
      exact h.ahead k (Nat.le_refl _) hk
    refine .bind ((newTable_leads stable hd absent Protection.userRWX ?_).mono ?_)
    · -- Every table of the parent so far has taken a frame, and this one needs another.
      intro empty
      refine .frames empty ?_
      have used : w.free.length ≤ w.tablesIn parent k := by
        rw [← List.drop_eq_nil_iff, ← h.free]
        exact empty
      have one := tablesIn_succ w parent k
      rw [if_pos (below ▸ present)] at one
      have more : w.tablesIn parent (k + 1) ≤ w.tablesIn parent userSlots :=
        Nat.count_monotone _ hk
      omega
    rintro f u ⟨x, bound, added⟩
    refine bound.bind ?_
    generalize source : (v.slotAt (.user parent k)).frame = g at table
    have inside := stable.isFrame (f := g) (by simp [table])
    have start := h.start hk ne live (active' ▸ stable.live_active) present source here added absent
    generalize hn : k * tableEntries = n at start
    refine withFrame_leads start.stable.wired inside.1 (Leads.mono (Leads.sumEach
      (fun t y => ∃ u, y = u.mount g ∧
        w.Sharing u O (Function.update role f (.table (.user child k))) parent child k (n + t) g f ∧
        u.page mountTable = x.page mountTable) ⟨x, rfl, start, rfl⟩ ?_) ?_)
    · rintro t _ ht ⟨u, rfl, sharing, quiet⟩
      rw [Nat.zero_add]
      exact shareLeaf_leads sharing ht (by rw [hn]) ne none quiet
    · rintro _ _ ⟨u, rfl, sharing, quiet⟩
      have all : n + tableEntries = (k + 1) * tableEntries := by rw [Nat.succ_mul, hn]
      exact ⟨u, rfl, sharing.stable.wired, by rw [Snapshot.entry, quiet, ← Snapshot.entry], _,
        sharing.finish all ne⟩
  · intro absent
    refine .pure ⟨role, ?_, ?_, h.filled, fun d hd' => h.ahead d (by omega)⟩
    · rw [Nat.succ_mul]
      exact h.toForking.skipTable rfl (fun t => leaf?_of_absent (by simpa [← below] using absent) t)
        fun t => none k t hk
    · exact h.toDrawn.skip (below ▸ absent)

/-- A fork fails only for want of frames or numbers; the child's tables are the frames that the
pool gives first. -/
theorem fork_duplicates (h : w.Settled O) (live : w.Live parent) (live' : w.Live child)
    (ne : parent ≠ child) (vacant : w.Vacant child) :
    Leads (ForkStops w parent) (fork parent child) w fun _ v =>
      v.Settled O ∧ w.Duplicated v O parent child := by
  obtain ⟨role, stable⟩ := h.stable
  obtain ⟨r, hr⟩ := Option.isSome_iff_exists.1 live
  obtain ⟨c, hc⟩ := Option.isSome_iff_exists.1 live'
  obtain ⟨u, there, s⟩ := switch_yields stable.toSound.switchable live'
  have hu := h.switched live' s
  obtain ⟨roleU, stableU⟩ := hu.stable
  have active : u.spaces.active = child := by rw [s.books]
  have empty (d : Nat) (hd : d < userSlots) : (u.slotAt (.user child d)).isPresent = false := by
    rw [s.slotAt (.user child d) ⟨live', hd⟩]
    exact vacant d hd
  have start : u.Rounds u O roleU parent child 0 := by
    refine ⟨⟨stableU, rfl, rfl, ?_, ?_, fun _ _ => rfl, .refl u parent child,
      .refl u⟩,
      .start u parent child, hu.filled, fun d _ hd => empty d hd⟩
    · intro f
      rw [Nat.zero_mul, pagesIn, Nat.count_zero, Nat.add_zero]
    · intro π t _ _
      cases π <;> simp [forkedPages]
  refine (space_yields hr).bind ?_
  refine .bind (.discard ((space_yields hc).leads ?_))
  refine .bind (.discard (there.leads ?_))
  refine .bind (Leads.mono ((Leads.sumEach
    (fun k v => ∃ role, u.Rounds v O role parent child k) ⟨roleU, start⟩ ?_).weaken
      fun _ _ => ForkStops.of_switched h s live) ?_)
  · rintro k v hk ⟨roleV, rounds⟩
    rw [Nat.zero_add]
    exact shareTable_leads rounds hk ne active ((s.find? parent).trans hr)
      fun d t hd => leaf?_of_absent (empty d hd) t
  · rintro _ v ⟨roleV, rounds⟩
    have live_u : u.Live parent := (congrArg Option.isSome (s.find? parent)).trans live
    have live_v : v.Live parent := by
      unfold Live
      rwa [rounds.spaces]
    have settled := rounds.settled hu live_u
    obtain ⟨x, back, s'⟩ := switch_yields rounds.stable.toSound.switchable live_v
    refine (flush_yields _).bind ?_
    refine .bind (.discard (back.leads ?_))
    exact (note_yields _ _).leads
      ⟨settled.switched live_v s', rounds.duplicated h live live' s settled s'⟩

theorem fork_leads (h : w.Settled O) (live : w.Live parent) (live' : w.Live child)
    (ne : parent ≠ child) (vacant : w.Vacant child) :
    Leads Depleted (fork parent child) w fun _ v => v.Settled O ∧ w.Forked v O parent child :=
  ((fork_duplicates h live live' ne vacant).weaken fun _ _ => ForkStops.depleted).mono
    fun _ _ => And.imp_right Duplicated.toForked

theorem fork_refuses (dead : ¬ (w.Live parent ∧ w.Live child)) :
    Refuses (fork parent child) w .unknownSpace := by
  by_cases live : w.Live parent
  · obtain ⟨r, hr⟩ := Option.isSome_iff_exists.1 live
    refine (space_yields hr).refuses ?_
    exact ((space_refuses fun live' => dead ⟨live, live'⟩).discard).bind
  · exact (space_refuses live).bind

end Kernel
end VirtualMemory
