import VirtualMemory.Proofs.Mounts.Spaces
import VirtualMemory.Proofs.Operations.Steady
import VirtualMemory.Proofs.Translations.Pages

/-!
# Translations and spaces

A switch ends with a flush, unless it stays in the directory that is there. So work in another space
leaves nothing behind once the processor has returned, whatever was done there; and work in the
active space is work on the resident pages.
-/
namespace VirtualMemory.Kernel

open Layout Snapshot KernelState

variable {α : Type} {w : Snapshot} {s t : KernelState} {c : Entry} {P : α → Prop} {p f d va : Nat}
  {prot : Protection}

theorem Steady.ends_spaces {x : Kernel α} (h : Steady x P) (s : KernelState) :
    Ends (fun t => t.spaces = s.spaces) x s fun _ t => t.spaces = s.spaces := by
  have ends := h s.snapshot s rfl
  unfold Ends
  split
  · rename_i run
    rw [run] at ends
    exact ends.1
  · rename_i run
    rw [run] at ends
    exact ends.2

/-! ## Switching -/

/-- Between two directories a switch ends with a flush; in one it does nothing to memory. -/
theorem switch_ends (p : Nat) (s : KernelState) :
    Ends (fun t => t.spaces = s.spaces) (switch p) s fun a t =>
      ∃ r r', s.spaces.find? p = some r ∧ s.spaces.find? s.spaces.active = some r' ∧
        a = s.spaces.active ∧ t.spaces = { s.spaces with active := p } ∧
        (r'.directory = r.directory ∧ Aside s t ∨ r'.directory ≠ r.directory ∧ t.Flushed) := by
  refine .bind (.space rfl fun r hr => .bind (.get (.pure ?_)))
  refine .bind (.space rfl fun r' hr' => .bind (.modify ?_))
  refine .ite (fun same => .bind (.modify (.pure ?_))) fun other => ?_
  · exact ⟨r, r', hr, hr', rfl, rfl, .inl ⟨same, rfl, rfl⟩⟩
  have copies {source target : Kernel Nat} (hs : Steady source) (ht : Steady target) (f : Nat)
      (t : KernelState) (same : t.spaces = s.spaces) :
      Ends (fun u => u.spaces = s.spaces) (withFrame f do copyUserHalf (← source) (← target)) t
        fun _ u => u.spaces = s.spaces :=
    have steady := withFrame_steady (hs.next fun _ => ht.next fun _ => copyUserHalf_steady _ _) f
    same ▸ steady.ends_spaces t
  refine .bind ((access_looks _).ends rfl fun root _ => .bind ?_)
  refine (copies (.pure trivial) (access_steady _) _ _ (by rfl)).mono fun _ t ht => .bind ?_
  refine (copies (access_steady _) (.pure trivial) _ _ ht).mono fun _ u hu => ?_
  refine .bind (.modify (.bind (.modify (.bind (.flush fun v hv => .bind (.modify (.pure ?_)))))))
  refine ⟨r, r', hr, hr', rfl, ?_, .inr ⟨other, _, hv.trace⟩⟩
  change v.snapshot.spaces = _
  rw [hv.snapshot]
  change { u.spaces with active := p } = _
  rw [hu]

theorem switch_flushed (h : s.Flushed) (p : Nat) : Completes (switch p) s fun _ t => t.Flushed := by
  refine (switch_ends p s).completes.mono ?_
  rintro _ t ⟨_, _, _, _, _, _, ⟨-, aside⟩ | ⟨-, flushed⟩⟩
  · exact h.imp fun _ trace => aside.machine ▸ trace
  · exact flushed

theorem switch_current (c : Current w ∅ s) (p : Nat) :
    Completes (switch p) s fun _ t => Current w ∅ t := by
  refine (switch_ends p s).completes.mono ?_
  rintro _ t ⟨_, _, _, _, _, _, ⟨-, aside⟩ | ⟨-, flushed⟩⟩
  · exact c.aside aside.machine
  · exact .of_flushed flushed

/-- In the active space the body is looked into. In any other, the way back ends with a flush. -/
theorem within_current {body : Kernel Unit} (h : s.snapshot.Spares)
    (keep : ∀ va, w.Retains s.snapshot va) (steady : Steady body)
    (work : ∀ t : KernelState, t.snapshot.Spares → (∀ va, w.Retains t.snapshot va) →
      Completes body t fun _ u => Current w ∅ u) :
    Completes (within p body) s fun _ v => Current w ∅ v := by
  refine .bind ((switch_ends p s).completes.mono ?_)
  rintro _ t ⟨r, r', hr, hr', rfl, spaces, ⟨-, aside⟩ | ⟨other, -⟩⟩
  · -- the space shares its frame with the active one, and the way back does as little
    refine .bind ((work t (aside.spares h) fun va => ?_).mono fun _ u current => .discard ?_)
    · rw [snapshot_of_machine aside.machine]
      exact keep va
    · exact switch_current current _
  · -- the way back leads from the one frame to the other, so it ends with a flush
    refine .bind ((steady.ends_spaces t).completes.mono fun _ u hu => .discard ?_)
    refine (switch_ends _ u).completes.mono ?_
    rintro _ v ⟨q, q', hq, hq', -, -, ⟨same, -⟩ | ⟨-, flushed⟩⟩
    · rw [hu, spaces] at hq hq'
      obtain rfl : r' = q := Option.some.inj (hr'.symm.trans hq)
      obtain rfl : r = q' := Option.some.inj (hr.symm.trans hq')
      exact absurd same.symm other
    · exact .of_flushed flushed

theorem add_current (h : s.snapshot.Spares) (keep : ∀ va, w.Retains s.snapshot va)
    (hd : dirIndex va < mountTableSlot) :
    Completes (add p va f prot) s fun _ v => Current w ∅ v := by
  refine .ite (fun _ => .refuse trivial) fun aligned => within_current h keep ?_ ?_
  · have mapped : Steady (map f (dirIndex va) (tableIndex va) prot) :=
      map_steady (dirIndex_lt va) (tableIndex_lt va) (by simp_all) prot
    exact mapped.next fun _ => invalidatePage_steady va
  · intro t spares keep
    refine .bind ((map_current (J := ∅) (P := ∅) spares subset_rfl (Set.empty_subset _)
      (fun _ _ _ => id) (.start keep) hd fun _ va' _ => keep va').mono ?_)
    rintro _ u ⟨-, current, -⟩
    exact .invalidatePage fun v hv => current.drop hv

theorem forPages_current {first last : Nat} {body : Nat → Kernel Unit}
    (h : s.snapshot.Spares) (keep : ∀ va, w.Retains s.snapshot va)
    (low : ∀ i < (last - first) / pageSize, dirIndex (first + i * pageSize) < mountTableSlot)
    (steady : ∀ va, Steady (body va))
    (work : ∀ (t : KernelState) va, t.snapshot.Spares → Current w ∅ t →
      dirIndex va < mountTableSlot →
        Completes (body va) t fun _ v => v.snapshot.Spares ∧ Current w ∅ v) :
    Completes (forPages p first last body) s fun _ v => Current w ∅ v := by
  refine .ite (fun _ => .refuse trivial) fun _ => .ite (fun _ => .refuse trivial) fun _ => ?_
  refine within_current h keep (.forEach steady _ _ _) fun t spares keep => ?_
  refine (Ends.forEach (I := fun _ u => u.snapshot.Spares ∧ Current w ∅ u)
    ⟨spares, .start keep⟩ fun i u hi hu => ?_).mono fun _ _ hv => hv.2
  exact work u _ hu.1 hu.2 (low i hi)

theorem remove_current {first last : Nat} (h : s.snapshot.Spares)
    (keep : ∀ va, w.Retains s.snapshot va)
    (low : ∀ i < (last - first) / pageSize, dirIndex (first + i * pageSize) < mountTableSlot) :
    Completes (remove p first last) s fun _ v => Current w ∅ v := by
  refine forPages_current h keep low unmap_steady fun t va ht hc hd => ?_
  exact (unmap_current ht hc hd).mono fun _ v hv => ⟨hv.1, hv.2.1⟩

/-! ## Forks and ends -/

/-- After the child's tables were filled everything is dropped, and the way back writes no more,
unless it drops everything once more. -/
theorem fork_flushed (parent child : Nat) (s : KernelState) :
    Completes (fork parent child) s fun _ t => t.Flushed := by
  refine .bind ((Ends.any _ _).mono fun r t _ => .bind ((Ends.any _ _).mono fun _ u _ => ?_))
  refine .bind ((Ends.any _ _).mono fun _ v _ => .bind ((Ends.any _ _).mono fun n x _ => ?_))
  refine .bind (.flush fun y hy => .bind (.discard ?_))
  exact (switch_flushed ⟨_, hy.trace⟩ parent).mono fun _ z hz => .modify hz

theorem release_machine (f : Nat) (s : KernelState) :
    Completes (release f) s fun _ t => t.machine = s.machine := by
  refine .bind (.modify (.get ?_))
  split
  · exact .modify rfl
  · exact .violate trivial

/-- The window is pointed at the stored directory again and again; no other walk is touched. -/
theorem releaseUserTable_current (h : s.snapshot.Reserves) (c : Current w ∅ s) :
    Completes (releaseUserTable f d) s fun _ v => v.snapshot.Reserves ∧ Current w ∅ v := by
  refine .bind ((withFrame_current_looks h c (windowEntry_looks d)).mono ?_)
  rintro e t ⟨current, same⟩
  have reserves : t.snapshot.Reserves := same ▸ h
  refine .ite (fun _ => .bind (.get (.pure (.bind (.modify (.bind ?_)))))) fun _ =>
    .pure ⟨reserves, current⟩
  refine (release_machine _ _).mono fun _ u machine => .pure ⟨?_, current.aside machine⟩
  rw [snapshot_of_machine (s := t) machine]
  exact reserves.book _

theorem releaseSpace_current (h : s.snapshot.Shields c) (stows : s.snapshot.Stows Spaces.kernelId)
    (keep : ∀ va, w.Retains s.snapshot va) :
    Completes (releaseSpace p f) s fun _ v => Current w ∅ v := by
  have current : Current w ∅ s := .start keep
  have left : Completes (leave p) s fun _ v => v.snapshot.Reserves ∧ Current w ∅ v := by
    refine .bind (.get (.pure (.ite (fun _ => .bind ?_) fun _ => .pure ⟨h.toReserves, current⟩)))
    refine .attempt (((switch_guards h.toHosts).completes.both (switch_current current _)).mono ?_)
      fun e t _ => .halt trivial
    rintro _ t ⟨⟨-, -, shields⟩, moved⟩
    exact .pure ⟨(shields h stows).toReserves, moved⟩
  refine .bind (left.mono fun _ t ht => .bind (.bind ?_))
  refine (Ends.sumEach (I := fun _ u => u.snapshot.Reserves ∧ Current w ∅ u) ht fun k u _ hu =>
    releaseUserTable_current hu.1 hu.2).mono fun n u hu => ?_
  have freed {v : KernelState} (hv : Current w ∅ v) : Completes (do
      release f
      modify fun s => { s with spaces := s.spaces.remove p }
      note (.spaceReleased p)) v fun _ v => Current w ∅ v := by
    refine .bind ((release_machine f v).mono fun _ x hx => .bind (.modify (.modify ?_)))
    exact (hv.aside hx).aside rfl
  exact .ite (fun _ => .modify (freed (hu.2.aside rfl))) fun _ => .pure (freed hu.2)

theorem decref_current (h : s.snapshot.Shields c) (stows : s.snapshot.Stows Spaces.kernelId)
    (keep : ∀ va, w.Retains s.snapshot va) :
    Completes (decref p) s fun _ v => Current w ∅ v := by
  refine .get ?_
  cases found : s.spaces.find? p with
  | none => exact .halt trivial
  | some r =>
    refine .ite (fun _ => .halt trivial) fun _ => .bind (.modify ?_)
    have current : Current w ∅ s := .start keep
    refine .ite (fun _ => .pure (current.aside rfl)) fun _ => .ite (fun _ => .halt trivial) ?_
    intro other
    have fewer := h.owning found (r.owners - 1)
    refine .bind ((releaseSpace_current (s := { s with
      spaces := s.spaces.put p { r with owners := r.owners - 1 } }) fewer ?_ keep).mono
        fun _ t ht => .pure ht)
    intro r' hr'
    change (s.spaces.put p _).find? Spaces.kernelId = some r' at hr'
    rw [Spaces.find?_put, if_neg other] at hr'
    exact stows r' hr'

theorem destroy_current (h : s.snapshot.Shields c) (stows : s.snapshot.Stows Spaces.kernelId)
    (keep : ∀ va, w.Retains s.snapshot va) :
    Completes (destroy p) s fun _ v => Current w ∅ v := by
  refine .bind (.space trivial fun r _ => ?_)
  refine .ite (fun _ => .bind (.modify (.discard ?_))) fun _ => .discard ?_
  all_goals exact decref_current h stows keep

end VirtualMemory.Kernel
