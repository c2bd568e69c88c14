import VirtualMemory.Proofs.Mounts.Pages
import VirtualMemory.Proofs.Operations.Switch
import VirtualMemory.Proofs.Ownership.Release

/-!
# Shielded spaces

A switch copies user halves between the directory and the spaces' own frames, so it brings in only
slots that were stored, and stores where nothing is shielded. To come back from a space no more is
needed than that, whatever the directory's user half leads to.
-/
namespace VirtualMemory

open Layout Snapshot Kernel

namespace Snapshot

variable {w v : Snapshot} {c : Entry} {p f : Nat}

/-- The user half that space `p` keeps in its own frame does not lead to the directory or the mount
table. Of the active space, that frame is of no account. -/
def Stows (w : Snapshot) (p : Nat) : Prop := ∀ r, w.spaces.find? p = some r →
  p ≠ w.spaces.active → ∀ d < userSlots, (w.entry (shown r.directory) d).isPresent = true →
    Apart (w.entry (shown r.directory) d).frame

theorem Hosts.splice (h : w.Hosts c) (q : Page) :
    (w.setPage w.root (PerfectTree.splice userSlots q (w.page w.root))).Hosts c :=
  have away := h.wired.mountTable_ne_root
  ⟨⟨Wired.splice h.wired q, (entry_setPage_of_ne _ _ _ away _).trans h.window⟩,
    h.directory, h.free⟩

theorem Hosts.owning (h : w.Hosts c) {r : SpaceRecord} (found : w.spaces.find? p = some r)
    (n : Nat) : (w.owning p r n).Hosts c := by
  refine h.book (fun q r' hr' => ?_) h.free
  rw [Spaces.find?_put] at hr'
  split at hr'
  · cases hr'
    exact h.directory p r found
  · exact h.directory q r' hr'

theorem Shields.owning (h : w.Shields c) {r : SpaceRecord} (found : w.spaces.find? p = some r)
    (n : Nat) : (w.owning p r n).Shields c := ⟨h.toHosts.owning found n, h.slot⟩

/-- The user half of a page becomes the resident one. -/
theorem Shields.splice (h : w.Shields c) {q : Page} (clear : ∀ d < userSlots,
    (q.entry d).isPresent = true → Apart (q.entry d).frame) :
    (w.setPage w.root (PerfectTree.splice userSlots q (w.page w.root))).Shields c := by
  refine ⟨h.toHosts.splice q, fun d hd => ?_⟩
  rw [root_setPage, Snapshot.entry, page_setPage_self,
    Page.entry_splice _ _ _ (hd.trans (by decide))]
  split
  · exact clear d ‹_›
  · exact h.slot d hd

end Snapshot

namespace Kernel

variable {s : KernelState} {c : Entry} {f p d : Nat}

theorem storeUserHalf_guards (h : s.snapshot.Hosts c) (apart : Apart (shown f)) :
    Guards c (withFrame f do copyUserHalf s.snapshot.root (← Window.base)) s fun _ v =>
      v = s.snapshot.setPage (shown f)
        (PerfectTree.splice userSlots (s.snapshot.page s.snapshot.root)
          (s.snapshot.page (shown f))) := by
  refine withFrame_guards h.toKeeps fun t ht => ?_
  have wired : t.snapshot.Wired := ht ▸ h.wired.mount f
  have shows : t.snapshot.window.frame = shown f := by rw [ht, window_mount]; rfl
  have root : s.snapshot.root = t.snapshot.root := by rw [ht]; rfl
  rw [root]
  refine .bind (.base wired wired fun _ inside => ?_)
  refine .bind (.loadPage wired.isFrame_root (.bind (.loadPage inside ?_)))
  refine .storePage inside fun u hu => ⟨hu.snapshot ▸ wired.setPage ?_ _, ?_⟩
  · rw [shows, ← root]
    exact h.apart_ne_root apart
  · rw [hu.snapshot, shows, ← root, ht, page_mount _ _ h.wired.mountTable_ne_root.symm,
      page_mount _ _ apart.2, setPage_mount _ _ apart.2, ← h.window]
    exact (congrArg _ (entry_setPage_of_ne _ _ _ apart.2.symm _).symm).trans (unmount _ _)

theorem loadUserHalf_guards (h : s.snapshot.Hosts c) (apart : Apart (shown f)) :
    Guards c (withFrame f do copyUserHalf (← Window.base) s.snapshot.root) s fun _ v =>
      v = s.snapshot.setPage s.snapshot.root
        (PerfectTree.splice userSlots (s.snapshot.page (shown f))
          (s.snapshot.page s.snapshot.root)) := by
  refine withFrame_guards h.toKeeps fun t ht => ?_
  have wired : t.snapshot.Wired := ht ▸ h.wired.mount f
  have shows : t.snapshot.window.frame = shown f := by rw [ht, window_mount]; rfl
  have root : s.snapshot.root = t.snapshot.root := by rw [ht]; rfl
  have away := h.wired.mountTable_ne_root
  rw [root]
  refine .bind (.base wired wired fun _ inside => ?_)
  refine .bind (.loadPage inside (.bind (.loadPage wired.isFrame_root ?_)))
  refine .storePage wired.isFrame_root fun u hu => ⟨hu.snapshot ▸ Wired.splice wired _, ?_⟩
  rw [hu.snapshot, shows, ← root, ht, page_mount _ _ away.symm, page_mount _ _ apart.2,
    setPage_mount _ _ away.symm, ← h.window]
  exact (congrArg _ (entry_setPage_of_ne _ _ _ away _).symm).trans (unmount _ _)

theorem Ends.space {F : KernelState → Prop} {Q : SpaceRecord → KernelState → Prop} (hF : F s)
    (h : ∀ r, s.spaces.find? p = some r → Q r s) : Ends F (space p) s Q := by
  refine .get ?_
  cases found : s.spaces.find? p with
  | none => exact .refuse hF
  | some r => exact .pure (h r found)

/-- A switch leaves nothing shielded in the open, unless that was stored with the space. -/
theorem switch_guards (h : s.snapshot.Hosts c) : Guards c (switch p) s fun _ v => v.Hosts c ∧
    v.spaces = { s.spaces with active := p } ∧
    (s.snapshot.Shields c → s.snapshot.Stows p → v.Shields c) := by
  refine .bind (.space h.toKeeps fun target hp => .bind (.get (.pure ?_)))
  refine .bind (.space h.toKeeps fun current hq => .bind ?_)
  refine (Ends.of_yields (countSwitch_yields _)).mono ?_
  rintro _ t ⟨-, ht⟩
  have spaces : t.spaces = s.spaces := congrArg (fun w : Snapshot => w.spaces) ht
  rw [← ht] at h ⊢
  rw [← spaces] at hp hq ⊢
  refine .ite (fun _ => ?_) fun other => ?_
  · refine .bind (.modify (.pure ⟨h.book h.directory h.free, rfl, fun shields _ => ?_⟩))
    exact shields.book shields.directory shields.free
  · have apart := h.directory _ _ hq
    have apart' := h.directory _ _ hp
    refine .bind (.directoryBase h.wired (.bind ?_))
    refine (storeUserHalf_guards h apart).mono fun _ u hu => .bind ?_
    have root : t.snapshot.root = u.snapshot.root := by rw [hu]; rfl
    have stored : u.snapshot.Hosts c := hu ▸ h.setPage apart _
    rw [root]
    refine (loadUserHalf_guards stored apart').mono fun _ v hv => ?_
    have spaces' : v.snapshot.spaces = t.snapshot.spaces := by
      rw [hv, hu]
      rfl
    refine .bind (.modify (.bind (.modify (.bind (.flush fun x hx => .bind (.modify (.pure ?_)))))))
    change x.snapshot.Hosts c ∧ x.snapshot.spaces = _ ∧ (_ → _ → x.snapshot.Shields c)
    rw [hx.snapshot]
    have loaded : v.snapshot.Hosts c := hv ▸ stored.splice _
    refine ⟨loaded.book loaded.directory loaded.free, ?_, fun shields stows => ?_⟩
    · change { v.snapshot.spaces with active := p } = _
      rw [spaces']
      rfl
    · have inactive : p ≠ t.spaces.active := by
        rintro rfl
        exact other (congrArg SpaceRecord.directory (Option.some.inj (hq.symm.trans hp)))
      -- what is loaded was stored with the space, or it is the user half that was just stored
      have shields' : v.snapshot.Shields c := by
        have before : u.snapshot.Shields c := hu ▸ shields.setPage apart _
        rw [hv]
        refine before.splice fun d hd present => ?_
        rw [hu, page_setPage] at present ⊢
        split at present
        · rename_i same
          rw [if_pos same]
          rw [Page.entry_splice _ _ _ (hd.trans (by decide)), if_pos hd] at present ⊢
          exact shields.slot d (hd.trans (by decide)) present
        · rw [if_neg ‹_›]
          exact stows _ hp inactive d hd present
      exact shields'.book shields'.directory shields'.free

/-- Work in another space, and the way back. -/
theorem within_guards {body : Kernel Unit} (h : s.snapshot.Shields c) (stows : s.snapshot.Stows p)
    (work : ∀ t : KernelState, t.snapshot.Shields c → Guards c body t fun _ v => v.Shields c) :
    Guards c (within p body) s fun _ v => v.Keeps c := by
  refine .bind ((switch_guards h.toHosts).mono fun previous t ht => .bind ?_)
  refine (work t (ht.2.2 h stows)).mono fun _ u hu => .discard ?_
  exact (switch_guards hu.toHosts).mono fun _ v hv => hv.1.toKeeps

/-! ## Forks -/

theorem shareLeaf_guards {table t : Nat} (h : s.snapshot.Shields c) (hd : d < mountTableSlot) :
    Ends (fun u => u.snapshot.Wired) (shareLeaf table d t) s
      fun _ u => ∃ c', u.snapshot.Shields c' := by
  refine .bind (.windowEntry h.wired h.wired fun ht _ => .ite (fun _ => .bind ?_) fun _ =>
    .pure ⟨c, h⟩)
  refine .windowSetEntry h.wired h.wired fun _ _ u hu => ?_
  obtain ⟨c', thin⟩ := h.thin s.snapshot.window.frame ht
  rw [← hu.snapshot] at thin
  have wired {α : Type} {x : Kernel α} {v : KernelState} {Q : α → KernelState → Prop}
      (ran : Ends (fun t => t.snapshot.Keeps c') x v Q) : Ends (fun t => t.snapshot.Wired) x v Q :=
    ran.weaken fun _ kept => kept.wired
  refine .bind ((wired (setLeaf_guards thin hd)).mono fun _ v hv => .bind ?_)
  refine (wired ((countEntry_counts _).guards hv.1)).mono fun _ x hx => .bind ?_
  exact (wired ((shareFrame_counts _).guards hx.1)).mono fun _ y hy => .pure ⟨c', hy.1⟩

/-- What is shared is read from a table that anything may be found in, the mount table included. -/
theorem shareTable_guards {directory : Nat} (h : s.snapshot.Shields c) (hd : d < mountTableSlot) :
    Guards c (shareTable directory d) s fun _ v => v.Shields c := by
  refine .bind ((withFrame_looks h.toKeeps (windowEntry_looks d)).mono fun e t ht => ?_)
  refine .ite (fun _ => .bind ?_) fun _ => .pure (ht ▸ h)
  refine (acquire_guards (ht ▸ h)).mono fun table u hu => .bind ?_
  refine (bindTable_shields hu.2 hd hu.1).mono fun _ v hv => ?_
  refine withFrame_shields hv.1 fun x hx => ?_
  refine .sumEach (I := fun _ t => ∃ c', t.snapshot.Shields c') ⟨_, hx⟩ fun k y _ hy => ?_
  obtain ⟨c', shields⟩ := hy
  exact shareLeaf_guards shields hd

theorem fork_guards {parent child : Nat} (h : s.snapshot.Shields c)
    (stows : s.snapshot.Stows child) :
    Guards c (fork parent child) s fun _ v => v.Keeps c := by
  refine .bind (.space h.toKeeps fun r _ => .bind (.discard (.space h.toKeeps fun _ _ => ?_)))
  refine .bind (.discard ((switch_guards h.toHosts).mono fun _ t ht => .bind ?_))
  refine (Ends.sumEach (I := fun _ t => t.snapshot.Shields c) (ht.2.2 h stows)
    fun k u hk hu => ?_).mono fun n v hv => ?_
  · exact shareTable_guards hu (by simp only [userSlots, mountTableSlot] at *; omega)
  · refine .bind (.flush fun x hx => .bind (.discard ?_))
    exact (switch_guards (hx.snapshot ▸ hv.toHosts)).mono fun _ y hy => .modify hy.1.toKeeps

/-! ## The life of a space -/

theorem create_guards (h : s.snapshot.Shields c) :
    Guards c create s fun _ v => v.Keeps c := by
  refine .bind ((acquire_guards h).mono fun f t ht => .get ?_)
  cases t.spaces.add f with
  | error v => exact .violate ht.2.toKeeps
  | ok r => exact .bind (.modify (.bind (.modify (.pure (ht.2.toKeeps.book _)))))

theorem incref_guards (h : s.snapshot.Keeps c) : Guards c (incref p) s fun _ v => v.Keeps c :=
  .bind (.space h fun _ _ => .ite (fun _ => .bind (.modify (.pure (h.book _)))) fun _ => .violate h)

theorem releaseUserTable_guards (h : s.snapshot.Keeps c) :
    Guards c (releaseUserTable f d) s fun _ v => v.Keeps c := by
  refine .bind ((withFrame_looks h (windowEntry_looks d)).mono fun e t ht => ?_)
  refine .ite (fun _ => .bind (.get (.pure (.bind (.modify (.bind ?_)))))) fun _ => .pure (ht ▸ h)
  refine (release_guards (Keeps.book (ht ▸ h) _)).mono fun _ u hu => .pure ?_
  rw [hu]
  exact ((Keeps.book (ht ▸ h) _).book _)

theorem releaseSpace_guards (h : s.snapshot.Hosts c) :
    Guards c (releaseSpace p f) s fun _ v => v.Keeps c := by
  have left : Guards c (leave p) s fun _ v => v.Keeps c := by
    refine .bind (.get (.pure (.ite (fun _ => .bind ?_) fun _ => .pure h.toKeeps)))
    refine .attempt ((switch_guards h).mono fun _ t ht => .pure ht.1.toKeeps) ?_
    exact fun e t ht => .halt ht
  refine .bind (left.mono fun _ t ht => .bind (.bind ?_))
  refine (Ends.sumEach (I := fun _ t => t.snapshot.Keeps c) ht fun k u _ hu =>
    releaseUserTable_guards hu).mono fun n u hu => ?_
  have freed {v : KernelState} (hv : v.snapshot.Keeps c) : Guards c (do
      release f
      modify fun s => { s with spaces := s.spaces.remove p }
      note (.spaceReleased p)) v fun _ v => v.Keeps c := by
    refine .bind ((release_guards hv).mono fun _ x hx => .bind (.modify (.modify ?_)))
    exact (Keeps.book (hx ▸ hv.book _) _)
  exact .ite (fun _ => .modify (freed hu)) fun _ => .pure (freed hu)

theorem decref_guards (h : s.snapshot.Hosts c) : Guards c (decref p) s fun _ v => v.Keeps c := by
  refine .get ?_
  cases found : s.spaces.find? p with
  | none => exact .halt h.toKeeps
  | some r =>
    refine .ite (fun _ => .halt h.toKeeps) fun _ => .bind (.modify ?_)
    have fewer := h.owning found (r.owners - 1)
    refine .ite (fun _ => .pure fewer.toKeeps) fun _ => .ite (fun _ => .halt fewer.toKeeps) ?_
    exact fun _ => .bind (Ends.mono (releaseSpace_guards fewer) fun _ t ht => .pure ht)

theorem destroy_guards (h : s.snapshot.Hosts c) : Guards c (destroy p) s fun _ v => v.Keeps c := by
  refine .bind (.space h.toKeeps fun r _ => ?_)
  refine .ite (fun _ => .bind (.modify (.discard ?_))) fun _ => .discard ?_
  all_goals exact decref_guards h

end Kernel
end VirtualMemory
