import VirtualMemory.Proofs.Calls.Mounts
import VirtualMemory.Proofs.Translations.Spaces

/-!
# Where spaces are kept

The frames that spaces keep their user halves in were all taken from the pool, and no request
changes the frame of a space. So what was true of all of these frames, and of the frames in the
pool, is true of all of them after any request, however it ends.
-/
namespace VirtualMemory

open Layout Snapshot

/-- Every space's own frame is one of `P`. -/
def Spaces.Homed (P : Nat → Prop) (s : Spaces) : Prop :=
  ∀ p r, s.find? p = some r → P r.directory

namespace Spaces.Homed

variable {P : Nat → Prop} {s : Spaces}

theorem put (h : s.Homed P) {r : SpaceRecord} (hr : P r.directory) (p : Nat) :
    (s.put p r).Homed P := by
  intro q r' found
  rw [find?_put] at found
  split at found
  · cases found
    exact hr
  · exact h q r' found

theorem remove (h : s.Homed P) (p : Nat) : (s.remove p).Homed P := by
  intro q r found
  rw [find?_remove] at found
  split at found
  · cases found
  · exact h q r found

theorem add (h : s.Homed P) {f : Nat} (hf : P f) {r : Nat × Spaces} (added : s.add f = .ok r) :
    r.2.Homed P := by
  unfold Spaces.add at added
  split at added
  · cases added
    exact h.put (r := ⟨f, 1⟩) hf s.nextId
  · cases added

end Spaces.Homed

namespace Kernel

variable {α β : Type} {P : Nat → Prop} {x : Kernel α} {s : KernelState}

/-- The action leaves every space in one of the frames `P`, also where it fails. -/
def Lodges (P : Nat → Prop) (x : Kernel α) : Prop := ∀ s : KernelState, s.spaces.Homed P →
  Ends (fun t => t.spaces.Homed P) x s fun _ t => t.spaces.Homed P

theorem Steady.lodges {R : α → Prop} (h : Steady x R) : Lodges P x := by
  have back {s t : KernelState} (homed : s.spaces.Homed P) (same : t.spaces = s.spaces) :
      t.spaces.Homed P := same ▸ homed
  exact fun s homed => ((h.ends_spaces s).mono fun _ _ => back homed).weaken fun _ => back homed

namespace Lodges

theorem bind {k : α → Kernel β} (hx : Lodges P x) (hk : ∀ a, Lodges P (k a)) :
    Lodges P (x >>= k) :=
  fun s homed => .bind ((hx s homed).mono fun a t => hk a t)

theorem answer (hx : Lodges P x) (g : α → β) : Lodges P (do return g (← x)) :=
  hx.bind fun _ => (Steady.done _).lodges

theorem discard (hx : Lodges P x) : Lodges P (discard x) := fun s homed => .discard (hx s homed)

theorem refuse (e : ArgumentError) : Lodges P (refuse (α := α) e) := fun _ homed => .refuse homed

theorem ite {c : Prop} [Decidable c] {y : Kernel α} (hx : c → Lodges P x) (hy : ¬ c → Lodges P y) :
    Lodges P (if c then x else y) :=
  fun s homed => .ite (fun h => hx h s homed) fun h => hy h s homed

theorem attempt (hx : Lodges P x) : Lodges P (attempt x) :=
  fun s homed => .attempt (hx s homed) fun _ _ => id

/-- After a look at the record of a space. -/
theorem space {k : SpaceRecord → Kernel β} (p : Nat)
    (hk : ∀ r, P r.directory → Lodges P (k r)) : Lodges P (space p >>= k) :=
  fun s homed => .bind (.space homed fun r found => hk r (homed p r found) s homed)

end Lodges

theorem switch_lodges (p : Nat) : Lodges P (switch p) := by
  refine fun s homed => ((switch_ends p s).weaken fun t same => ?_).mono ?_
  · exact same ▸ homed
  · rintro _ t ⟨-, -, -, -, -, turned, -⟩
    rw [turned]
    exact homed

theorem within_lodges {body : Kernel Unit} (p : Nat) (steady : Steady body) :
    Lodges P (within p body) :=
  (switch_lodges p).bind fun _ => steady.lodges.bind fun _ => (switch_lodges _).discard

theorem add_lodges (p va f : Nat) (prot : Protection) : Lodges P (add p va f prot) := by
  refine .ite (fun _ => .refuse _) fun aligned => within_lodges p ?_
  refine .next (map_steady (dirIndex_lt va) (tableIndex_lt va) ?_ prot) fun _ =>
    invalidatePage_steady va
  simp_all

theorem forPages_lodges {body : Nat → Kernel Unit} (p first last : Nat)
    (steady : ∀ va, Steady (body va)) : Lodges P (forPages p first last body) :=
  .ite (fun _ => .refuse _) fun _ => .ite (fun _ => .refuse _) fun _ =>
    within_lodges p (.forEach steady _ _ _)

theorem fork_lodges (parent child : Nat) : Lodges P (fork parent child) := by
  refine .space parent fun r _ => .bind (.discard ?_) fun _ => ?_
  · exact fun s homed => .space homed fun _ _ => homed
  refine .bind (switch_lodges child).discard fun _ => ?_
  refine .bind (Steady.lodges (.sumEach fun d hd => ?_)) fun pages => ?_
  · exact shareTable_steady _ (by simp only [userSlots, tableEntries] at *; omega)
  refine flush_steady.lodges.bind fun _ => ?_
  exact .bind (switch_lodges parent).discard fun _ => (Steady.note _).lodges

theorem setOwners_lodges (p n : Nat) {r : SpaceRecord} (hr : P r.directory) :
    Lodges P (setOwners p r n) :=
  fun _ homed => .modify (homed.put (r := { r with owners := n }) hr p)

theorem incref_lodges (p : Nat) : Lodges P (incref p) := by
  refine .space p fun r hr => .ite (fun _ => ?_) fun _ =>
    (Steady.violate _ (P := fun _ => True)).lodges
  exact (setOwners_lodges p _ hr).bind fun _ => (Steady.done _).lodges

theorem releaseSpace_lodges (p f : Nat) : Lodges P (releaseSpace p f) := by
  have left : Lodges P (leave p) := by
    refine .bind (Steady.lodges (.get fun _ => .done _)) fun _ => .ite (fun _ => ?_) fun _ =>
      (Steady.done _).lodges
    refine (switch_lodges _).attempt.bind fun r => ?_
    cases r with
    | ok _ => exact (Steady.done _).lodges
    | error e => exact (Steady.halt _ (P := fun _ => True)).lodges
  refine left.bind fun _ => (releaseUserTables_steady f).lodges.bind fun _ => ?_
  refine (release_steady f).lodges.bind fun _ => ?_
  exact fun s homed => .bind (.modify (.modify (homed.remove p)))

theorem decref_lodges (p : Nat) : Lodges P (decref p) := by
  intro s homed
  refine .get ?_
  cases found : s.spaces.find? p with
  | none => exact .halt homed
  | some r =>
    have rest : Lodges P (do
        setOwners p r (r.owners - 1)
        if r.owners - 1 > 0 then return r.owners - 1
        else if p = Spaces.kernelId then halt .kernelReleased
        else
          releaseSpace p r.directory
          return 0) := by
      refine (setOwners_lodges p _ (homed p r found)).bind fun _ => ?_
      refine .ite (fun _ => (Steady.done _).lodges) fun _ => ?_
      refine .ite (fun _ => (Steady.halt _ (P := fun _ => True)).lodges) fun _ => ?_
      exact (releaseSpace_lodges p _).answer _
    exact .ite (fun _ => .halt homed) fun _ => rest s homed

theorem destroy_lodges (p : Nat) : Lodges P (destroy p) := by
  refine .space p fun r _ => .ite (fun _ => ?_) fun _ => (decref_lodges p).discard
  exact (Steady.note _).lodges.bind fun _ => (decref_lodges p).discard

theorem mapFresh_lodges (p va : Nat) (prot : Protection) : Lodges P (mapFresh p va prot) := by
  refine takeFrame_steady.lodges.bind fun f => ?_
  refine .bind (Steady.lodges (.modify fun _ => rfl)) fun _ => ?_
  refine (add_lodges p va f prot).attempt.bind fun r => ?_
  cases r with
  | ok _ => exact (Steady.done _).lodges
  | error e => exact (Steady.violate _ (P := fun _ => True)).lodges

theorem create_lodges (homed : s.spaces.Homed P) (free : ∀ f ∈ s.pool.free, P f) :
    Ends (fun t => t.spaces.Homed P) create s fun _ t => t.spaces.Homed P := by
  refine .bind (.bind (((acquireRaw_steady.lodges s homed).both (acquireRaw_takes s)).mono ?_))
  rintro f t ⟨homed, taken, -⟩
  have hf : P f := free f (show f ∈ s.snapshot.free from taken ▸ List.mem_cons_self)
  refine .bind (((withFrame_steady (windowSetPage_steady _) f).lodges t homed).mono ?_)
  intro _ u homed
  refine .bind (.modify (.pure (.get ?_)))
  split
  · rename_i added
    exact .bind (.modify (.bind (.modify (.pure (homed.add hf added)))))
  · exact .violate homed

end Kernel

open Kernel

theorem Request.lodges {P : Nat → Prop} {q : Request} {s : KernelState} (below : q.Below)
    (homed : s.spaces.Homed P) (free : ∀ f ∈ s.pool.free, P f) :
    Ends (fun t => t.spaces.Homed P) q.action s fun _ t => t.spaces.Homed P := by
  have steadily {α : Type} {x : Kernel α} {R : α → Prop} {g : α → Answer} (steady : Steady x R) :
      Ends (fun t => t.spaces.Homed P) (do return g (← x)) s fun _ t => t.spaces.Homed P :=
    steady.lodges.answer g s homed
  cases q with
  | mount => exact below.elim
  | refcount p => exact (Lodges.space p fun _ _ => (Steady.done _).lodges).answer _ s homed
  | bindTable f d prot =>
    refine (Lodges.ite (fun _ => .refuse _) fun _ => .ite (fun _ => .refuse _) fun _ => ?_).answer
      _ s homed
    refine (withFrame_steady (.next windowPage_steady fun _ => .done _) f).lodges.bind fun _ => ?_
    refine (seedTable_steady _ _).lodges.bind fun _ => (setSlot_steady _ _).lodges.bind fun _ => ?_
    exact (flush_steady.next fun _ => .note _).lodges
  | unbindTable d => exact steadily (unbindTable_steady d)
  | call c =>
    cases c with
    | create => exact .bind ((create_lodges homed free).mono fun _ _ homed => .pure homed)
    | incref p => exact (incref_lodges p).answer _ s homed
    | decref p => exact (decref_lodges p).answer _ s homed
    | destroy p => exact (destroy_lodges p).answer _ s homed
    | switch p => exact (switch_lodges p).answer _ s homed
    | add p va f prot => exact (add_lodges p va f prot).answer _ s homed
    | remove p first last => exact (forPages_lodges p first last unmap_steady).answer _ s homed
    | protect p first last prot =>
      exact (forPages_lodges p first last (protectPage_steady prot)).answer _ s homed
    | map f d t prot =>
      obtain ⟨e, refused⟩ | steady := map_cases f d t prot
      · refine Lodges.answer ?_ _ s homed
        rw [refused]
        exact .refuse e
      · exact steadily steady
    | unmap va => exact steadily (unmap_steady va)
    | mapFresh p va prot => exact (mapFresh_lodges p va prot).answer _ s homed
    | drop p va f =>
      refine (forPages_lodges p _ _ unmap_steady).bind (fun _ => ?_) s homed
      exact (unshareFrame_steady f).lodges.answer _
    | fork parent child => exact (fork_lodges parent child).answer _ s homed
    | pageFault va code => exact steadily (pageFault_steady va code)
    | userWrite => exact below.elim
    | acquire => exact steadily acquire_steady
    | acquireRaw => exact steadily acquireRaw_steady
    | release f => exact steadily (release_steady f)

end VirtualMemory
