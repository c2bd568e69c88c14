import VirtualMemory.Proofs.Calls.Runs
import VirtualMemory.Proofs.Operations.Steady

/-!
# Refusals

A request is refused exactly if one of its arguments is invalid, with the error of the first
objection to it, and a refusal changes nothing at all: not memory, not the books, not the TLB, not
even a counter or the log. This holds whatever memory holds and however the state came about, as
long as the register of spaces is the kernel's own. Some operations look up a space again after
they have switched, or bind a table that they allocated; they never fail there, because the active
space and the kernel's are always live.
-/
namespace VirtualMemory

open Layout Snapshot

/-! ## The register -/

namespace Spaces.Regular

variable {s : Spaces} {p : Nat} {r : SpaceRecord}

theorem withKernel (f : Nat) : (Spaces.withKernel f).Regular where
  active := by simp [Spaces.withKernel, Spaces.find?]
  kernel := by simp
  fresh p r hr := by
    rw [Spaces.find?_withKernel] at hr
    split at hr
    · subst p
      exact Nat.one_pos
    · cases hr

theorem activate (h : s.Regular) (live : (s.find? p).isSome = true) :
    Spaces.Regular { s with active := p } := ⟨live, h.kernel, h.fresh⟩

theorem put (h : s.Regular) (hp : p < s.nextId) : (s.put p r).Regular where
  active := by
    have := h.active
    change ((s.put p r).find? s.active).isSome = true
    grind [Spaces.find?_put]
  kernel := by
    have := h.kernel
    grind [Spaces.find?_put]
  fresh q t ht := by
    have := h.fresh q
    change q < s.nextId
    grind [Spaces.find?_put]

theorem remove (h : s.Regular) (away : p ≠ s.active) (keep : p ≠ Spaces.kernelId) :
    (s.remove p).Regular where
  active := by
    have := h.active
    change ((s.remove p).find? s.active).isSome = true
    grind [Spaces.find?_remove]
  kernel := by
    have := h.kernel
    grind [Spaces.find?_remove]
  fresh q t ht := by
    have := h.fresh q
    change q < s.nextId
    grind [Spaces.find?_remove]

theorem add {t : Spaces} {directory : Nat} (h : s.Regular) (added : s.add directory = .ok (p, t)) :
    t.Regular := by
  unfold Spaces.add at added
  split at added
  · cases added
    have next : Spaces.Regular { s with nextId := s.nextId + 1 } :=
      ⟨h.active, h.kernel, fun q r hr => (h.fresh q r hr).trans (Nat.lt_succ_self _)⟩
    exact next.put (Nat.lt_succ_self _)
  · cases added

end Spaces.Regular

namespace Kernel

variable {α β : Type} {P : α → Prop} {R : β → Snapshot → Prop} {x : Kernel α} {w : Snapshot}
  {p parent child : Nat}

/-- No refusal, and a register that still names the active space and the kernel's. -/
def Afloat (f : Failure) (b : Books) : Prop := Stops f b ∧ b.spaces.Regular

/-- A steady step of an action that is no longer refused. -/
theorem Steady.leads {k : α → Kernel β} (hx : Steady x P) (h : w.spaces.Regular)
    (hk : ∀ a v, v.spaces = w.spaces → P a → Leads Afloat (k a) v R) :
    Leads Afloat (x >>= k) w R := by
  have ran : Leads Afloat x w fun a v => v.spaces = w.spaces ∧ P a :=
    (hx w).weaken fun f b hb => ⟨hb.1, hb.2 ▸ h⟩
  exact .bind (ran.mono fun a v hv => hk a v hv.1 hv.2)

theorem Steady.ends {Q : α → Snapshot → Prop} (hx : Steady x P) (h : w.spaces.Regular)
    (hQ : ∀ a v, v.spaces = w.spaces → P a → Q a v) : Leads Afloat x w Q :=
  ((hx w).weaken fun _ _ hb => ⟨hb.1, hb.2 ▸ h⟩).mono fun a v hv => hQ a v hv.1 hv.2

/-- The second look at the active space, after the switch, finds it. -/
theorem switch_afloat (h : w.spaces.Regular) (live : w.Live p) :
    Leads Afloat (switch p) w fun a v =>
      a = w.spaces.active ∧ v.spaces = { w.spaces with active := p } := by
  obtain ⟨b, hb⟩ := Option.isSome_iff_exists.1 live
  obtain ⟨a, ha⟩ := Option.isSome_iff_exists.1 h.active
  refine (space_yields hb).bind ((active_yields w).bind ?_)
  refine (space_yields ha).bind ((countSwitch_yields w).bind (.ite (fun _ => ?_) fun _ => ?_))
  · exact (setActive_yields p w).bind (.pure ⟨rfl, rfl⟩)
  · refine (access_steady _).leads h fun resident u hu _ => ?_
    have hu' := hu ▸ h
    refine (withFrame_steady (.next (access_steady _) fun _ => copyUserHalf_steady _ _) _).leads
      hu' fun _ u' hu' _ => ?_
    have same := hu'.trans hu
    refine (withFrame_steady (.next (access_steady _) fun _ => copyUserHalf_steady _ _) _).leads
      (same ▸ h) fun _ v hv _ => ?_
    replace same := hv.trans same
    refine (countDirectoryCopies_yields v).bind ((setActive_yields p v).bind ?_)
    refine (flush_yields _).bind ((note_yields _ _).bind (.pure ⟨rfl, ?_⟩))
    exact congrArg (fun s : Spaces => { s with active := p }) same

/-- The space that was active before is live when the processor returns to it. -/
theorem within_afloat {body : Kernel Unit} (h : w.spaces.Regular) (live : w.Live p)
    (steady : Steady body) : Leads Afloat (within p body) w fun _ v => v.spaces.Regular := by
  refine .bind ((switch_afloat h live).mono ?_)
  rintro _ u ⟨rfl, hu⟩
  have hu' : u.spaces.Regular := hu ▸ h.activate live
  refine steady.leads hu' fun _ v hv _ => .discard ?_
  have back : v.Live w.spaces.active := by
    unfold Live
    rw [hv, hu]
    exact h.active
  refine (switch_afloat (hv ▸ hu') back).mono ?_
  rintro _ x ⟨-, hx⟩
  rw [hx]
  exact (hv ▸ hu' : v.spaces.Regular).activate back

theorem fork_afloat (h : w.spaces.Regular) (live : w.Live parent) (live' : w.Live child) :
    Leads Afloat (fork parent child) w fun _ v => v.spaces.Regular := by
  obtain ⟨a, ha⟩ := Option.isSome_iff_exists.1 live
  obtain ⟨b, hb⟩ := Option.isSome_iff_exists.1 live'
  refine (space_yields ha).bind (.bind (.discard ((space_yields hb).leads ?_)))
  refine .bind (.discard ((switch_afloat h live').mono ?_))
  rintro _ u ⟨-, hu⟩
  have hu' : u.spaces.Regular := hu ▸ h.activate live'
  have tables : Steady (sumEach (shareTable a.directory) 0 userSlots) :=
    .sumEach fun d hd => shareTable_steady _ (by simp only [userSlots, tableEntries] at *; omega)
  refine tables.leads hu' fun pages v hv _ => ?_
  refine (flush_yields v).bind (.bind (.discard ?_))
  have back : v.Live parent := by
    unfold Live
    rw [hv, hu]
    exact live
  refine (switch_afloat (hv ▸ hu') back).mono ?_
  rintro _ x ⟨-, hx⟩
  refine (note_yields _ _).leads ?_
  rw [hx]
  exact (hv ▸ hu' : v.spaces.Regular).activate back

/-- The processor is out of the space, or it never was in it. -/
theorem leave_afloat (h : w.spaces.Regular) (keep : p ≠ Spaces.kernelId) :
    Leads Afloat (leave p) w fun _ v => v.spaces.Regular ∧ p ≠ v.spaces.active := by
  refine (active_yields w).bind (.ite (fun _ => ?_) fun other => .pure ⟨h, Ne.symm other⟩)
  refine .bind (.attempt (switch_afloat h h.kernel) (fun e _ no => no.1 e rfl) ?_)
  rintro _ v ⟨-, hv⟩
  refine .pure ?_
  rw [hv]
  exact ⟨h.activate h.kernel, keep⟩

theorem releaseSpace_afloat (h : w.spaces.Regular) (keep : p ≠ Spaces.kernelId) (f : Nat) :
    Leads Afloat (releaseSpace p f) w fun _ v => v.spaces.Regular := by
  refine .bind ((leave_afloat h keep).mono ?_)
  rintro _ u ⟨hu, away⟩
  refine (releaseUserTables_steady f).leads hu fun _ v hv _ => ?_
  refine (release_steady f).leads (hv ▸ hu) fun _ v' hv' _ => ?_
  have same := hv'.trans hv
  refine Yields.bind (v := v'.book { v'.toBooks with spaces := v'.spaces.remove p })
    (modify_yields ?_) ((note_yields _ _).leads ?_)
  · rintro s rfl
    rfl
  · exact (same ▸ hu : v'.spaces.Regular).remove (same ▸ away) keep

theorem decref_afloat (h : w.spaces.Regular) (p : Nat) :
    Leads Afloat (decref p) w fun _ v => v.spaces.Regular := by
  refine .get fun s hs => ?_
  have spaces : s.spaces = w.spaces := congrArg (fun v : Snapshot => v.spaces) hs
  cases hr : s.spaces.find? p with
  | none => exact .halt ⟨.halt _ _, h⟩
  | some r =>
    have owned : (w.owning p r (r.owners - 1)).spaces.Regular :=
      h.put (h.fresh p r (spaces ▸ hr))
    refine .ite (fun _ => .halt ⟨.halt _ _, h⟩) fun _ => ?_
    refine (setOwners_yields p r _ w).bind (.ite (fun _ => .pure owned) fun _ => ?_)
    refine .ite (fun _ => .halt ⟨.halt _ _, owned⟩) fun keep => ?_
    exact .bind ((releaseSpace_afloat owned keep _).mono fun _ _ hv => .pure hv)

theorem create_afloat (h : w.spaces.Regular) :
    Leads Afloat create w fun _ v => v.spaces.Regular := by
  refine acquire_steady.leads h fun f u hu _ => .get fun s hs => ?_
  have spaces : s.spaces = u.spaces := congrArg (fun v : Snapshot => v.spaces) hs
  cases added : s.spaces.add f with
  | error v => exact .violate ⟨.violation _ _, hu ▸ h⟩
  | ok r =>
    refine Yields.bind (v := u.book { u.toBooks with spaces := r.2 }) (modify_yields ?_)
      ((note_yields _ _).bind (.pure ?_))
    · rintro t rfl
      rfl
    · exact (spaces ▸ hu ▸ h : s.spaces.Regular).add added

end Kernel

/-! ## Requests -/

/-- What can be asked of the kernel: the calls, and what they are made of. The body of a mount works
on the mounted frame and asks for nothing itself. -/
inductive Request where
  | call (c : Call)
  | refcount (p : Nat)
  | bindTable (table d : Nat) (prot : Protection)
  | unbindTable (d : Nat)
  | mount (frame : Nat) (body : Kernel Unit) (steady : Kernel.Steady body)

namespace Request

def action : Request → Kernel Answer
  | call c => c.action
  | refcount p => do return .number (← Kernel.refcount p)
  | bindTable table d prot => do Kernel.bindTable table d prot; return .done
  | unbindTable d => do Kernel.unbindTable d; return .done
  | mount frame body _ => do Kernel.mount frame body; return .done

end Request

namespace Spaces

/-- The handle names no live space. -/
def dead (s : Spaces) (p : Nat) : Bool := (s.find? p).isNone

end Spaces

/-- What there is to say against the range of a call, in this order. -/
def Call.rangeObjections (s : Spaces) (p first last : Nat) : List (Bool × ArgumentError) :=
  [(!isAligned first || !isAligned last, .misaligned), (decide (last < first), .invalidRange),
    (s.dead p, .unknownSpace)]

/-- What there is to say against the arguments of a call, in this order. -/
def Call.objections (s : Spaces) : Call → List (Bool × ArgumentError)
  | .map frame d t _ =>
    [(decide (d ≥ tableEntries) || decide (t ≥ tableEntries), .invalidIndex),
      (!isAligned frame, .misaligned)]
  | .add p va frame _ => [(!isAligned va || !isAligned frame, .misaligned),
    (s.dead p, .unknownSpace)]
  | .remove p first last | .protect p first last _ => rangeObjections s p first last
  | .drop p va _ => rangeObjections s p va (va + pageSize)
  | .switch p | .incref p | .destroy p => [(s.dead p, .unknownSpace)]
  | .fork parent child => [(s.dead parent || s.dead child, .unknownSpace)]
  | .create | .decref _ | .unmap _ | .mapFresh .. | .pageFault .. | .userWrite .. | .acquire
  | .acquireRaw | .release _ => []

namespace Request

def objections (s : Spaces) : Request → List (Bool × ArgumentError)
  | call c => c.objections s
  | refcount p => [(s.dead p, .unknownSpace)]
  | bindTable table d _ => [(decide (d ≥ tableEntries), .invalidIndex),
    (!isAligned table, .misaligned)]
  | mount frame .. => [(!isAligned frame, .misaligned)]
  | unbindTable _ => []

end Request

/-- The error of the first objection that applies. -/
def ArgumentError.first : List (Bool × ArgumentError) → Option ArgumentError
  | [] => none
  | (applies, e) :: rest => if applies then some e else first rest

theorem ArgumentError.first_eq_none {l : List (Bool × ArgumentError)} :
    first l = none ↔ ∀ x ∈ l, x.1 = false := by
  induction l with
  | nil => simp [first]
  | cons x rest ih => cases h : x.1 <;> simp [first, h, ih]

namespace Kernel

variable {α β : Type} {x : Kernel α} {w : Snapshot} {l : List (Bool × ArgumentError)} {p : Nat}

/-- Run from a state with snapshot `w`, the action is refused on the spot with the first objection
in `l`, or there is none and the action is not refused at all. -/
def Checks (x : Kernel α) (w : Snapshot) (l : List (Bool × ArgumentError)) : Prop :=
  match ArgumentError.first l with
  | some e => ∀ s : KernelState, s.snapshot = w → x s = .error (.argument e) s
  | none => Leads Afloat x w fun _ v => v.spaces.Regular

namespace Checks

theorem of_leads (h : Leads Afloat x w fun _ v => v.spaces.Regular) : Checks x w [] := h

theorem refuse {e : ArgumentError} (h : ArgumentError.first l = some e) :
    Checks (refuse (α := α) e) w l := by
  rw [Checks, h]
  exact fun s _ => rfl

theorem ite {c : Prop} [Decidable c] {e : ArgumentError} {y : Kernel α} {applies : Bool}
    (same : applies = true ↔ c) (h : ¬ c → Checks y w l) :
    Checks (if c then Kernel.refuse e else y) w ((applies, e) :: l) := by
  by_cases hc : c
  · rw [if_pos hc]
    exact .refuse (by simp [ArgumentError.first, same.2 hc])
  · have off : applies = false := by simpa [hc] using same
    rw [if_neg hc, Checks, ArgumentError.first, off]
    exact h hc

theorem lone {applies : Bool} {e : ArgumentError}
    (no : applies = true → ∀ s : KernelState, s.snapshot = w → x s = .error (.argument e) s)
    (yes : applies = false → Leads Afloat x w fun _ v => v.spaces.Regular) :
    Checks x w [(applies, e)] := by
  cases applies with
  | true => exact no rfl
  | false => exact yes rfl

theorem bind {k : α → Kernel β} (h : Checks x w l)
    (hk : ∀ a v, v.spaces.Regular → Leads Afloat (k a) v fun _ u => u.spaces.Regular) :
    Checks (x >>= k) w l := by
  unfold Checks at *
  split
  · rename_i e first
    rw [first] at h
    exact fun s hs => bind_of_error (h s hs) k
  · rename_i first
    rw [first] at h
    exact .bind (h.mono hk)

end Checks

theorem dead_iff {s : Spaces} : s.dead p = true ↔ s.find? p = none := Option.isNone_iff_eq_none

theorem live_of_not_dead (h : w.spaces.dead p = false) : w.Live p := by
  rw [Live, ← Option.not_isNone]
  simpa [Spaces.dead] using h

/-- The look at a dead handle. -/
theorem space_of_dead (h : w.spaces.dead p = true) {s : KernelState} (hs : s.snapshot = w) :
    space p s = .error (.argument .unknownSpace) s := by
  have none : s.spaces.find? p = none := dead_iff.1 (by rw [← h, ← hs]; rfl)
  rw [space, bind_of_ok (x := get) (a := s) (t := s) rfl, none]
  rfl

theorem space_of_find? {s : KernelState} {r : SpaceRecord} (found : s.spaces.find? p = some r) :
    space p s = .ok r s := by
  rw [space, bind_of_ok (x := get) (a := s) (t := s) rfl, found]
  rfl

/-- An action that begins with a look at a space. -/
theorem checks_space {k : SpaceRecord → Kernel α}
    (h : w.Live p → Leads Afloat (space p >>= k) w fun _ v => v.spaces.Regular) :
    Checks (space p >>= k) w [(w.spaces.dead p, .unknownSpace)] := by
  refine .lone (fun dead s hs => ?_) fun off => h (live_of_not_dead off)
  exact bind_of_error (space_of_dead dead hs) k

theorem switch_checks (h : w.spaces.Regular) (p : Nat) :
    Checks (switch p) w [(w.spaces.dead p, .unknownSpace)] :=
  checks_space fun live => (switch_afloat h live).mono fun _ _ hv => hv.2 ▸ h.activate live

theorem within_checks {body : Kernel Unit} (h : w.spaces.Regular) (p : Nat) (steady : Steady body) :
    Checks (within p body) w [(w.spaces.dead p, .unknownSpace)] := by
  refine .lone (fun dead s hs => bind_of_error (bind_of_error (space_of_dead dead hs) _) _) ?_
  exact fun off => within_afloat h (live_of_not_dead off) steady

theorem add_checks (h : w.spaces.Regular) (p va f : Nat) (prot : Protection) :
    Checks (add p va f prot) w ((Call.add p va f prot).objections w.spaces) := by
  refine .ite Iff.rfl fun aligned => within_checks h p ?_
  have inside : Steady (map f (dirIndex va) (tableIndex va) prot) :=
    map_steady (dirIndex_lt va) (tableIndex_lt va) (by simp_all) prot
  exact inside.next fun _ => invalidatePage_steady va

theorem forPages_checks {body : Nat → Kernel Unit} (h : w.spaces.Regular) (p first last : Nat)
    (steady : ∀ va, Steady (body va)) :
    Checks (forPages p first last body) w (Call.rangeObjections w.spaces p first last) := by
  refine .ite Iff.rfl fun _ => .ite decide_eq_true_iff fun _ => within_checks h p ?_
  exact .forEach steady _ _ _

theorem map_checks (h : w.spaces.Regular) (f d t : Nat) (prot : Protection) :
    Checks (map f d t prot) w ((Call.map f d t prot).objections w.spaces) := by
  refine .ite Iff.rfl fun inside => .ite Iff.rfl fun aligned => .of_leads ?_
  simp only [Bool.or_eq_true, decide_eq_true_eq, not_or, not_le] at inside
  have steady := map_steady inside.1 inside.2 (by simpa using aligned) prot
  rw [map, if_neg (by simp only [Bool.or_eq_true, decide_eq_true_eq]; omega), if_neg aligned]
    at steady
  exact steady.ends h fun _ _ hv _ => hv ▸ h

theorem bindTable_checks (h : w.spaces.Regular) (f d : Nat) (prot : Protection) :
    Checks (bindTable f d prot) w ((Request.bindTable f d prot).objections w.spaces) := by
  refine .ite decide_eq_true_iff fun inside => .ite Iff.rfl fun aligned => .of_leads ?_
  have steady := bindTable_steady (not_le.1 inside) (by simpa using aligned) prot
  rw [bindTable, if_neg inside, if_neg aligned] at steady
  exact steady.ends h fun _ _ hv _ => hv ▸ h

theorem mount_checks {body : Kernel Unit} (h : w.spaces.Regular) (f : Nat) (steady : Steady body) :
    Checks (mount f body) w [(!isAligned f, .misaligned)] := by
  cases aligned : isAligned f with
  | true =>
    rw [mount, if_pos aligned]
    exact .lone nofun fun _ => (mountAligned_steady steady f).ends h fun _ _ hv _ => hv ▸ h
  | false =>
    rw [mount, if_neg (by simp [aligned])]
    exact .refuse rfl

theorem incref_checks (h : w.spaces.Regular) (p : Nat) :
    Checks (incref p) w [(w.spaces.dead p, .unknownSpace)] := by
  refine checks_space fun live => ?_
  obtain ⟨r, hr⟩ := Option.isSome_iff_exists.1 live
  refine (space_yields hr).bind (.ite (fun _ => ?_) fun _ => .violate ⟨.violation _ _, h⟩)
  exact (setOwners_yields p r _ w).bind (.pure (h.put (h.fresh p r hr)))

theorem refcount_checks (h : w.spaces.Regular) (p : Nat) :
    Checks (refcount p) w [(w.spaces.dead p, .unknownSpace)] := by
  refine checks_space fun live => ?_
  obtain ⟨r, hr⟩ := Option.isSome_iff_exists.1 live
  exact (space_yields hr).bind (.pure h)

theorem destroy_checks (h : w.spaces.Regular) (p : Nat) :
    Checks (destroy p) w [(w.spaces.dead p, .unknownSpace)] := by
  refine checks_space fun live => ?_
  obtain ⟨r, hr⟩ := Option.isSome_iff_exists.1 live
  exact destroy_leads hr (decref_afloat h p)

theorem fork_checks (h : w.spaces.Regular) (parent child : Nat) :
    Checks (fork parent child) w
      [(w.spaces.dead parent || w.spaces.dead child, .unknownSpace)] := by
  refine .lone (fun dead s hs => ?_) fun off => ?_
  · rcases parentDead : w.spaces.dead parent with _ | _
    · obtain ⟨r, hr⟩ := Option.isSome_iff_exists.1 (live_of_not_dead parentDead)
      have childDead : w.spaces.dead child = true := by simpa [parentDead] using dead
      have found : s.spaces.find? parent = some r := by rw [← hr, ← hs]; rfl
      refine (bind_of_ok (space_of_find? found) _).trans (bind_of_error ?_ _)
      simp [Functor.discard, Functor.mapConst, EStateM.map, space_of_dead childDead hs]
    · exact bind_of_error (space_of_dead parentDead hs) _
  · simp only [Bool.or_eq_false_iff] at off
    exact fork_afloat h (live_of_not_dead off.1) (live_of_not_dead off.2)

/-- A refusal of the mapping is not the caller's. -/
theorem mapFresh_afloat (h : w.spaces.Regular) (p va : Nat) (prot : Protection) :
    Leads Afloat (mapFresh p va prot) w fun _ v => v.spaces.Regular := by
  refine takeFrame_steady.leads h fun f u hu _ => (setShareCount_yields f 1 u).bind ?_
  set u' := u.book { u.toBooks with shares := u.shares.set f 1 }
  have hu' : u'.spaces.Regular := (hu ▸ h : u.spaces.Regular)
  have adding := add_checks hu' p va f prot
  unfold Checks at adding
  split at adding
  · rename_i e first
    refine Yields.bind (a := .error e) (v := u') ?_ (.violate ⟨.violation _ _, hu'⟩)
    exact fun s hs => ⟨s, by rw [Kernel.attempt, adding s hs], hs⟩
  · exact .bind (.attempt adding (fun e _ no => no.1 e rfl) fun _ _ hv => .pure hv)

end Kernel

open Kernel

/-- No call but for its objections is refused. -/
theorem Call.checks {w : Snapshot} (h : w.spaces.Regular) (c : Call) :
    Checks c.action w (c.objections w.spaces) := by
  have answered {α : Type} {x : Kernel α} {f : α → Answer} {l : List (Bool × ArgumentError)}
      (ran : Checks x w l) : Checks (do return f (← x)) w l := ran.bind fun _ _ hv => .pure hv
  have steadily {α : Type} {x : Kernel α} {P : α → Prop} (steady : Steady x P) : Checks x w [] :=
    .of_leads (steady.ends h fun _ _ hv _ => hv ▸ h)
  cases c with
  | create => exact answered (.of_leads (create_afloat h))
  | incref p => exact answered (incref_checks h p)
  | decref p => exact answered (.of_leads (decref_afloat h p))
  | destroy p => exact answered (destroy_checks h p)
  | switch p => exact answered (switch_checks h p)
  | add p va frame prot => exact answered (add_checks h p va frame prot)
  | remove p first last => exact answered (forPages_checks h p first last unmap_steady)
  | protect p first last prot =>
    exact answered (forPages_checks h p first last (protectPage_steady prot))
  | map frame d t prot => exact answered (map_checks h frame d t prot)
  | unmap va => exact answered (steadily (unmap_steady va))
  | mapFresh p va prot => exact answered (.of_leads (mapFresh_afloat h p va prot))
  | drop p va frame =>
    refine (forPages_checks h p va (va + pageSize) unmap_steady).bind fun _ v hv => ?_
    exact (unshareFrame_steady frame).leads hv fun _ _ hu _ => .pure (hu ▸ hv)
  | fork parent child => exact answered (fork_checks h parent child)
  | pageFault va code => exact answered (steadily (pageFault_steady va code))
  | userWrite va value => exact answered (steadily (userWrite_steady va value))
  | acquire => exact answered (steadily acquire_steady)
  | acquireRaw => exact answered (steadily acquireRaw_steady)
  | release frame => exact answered (steadily (release_steady frame))

namespace Call

variable {s t : KernelState} {c : Call}

theorem objections_congr {s t : Spaces} (same : ∀ p, t.find? p = s.find? p) (c : Call) :
    c.objections t = c.objections s := by
  cases c <;> simp [objections, rangeObjections, Spaces.dead, same]

theorem perform_of_refused {e : ArgumentError} (h : s.spaces.Regular)
    (first : ArgumentError.first (c.objections s.spaces) = some e) :
    c.perform s = .ok (.error e) s := by
  have checked := c.checks (w := s.snapshot) h
  unfold Checks at checked
  rw [show ArgumentError.first (c.objections s.snapshot.spaces) = some e from first] at checked
  rw [perform, attempt, checked s rfl]

/-- Where nothing is to be said against the arguments, only a stop is no answer. -/
theorem stops_of_clean {f : Failure} (h : s.spaces.Regular)
    (clean : ArgumentError.first (c.objections s.spaces) = none) (run : c.action s = .error f t) :
    c.perform s = .error f t := by
  have checked := c.checks (w := s.snapshot) h
  unfold Checks at checked
  rw [show ArgumentError.first (c.objections s.snapshot.spaces) = none from clean] at checked
  have ends := checked s rfl
  rw [run] at ends
  rw [perform, attempt, run]
  cases f with
  | argument e => exact absurd rfl (ends.1 e)
  | halt _ => rfl
  | violation _ => rfl

end Call

theorem Request.checks {w : Snapshot} (h : w.spaces.Regular) (q : Request) :
    Checks q.action w (q.objections w.spaces) := by
  cases q with
  | call c => exact c.checks h
  | refcount p => exact (refcount_checks h p).bind fun _ _ hv => .pure hv
  | bindTable table d prot => exact (bindTable_checks h table d prot).bind fun _ _ hv => .pure hv
  | unbindTable d =>
    exact .of_leads ((unbindTable_steady d).leads h fun _ _ hv _ => .pure (hv ▸ h))
  | mount frame body steady => exact (mount_checks h frame steady).bind fun _ _ hv => .pure hv

/-! ## States that requests lead to -/

/-- The states that a booted kernel can come to: by requests, whether they are answered, refused or
stop it, and by anything that happens to the rest of its state beside the register. -/
inductive KernelState.Reached (n reserved : Nat) (setup : List (Nat × UInt32)) :
    KernelState → Prop where
  | boot {s : KernelState} (booted : KernelState.boot n reserved setup = .ok s) :
      Reached n reserved setup s
  | answered {s t : KernelState} {q : Request} {a : Answer} (before : Reached n reserved setup s)
      (run : q.action s = .ok a t) : Reached n reserved setup t
  | failed {s t : KernelState} {q : Request} {f : Failure} (before : Reached n reserved setup s)
      (run : q.action s = .error f t) : Reached n reserved setup t
  | aside {s t : KernelState} (before : Reached n reserved setup s) (same : t.spaces = s.spaces) :
      Reached n reserved setup t

namespace KernelState

variable {n reserved : Nat} {setup : List (Nat × UInt32)} {s t : KernelState}

/-- A boot registers the kernel's space before it reports that it is ready. -/
theorem regular_of_boot (booted : boot n reserved setup = .ok s) : s.spaces.Regular := by
  obtain ⟨-, m, -, started⟩ := boot_eq_ok booted
  obtain ⟨store, t, -, started⟩ := bind_eq_ok.1 started
  obtain ⟨⟨⟩, t, -, started⟩ := bind_eq_ok.1 started
  obtain ⟨⟨⟩, t, -, started⟩ := bind_eq_ok.1 started
  obtain ⟨⟨⟩, u, registered, started⟩ := bind_eq_ok.1 started
  obtain ⟨u', v, got, noted⟩ := bind_eq_ok.1 started
  cases registered
  cases got
  cases noted
  exact .withKernel store

/-- Refused or not, a request leaves a register that names the active space and the kernel's. -/
theorem regular_of_request {q : Request} (h : s.spaces.Regular)
    (run : (∃ a, q.action s = .ok a t) ∨ ∃ f, q.action s = .error f t) : t.spaces.Regular := by
  have checked := q.checks (w := s.snapshot) h
  unfold Checks at checked
  split at checked
  · have refused := checked s rfl
    obtain ⟨a, run⟩ | ⟨f, run⟩ := run
    · rw [refused] at run
      cases run
    · rw [refused] at run
      cases run
      exact h
  · have ends := checked s rfl
    obtain ⟨a, run⟩ | ⟨f, run⟩ := run
    · rw [run] at ends
      exact ends
    · rw [run] at ends
      exact ends.2

theorem Reached.regular (h : Reached n reserved setup s) : s.spaces.Regular := by
  induction h with
  | boot booted => exact regular_of_boot booted
  | answered _ run ih => exact regular_of_request ih (.inl ⟨_, run⟩)
  | failed _ run ih => exact regular_of_request ih (.inr ⟨_, run⟩)
  | aside _ same ih => exact same ▸ ih

end KernelState

/-- In every state that a booted kernel can come to, a request is refused exactly if there is an
objection to its arguments, with the error of the first one, and in the very state it found. -/
theorem Request.refused_iff {n reserved : Nat} {setup : List (Nat × UInt32)} {s t : KernelState}
    (h : KernelState.Reached n reserved setup s) (q : Request) (e : ArgumentError) :
    q.action s = .error (.argument e) t ↔
      ArgumentError.first (q.objections s.spaces) = some e ∧ t = s := by
  have checked := q.checks (w := s.snapshot) h.regular
  change Checks q.action s.snapshot (q.objections s.spaces) at checked
  unfold Checks at checked
  split at checked
  · rename_i e' first
    rw [checked s rfl, first]
    constructor
    · rintro ⟨⟩
      exact ⟨rfl, rfl⟩
    · rintro ⟨⟨⟩, rfl⟩
      rfl
  · rename_i first
    have ends := checked s rfl
    rw [first]
    refine iff_of_false (fun run => ?_) fun no => (by cases no.1)
    rw [run] at ends
    exact ends.1 e rfl

/-- Of a frame that is not aligned and a space that is not there, the frame is reported. -/
theorem Request.refused_iff_unaligned :
    ∃ σ, Session.boot? 8 0 [] = some σ ∧ KernelState.Reached 8 0 [] σ.state ∧
      (Request.call (.add 7 0x400000 0x103001 .userRW)).action σ.state =
        .error (.argument .misaligned) σ.state := by
  have runs : (Session.boot? 8 0 []).isSome = true := by decide +kernel
  obtain ⟨σ, boot⟩ := Option.isSome_iff_exists.1 runs
  have reached : KernelState.Reached 8 0 [] σ.state := by
    obtain ⟨s, booted, rfl⟩ := Session.boot_of_boot? boot
    exact .boot booted
  exact ⟨σ, boot, reached, (refused_iff reached _ _).2 ⟨rfl, rfl⟩⟩

end VirtualMemory
