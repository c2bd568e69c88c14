import VirtualMemory.Proofs.Calls.PageWork
import VirtualMemory.Proofs.Outline.Fork

/-!
# Lifetimes of spaces

A log of calls and answers tells which handles were given out and how many owners each space has.
The register agrees with it at every point of every run: a handle is live while its space has
owners, and a handle that has died is never live again. Callers may map any frame and fork any space
into any other here; a run that would give out too many handles or owners stops before it does.
-/
namespace VirtualMemory

open Layout Snapshot Kernel

/-- A call, and what the kernel answered. -/
structure Exchange where
  call : Call
  answer : Except ArgumentError Answer

namespace Exchange

variable {x : Exchange} {p : Nat}

/-- The handle that was given out, if one was. -/
def opened (x : Exchange) : Option Nat :=
  match x.call, x.answer with
  | .create, .ok (.number p) => some p
  | _, _ => none

/-- By how much the owners of a space change. Whoever leaves is counted whatever the answer. -/
def joined (p : Nat) (x : Exchange) : Int :=
  match x.call, x.answer with
  | .incref q, .ok _ => if q = p then 1 else 0
  | .decref q, _ | .destroy q, _ => if q = p then -1 else 0
  | _, _ => 0

/-- The handles of a log, the latest first, and the kernel's own. -/
def handles (log : List Exchange) : List Nat := log.filterMap opened ++ [Spaces.kernelId]

/-- How many owners a space has after a log with the latest exchange first, from the first owner
that it was created with. -/
def owners? (p : Nat) : List Exchange → Option Int
  | [] => if p = Spaces.kernelId then some 1 else none
  | x :: earlier => if x.opened = some p then some 1 else (owners? p earlier).map (· + x.joined p)

theorem joined_error (c : Call) (e : ArgumentError) : joined p ⟨c, .error e⟩ ≤ 0 := by
  cases c <;> simp only [joined, le_refl]
  all_goals split <;> decide

theorem handles_cons (x : Exchange) (log : List Exchange) :
    handles (x :: log) = x.opened.toList ++ handles log := by
  cases opens : x.opened <;> simp [handles, opens]

theorem owners?_cons_of_ne (ne : x.opened ≠ some p) (log : List Exchange) :
    owners? p (x :: log) = (owners? p log).map (· + x.joined p) := if_neg ne

end Exchange

open Exchange

/-! ## The register -/

namespace Spaces

variable {s t : Spaces} {x : Exchange} {log : List Exchange} {p q : Nat} {r : SpaceRecord}

/-- How one exchange changes the register. -/
inductive Turns (s : Spaces) : Exchange → Spaces → Prop where
  | refused {c : Call} {e : ArgumentError}
      (dead : ∀ p, joined p ⟨c, .error e⟩ ≠ 0 → s.find? p = none) : Turns s ⟨c, .error e⟩ s
  | opened (f : Nat) : Turns s ⟨.create, .ok (.number s.nextId)⟩
      { s.put s.nextId ⟨f, 1⟩ with nextId := s.nextId + 1 }
  | joined {p : Nat} {r : SpaceRecord} {a : Answer} (record : s.find? p = some r) :
      Turns s ⟨.incref p, .ok a⟩ (s.put p { r with owners := r.owners + 1 })
  | left {c : Call} {p : Nat} {r : SpaceRecord} {a : Answer} (call : c = .decref p ∨ c = .destroy p)
      (record : s.find? p = some r) (more : 1 < r.owners) :
      Turns s ⟨c, .ok a⟩ (s.put p { r with owners := r.owners - 1 })
  | closed {c : Call} {p : Nat} {r r' : SpaceRecord} {a : Answer}
      (call : c = .decref p ∨ c = .destroy p) (record : s.find? p = some r) (last : r.owners = 1)
      (keep : p ≠ kernelId) : Turns s ⟨c, .ok a⟩ (Spaces.remove { s.put p r' with
        active := if s.active = p then kernelId else s.active } p)
  | moved {x : Exchange} (closed : x.opened = none) (idle : ∀ p, x.joined p = 0) (q : Nat) :
      Turns s x { s with active := q }

theorem opened_of_leave {c : Call} {a : Answer} (call : c = .decref p ∨ c = .destroy p) :
    (Exchange.mk c (.ok a)).opened = none := by
  obtain rfl | rfl := call <;> rfl

theorem joined_of_leave {c : Call} {a : Answer} (call : c = .decref p ∨ c = .destroy p) (q : Nat) :
    Exchange.joined q ⟨c, .ok a⟩ = if p = q then -1 else 0 := by
  obtain rfl | rfl := call <;> rfl

/-- A handle that has died stays dead, and is not given out. -/
theorem Turns.dead (turn : s.Turns x t) (below : p < s.nextId) (dead : s.find? p = none) :
    t.find? p = none ∧ p < t.nextId ∧ x.opened ≠ some p := by
  cases turn with
  | @refused c e _ =>
    refine ⟨dead, below, ?_⟩
    cases c <;> exact nofun
  | opened f =>
    refine ⟨?_, below.trans (Nat.lt_succ_self _), fun same => below.ne' (Option.some.inj same)⟩
    exact (find?_put ..).trans ((if_neg below.ne').trans dead)
  | @joined q r a record =>
    have ne : q ≠ p := by
      rintro rfl
      simp [dead] at record
    exact ⟨(find?_put ..).trans ((if_neg ne).trans dead), below, nofun⟩
  | @left c q r a call record _ =>
    have ne : q ≠ p := by
      rintro rfl
      simp [dead] at record
    exact ⟨(find?_put ..).trans ((if_neg ne).trans dead), below, by simp [opened_of_leave call]⟩
  | @closed c q r r' a call record _ _ =>
    have ne : q ≠ p := by
      rintro rfl
      simp [dead] at record
    refine ⟨(find?_remove ..).trans ((if_neg ne).trans ?_), below, by simp [opened_of_leave call]⟩
    exact (find?_put ..).trans ((if_neg ne).trans dead)
  | moved closed _ q => exact ⟨dead, below, by simp [closed]⟩

/-- A record is there exactly while a log counts owners, and it has their number. -/
def Agrees (o : Option Int) : Option SpaceRecord → Prop
  | some r => 0 < r.owners ∧ o = some (r.owners : Int)
  | none => ∀ k, o = some k → k ≤ 0

theorem Agrees.idle {o : Option Int} {r : Option SpaceRecord} (h : Agrees o r) {k : Int}
    (zero : k = 0) : Agrees (o.map (· + k)) r := by
  subst zero
  simpa using h

/-- The register holds what a log tells. -/
structure Census (log : List Exchange) (s : Spaces) : Prop where
  nodup : (handles log).Nodup
  below : ∀ p ∈ handles log, p < s.nextId
  agrees : ∀ p, Agrees (owners? p log) (s.find? p)

namespace Census

theorem withKernel (f : Nat) : Census [] (.withKernel f) where
  nodup := by simp [handles]
  below p hp := by simp_all [handles, Spaces.withKernel]
  agrees p := by
    rw [find?_withKernel, owners?]
    by_cases same : p = kernelId
    · rw [if_pos same, if_pos same.symm]
      exact ⟨Nat.one_pos, rfl⟩
    · rw [if_neg same, if_neg (Ne.symm same)]
      rintro k ⟨⟩

/-- An exchange that opens no space. -/
theorem cons (h : Census log s) (next : t.nextId = s.nextId) (closed : x.opened = none)
    (agrees : ∀ p, Agrees ((owners? p log).map (· + x.joined p)) (t.find? p)) :
    Census (x :: log) t := by
  have same : handles (x :: log) = handles log := by rw [handles_cons, closed]; rfl
  refine ⟨same ▸ h.nodup, fun p hp => next ▸ h.below p (same ▸ hp), fun p => ?_⟩
  rw [owners?_cons_of_ne (by simp [closed])]
  exact agrees p

/-- One exchange changes the register and the log alike. -/
theorem turn (h : Census log s) (turn : s.Turns x t) : Census (x :: log) t := by
  cases turn with
  | @refused c e dead =>
    have closed : (Exchange.mk c (.error e)).opened = none := by cases c <;> rfl
    refine h.cons rfl closed fun p => ?_
    by_cases zero : joined p ⟨c, .error e⟩ = 0
    · exact (h.agrees p).idle zero
    · have before := h.agrees p
      rw [dead p zero] at before ⊢
      intro k hk
      obtain ⟨k', hk', rfl⟩ := Option.map_eq_some_iff.1 hk
      exact Int.add_nonpos (before k' hk') (joined_error c e)
  | opened f =>
    have fresh : s.nextId ∉ handles log := fun old => Nat.lt_irrefl _ (h.below _ old)
    refine ⟨List.nodup_cons.2 ⟨fresh, h.nodup⟩, fun p hp => ?_, fun p => ?_⟩
    · obtain rfl | old := List.mem_cons.1 hp
      · exact Nat.lt_succ_self _
      · exact (h.below p old).trans (Nat.lt_succ_self _)
    · change Agrees _ ((s.put s.nextId ⟨f, 1⟩).find? p)
      rw [find?_put]
      by_cases new : s.nextId = p
      · rw [if_pos new, owners?, if_pos (by rw [← new]; rfl)]
        exact ⟨Nat.one_pos, rfl⟩
      · rw [if_neg new, owners?_cons_of_ne (by simpa [Exchange.opened] using new)]
        exact (h.agrees p).idle rfl
  | @joined q r a record =>
    refine h.cons rfl rfl fun p => ?_
    rw [find?_put]
    change Agrees ((owners? p log).map (· + if q = p then 1 else 0)) _
    split
    · subst p
      have before := h.agrees q
      rw [record] at before
      exact ⟨Nat.succ_pos _, by rw [before.2]; rfl⟩
    · exact (h.agrees p).idle rfl
  | @left c q r a call record more =>
    refine h.cons rfl (opened_of_leave call) fun p => ?_
    rw [find?_put, joined_of_leave call]
    split
    · subst p
      have before := h.agrees q
      rw [record] at before
      refine ⟨Nat.sub_pos_of_lt more, ?_⟩
      rw [before.2, Option.map_some, Int.natCast_sub (by omega)]
      rfl
    · exact (h.agrees p).idle rfl
  | @closed c q r r' a call record last keep =>
    refine h.cons rfl (opened_of_leave call) fun p => ?_
    rw [find?_remove, joined_of_leave call]
    split
    · subst p
      have before := h.agrees q
      rw [record] at before
      intro k hk
      rw [before.2, last] at hk
      cases hk
      exact Int.le_refl 0
    · have other : ({ s.put q r' with active := if s.active = q then kernelId else s.active } :
          Spaces).find? p = s.find? p := (find?_put ..).trans (if_neg ‹_›)
      rw [other]
      exact (h.agrees p).idle rfl
  | moved closed idle q => exact h.cons rfl closed fun p => (h.agrees p).idle (idle p)

theorem mem_of_owners? {k : Int} (h : owners? p log = some k) : p ∈ handles log := by
  induction log generalizing k with
  | nil =>
    rw [owners?] at h
    split at h
    · simp_all [handles]
    · cases h
  | cons x log ih =>
    rw [handles_cons, List.mem_append]
    by_cases opens : x.opened = some p
    · exact .inl (by simp [opens])
    · rw [owners?_cons_of_ne opens] at h
      obtain ⟨k', hk', -⟩ := Option.map_eq_some_iff.1 h
      exact .inr (ih hk')

theorem live_iff (h : Census log s) :
    (s.find? p).isSome = true ↔ ∃ k > 0, owners? p log = some k := by
  have agrees := h.agrees p
  cases found : s.find? p with
  | none =>
    rw [found] at agrees
    refine iff_of_false nofun ?_
    rintro ⟨k, positive, hk⟩
    exact absurd (agrees k hk) (not_le.2 positive)
  | some r =>
    rw [found] at agrees
    exact iff_of_true rfl ⟨r.owners, Int.natCast_pos.2 agrees.1, agrees.2⟩

/-- The live spaces are as many as the live handles. -/
theorem count (h : Census log s) :
    s.live = ((handles log).filter fun p => (s.find? p).isSome).length := by
  rw [live, ← Std.ExtTreeMap.length_keys]
  refine List.Perm.length_eq ((List.perm_ext_iff_of_nodup ?_ (h.nodup.filter _)).2 fun p => ?_)
  · exact s.records.nodup_keys
  · rw [List.mem_filter, Std.ExtTreeMap.mem_keys, Std.ExtTreeMap.mem_iff_isSome_getElem?]
    refine ⟨fun some => ⟨?_, some⟩, And.right⟩
    obtain ⟨k, -, hk⟩ := h.live_iff.1 some
    exact mem_of_owners? hk

end Census
end Spaces

/-! ## Calls -/

namespace Call

/-- The calls that work on whole spaces or their pages, and the one that callers get frames by. -/
def OnSpaces : Call → Prop
  | .create | .incref _ | .decref _ | .destroy _ | .switch _ | .fork .. | .acquire => True
  | c => ∃ p, c.OnPages p

/-- The calls that look up space `p`, with nothing to say against their addresses. -/
def Names (p : Nat) : Call → Prop
  | .incref q | .destroy q | .switch q => q = p
  | .add q va frame _ => q = p ∧ isAligned va = true ∧ isAligned frame = true
  | .remove q first last | .protect q first last _ =>
    q = p ∧ isAligned first = true ∧ isAligned last = true ∧ first ≤ last
  | .fork parent child => parent = p ∨ child = p
  | _ => False

theorem objections_of_names {s : Spaces} {c : Call} {p : Nat} (names : c.Names p)
    (dead : s.find? p = none) : ArgumentError.first (c.objections s) = some .unknownSpace := by
  have gone : s.dead p = true := dead_iff.2 dead
  cases c <;> simp_all [Names, objections, rangeObjections, ArgumentError.first]
  case fork parent child =>
    obtain rfl | rfl := names <;> simp [gone]

section
variable {w : Snapshot}

/-- An owner leaves, by either call. -/
theorem decref_turns (h : w.Firm) {c : Call} {p : Nat} (call : c = .decref p ∨ c = .destroy p) :
    Leads Stops (Kernel.decref p) w fun _ v =>
      v.Firm ∧ ∀ a, w.spaces.Turns ⟨c, .ok a⟩ v.spaces := by
  refine (decref_firm h p).mono ?_
  rintro n v ⟨firm, r, record, owned, rfl, ⟨more, spaces⟩ | ⟨last, keep, r', spaces⟩⟩
  · exact ⟨firm, fun a => spaces ▸ .left call record (by omega)⟩
  · exact ⟨firm, fun a => spaces ▸ .closed call record (by omega) keep⟩

/-- A call that opens and closes nothing and comes back to the space that was active. -/
theorem stays {c : Call} {a : Answer} {v : Snapshot}
    (closed : (Exchange.mk c (.ok a)).opened = none)
    (idle : ∀ p, Exchange.joined p ⟨c, .ok a⟩ = 0) (h : v.Firm ∧ v.spaces = w.spaces) :
    v.Firm ∧ w.spaces.Turns ⟨c, .ok a⟩ v.spaces :=
  ⟨h.1, h.2.symm ▸ .moved closed idle w.spaces.active⟩

theorem turns (h : w.Firm) {c : Call} (on : c.OnSpaces)
    (clean : ArgumentError.first (c.objections w.spaces) = none) :
    Leads Stops c.action w fun a v => v.Firm ∧ w.spaces.Turns ⟨c, .ok a⟩ v.spaces := by
  cases c with
  | create =>
    refine .bind ((create_firm h).mono ?_)
    rintro _ v ⟨rfl, firm, f, spaces⟩
    exact .pure ⟨firm, spaces ▸ .opened f⟩
  | incref p =>
    have live : w.spaces.dead p = false := by
      simpa [objections, ArgumentError.first_eq_none] using clean
    obtain ⟨r, hr⟩ := Option.isSome_iff_exists.1 (live_of_not_dead live)
    refine .bind ((incref_firm h hr).mono ?_)
    rintro _ v ⟨rfl, firm, spaces⟩
    exact .pure ⟨firm, spaces ▸ .joined hr⟩
  | decref p =>
    exact .bind ((decref_turns h (.inl rfl)).mono fun _ _ turn => .pure ⟨turn.1, turn.2 _⟩)
  | destroy p =>
    have live : w.spaces.dead p = false := by
      simpa [objections, ArgumentError.first_eq_none] using clean
    obtain ⟨r, hr⟩ := Option.isSome_iff_exists.1 (live_of_not_dead live)
    refine .bind (destroy_leads hr ((decref_turns h (.inr rfl)).mono ?_))
    exact fun _ _ turn => .pure ⟨turn.1, turn.2 _⟩
  | switch p =>
    have live : w.spaces.dead p = false := by
      simpa [objections, ArgumentError.first_eq_none] using clean
    refine .bind ((switch_firm h (live_of_not_dead live)).mono ?_)
    rintro _ v ⟨-, firm, spaces⟩
    exact .pure ⟨firm, spaces ▸ .moved rfl (fun _ => rfl) p⟩
  | add | remove | protect =>
    obtain ⟨p, on⟩ := on
    obtain ⟨live, work⟩ := action_of_clean on clean
    rw [work]
    refine .bind ((within_firm h (live_of_not_dead live) fun v hv _ => ?_).mono
      fun _ _ firm => .pure (stays rfl (fun _ => rfl) firm))
    obtain ⟨role, placed⟩ := hv.placed
    exact pageWork_edits on clean placed
  | fork parent child =>
    obtain ⟨live, live'⟩ : w.spaces.dead parent = false ∧ w.spaces.dead child = false := by
      simpa [objections, ArgumentError.first_eq_none] using clean
    refine .bind (((fork_forkedOver h (live_of_not_dead live) (live_of_not_dead live')).weaken
      fun _ _ => ForkLacks.stops).mono ?_)
    rintro _ v forked
    exact .pure ⟨forked.firm, forked.spaces ▸ .moved rfl (fun _ => rfl) parent⟩
  | acquire =>
    exact .bind ((acquire_firm h).mono fun _ _ firm => .pure (stays rfl (fun _ => rfl) firm))
  | map | unmap | mapFresh | drop | pageFault | userWrite | acquireRaw | release =>
    obtain ⟨p, on⟩ := on
    exact on.elim

end

/-- A call that is answered, if only by a refusal, turns the register. -/
theorem answered_turns {c : Call} {r : Except ArgumentError Answer} {s t : KernelState}
    (h : s.snapshot.Firm) (on : c.OnSpaces) (answered : c.perform s = .ok r t) :
    t.snapshot.Firm ∧ s.spaces.Turns ⟨c, r⟩ t.spaces := by
  obtain ⟨role, placed⟩ := h.placed
  have checked := c.checks placed.lodged.regular
  unfold Checks at checked
  split at checked
  · rename_i e first
    rw [perform_of_refused placed.lodged.regular first] at answered
    cases answered
    refine ⟨h, .refused fun p left => ?_⟩
    change ArgumentError.first (c.objections s.spaces) = some e at first
    cases c <;> simp_all [joined, objections, ArgumentError.first, dead_iff]
  · rename_i clean
    have ends : Leads Stops c.perform s.snapshot fun r v =>
        v.Firm ∧ s.spaces.Turns ⟨c, r⟩ v.spaces :=
      (turns h on clean).attempt (fun e _ no => no e rfl) fun _ _ => id
    have done := ends s rfl
    rw [answered] at done
    exact done

end Call

/-! ## Runs -/

namespace KernelState

/-- From one state to another by calls on spaces, the latest call first in the log. -/
inductive Logs (s : KernelState) : List Exchange → KernelState → Prop where
  | start : Logs s [] s
  | call {log : List Exchange} {c : Call} {r : Except ArgumentError Answer} {t u : KernelState}
      (before : Logs s log t) (on : c.OnSpaces) (answered : c.perform t = .ok r u) :
      Logs s (⟨c, r⟩ :: log) u

/-- What a log of the calls since the boot tells about a state. -/
structure Accounted (s : KernelState) (log : List Exchange) : Prop where
  /-- No handle is given out twice. -/
  nodup : (handles log).Nodup
  live_iff : ∀ p, s.snapshot.Live p ↔ ∃ k > 0, owners? p log = some k
  refcount : ∀ p, s.snapshot.Live p →
    ∃ k : Nat, Kernel.refcount p s = .ok k s ∧ owners? p log = some (k : Int)
  /-- Whatever comes later, a dead handle stays unknown and names no other space. -/
  dead : ∀ p ∈ handles log, ¬ s.snapshot.Live p → ∀ later t, Logs s later t →
    ¬ t.snapshot.Live p ∧ (∀ x ∈ later, x.opened ≠ some p) ∧
      Kernel.refcount p t = .error (.argument .unknownSpace) t ∧
      ∀ c : Call, c.Names p → c.perform t = .ok (.error .unknownSpace) t
  kernel : s.snapshot.Live Spaces.kernelId
  active : s.snapshot.Live s.spaces.active
  apart : ∀ p q r r', s.spaces.find? p = some r → s.spaces.find? q = some r' →
    r.directory = r'.directory → p = q
  count : s.spaces.live = ((handles log).filter fun p => (s.spaces.find? p).isSome).length

variable {n reserved p : Nat} {setup : List (Nat × UInt32)} {s t : KernelState}
  {log : List Exchange}

/-- The frame that was cleared for the kernel's user half leads nowhere. -/
theorem firm_of_boot (small : Ram.Addressable n) (prepares : Prepares n reserved setup)
    (booted : boot n reserved setup = .ok s) : s.snapshot.Firm := by
  obtain ⟨-, start, cleared⟩ := boot_cleared small prepares booted
  obtain ⟨role, stable⟩ := start.settled.stable
  refine ⟨⟨role, stable.lodged, stable.at_rest⟩, fun p r d hr hd present => ?_⟩
  obtain ⟨-, rfl⟩ := start.find?.1 hr
  rw [entry, cleared, Page.entry_zero] at present
  cases present

namespace Logs

theorem firm (run : Logs s log t) (h : s.snapshot.Firm) : t.snapshot.Firm := by
  induction run with
  | start => exact h
  | call before on answered ih => exact (Call.answered_turns ih on answered).1

theorem census (run : Logs s log t) (h : s.snapshot.Firm) (start : Spaces.Census [] s.spaces) :
    Spaces.Census log t.spaces := by
  induction run with
  | start => exact start
  | call before on answered ih => exact ih.turn (Call.answered_turns (before.firm h) on answered).2

theorem dead (run : Logs s log t) (h : s.snapshot.Firm) (below : p < s.spaces.nextId)
    (gone : s.spaces.find? p = none) :
    t.spaces.find? p = none ∧ p < t.spaces.nextId ∧ ∀ x ∈ log, x.opened ≠ some p := by
  induction run with
  | start => exact ⟨gone, below, nofun⟩
  | call before on answered ih =>
    obtain ⟨gone', below', unopened⟩ := ih
    have turn := (Call.answered_turns (before.firm h) on answered).2
    obtain ⟨gone'', below'', closed⟩ := turn.dead below' gone'
    exact ⟨gone'', below'', List.forall_mem_cons.2 ⟨closed, unopened⟩⟩

end Logs

/-- At every point of every run of calls on spaces, the register is what the log tells. -/
theorem lifetimes (small : Ram.Addressable n) (prepares : Prepares n reserved setup)
    {s₀ : KernelState} (booted : boot n reserved setup = .ok s₀) (run : Logs s₀ log s) :
    s.Accounted log := by
  have first := firm_of_boot small prepares booted
  have spaces := (boot_booted small prepares booted).2.spaces
  have firm := run.firm first
  have start : Spaces.Census [] s₀.spaces := by
    change s₀.spaces = _ at spaces
    rw [spaces]
    exact .withKernel _
  have census := run.census first start
  obtain ⟨role, placed⟩ := firm.placed
  refine
    { nodup := census.nodup
      live_iff := fun p => census.live_iff
      refcount := fun p live => ?_
      dead := fun p mem dead later t after => ?_
      kernel := placed.lodged.regular.kernel
      active := placed.lodged.live_active
      apart := placed.lodged.housed.apart
      count := census.count }
  · obtain ⟨r, hr⟩ := Option.isSome_iff_exists.1 live
    have agrees := census.agrees p
    change s.spaces.find? p = some r at hr
    rw [hr] at agrees
    exact ⟨r.owners, bind_of_ok (space_of_find? hr) _, agrees.2⟩
  · have gone : s.spaces.find? p = none := Option.not_isSome_iff_eq_none.1 dead
    obtain ⟨gone', -, unopened⟩ := after.dead firm (census.below p mem) gone
    obtain ⟨role', placed'⟩ := (after.firm firm).placed
    refine ⟨Option.not_isSome_iff_eq_none.2 gone', unopened, ?_, fun c names => ?_⟩
    · exact bind_of_error (space_of_dead (dead_iff.2 gone') rfl) _
    · exact Call.perform_of_refused placed'.lodged.regular (c.objections_of_names names gone')

/-- A second space is created, and gets a second owner. -/
theorem lifetimes_shared : ∃ s₀ s r r', boot 8 0 [] = .ok s₀ ∧
    s₀.Logs [⟨.incref 1, r⟩, ⟨.create, r'⟩] s ∧ Ram.Addressable 8 ∧ Prepares 8 0 [] ∧
    s.spaces.live = 2 ∧ s.spaces.find? 1 = some ⟨0x103000, 2⟩ ∧
    s.Accounted [⟨.incref 1, r⟩, ⟨.create, r'⟩] := by
  have runs : ((((Session.boot? 8 0 []).bind (·.next? .create)).bind
      (·.next? (.incref 1))).filter fun υ =>
        υ.state.spaces.live = 2 ∧ υ.state.spaces.find? 1 = some ⟨0x103000, 2⟩).isSome = true := by
    decide +kernel
  obtain ⟨υ, run⟩ := Option.isSome_iff_exists.1 runs
  obtain ⟨run, holds⟩ := Option.filter_eq_some_iff.1 run
  obtain ⟨live, record⟩ := of_decide_eq_true holds
  obtain ⟨τ, run, share⟩ := Option.bind_eq_some_iff.1 run
  obtain ⟨σ, boot, create⟩ := Option.bind_eq_some_iff.1 run
  obtain ⟨s₀, booted, rfl⟩ := Session.boot_of_boot? boot
  obtain ⟨r', t, created, rfl⟩ := Session.perform_of_next? create
  obtain ⟨r, s, shared, rfl⟩ := Session.perform_of_next? share
  have logs : s₀.Logs [⟨.incref 1, r⟩, ⟨.create, r'⟩] s :=
    (Logs.start.call (c := .create) trivial created).call (c := .incref 1) trivial shared
  have small : Ram.Addressable 8 := by decide
  exact ⟨s₀, s, r, r', booted, logs, small, prepares_nil 8, live, record,
    lifetimes small (prepares_nil 8) booted logs⟩

end KernelState
end VirtualMemory
