import Mathlib.Data.List.Induction
import Mathlib.Data.List.Perm.Basic
import VirtualMemory.Interrupt.Lock

/-!
# Interrupts while locks are taken and given up

The token that says "enabled" is handed out once: interrupts are off until its guard is given up,
and while they are off every further token says "disabled". Since each lock restores what its own
guard says, interrupts come back with the guard that carries that token, whether or not other
guards are still alive.
-/
namespace VirtualMemory

open SpinLock (isHeld)

variable {α μ : Type}

/-- What the users of locks do; a guard is named by its place among the live ones. -/
inductive LockAction (α : Type) where
  | lock (k : Nat)
  | tryLock (k : Nat)
  | drop (place : Nat)
  | store (place : Nat) (value : α)

/-- The token of the guard says that interrupts were enabled. -/
def Guard.carries (g : Guard) : Bool := g.token.testBit Interrupts.enabledBit

namespace LockState

section Definitions

variable [SpinLock μ]

def step? (s : LockState α μ) : LockAction α → Option (LockState α μ)
  | .lock k => s.lock? k
  | .tryLock k => if k < s.locks.length then some (s.tryLock k).2 else none
  | .drop i => s.drop? i
  | .store i value => s.store? i value

/-- The state after some actions, one after the other. -/
def run? (s : LockState α μ) (actions : List (LockAction α)) : Option (LockState α μ) :=
  actions.foldlM step? s

/-- Interrupts are enabled, no guard is alive and every lock is free. -/
structure Idle (s : LockState α μ) : Prop where
  enabled : s.interrupts.enabled = true
  guards : s.guards = []
  free : ∀ l ∈ s.locks, isHeld l.spin = false

/-- What can be done: take a lock that is free, try any, and use or give up a live guard. -/
def Admits (s : LockState α μ) : LockAction α → Prop
  | .lock k => ∃ l, s.locks[k]? = some l ∧ isHeld l.spin = false
  | .tryLock k => k < s.locks.length
  | .drop i => i < s.guards.length
  | .store i _ => i < s.guards.length

/-- How many live guards carry the token that enables interrupts. -/
def carriers (s : LockState α μ) : Nat := s.guards.countP (·.carries)

/-- How many live guards lock `k` has. -/
def guardsOf (s : LockState α μ) (k : Nat) : Nat := s.guards.countP (·.lock = k)

/-- Interrupts are off while a guard is alive. -/
def Quiet (s : LockState α μ) : Prop := s.guards ≠ [] → s.interrupts.enabled = false

/-- Only the oldest guard can have the token. -/
def Stacked (s : LockState α μ) : Prop := ∀ g ∈ s.guards.dropLast, g.carries = false

/-- Interrupts are off wherever a guard is alive, after each of the actions. -/
def QuietAlong (s : LockState α μ) (actions : List (LockAction α)) : Prop :=
  ∀ before u, before <+: actions → s.run? before = some u → u.Quiet

/-- The guard that has the token is given up only when it is the last one alive. -/
def TokenLast (s : LockState α μ) (actions : List (LockAction α)) : Prop :=
  ∀ before i u g, before ++ [.drop i] <+: actions → s.run? before = some u →
    u.guards[i]? = some g → g.carries = true → u.guards = [g]

/-- Each guard that is given up is the newest one. -/
def Nested (actions : List (LockAction α)) : Prop :=
  ∀ before i, before ++ [.drop i] <+: actions → i = 0

/-- One guard has the token when interrupts are off, and each held lock has one guard. -/
structure Balanced (s : LockState α μ) : Prop where
  carriers : s.carriers = if s.interrupts.enabled then 0 else 1
  guardsOf : ∀ {k l}, s.locks[k]? = some l → s.guardsOf k = if isHeld l.spin then 1 else 0

/-- What taking lock `k` leaves, when it is `l` and `spin` is how its spin lock is left. -/
def entered (s : LockState α μ) (k : Nat) (l : Lock α μ) (spin : μ) : LockState α μ :=
  ⟨⟨false⟩, s.locks.set k { l with spin }, ⟨k, s.interrupts.disable.1⟩ :: s.guards⟩

/-- What giving the guard `g` at place `i` up leaves. -/
def dropped (s : LockState α μ) (i : Nat) (g : Guard) : LockState α μ :=
  ⟨s.interrupts.restore g.token,
    s.locks.modify g.lock fun l => { l with spin := SpinLock.release l.spin }, s.guards.eraseIdx i⟩

end Definitions

section Steps

variable [SpinLock μ] {s t : LockState α μ}

theorem tryLock_eq (s : LockState α μ) (k : Nat) :
    s.tryLock k = ((s.lock? k).isSome, (s.lock? k).getD s) := by
  simp only [tryLock, lock?]
  cases enter? { s with interrupts := s.interrupts.disable.2 } k s.interrupts.disable.1 with
  | none => simp [Interrupts.restore_disable]
  | some t => rfl

theorem drop?_eq (s : LockState α μ) (i : Nat) : s.drop? i = s.guards[i]?.map (s.dropped i) := by
  unfold drop?
  cases s.guards[i]? <;> rfl

theorem run?_snoc (s : LockState α μ) (before : List (LockAction α)) (a : LockAction α) :
    s.run? (before ++ [a]) = (s.run? before).bind (·.step? a) := by
  simp [run?, List.foldlM_append]

variable [LawfulSpinLock μ]

theorem lock?_of_free {k : Nat} {l : Lock α μ} (found : s.locks[k]? = some l)
    (free : isHeld l.spin = false) :
    ∃ spin, isHeld spin = true ∧ s.lock? k = some (s.entered k l spin) := by
  obtain ⟨spin, taken, held⟩ := LawfulSpinLock.tryTake_free free
  exact ⟨spin, held, by simp [lock?, enter?, found, taken, entered, Interrupts.disable]⟩

theorem lock?_eq_none_of_held {k : Nat} {l : Lock α μ} (found : s.locks[k]? = some l)
    (held : isHeld l.spin = true) : s.lock? k = none := by
  simp [lock?, enter?, found, LawfulSpinLock.tryTake_held held]

/-- A lock is taken when it is free, and only then. -/
theorem lock?_cases {k : Nat} (taken : s.lock? k = some t) :
    ∃ l spin, s.locks[k]? = some l ∧ isHeld l.spin = false ∧ isHeld spin = true ∧
      t = s.entered k l spin := by
  cases found : s.locks[k]? with
  | none => simp [lock?, enter?, found] at taken
  | some l =>
    cases free : isHeld l.spin with
    | true => simp [lock?_eq_none_of_held found free] at taken
    | false =>
      obtain ⟨spin, held, lock⟩ := lock?_of_free found free
      exact ⟨l, spin, rfl, free, held, by simpa [lock] using taken.symm⟩

/-- What one action does. -/
theorem step?_cases {a : LockAction α} (stepped : s.step? a = some t) :
    t = s ∨
    (∃ k l spin, s.locks[k]? = some l ∧ isHeld l.spin = false ∧ isHeld spin = true ∧
      t = s.entered k l spin) ∨
    (∃ i g, a = .drop i ∧ s.guards[i]? = some g ∧ t = s.dropped i g) ∨
    ∃ k value, t = { s with locks := s.locks.modify k fun l => { l with value } } := by
  cases a with
  | lock k => exact .inr (.inl ⟨k, lock?_cases stepped⟩)
  | tryLock k =>
    simp only [step?, tryLock_eq] at stepped
    split at stepped
    · cases taken : s.lock? k with
      | none => exact .inl (by simpa [taken] using stepped.symm)
      | some u =>
        obtain rfl : u = t := by simpa [taken] using stepped
        exact .inr (.inl ⟨k, lock?_cases taken⟩)
    · cases stepped
  | drop i =>
    simp only [step?, drop?_eq, Option.map_eq_some_iff] at stepped
    obtain ⟨g, found, rfl⟩ := stepped
    exact .inr (.inr (.inl ⟨i, g, rfl, found, rfl⟩))
  | store i value =>
    obtain ⟨g, -, stored⟩ := Option.bind_eq_some_iff.mp stepped
    exact .inr (.inr (.inr ⟨g.lock, value, (Option.some.inj stored).symm⟩))

theorem Admits.step? {a : LockAction α} (admits : s.Admits a) : ∃ t, s.step? a = some t := by
  cases a with
  | lock k =>
    obtain ⟨l, found, free⟩ := admits
    obtain ⟨spin, -, taken⟩ := lock?_of_free found free
    exact ⟨_, taken⟩
  | tryLock k => exact ⟨_, if_pos admits⟩
  | drop i =>
    have found : s.guards[i]? = some s.guards[i] := List.getElem?_eq_getElem admits
    exact ⟨s.dropped i s.guards[i], by simp [LockState.step?, drop?_eq, found]⟩
  | store i value =>
    have found : s.guards[i]? = some s.guards[i] := List.getElem?_eq_getElem admits
    exact ⟨_, by simp only [LockState.step?, store?, found]; rfl⟩

end Steps

/-! One step of the invariant. -/

section Balance

/-- The guard that goes was counted, if it is one that `p` tells. -/
theorem countP_eraseIdx {guards : List Guard} {i : Nat} {g : Guard} (found : guards[i]? = some g)
    (p : Guard → Bool) :
    guards.countP p = (guards.eraseIdx i).countP p + if p g then 1 else 0 := by
  obtain ⟨bound, rfl⟩ := List.getElem?_eq_some_iff.mp found
  rw [← (List.getElem_cons_eraseIdx_perm bound).countP_eq, List.countP_cons]

theorem carriers_entered (s : LockState α μ) (k : Nat) (l : Lock α μ) (spin : μ) :
    (s.entered k l spin).carriers = s.carriers + if s.interrupts.enabled then 1 else 0 := by
  simp [carriers, entered, List.countP_cons, Guard.carries, Interrupts.testBit_disable]

theorem guardsOf_entered (s : LockState α μ) (k j : Nat) (l : Lock α μ) (spin : μ) :
    (s.entered k l spin).guardsOf j = s.guardsOf j + if k = j then 1 else 0 := by
  simp [guardsOf, entered, List.countP_cons]

theorem Stacked.only {s : LockState α μ} (stacked : s.Stacked) {g : Guard}
    (found : s.guards[0]? = some g) (carries : g.carries = true) : s.guards = [g] := by
  cases list : s.guards with
  | nil => simp [list] at found
  | cons newest older =>
    obtain rfl : newest = g := by simpa [list] using found
    cases older with
    | nil => rfl
    | cons next older =>
      have clean := stacked newest (by simp [list])
      exact absurd (carries.symm.trans clean) (by decide)

variable [SpinLock μ] {s t : LockState α μ}

theorem carriers_dropped {i : Nat} {g : Guard} (found : s.guards[i]? = some g) :
    s.carriers = (s.dropped i g).carriers + if g.carries then 1 else 0 := by
  simpa [carriers, dropped] using countP_eraseIdx found (·.carries)

theorem guardsOf_dropped {i : Nat} {g : Guard} (found : s.guards[i]? = some g) (j : Nat) :
    s.guardsOf j = (s.dropped i g).guardsOf j + if g.lock = j then 1 else 0 := by
  simpa [guardsOf, dropped] using countP_eraseIdx found (·.lock = j)

theorem Idle.balanced (idle : s.Idle) : s.Balanced where
  carriers := by simp [carriers, idle.guards, idle.enabled]
  guardsOf {k l} found := by
    simp [guardsOf, idle.guards, idle.free l (List.mem_of_getElem? found)]

/-- The new guard has the token if interrupts were enabled, and they are off now. -/
theorem Balanced.entered (h : s.Balanced) {k : Nat} {l : Lock α μ} {spin : μ}
    (found : s.locks[k]? = some l) (free : isHeld l.spin = false) (held : isHeld spin = true) :
    (s.entered k l spin).Balanced where
  carriers := by
    rw [carriers_entered, h.carriers]
    cases on : s.interrupts.enabled <;> simp [LockState.entered]
  guardsOf {j m} there := by
    have bound : k < s.locks.length := (List.getElem?_eq_some_iff.mp found).1
    rw [guardsOf_entered]
    by_cases same : k = j
    · subst same
      obtain rfl : { l with spin } = m := by simpa [LockState.entered, bound] using there
      simp [h.guardsOf found, free, held]
    · simpa [same] using h.guardsOf (by simpa [LockState.entered, same] using there)

theorem Balanced.idle (h : s.Balanced) (none : s.guards = []) : s.Idle where
  enabled := by
    have count := h.carriers
    cases on : s.interrupts.enabled <;> simp [LockState.carriers, none, on] at count ⊢
  guards := none
  free l member := by
    obtain ⟨k, found⟩ := List.getElem?_of_mem member
    have count := h.guardsOf found
    cases held : isHeld l.spin <;> simp [LockState.guardsOf, none, held] at count ⊢

theorem Idle.quiet (idle : s.Idle) : s.Quiet := fun alive => absurd idle.guards alive

variable [LawfulSpinLock μ]

/-- The guard's lock is free now, and interrupts are enabled if it had the token. -/
theorem Balanced.dropped (h : s.Balanced) {i : Nat} {g : Guard} (found : s.guards[i]? = some g) :
    (s.dropped i g).Balanced where
  carriers := by
    have count := carriers_dropped found
    rw [h.carriers] at count
    have back : (s.dropped i g).interrupts.enabled = (s.interrupts.enabled || g.carries) :=
      Interrupts.enabled_restore _ _
    rw [back]
    cases on : s.interrupts.enabled <;> cases carries : g.carries <;>
      simp [on, carries] at count ⊢ <;> omega
  guardsOf {j m} there := by
    have count := guardsOf_dropped found j
    simp only [LockState.dropped, List.getElem?_modify, Option.map_eq_map,
      Option.map_eq_some_iff] at there
    obtain ⟨l, before, rfl⟩ := there
    rw [h.guardsOf before] at count
    by_cases same : g.lock = j
    · have free := LawfulSpinLock.isHeld_release l.spin
      cases held : isHeld l.spin <;> simp_all
    · simpa [same] using count.symm

theorem Balanced.step (h : s.Balanced) {a : LockAction α} (stepped : s.step? a = some t) :
    t.Balanced := by
  obtain rfl | ⟨k, l, spin, found, free, held, rfl⟩ | ⟨i, g, -, found, rfl⟩ | ⟨k, value, rfl⟩ :=
    step?_cases stepped
  · exact h
  · exact h.entered found free held
  · exact h.dropped found
  · refine ⟨h.carriers, fun {j m} there => ?_⟩
    -- a store leaves the spin locks as they are
    simp only [List.getElem?_modify, Option.map_eq_map, Option.map_eq_some_iff] at there
    obtain ⟨l, before, rfl⟩ := there
    rw [show (if k = j then { l with value } else l).spin = l.spin by split <;> rfl]
    exact h.guardsOf before

theorem Balanced.run (h : s.Balanced) {actions : List (LockAction α)}
    (ran : s.run? actions = some t) : t.Balanced := by
  induction actions using List.reverseRecOn generalizing t with
  | nil => exact Option.some.inj ran ▸ h
  | append_singleton before a ih =>
    rw [run?_snoc] at ran
    obtain ⟨u, first, last⟩ := Option.bind_eq_some_iff.mp ran
    exact (ih first).step last

theorem Idle.initial (values : List α) : (initial values : LockState α μ).Idle where
  enabled := rfl
  guards := rfl
  free l member := by
    obtain ⟨value, -, rfl⟩ := List.mem_map.mp member
    exact LawfulSpinLock.isHeld_new

/-- Whatever is taken, tried and given up, and in whatever order: the token that enables interrupts
is with one guard while they are off and with none while they are on, each held lock has one guard,
a try that fails changes nothing, and all is as it was when no guard is alive. -/
theorem tokens_conserved {actions : List (LockAction α)} (idle : s.Idle)
    (ran : s.run? actions = some t) :
    t.carriers ≤ 1 ∧
    (t.interrupts.enabled = true ↔ ∀ g ∈ t.guards, g.carries = false) ∧
    (∀ k l, t.locks[k]? = some l →
      t.guardsOf k ≤ 1 ∧ (isHeld l.spin = true ↔ t.guardsOf k = 1) ∧
      ((t.tryLock k).1 = true ↔ isHeld l.spin = false)) ∧
    (∀ k, (t.tryLock k).1 = false → (t.tryLock k).2 = t) ∧
    (t.guards = [] → t.Idle) ∧
    ∀ a, t.Admits a → ∃ u, t.step? a = some u := by
  have balanced : t.Balanced := idle.balanced.run ran
  refine ⟨?_, ?_, fun k l found => ⟨?_, ?_, ?_⟩, fun k fails => ?_, balanced.idle,
    fun a admits => admits.step?⟩
  · rw [balanced.carriers]
    split <;> omega
  · have count : t.interrupts.enabled = true ↔ t.carriers = 0 := by
      rw [balanced.carriers]
      cases t.interrupts.enabled <;> simp
    rw [count]
    simp [LockState.carriers, List.countP_eq_zero]
  · rw [balanced.guardsOf found]
    split <;> omega
  · rw [balanced.guardsOf found]
    cases isHeld l.spin <;> simp
  · rw [tryLock_eq]
    cases held : isHeld l.spin with
    | true => simp [lock?_eq_none_of_held found held]
    | false =>
      obtain ⟨spin, -, taken⟩ := lock?_of_free found held
      simp [taken]
  · rw [tryLock_eq] at fails ⊢
    cases taken : t.lock? k with
    | none => rfl
    | some u => simp [taken] at fails

theorem tokens_conserved_crossed :
    ∃ t : LockState Nat Bool,
      (initial [10, 20, 30]).run? [.lock 0, .lock 1, .tryLock 0, .drop 1, .store 0 5] = some t ∧
      t.guards = [⟨1, 0⟩] ∧ t.carriers ≤ 1 ∧
      (t.interrupts.enabled = true ↔ ∀ g ∈ t.guards, g.carries = false) :=
  have ran : (initial [10, 20, 30] : LockState Nat Bool).run?
      [.lock 0, .lock 1, .tryLock 0, .drop 1, .store 0 5] =
      some ⟨⟨true⟩, [⟨10, false⟩, ⟨5, true⟩, ⟨30, false⟩], [⟨1, 0⟩]⟩ := rfl
  have conserved := tokens_conserved (Idle.initial [10, 20, 30]) ran
  ⟨_, ran, rfl, conserved.1, conserved.2.1⟩

end Balance

section Quiet

variable [SpinLock μ] {s t : LockState α μ} {a : LockAction α} {actions : List (LockAction α)}

/-- Where interrupts stay off, the token was not given up before the last guard: they would have
been enabled there. -/
theorem QuietAlong.tokenLast (quiet : s.QuietAlong actions) : s.TokenLast actions := by
  intro before i u g here ran found carries
  have after : s.run? (before ++ [.drop i]) = some (u.dropped i g) := by
    simp [run?_snoc, ran, step?, drop?_eq, found]
  have gone : u.guards.eraseIdx i = [] := by
    by_contra alive
    have off := quiet _ _ here after alive
    have back := Interrupts.enabled_restore u.interrupts g.token
    rw [show g.token.testBit Interrupts.enabledBit = true from carries, Bool.or_true] at back
    exact absurd (back.symm.trans off) (by decide)
  obtain ⟨bound, rfl⟩ := List.getElem?_eq_some_iff.mp found
  have whole := List.getElem_cons_eraseIdx_perm bound
  rw [gone] at whole
  exact (List.singleton_perm.mp whole).symm

variable [LawfulSpinLock μ]

/-- Interrupts stay off unless the token goes before the last guard. -/
theorem Quiet.step (quiet : s.Quiet) (stepped : s.step? a = some t)
    (last : ∀ i g, a = .drop i → s.guards[i]? = some g → g.carries = true → s.guards = [g]) :
    t.Quiet := by
  obtain rfl | ⟨k, l, spin, -, -, -, rfl⟩ | ⟨i, g, drops, found, rfl⟩ | ⟨k, value, rfl⟩ :=
    step?_cases stepped
  · exact quiet
  · exact fun _ => rfl
  · intro alive
    cases carries : g.carries with
    | true =>
      have only := last i g drops found carries
      have gone : (s.guards.eraseIdx i).length = 0 := by
        rw [List.length_eraseIdx_of_lt (List.getElem?_eq_some_iff.mp found).1, only]
        rfl
      exact absurd (List.length_eq_zero_iff.mp gone) alive
    | false =>
      have off : s.interrupts.enabled = false :=
        quiet fun none => by simp [none] at found
      have back := Interrupts.enabled_restore s.interrupts g.token
      rwa [off, show g.token.testBit Interrupts.enabledBit = false from carries] at back
  · exact quiet

theorem quietAlong_of_tokenLast (idle : s.Idle) (last : s.TokenLast actions) :
    s.QuietAlong actions := by
  intro before
  induction before using List.reverseRecOn with
  | nil =>
    intro u _ ran
    exact Option.some.inj ran ▸ idle.quiet
  | append_singleton before a ih =>
    intro u here ran
    rw [run?_snoc] at ran
    obtain ⟨w, first, step⟩ := Option.bind_eq_some_iff.mp ran
    refine (ih w ((List.prefix_append _ _).trans here) first).step step ?_
    rintro i g rfl found carries
    exact last before i w g here first found carries

theorem Stacked.step (stacked : s.Stacked) (quiet : s.Quiet) (stepped : s.step? a = some t)
    (newest : ∀ i, a = .drop i → i = 0) : t.Stacked := by
  obtain rfl | ⟨k, l, spin, -, -, -, rfl⟩ | ⟨i, g, drops, found, rfl⟩ | ⟨k, value, rfl⟩ :=
    step?_cases stepped
  · exact stacked
  · -- the new guard has the token only if no other guard is alive
    intro g member
    cases older : s.guards with
    | nil => simp [entered, older] at member
    | cons next rest =>
      have off : s.interrupts.enabled = false := quiet (by simp [older])
      simp only [entered, older, List.dropLast_cons_cons, List.mem_cons] at member
      rcases member with rfl | member
      · simpa [Guard.carries, off] using Interrupts.testBit_disable s.interrupts
      · exact stacked g (by simpa [older] using member)
  · obtain rfl := newest i drops
    intro kept member
    cases older : s.guards with
    | nil => simp [older] at found
    | cons first rest =>
      cases rest with
      | nil => simp [dropped, older] at member
      | cons next rest => exact stacked kept (by simp_all [dropped])
  · exact stacked

theorem Nested.stacked (nested : Nested actions) (idle : s.Idle) :
    ∀ before u, before <+: actions → s.run? before = some u → u.Quiet ∧ u.Stacked := by
  intro before
  induction before using List.reverseRecOn with
  | nil =>
    intro u _ ran
    obtain rfl := Option.some.inj ran
    exact ⟨idle.quiet, by simp [Stacked, idle.guards]⟩
  | append_singleton before a ih =>
    intro u here ran
    rw [run?_snoc] at ran
    obtain ⟨w, first, step⟩ := Option.bind_eq_some_iff.mp ran
    obtain ⟨quiet, stacked⟩ := ih w ((List.prefix_append _ _).trans here) first
    have newest : ∀ i, a = .drop i → i = 0 := by
      rintro i rfl
      exact nested before i here
    refine ⟨quiet.step step ?_, stacked.step quiet step newest⟩
    intro i g drops found carries
    obtain rfl := newest i drops
    exact stacked.only found carries

/-- Interrupts are off wherever a guard is alive, if and only if the guard that has the token is
never given up before the others. -/
theorem quietAlong_iff (idle : s.Idle) :
    (s.QuietAlong actions ↔ s.TokenLast actions) ∧ (Nested actions → s.QuietAlong actions) :=
  ⟨⟨QuietAlong.tokenLast, quietAlong_of_tokenLast idle⟩,
    fun nested before u here ran => (nested.stacked idle before u here ran).1⟩

theorem quietAlong_iff_nested :
    (initial [10, 20] : LockState Nat Bool).QuietAlong [.lock 0, .lock 1, .drop 0, .drop 0] := by
  refine (quietAlong_iff (Idle.initial [10, 20])).2 fun before i here => ?_
  simpa using here.mem (List.mem_append_right before (List.mem_singleton_self (.drop i)))

/-- The first of two locks is given up first: interrupts are enabled under the guard of the
second. -/
theorem enabled_under_guard :
    (initial [0, 1] : LockState Nat Bool).Idle ∧
    ∃ t : LockState Nat Bool, (initial [0, 1]).run? [.lock 0, .lock 1, .drop 1] = some t ∧
      t.guards = [⟨1, 0⟩] ∧ t.interrupts.enabled = true :=
  ⟨Idle.initial [0, 1], _, rfl, rfl, rfl⟩

end Quiet

end LockState
end VirtualMemory
