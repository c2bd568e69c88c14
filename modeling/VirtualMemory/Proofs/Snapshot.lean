import VirtualMemory.Kernel.Basic
import VirtualMemory.Proofs.Frames

/-!
# Snapshots, and what actions do to them

A `Snapshot` is the part of the kernel's state that decides what happens next: memory by frames
and the kernel's books. Events, counters and the trace of the bus are left out. `Leads` describes
an action by the snapshots it can end in, `Yields` one that cannot fail by its only outcome.
-/
namespace VirtualMemory

open Layout

/-- The records beside memory. -/
structure Books where
  free : List Nat
  shares : Shares
  occupancy : Occupancy
  spaces : Spaces

structure Snapshot extends Books where
  /-- Address of the loaded directory. -/
  root : Nat
  /-- Number of frames. -/
  size : Nat
  page : Nat → Page

namespace Snapshot

def entry (w : Snapshot) (f i : Nat) : Entry := (w.page f).entry i

def setPage (w : Snapshot) (f : Nat) (p : Page) : Snapshot :=
  { w with page := Function.update w.page f p }

def setEntry (w : Snapshot) (f i : Nat) (e : Entry) : Snapshot :=
  w.setPage f ((w.page f).setEntry i e)

/-- The same memory beside other books. -/
def book (w : Snapshot) (b : Books) : Snapshot := { w with toBooks := b }

variable (w : Snapshot) (f i : Nat) (p q : Page) (e : Entry)

@[simp] theorem root_setPage : (w.setPage f p).root = w.root := rfl
@[simp] theorem toBooks_setEntry : (w.setEntry f i e).toBooks = w.toBooks := rfl
@[simp] theorem root_setEntry : (w.setEntry f i e).root = w.root := rfl

@[simp] theorem toBooks_book (b : Books) : (w.book b).toBooks = b := rfl
@[simp] theorem root_book (b : Books) : (w.book b).root = w.root := rfl
@[simp] theorem size_book (b : Books) : (w.book b).size = w.size := rfl
@[simp] theorem page_book (b : Books) : (w.book b).page = w.page := rfl
@[simp] theorem entry_book (b : Books) : (w.book b).entry = w.entry := rfl

theorem page_setPage (g : Nat) : (w.setPage f p).page g = if g = f then p else w.page g := by
  simp [setPage, Function.update_apply]

theorem page_setEntry (g : Nat) :
    (w.setEntry f i e).page g = if g = f then (w.page f).setEntry i e else w.page g :=
  page_setPage w f _ g

@[simp] theorem page_setPage_self : (w.setPage f p).page f = p := by simp [page_setPage]

@[simp] theorem setPage_setPage : (w.setPage f p).setPage f q = w.setPage f q := by
  simp [setPage]

@[simp] theorem setPage_page : w.setPage f (w.page f) = w := by simp [setPage]

theorem setPage_comm {f g : Nat} (h : f ≠ g) :
    (w.setPage f p).setPage g q = (w.setPage g q).setPage f p := by
  simp [setPage, Function.update_comm h]

variable {i}

theorem entry_setEntry (hi : i < tableEntries) {g j : Nat} (hj : j < tableEntries) :
    (w.setEntry f i e).entry g j = if g = f ∧ j = i then e else w.entry g j := by
  simp only [entry, page_setEntry]
  by_cases hg : g = f
  · subst hg
    simp [Page.entry_setEntry _ e hi hj]
  · simp [hg]

theorem entry_setPage_of_ne {g : Nat} (h : g ≠ f) (j : Nat) :
    (w.setPage f p).entry g j = w.entry g j := by
  rw [entry, page_setPage, if_neg h, entry]

theorem setEntry_setEntry (hi : i < tableEntries) (a b : Entry) :
    (w.setEntry f i a).setEntry f i b = w.setEntry f i b := by
  simp only [setEntry, setPage_setPage, page_setPage_self, Page.setEntry_setEntry _ a b hi]

theorem setEntry_entry (hi : i < tableEntries) : w.setEntry f i (w.entry f i) = w := by
  rw [setEntry, entry, Page.setEntry_entry _ hi, setPage_page]

end Snapshot

def KernelState.snapshot (s : KernelState) : Snapshot where
  free := s.pool.free
  shares := s.shares
  occupancy := s.occupancy
  spaces := s.spaces
  root := s.machine.directory
  size := s.machine.ram.frames.size
  page := s.machine.ram.pageAt

namespace Kernel

variable {α β : Type}

/-- Run from a state with snapshot `w`, the action ends in `Q`, or it fails with `E`. -/
def Leads (E : Failure → Books → Prop) (x : Kernel α) (w : Snapshot)
    (Q : α → Snapshot → Prop) : Prop :=
  ∀ s : KernelState, s.snapshot = w → match x s with
    | .ok a t => Q a t.snapshot
    | .error f t => E f t.snapshot.toBooks

/-- Run from a state with snapshot `w`, the action answers `a` and leaves snapshot `v`. -/
def Yields (x : Kernel α) (w : Snapshot) (a : α) (v : Snapshot) : Prop :=
  ∀ s : KernelState, s.snapshot = w → ∃ t, x s = .ok a t ∧ t.snapshot = v

variable {E : Failure → Books → Prop} {x : Kernel α} {w v : Snapshot} {a : α}
  {Q : α → Snapshot → Prop}

theorem Leads.mono {R : α → Snapshot → Prop} (h : Leads E x w Q) (hQ : ∀ a v, Q a v → R a v) :
    Leads E x w R := by
  intro s hs
  have := h s hs
  split <;> simp_all

theorem Leads.weaken {F : Failure → Books → Prop} (h : Leads E x w Q) (hE : ∀ f b, E f b → F f b) :
    Leads F x w Q := by
  intro s hs
  have := h s hs
  split <;> simp_all

/-- What is known of an action for two reasons holds of it at once. -/
theorem Leads.both {F : Failure → Books → Prop} {R : α → Snapshot → Prop} (h : Leads E x w Q)
    (h' : Leads F x w R) : Leads E x w fun a v => Q a v ∧ R a v := by
  intro s hs
  have first := h s hs
  have second := h' s hs
  split <;> simp_all

theorem Leads.pure (h : Q a w) : Leads E (pure a) w Q := by
  rintro s rfl
  exact h

theorem Leads.bind {f : α → Kernel β} {R : β → Snapshot → Prop}
    (h : Leads E x w fun a v => Leads E (f a) v R) : Leads E (x >>= f) w R := by
  intro s hs
  have hx := h s hs
  cases e : x s with
  | ok a t =>
    rw [e] at hx
    rw [bind_of_ok e]
    exact hx t rfl
  | error e' t =>
    rw [e] at hx
    rw [bind_of_error e]
    exact hx

theorem Yields.leads (h : Yields x w a v) (hQ : Q a v) : Leads E x w Q := by
  intro s hs
  obtain ⟨t, e, rfl⟩ := h s hs
  rw [e]
  exact hQ

theorem Yields.bind {f : α → Kernel β} {R : β → Snapshot → Prop} (h : Yields x w a v)
    (hf : Leads E (f a) v R) : Leads E (x >>= f) w R :=
  Leads.bind (h.leads hf)

theorem Yields.trans {f : α → Kernel β} {b : β} {u : Snapshot} (h : Yields x w a v)
    (hf : Yields (f a) v b u) : Yields (x >>= f) w b u := by
  intro s hs
  obtain ⟨t, e, ht⟩ := h s hs
  rw [bind_of_ok e]
  exact hf t ht

theorem Yields.pure (a : α) (w : Snapshot) : Yields (pure a) w a w :=
  fun s hs => ⟨s, rfl, hs⟩

/-- An action that cannot fail and can only end one way yields that. -/
theorem Leads.yields (h : Leads (fun _ _ => False) x w fun b u => b = a ∧ u = v) :
    Yields x w a v := by
  intro s hs
  have hx := h s hs
  cases e : x s with
  | ok b t =>
    rw [e] at hx
    exact ⟨t, by rw [hx.1], hx.2⟩
  | error f t =>
    rw [e] at hx
    exact hx.elim

/-- An action that cannot fail succeeds. -/
theorem Leads.succeeds {s : KernelState} (h : Leads (fun _ _ => False) x s.snapshot Q) :
    ∃ a t, x s = .ok a t ∧ Q a t.snapshot := by
  have hx := h s rfl
  cases run : x s with
  | ok a t =>
    rw [run] at hx
    exact ⟨a, t, rfl, hx⟩
  | error f t =>
    rw [run] at hx
    exact hx.elim

theorem Leads.ite {c : Prop} [Decidable c] {y : Kernel α} (hx : c → Leads E x w Q)
    (hy : ¬ c → Leads E y w Q) : Leads E (if c then x else y) w Q := by
  split
  · exact hx ‹_›
  · exact hy ‹_›

theorem Leads.discard {R : Unit → Snapshot → Prop} (h : Leads E x w fun _ v => R () v) :
    Leads E (discard x) w R := by
  intro s hs
  have hx := h s hs
  cases e : x s with
  | ok a t =>
    rw [e] at hx
    simpa [Functor.discard, Functor.mapConst, Functor.map, EStateM.map, e] using hx
  | error e' t =>
    rw [e] at hx
    simpa [Functor.discard, Functor.mapConst, Functor.map, EStateM.map, e] using hx

/-- Run from a state with snapshot `w`, the action is refused and leaves `w` as it is. -/
def Refuses (x : Kernel α) (w : Snapshot) (e : ArgumentError) : Prop :=
  ∀ s : KernelState, s.snapshot = w → ∃ t, x s = .error (.argument e) t ∧ t.snapshot = w

theorem Refuses.refuse (e : ArgumentError) (w : Snapshot) : Refuses (refuse (α := α) e) w e :=
  fun s hs => ⟨s, rfl, hs⟩

theorem Refuses.bind {f : α → Kernel β} {e : ArgumentError} (h : Refuses x w e) :
    Refuses (x >>= f) w e := by
  intro s hs
  obtain ⟨t, ht, same⟩ := h s hs
  exact ⟨t, bind_of_error ht f, same⟩

theorem Yields.refuses {f : α → Kernel β} {e : ArgumentError} (h : Yields x w a w)
    (hf : Refuses (f a) w e) : Refuses (x >>= f) w e := by
  intro s hs
  obtain ⟨t, ht, same⟩ := h s hs
  rw [bind_of_ok ht]
  exact hf t same

theorem Refuses.discard {e : ArgumentError} (h : Refuses x w e) : Refuses (discard x) w e := by
  intro s hs
  obtain ⟨t, ht, same⟩ := h s hs
  exact ⟨t, by simp [Functor.discard, Functor.mapConst, EStateM.map, ht], same⟩

theorem Refuses.attempt {e : ArgumentError} (h : Refuses x w e) :
    Yields (Kernel.attempt x) w (.error e) w := by
  intro s hs
  obtain ⟨t, ht, same⟩ := h s hs
  exact ⟨t, by rw [Kernel.attempt, ht], same⟩

theorem Yields.attempt (h : Yields x w a v) : Yields (Kernel.attempt x) w (.ok a) v := by
  intro s hs
  obtain ⟨t, ht, same⟩ := h s hs
  exact ⟨t, by rw [Kernel.attempt, ht], same⟩

theorem Leads.attempt {R : Except ArgumentError α → Snapshot → Prop} (h : Leads E x w Q)
    (hE : ∀ e b, ¬ E (.argument e) b) (hR : ∀ a v, Q a v → R (.ok a) v) :
    Leads E (Kernel.attempt x) w R := by
  intro s hs
  have hx := h s hs
  unfold Kernel.attempt
  cases e : x s with
  | ok a t =>
    rw [e] at hx
    exact hR a _ hx
  | error f t =>
    rw [e] at hx
    cases f with
    | argument f => exact absurd hx (hE _ _)
    | halt _ => exact hx
    | violation _ => exact hx

/-- A loop keeps what every round of it hands on to the next. -/
theorem Leads.forEach {step start n : Nat} {body : Nat → Kernel Unit} (I : Nat → Snapshot → Prop)
    (first : I 0 w)
    (round : ∀ k v, k < n → I k v →
      Leads E (body (start + k * step)) v fun _ u => I (k + 1) u) :
    Leads E (forEach step body start n) w fun _ v => I n v := by
  induction n generalizing start w I with
  | zero => exact .pure first
  | succ n ih =>
    have one := round 0 w (by omega) first
    rw [Nat.zero_mul, Nat.add_zero] at one
    refine .bind (one.mono ?_)
    intro _ v hv
    refine ih (fun k => I (k + 1)) hv ?_
    intro k u hk hu
    have next := round (k + 1) u (by omega) hu
    rwa [show start + (k + 1) * step = start + step + k * step by rw [Nat.succ_mul]; omega] at next

theorem Leads.sumEach {start n : Nat} {body : Nat → Kernel Nat} (I : Nat → Snapshot → Prop)
    (first : I 0 w)
    (round : ∀ k v, k < n → I k v → Leads E (body (start + k)) v fun _ u => I (k + 1) u) :
    Leads E (sumEach body start n) w fun _ v => I n v := by
  induction n generalizing start w I with
  | zero => exact .pure first
  | succ n ih =>
    have one := round 0 w (by omega) first
    rw [Nat.add_zero] at one
    refine .bind (one.mono fun _ v hv => .bind ?_)
    refine (ih (fun k => I (k + 1)) hv ?_).mono fun _ _ h => .pure h
    intro k u hk hu
    have next := round (k + 1) u (by omega) hu
    rwa [show start + (k + 1) = start + 1 + k by omega] at next

/-! The steps that actions are made of. -/

theorem Leads.halt {h : Halt} (hE : E (.halt h) w.toBooks) : Leads E (halt h) w Q := by
  rintro s rfl
  exact hE

theorem Leads.violate {c : Violation} (hE : E (.violation c) w.toBooks) :
    Leads E (violate c) w Q := by
  rintro s rfl
  exact hE

theorem note_yields (e : Event) (w : Snapshot) : Yields (note e) w () w :=
  fun s hs => ⟨{ s with events := e :: s.events }, rfl, hs⟩

theorem inspect_yields {f : Machine → Except Violation α}
    (h : ∀ s : KernelState, s.snapshot = w → f s.machine = .ok a) : Yields (inspect f) w a w := by
  intro s hs
  exact ⟨s, by rw [inspect, h s hs], hs⟩

theorem drive_yields {f : Machine → Except Violation Machine}
    (h : ∀ s : KernelState, s.snapshot = w →
      ∃ m, f s.machine = .ok m ∧ KernelState.snapshot { s with machine := m } = v) :
    Yields (drive f) w () v := by
  intro s hs
  obtain ⟨m, e, hm⟩ := h s hs
  exact ⟨{ s with machine := m }, by rw [drive, e], hm⟩

theorem invalidatePage_yields (va : Nat) (w : Snapshot) : Yields (invalidatePage va) w () w :=
  drive_yields fun _ hs => ⟨_, rfl, hs⟩

theorem flush_yields (w : Snapshot) : Yields flush w () w :=
  fun _ hs => ⟨_, rfl, hs⟩

/-- Looking at the state changes nothing. -/
theorem Leads.get {f : KernelState → Kernel α}
    (h : ∀ s : KernelState, s.snapshot = w → Leads E (f s) w Q) : Leads E (get >>= f) w Q := by
  intro s hs
  exact h s hs s hs

theorem Yields.get {f : KernelState → Kernel α}
    (h : ∀ s : KernelState, s.snapshot = w → Yields (f s) w a v) : Yields (get >>= f) w a v := by
  intro s hs
  exact h s hs s hs

theorem Refuses.get {f : KernelState → Kernel α} {e : ArgumentError}
    (h : ∀ s : KernelState, s.snapshot = w → Refuses (f s) w e) : Refuses (get >>= f) w e := by
  intro s hs
  exact h s hs s hs

/-- A change to the state that is a change to the books. -/
theorem modify_yields {g : KernelState → KernelState}
    (h : ∀ s : KernelState, s.snapshot = w → (g s).snapshot = v) : Yields (modify g) w () v :=
  fun s hs => ⟨g s, rfl, h s hs⟩

/-- A change that no snapshot shows. -/
theorem silent_yields {g : KernelState → KernelState} (h : ∀ s, (g s).snapshot = s.snapshot)
    (w : Snapshot) : Yields (modify g) w () w :=
  modify_yields fun s hs => (h s).trans hs

variable {f i : Nat}

theorem loadEntry_yields (hf : Ram.IsFrame w.size f) (hi : i < tableEntries) :
    Yields (loadEntry (f + 4 * i)) w (w.entry f i) w := by
  refine inspect_yields ?_
  rintro s rfl
  exact Machine.loadEntry_eq hf hi

theorem storeEntry_yields (hf : Ram.IsFrame w.size f) (hi : i < tableEntries) (e : Entry) :
    Yields (storeEntry (f + 4 * i) e) w () (w.setEntry f i e) := by
  refine drive_yields ?_
  rintro s rfl
  have bound : 4 * i < pageSize := by simp only [tableEntries, pageSize] at *; omega
  refine ⟨_, Machine.storeWord_eq hf hi e.raw, ?_⟩
  simp only [KernelState.snapshot, Snapshot.setEntry, Snapshot.setPage, Ram.size_modifyPage,
    Ram.pageAt_modifyPage hf bound]
  rfl

theorem loadPage_yields (hf : Ram.IsFrame w.size f) : Yields (loadPage f) w (w.page f) w := by
  refine inspect_yields ?_
  rintro s rfl
  exact Machine.loadPage_eq hf

theorem storePage_yields (hf : Ram.IsFrame w.size f) (p : Page) :
    Yields (storePage f p) w () (w.setPage f p) := by
  refine drive_yields ?_
  rintro s rfl
  have changed := Ram.pageAt_modifyPage hf (k := 0) (by decide) fun _ => p
  rw [Nat.add_zero] at changed
  refine ⟨_, Machine.storePage_eq hf p, ?_⟩
  simp only [KernelState.snapshot, Snapshot.setPage, Ram.size_modifyPage, changed]

end Kernel
end VirtualMemory
