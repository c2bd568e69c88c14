import VirtualMemory.Proofs.Sharing.Memory

/-!
# Sequences of switches

The resident directory holds the only valid copy of one user half, and a switch writes it back
before another one takes its place. However often this is done, every space finds its user half
word for word as it left it, and nothing else moves in memory or in the books.
-/
namespace VirtualMemory

open Layout Snapshot

namespace Kernel

/-- Make one space after the other resident. -/
def switchAll : List Nat → Kernel Unit
  | [] => pure ()
  | p :: ps => do
    discard (switch p)
    switchAll ps

end Kernel

namespace KernelState

/-- The frames that hold the user half of the active space: while it is active, and afterwards. -/
def Outgoing (s : KernelState) (f : Nat) : Prop :=
  f = s.machine.directory ∨ ∃ r, s.spaces.find? s.spaces.active = some r ∧ f = r.directory

/-- The frames that hold the user half of some live space at some time. -/
def Directory (s : KernelState) (f : Nat) : Prop :=
  f = s.machine.directory ∨ ∃ p r, s.spaces.find? p = some r ∧ f = r.directory

/-- From `s` to `t` no space has changed, nor anything the spaces share: user halves may only have
moved between the frames `moved`. -/
structure KeepsSpaces (s t : KernelState) (moved : Nat → Prop) : Prop where
  directory : t.machine.directory = s.machine.directory
  size : t.machine.ram.frames.size = s.machine.ram.frames.size
  records : t.spaces = { s.spaces with active := t.spaces.active }
  pool : t.pool = s.pool
  shares : t.shares = s.shares
  occupancy : t.occupancy = s.occupancy
  /-- The user half of a live space is where `Snapshot.home` says. -/
  user : ∀ p d, s.snapshot.Live p → d < userSlots →
    t.snapshot.slotAt (.user p d) = s.snapshot.slotAt (.user p d)
  kernel : ∀ d, userSlots ≤ d → d < tableEntries →
    t.snapshot.entry s.machine.directory d = s.snapshot.entry s.machine.directory d
  window : t.snapshot.entry mountTable mountEntry = s.snapshot.entry mountTable mountEntry
  words : ∀ pa, (∀ f d, moved f → d < userSlots → pa ≠ f + 4 * d) →
    t.machine.loadWord pa = s.machine.loadWord pa

namespace KeepsSpaces

variable {s t u : KernelState} {moved moved' : Nat → Prop} {p : Nat}

theorem refl (s : KernelState) (moved : Nat → Prop) : s.KeepsSpaces s moved := by
  constructor <;> intros <;> rfl

theorem find? (h : s.KeepsSpaces t moved) (p : Nat) : t.spaces.find? p = s.spaces.find? p := by
  rw [h.records]
  rfl

theorem live_iff (h : s.KeepsSpaces t moved) (p : Nat) : t.snapshot.Live p ↔ s.snapshot.Live p := by
  change (t.spaces.find? p).isSome = true ↔ (s.spaces.find? p).isSome = true
  rw [h.find?]

theorem trans (h : s.KeepsSpaces t moved) (h' : t.KeepsSpaces u moved')
    (sub : ∀ f, moved' f → moved f) : s.KeepsSpaces u moved where
  directory := h'.directory.trans h.directory
  size := h'.size.trans h.size
  records := by rw [h'.records, h.records]
  pool := h'.pool.trans h.pool
  shares := h'.shares.trans h.shares
  occupancy := h'.occupancy.trans h.occupancy
  user p d live hd := (h'.user p d ((h.live_iff p).2 live) hd).trans (h.user p d live hd)
  kernel d low hd := by
    have later := h'.kernel d low hd
    rw [h.directory] at later
    exact later.trans (h.kernel d low hd)
  window := h'.window.trans h.window
  words pa apart := (h'.words pa fun f d hf => apart f d (sub f hf)).trans (h.words pa apart)

/-- The frames of a later switch hold user halves already. -/
theorem outgoing (h : s.KeepsSpaces t moved) {f : Nat} (hf : t.Outgoing f) : s.Directory f := by
  rcases hf with resident | ⟨r, hr, own⟩
  · exact .inl (resident.trans h.directory)
  · exact .inr ⟨_, r, h.find? _ ▸ hr, own⟩

theorem of_switched (h : s.snapshot.Switched t.snapshot p) : s.KeepsSpaces t s.Outgoing where
  directory := h.root
  size := h.size
  records := by
    have spaces := congrArg Books.spaces h.books
    have active := congrArg Spaces.active spaces
    change t.spaces = { s.spaces with active := p } at spaces
    change t.spaces.active = p at active
    rw [active]
    exact spaces
  pool := congrArg FramePool.mk (congrArg Books.free h.books)
  shares := congrArg Books.shares h.books
  occupancy := congrArg Books.occupancy h.books
  user q d live hd := h.slotAt (.user q d) ⟨live, hd⟩
  kernel d := h.kernel s.machine.directory d
  window := h.kernel mountTable mountEntry (by decide) (by decide)
  words pa apart := by
    refine Machine.loadWord_congr h.size fun aligned => ?_
    have hi : pa % pageSize / 4 < tableEntries := by
      simp only [pageSize, tableEntries]
      omega
    by_cases high : userSlots ≤ pa % pageSize / 4
    · exact congrArg Entry.raw (h.kernel (alignDown pa) _ high hi)
    · -- A word of a user half is in a frame that is not on the move.
      have still : ¬ s.Outgoing (alignDown pa) := fun out =>
        apart _ _ out (not_le.1 high) (by simp only [alignDown, pageSize]; omega)
      have page : t.snapshot.page (alignDown pa) = s.snapshot.page (alignDown pa) :=
        h.page _ (fun eq => still (.inl eq)) fun r hr eq => still (.inr ⟨r, hr, eq⟩)
      exact congrArg (fun g : Page => g.get (pa % pageSize / 4)) page

end KeepsSpaces
end KernelState

namespace Kernel

variable {s : KernelState} {p : Nat}

theorem discard_of_ok {α : Type} {x : Kernel α} {t : KernelState} {a : α} (h : x s = .ok a t) :
    (discard x : Kernel Unit) s = .ok () t := by
  simp [Functor.discard, Functor.mapConst, EStateM.map, h]

/-- The space that is resident already costs memory and the TLB nothing. -/
theorem switch_resident (live : s.snapshot.Live s.spaces.active) :
    ∃ t, switch s.spaces.active s = .ok s.spaces.active t ∧ t.machine = s.machine := by
  obtain ⟨r, hr⟩ := Option.isSome_iff_exists.1 live
  change s.spaces.find? s.spaces.active = some r at hr
  have found : space s.spaces.active s = .ok r s := by
    refine (bind_of_ok (rfl : (get : Kernel KernelState) s = .ok s s) _).trans ?_
    simp only [hr]
    rfl
  have read : active s = .ok s.spaces.active s := rfl
  have stays : switch s.spaces.active s = (do
      countSwitch
      setActive s.spaces.active
      return s.spaces.active : Kernel Nat) s := by
    refine (bind_of_ok found _).trans ((bind_of_ok read _).trans ((bind_of_ok found _).trans ?_))
    rw [if_pos rfl]
  exact ⟨_, stays, rfl⟩

theorem switch_keeps (h : s.snapshot.Switchable) (live : s.snapshot.Live p) :
    ∃ t, switch p s = .ok s.spaces.active t ∧ s.snapshot.Switched t.snapshot p ∧
      (p = s.spaces.active → t.machine = s.machine) := by
  obtain ⟨v, there, switched⟩ := switch_yields h live
  obtain ⟨t, run, rfl⟩ := there s rfl
  refine ⟨t, run, switched, ?_⟩
  rintro rfl
  obtain ⟨t', run', same⟩ := switch_resident live
  rw [run] at run'
  cases run'
  exact same

/-- What every switch keeps, every sequence of switches between live spaces keeps. -/
theorem switchAll_induction {I : KernelState → Prop} (ps : List Nat)
    (switchable : ∀ s, I s → s.snapshot.Switchable)
    (step : ∀ s t p, I s → s.snapshot.Live p → s.snapshot.Switched t.snapshot p → I t)
    (first : I s) (live : ∀ p ∈ ps, s.snapshot.Live p) :
    ∃ t, switchAll ps s = .ok () t ∧ t.spaces.active = ps.getLastD s.spaces.active ∧ I t := by
  induction ps generalizing s with
  | nil => exact ⟨s, rfl, rfl, first⟩
  | cons p ps ih =>
    have now := live p List.mem_cons_self
    obtain ⟨u, run, switched, -⟩ := switch_keeps (switchable s first) now
    have alive : ∀ q ∈ ps, u.snapshot.Live q := by
      intro q hq
      unfold Live
      rw [switched.find?]
      exact live q (List.mem_cons_of_mem p hq)
    obtain ⟨t, rest, last, holds⟩ := ih (step s u p first now switched) alive
    have active : u.spaces.active = p := congrArg (·.spaces.active) switched.books
    refine ⟨t, ?_, ?_, holds⟩
    · rw [switchAll, bind_of_ok (discard_of_ok run)]
      exact rest
    · rw [last, active, List.getLastD_cons]

theorem switchAll_keeps {ps : List Nat} (h : s.snapshot.Switchable)
    (live : ∀ p ∈ ps, s.snapshot.Live p) :
    ∃ t, switchAll ps s = .ok () t ∧ t.spaces.active = ps.getLastD s.spaces.active ∧
      s.KeepsSpaces t s.Directory := by
  obtain ⟨t, run, last, -, keeps⟩ := switchAll_induction ps
    (I := fun u => u.snapshot.Switchable ∧ s.KeepsSpaces u s.Directory) (fun _ => And.left)
    (fun u v p hu alive switched => ⟨hu.1.switched alive switched,
      hu.2.trans (.of_switched switched) fun f => hu.2.outgoing⟩)
    ⟨h, .refl s _⟩ live
  exact ⟨t, run, last, keeps⟩

/-- Programs find their memory as it was, whichever spaces were resident in between. -/
theorem switchAll_memory {O : Finset Nat} {ps : List Nat} (h : s.snapshot.Settled O)
    (live : ∀ p ∈ ps, s.snapshot.Live p) :
    ∃ t, switchAll ps s = .ok () t ∧ t.memory = s.memory := by
  obtain ⟨t, run, -, -, same⟩ := switchAll_induction ps
    (I := fun u => u.snapshot.Settled O ∧ u.memory = s.memory)
    (fun u hu => by
      obtain ⟨role, stable⟩ := hu.1.stable
      exact stable.toSound.switchable)
    (fun u v p hu alive switched => by
      have settled := hu.1.switched alive switched
      refine ⟨settled, ?_⟩
      rw [memory_eq settled, memory_congr (switched.contents hu.1), ← memory_eq hu.1]
      exact hu.2)
    ⟨h, rfl⟩ live
  exact ⟨t, run, same⟩

end Kernel

/-- A switch to a live space makes it active and keeps every space; so does every sequence of
switches. Every session can switch, and none of its programs notices. -/
theorem Session.switches_keep_spaces {n reserved : Nat} {setup : List (Nat × UInt32)}
    (small : Ram.Addressable n) (prepares : KernelState.Prepares n reserved setup) :
    (∀ s : KernelState, s.snapshot.Switchable → ∀ p, s.snapshot.Live p →
      ∃ t, Kernel.switch p s = .ok s.spaces.active t ∧ t.spaces.active = p ∧
        s.KeepsSpaces t s.Outgoing ∧ (p = s.spaces.active → t.machine = s.machine)) ∧
      (∀ s : KernelState, s.snapshot.Switchable → ∀ ps : List Nat,
        (∀ p ∈ ps, s.snapshot.Live p) →
          ∃ t, Kernel.switchAll ps s = .ok () t ∧ t.spaces.active = ps.getLastD s.spaces.active ∧
            s.KeepsSpaces t s.Directory) ∧
      ∀ σ, Session.Reaches Permits n reserved setup σ → σ.snapshot.Switchable ∧
        ∀ ps : List Nat, (∀ p ∈ ps, σ.snapshot.Live p) →
          ∃ t, Kernel.switchAll ps σ.state = .ok () t ∧ t.memory = σ.state.memory := by
  refine ⟨?_, fun s h ps => Kernel.switchAll_keeps h, ?_⟩
  · intro s h p live
    obtain ⟨t, run, switched, resident⟩ := Kernel.switch_keeps h live
    exact ⟨t, run, congrArg (·.spaces.active) switched.books, .of_switched switched, resident⟩
  · intro σ reached
    obtain ⟨settled, -⟩ := reached.settled (fun _ _ _ => id) small prepares
    obtain ⟨role, stable⟩ := settled.stable
    exact ⟨stable.toSound.switchable, fun ps => Kernel.switchAll_memory settled⟩

/-- Two spaces take turns after a boot. -/
theorem Session.switches_keep_spaces_created :
    ∃ σ τ, Session.boot? 6 0 [] = some σ ∧ σ.next? .create = some τ ∧ Ram.Addressable 6 ∧
      KernelState.Prepares 6 0 [] ∧ Session.Reaches Permits 6 0 [] τ ∧ τ.snapshot.Switchable ∧
      τ.snapshot.Live 0 ∧ τ.snapshot.Live 1 ∧
      (∃ t, Kernel.switch 1 τ.state = .ok τ.state.spaces.active t ∧ t.spaces.active = 1 ∧
        τ.state.KeepsSpaces t τ.state.Outgoing) ∧
      (∃ t, Kernel.switchAll [1, 0, 1] τ.state = .ok () t ∧ t.spaces.active = 1 ∧
        τ.state.KeepsSpaces t τ.state.Directory) ∧
      ∃ t, Kernel.switchAll [1, 0, 1] τ.state = .ok () t ∧ t.memory = τ.state.memory := by
  have runs : (((Session.boot? 6 0 []).bind (·.next? .create)).filter fun τ =>
      τ.snapshot.Live 0 ∧ τ.snapshot.Live 1).isSome = true := by decide +kernel
  obtain ⟨τ, run⟩ := Option.isSome_iff_exists.1 runs
  obtain ⟨run, both⟩ := Option.filter_eq_some_iff.1 run
  obtain ⟨σ, boot, call⟩ := Option.bind_eq_some_iff.1 run
  obtain ⟨zero, one⟩ := of_decide_eq_true both
  have reaches : Session.Reaches Permits 6 0 [] τ := (Reaches.of_boot? boot).next? call trivial
  have prepares := KernelState.prepares_nil 6
  obtain ⟨each, all, sessions⟩ := switches_keep_spaces (n := 6) (by decide) prepares
  obtain ⟨switchable, unseen⟩ := sessions τ reaches
  have live : ∀ p ∈ [1, 0, 1], τ.snapshot.Live p := by simp [zero, one]
  obtain ⟨t, run, active, keeps, -⟩ := each _ switchable 1 one
  exact ⟨σ, τ, boot, call, by decide, prepares, reaches, switchable, zero, one,
    ⟨t, run, active, keeps⟩, all _ switchable _ live, unseen _ live⟩

end VirtualMemory
