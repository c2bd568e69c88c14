import VirtualMemory.Proofs.Calls.PageWork

/-!
# Which space is resident

A call on pages of a space does the same whichever space is resident before it. If it is the space
itself, nothing is copied; otherwise user halves are copied out and in around the same work. After
the switch to the space both ways differ in one frame only, the one that the space's user half is
stored in while another space is resident, and that frame is written again when the space leaves.
-/
namespace VirtualMemory

open Layout Snapshot Kernel

namespace Snapshot

/-- After any number of switches, the last of them to `p`. -/
structure Seated (w v : Snapshot) (p : Nat) : Prop where
  root : v.root = w.root
  size : v.size = w.size
  books : v.toBooks = { w.toBooks with spaces := { w.spaces with active := p } }
  slotAt : ∀ π, w.Has π → v.slotAt π = w.slotAt π
  kernel : ∀ f i, userSlots ≤ i → i < tableEntries → v.entry f i = w.entry f i
  page : ∀ f, f ≠ w.root → (∀ q r, w.spaces.find? q = some r → r.directory ≠ f) →
    v.page f = w.page f

/-- The same spaces with the same user halves and tables, and the same frames elsewhere, whichever
space is active. -/
structure SameSpaces (w v : Snapshot) : Prop where
  free : v.free = w.free
  shares : v.shares = w.shares
  occupancy : v.occupancy = w.occupancy
  spaces : v.spaces = { w.spaces with active := v.spaces.active }
  slotAt : ∀ π, w.Has π → v.slotAt π = w.slotAt π
  table : ∀ π, w.Has π → (w.slotAt π).isPresent = true →
    v.page (w.slotAt π).frame = w.page (w.slotAt π).frame
  /-- The directories' frames hold copies that need not be up to date. -/
  page : ∀ f, f ∉ w.free → f ≠ w.root → (∀ q r, w.spaces.find? q = some r → r.directory ≠ f) →
    v.page f = w.page f

variable {w v u x y : Snapshot} {role : Nat → Role} {p q : Nat} {r : SpaceRecord}

theorem Switched.seated (s : w.Switched v p) : w.Seated v p where
  root := s.root
  size := s.size
  books := s.books
  slotAt := s.slotAt
  kernel := s.kernel
  page f hf other := s.page f hf fun r hr => (other _ r hr).symm

namespace Seated

theorem find? (h : w.Seated v p) (q : Nat) : v.spaces.find? q = w.spaces.find? q := by
  rw [h.books]
  rfl

theorem has (h : w.Seated v p) (π : Place) : v.Has π ↔ w.Has π := by
  cases π with
  | user q d => rw [Has, Has, Live, Live, h.find?]
  | kernel d => exact Iff.rfl

/-- The space that is resident is live. -/
theorem live (h : w.Seated v p) (placed : v.Placed role) : w.Live p := by
  have live := placed.lodged.live_active
  rw [Live, h.find?, h.books] at live
  exact live

theorem trans (h : w.Seated v q) (h' : v.Seated u p) : w.Seated u p where
  root := h'.root.trans h.root
  size := h'.size.trans h.size
  books := by rw [h'.books, h.books]
  slotAt π hπ := (h'.slotAt π ((h.has π).2 hπ)).trans (h.slotAt π hπ)
  kernel f i low hi := (h'.kernel f i low hi).trans (h.kernel f i low hi)
  page f hf other := by
    refine (h'.page f (h.root ▸ hf) fun q r hr => other q r ?_).trans (h.page f hf other)
    rw [← h.find?, hr]

/-- The stored half of the space that is resident is all that can differ. -/
theorem alike (h : w.Seated x p) (h' : w.Seated y p) (hr : w.spaces.find? p = some r) :
    x.Alike y {r.directory} := by
  refine ⟨h'.root.trans h.root.symm, h'.size.trans h.size.symm, h'.books.trans h.books.symm,
    fun f _ hf => ?_⟩
  rw [Finset.mem_singleton] at hf
  have live : w.Live p := Option.isSome_iff_exists.2 ⟨r, hr⟩
  have low {f q : Nat} (hq : w.Live q) (hx : x.home q = f) (hy : y.home q = f) :
      y.page f = x.page f :=
    page_eq_of_home hx hy
      (fun d hd => (h'.slotAt (.user q d) ⟨hq, hd⟩).trans (h.slotAt (.user q d) ⟨hq, hd⟩).symm)
      fun d low hd => (h'.kernel f d low hd).trans (h.kernel f d low hd).symm
  have active : x.spaces.active = p := by rw [h.books]
  have active' : y.spaces.active = p := by rw [h'.books]
  by_cases root : f = w.root
  · refine low live ?_ ?_
    · rw [← active, home_active, h.root, root]
    · rw [← active', home_active, h'.root, root]
  by_cases stored : ∃ q s, w.spaces.find? q = some s ∧ s.directory = f
  · obtain ⟨q, s, hs, rfl⟩ := stored
    have other : q ≠ p := by
      rintro rfl
      rw [hr] at hs
      cases hs
      exact hf rfl
    refine low (Option.isSome_iff_exists.2 ⟨s, hs⟩) ?_ ?_
    · exact home_of_ne (by rwa [active]) ((h.find? q).trans hs)
    · exact home_of_ne (by rwa [active']) ((h'.find? q).trans hs)
  · rw [h.page f root fun q s hs same => stored ⟨q, s, hs, same⟩,
      h'.page f root fun q s hs same => stored ⟨q, s, hs, same⟩]

end Seated

/-- Whichever spaces become resident, all of them are found as they were. -/
theorem SameSpaces.of_alike {a b : Nat} (alike : w.Alike v {r.directory}) (placed : w.Placed role)
    (hr : w.spaces.find? w.spaces.active = some r) (h : w.Seated x a) (h' : v.Seated y b) :
    x.SameSpaces y := by
  have spaces := alike.spaces
  have has (π : Place) : v.Has π ↔ w.Has π := has_congr spaces π
  have slots (π : Place) (hπ : w.Has π) : y.slotAt π = x.slotAt π := by
    rw [h'.slotAt π ((has π).2 hπ), h.slotAt π hπ]
    refine alike.slotAt placed (fun f hf => ?_) hπ
    rw [Finset.mem_singleton] at hf
    subst hf
    exact ⟨placed.lodged.housed.ne_root _ r hr, fun q s hs other same =>
      other (placed.lodged.housed.apart _ _ _ _ hs hr same)⟩
  have pages (f : Nat) (free : f ∉ w.free) (root : f ≠ w.root)
      (dir : ∀ q s, w.spaces.find? q = some s → s.directory ≠ f) : y.page f = x.page f := by
    rw [h'.page f (alike.root ▸ root) (spaces ▸ dir), h.page f root dir]
    exact alike.page f free (by simpa using (dir _ r hr).symm)
  refine ⟨?_, ?_, ?_, ?_, fun π hπ => slots π ((h.has π).1 hπ), fun π hπ present => ?_,
    fun f free root dir => pages f ?_ (h.root ▸ root) fun q s hs => dir q s ((h.find? q).trans hs)⟩
  · rw [h.books, h'.books]
    exact alike.free
  · rw [h.books, h'.books]
    exact alike.shares
  · rw [h.books, h'.books]
    exact alike.occupancy
  · rw [h.books, h'.books]
    exact congrArg (fun s : Spaces => { s with active := b }) spaces
  · have hπ' := (h.has π).1 hπ
    rw [h.slotAt π hπ'] at present ⊢
    have table := placed.lodged.table_slotAt hπ' present
    refine pages _ ?_ (placed.lodged.ne_root (by simp [table]))
      (placed.lodged.not_directory (by simp [table]))
    rw [← placed.lodged.free, table]
    simp
  · rwa [h.books] at free

end Snapshot

namespace Kernel

variable {w : Snapshot} {p : Nat}

/-- Work on a space that others have left the processor to, in two states. -/
theorem within_seated {body : Kernel Unit} {s₁ s₂ : KernelState} {q₁ q₂ : Nat}
    (placed₁ : ∃ role, s₁.snapshot.Placed role) (placed₂ : ∃ role, s₂.snapshot.Placed role)
    (h₁ : w.Seated s₁.snapshot q₁) (h₂ : w.Seated s₂.snapshot q₂) (live : w.Live p)
    (edits : ∀ v role, v.Placed role → Leads Stops body v fun _ u => v.Edits u)
    (twins : ∀ v u K, v.Paired u K → Twins body v u fun _ v' u' => v'.Paired u' K) :
    (∃ t₁ t₂, within p body s₁ = .ok () t₁ ∧ within p body s₂ = .ok () t₂ ∧
      t₁.spaces.active = q₁ ∧ t₂.spaces.active = q₂ ∧ t₁.snapshot.SameSpaces t₂.snapshot) ∨
    ∃ f t₁ t₂, within p body s₁ = .error f t₁ ∧ within p body s₂ = .error f t₂ := by
  obtain ⟨role₁, placed₁⟩ := placed₁
  obtain ⟨role₂, placed₂⟩ := placed₂
  obtain ⟨r, hr⟩ := Option.isSome_iff_exists.1 live
  have start {s : KernelState} {q : Nat} {role : Nat → Role} (placed : s.snapshot.Placed role)
      (h : w.Seated s.snapshot q) : ∃ x : KernelState, switch p s = .ok q x ∧
          w.Seated x.snapshot p ∧ x.snapshot.Placed role := by
    have live' : s.snapshot.Live p := (congrArg Option.isSome (h.find? p)).trans live
    obtain ⟨v, there, switched⟩ := switch_yields placed.lodged.switchable live'
    obtain ⟨x, run, rfl⟩ := there s rfl
    rw [show s.snapshot.spaces.active = q by rw [h.books]] at run
    exact ⟨x, run, h.trans switched.seated, placed.lodged.switched live' switched, placed.rest⟩
  obtain ⟨x₁, run₁, seated₁, there₁⟩ := start placed₁ h₁
  obtain ⟨x₂, run₂, seated₂, there₂⟩ := start placed₂ h₂
  have hr₁ : x₁.snapshot.spaces.find? p = some r := (seated₁.find? p).trans hr
  have dir := (there₁.lodged.directory r.directory p).2 ⟨r, hr₁, rfl⟩
  have paired : x₁.snapshot.Paired x₂.snapshot {r.directory} :=
    ⟨⟨role₁, there₁⟩, .singleton there₁.lodged (.inr ⟨p, dir⟩), seated₁.alike seated₂ hr⟩
  rw [within, bind_of_ok run₁, bind_of_ok run₂]
  obtain ⟨⟨⟩, u₁, u₂, work₁, work₂, edited, paired'⟩ | ⟨f, u₁, u₂, work₁, work₂⟩ :=
    ((twins _ _ _ paired).along (edits _ _ there₁)) x₁ x₂ rfl rfl
  · obtain ⟨role, there⟩ := edited.placed
    have back {u : KernelState} {q : Nat} (ready : u.snapshot.Switchable)
        (live' : u.snapshot.Live q) : ∃ t : KernelState, Functor.discard (switch q) u = .ok () t ∧
          u.snapshot.Seated t.snapshot q := by
      obtain ⟨v, there, switched⟩ := switch_yields ready live'
      obtain ⟨t, run, rfl⟩ := there u rfl
      refine ⟨t, ?_, switched.seated⟩
      simp [Functor.discard, Functor.mapConst, EStateM.map, run]
    have alive (q : Nat) (live' : w.Live q) : u₁.snapshot.Live q := by
      rwa [Live, edited.spaces, seated₁.find?]
    have live₂ : u₂.snapshot.Live q₂ := by
      rw [Live, paired'.alike.spaces]
      exact alive q₂ (h₂.live placed₂)
    obtain ⟨t₁, home₁, end₁⟩ := back there.lodged.switchable (alive q₁ (h₁.live placed₁))
    obtain ⟨t₂, home₂, end₂⟩ := back paired'.switchable' live₂
    refine .inl ⟨t₁, t₂, (bind_of_ok work₁ _).trans home₁, (bind_of_ok work₂ _).trans home₂, ?_⟩
    have active : u₁.snapshot.spaces.active = p := by rw [edited.spaces, seated₁.books]
    refine ⟨congrArg (fun b : Books => b.spaces.active) end₁.books,
      congrArg (fun b : Books => b.spaces.active) end₂.books,
      .of_alike paired'.alike there ?_ end₁ end₂⟩
    rw [active, edited.spaces]
    exact hr₁
  · exact .inr ⟨f, u₁, u₂, bind_of_error work₁ _, bind_of_error work₂ _⟩

end Kernel

namespace Call

variable {s : KernelState} {role : Nat → Role} {c : Call} {p q₁ q₂ : Nat}

/-- Whichever space is resident before it, a call on pages answers and does the same. -/
theorem OnPages.agree (on : c.OnPages p) (placed : s.snapshot.Placed role)
    (live₁ : s.snapshot.Live q₁) (live₂ : s.snapshot.Live q₂) :
    (∃ r t₁ t₂, (Kernel.switch q₁ >>= fun _ => c.perform) s = .ok r t₁ ∧
      (Kernel.switch q₂ >>= fun _ => c.perform) s = .ok r t₂ ∧
      t₁.spaces.active = q₁ ∧ t₂.spaces.active = q₂ ∧ t₁.snapshot.SameSpaces t₂.snapshot) ∨
    ∃ f t₁ t₂, (Kernel.switch q₁ >>= fun _ => c.perform) s = .error f t₁ ∧
      (Kernel.switch q₂ >>= fun _ => c.perform) s = .error f t₂ := by
  have start {q : Nat} (live : s.snapshot.Live q) : ∃ y : KernelState,
      Kernel.switch q s = .ok s.spaces.active y ∧ s.snapshot.Seated y.snapshot q ∧
        y.snapshot.Placed role := by
    obtain ⟨v, there, switched⟩ := switch_yields placed.lodged.switchable live
    obtain ⟨y, run, rfl⟩ := there s rfl
    exact ⟨y, run, switched.seated, placed.lodged.switched live switched, placed.rest⟩
  obtain ⟨y₁, run₁, seated₁, there₁⟩ := start live₁
  obtain ⟨y₂, run₂, seated₂, there₂⟩ := start live₂
  have regular₁ : y₁.spaces.Regular := there₁.lodged.regular
  have regular₂ : y₂.spaces.Regular := there₂.lodged.regular
  have same : c.objections y₂.spaces = c.objections y₁.spaces :=
    objections_congr (fun q => (seated₂.find? q).trans (seated₁.find? q).symm) c
  rw [bind_of_ok run₁, bind_of_ok run₂]
  cases first : ArgumentError.first (c.objections y₁.spaces) with
  | some e =>
    obtain ⟨a, ha⟩ := Option.isSome_iff_exists.1 placed.lodged.live_active
    refine .inl ⟨.error e, y₁, y₂, perform_of_refused regular₁ first,
      perform_of_refused regular₂ (same ▸ first), ?_, ?_,
      .of_alike (.refl _ _) placed ha seated₁ seated₂⟩
    · exact congrArg (fun b : Books => b.spaces.active) seated₁.books
    · exact congrArg (fun b : Books => b.spaces.active) seated₂.books
  | none =>
    obtain ⟨alive, work⟩ := action_of_clean on first
    have live : s.snapshot.Live p := by
      rw [Live, ← seated₁.find?]
      exact live_of_not_dead (w := y₁.snapshot) alive
    obtain ⟨t₁, t₂, done₁, done₂, ends⟩ | ⟨f, t₁, t₂, failed₁, failed₂⟩ :=
      within_seated ⟨role, there₁⟩ ⟨role, there₂⟩ seated₁ seated₂ live
        (fun v role h => pageWork_edits on first h) fun v u K h => pageWork_twins on first h
    · refine .inl ⟨.ok .done, t₁, t₂, ?_, ?_, ends⟩
      · rw [perform, attempt, work, bind_of_ok done₁]
        rfl
      · rw [perform, attempt, work, bind_of_ok done₂]
        rfl
    · refine .inr ⟨f, t₁, t₂, ?_, ?_⟩
      · exact stops_of_clean regular₁ first (work ▸ bind_of_error failed₁ _)
      · exact stops_of_clean regular₂ (same ▸ first) (work ▸ bind_of_error failed₂ _)

end Call

namespace Session

/-- In every state of every session, a call on pages of a space answers the same and leaves the
same spaces behind, whichever two spaces were made resident before it. -/
theorem pageCalls_agree {n reserved : Nat} {setup : List (Nat × UInt32)}
    (small : Ram.Addressable n) (prepares : KernelState.Prepares n reserved setup) :
    (∀ (s : KernelState) (role : Nat → Role), s.snapshot.Placed role →
      ∀ (p q₁ q₂ : Nat) (c : Call), c.OnPages p → s.snapshot.Live q₁ → s.snapshot.Live q₂ →
        (∃ r t₁ t₂, (switch q₁ >>= fun _ => c.perform) s = .ok r t₁ ∧
          (switch q₂ >>= fun _ => c.perform) s = .ok r t₂ ∧
          t₁.spaces.active = q₁ ∧ t₂.spaces.active = q₂ ∧ t₁.snapshot.SameSpaces t₂.snapshot) ∨
        ∃ f t₁ t₂, (switch q₁ >>= fun _ => c.perform) s = .error f t₁ ∧
          (switch q₂ >>= fun _ => c.perform) s = .error f t₂) ∧
      ∀ σ, Managed Permits n reserved setup σ → ∃ role, σ.snapshot.Placed role := by
  refine ⟨fun s role placed p q₁ q₂ c on live₁ live₂ => on.agree placed live₁ live₂, ?_⟩
  intro σ managed
  exact (managed.settled (fun _ _ _ => id) small prepares).placed

/-- A page is added to the second space, once while it is stored away and once in place. -/
theorem pageCalls_agree_added : ∃ σ τ t₁ t₂, boot? 8 0 [] = some σ ∧ σ.next? .create = some τ ∧
    Ram.Addressable 8 ∧ KernelState.Prepares 8 0 [] ∧ Managed Permits 8 0 [] τ ∧
    (switch 0 >>= fun _ => (Call.add 1 0x400000 0x107000 .userRW).perform) τ.state =
      .ok (.ok .done) t₁ ∧
    (switch 1 >>= fun _ => (Call.add 1 0x400000 0x107000 .userRW).perform) τ.state =
      .ok (.ok .done) t₂ ∧
    t₁.spaces.active = 0 ∧ t₂.spaces.active = 1 ∧ t₁.snapshot.SameSpaces t₂.snapshot := by
  have runs : (((boot? 8 0 []).bind (·.next? .create)).filter fun τ => τ.snapshot.Live 0 ∧
      τ.snapshot.Live 1 ∧ (EStateM.run' (switch 1 >>= fun _ =>
        (Call.add 1 0x400000 0x107000 .userRW).perform) τ.state) = some (.ok .done)).isSome =
          true := by decide +kernel
  obtain ⟨τ, run⟩ := Option.isSome_iff_exists.1 runs
  obtain ⟨run, holds⟩ := Option.filter_eq_some_iff.1 run
  obtain ⟨live₀, live₁, answered⟩ := of_decide_eq_true holds
  obtain ⟨σ, boot, create⟩ := Option.bind_eq_some_iff.1 run
  have small : Ram.Addressable 8 := by decide
  have prepares := KernelState.prepares_nil 8
  have managed : Managed Permits 8 0 [] τ := ((Reaches.of_boot? boot).next? create trivial).managed
  obtain ⟨agree, placed⟩ := pageCalls_agree small prepares
  obtain ⟨role, placed⟩ := placed τ managed
  have on : (Call.add 1 0x400000 0x107000 .userRW).OnPages 1 := ⟨rfl, by decide⟩
  unfold EStateM.run' EStateM.run at answered
  obtain ⟨r, t₁, t₂, left, right, ends⟩ | ⟨f, t₁, t₂, -, right⟩ :=
    agree τ.state role placed 1 0 1 _ on live₀ live₁
  · rw [right] at answered
    cases answered
    exact ⟨σ, τ, t₁, t₂, boot, create, small, prepares, managed, left, right, ends⟩
  · rw [right] at answered
    cases answered

end Session
end VirtualMemory
