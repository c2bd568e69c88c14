import VirtualMemory.Proofs.Sharing.Mappings
import VirtualMemory.Proofs.Sharing.Memory

/-!
# Pages that are counted in full

A fault takes a share count of one for exclusive ownership, which is right for a frame that is
mapped no more often than it is counted. Where that holds of all pages of some spaces, what may be
written in them is mapped once, and a store in one of them is seen in no other; switches, faults,
stores and forks keep it so. It is not enough for a frame that was mapped without being counted:
a fork counts one of two entries then.
-/
namespace VirtualMemory.Snapshot

open Layout

/-- In the spaces of `S`, no page is in a frame that is mapped more often than it is counted. -/
def Backed (w : Snapshot) (S : Nat → Prop) : Prop :=
  ∀ x e, S x.1 → w.userPages x = some e → (w.mappings e.frame).ncard ≤ w.shares.get e.frame

/-- In the spaces of `S`, a page that may be written is the only one in its frame. -/
def Lone (w : Snapshot) (S : Nat → Prop) : Prop :=
  ∀ x e, S x.1 → w.userPages x = some e → e.isWritable = true → (w.mappings e.frame).ncard ≤ 1

structure Guarded (w : Snapshot) (S : Nat → Prop) : Prop where
  backed : w.Backed S
  lone : w.Lone S

variable {w v : Snapshot} {O Q : Finset Nat} {S T : Nat → Prop} {ρ : Place} {x y : Position}
  {e : Entry} {parent child va t : Nat}

theorem Lone.eq (h : w.Settled O) (lone : w.Lone S) (mine : S x.1) (page : w.userPages x = some e)
    (writable : e.isWritable = true) (hy : y ∈ w.references e.frame) : y = x := by
  obtain ⟨e', page', same⟩ := mem_references.1 hy
  have one := (Set.ncard_le_one (h.finite_mappings _)).1 (lone x e mine page writable)
  have there := mem_mappings_of_userPages page'
  rw [same] at there
  exact Position.entry_injective (one _ there _ (mem_mappings_of_userPages page))

/-- No other space has a page in the frame of a lone one. -/
theorem Lone.pagesIn_eq_zero {p : Nat} (h : w.Settled O) (lone : w.Lone S) (mine : S x.1)
    (page : w.userPages x = some e) (writable : e.isWritable = true) (live : w.Live p)
    (other : p ≠ x.1) : w.pagesIn p (userSlots * tableEntries) e.frame = 0 := by
  rw [pagesIn_eq_card live, Finset.card_eq_zero, Finset.filter_eq_empty_iff]
  rintro y hy rfl
  exact other (congrArg Prod.fst (lone.eq h mine page writable hy))

/-- The copy is counted once more than before, and the frame that it replaces once less. -/
theorem Copied.counts {copy : Nat} (h : w.Settled O) (held : w.KernelHeld O)
    (hd : dirIndex va < mountTableSlot) (page : w.pageAt? va = some e)
    (replaced : w.Copied v O va e copy) :
    v.shares.get copy = w.shares.get copy + 1 ∧
      ∀ f, f ≠ copy → v.shares.get f = w.shares.get f ∨
        (w.here (dirIndex va), tableIndex va) ∈ w.mappings f ∧
          v.shares.get f = w.shares.get f - 1 := by
  obtain ⟨role, stable⟩ := h.stable
  obtain ⟨c, rfl, shares⟩ := replaced.shares
  have old := mem_mappings_of_page (has_here stable.live_active hd) (tableIndex_lt va) page
  have apart : e.frame ≠ copy := fun eq => replaced.fresh (eq ▸ h.mapping_held held old)
  constructor
  · rw [shares, Shares.get_set, if_pos rfl, Shares.get_set, if_neg apart]
  · intro f other
    rw [shares, Shares.get_set, if_neg other.symm, Shares.get_set]
    split
    · subst f
      exact .inr ⟨old, rfl⟩
    · exact .inl rfl

namespace Guarded

theorem mono (g : w.Guarded S) (sub : ∀ p, T p → S p) : w.Guarded T :=
  ⟨fun x e mine => g.backed x e (sub _ mine), fun x e mine => g.lone x e (sub _ mine)⟩

/-- Pages keep their frames, and get the right to write only where they are counted once. -/
theorem reframe (g : w.Guarded S) (mappings : ∀ f, v.mappings f = w.mappings f)
    (shares : v.shares = w.shares)
    (frames : ∀ x, (v.userPages x).map Entry.frame = (w.userPages x).map Entry.frame)
    (grants : ∀ x e, S x.1 → v.userPages x = some e → e.isWritable = true →
      w.userPages x = some e ∨ w.shares.get e.frame ≤ 1) : v.Guarded S := by
  have backed : v.Backed S := by
    intro x e mine page
    have old := (frames x).symm
    rw [page] at old
    obtain ⟨e', page', same⟩ := Option.map_eq_some_iff.1 old
    rw [mappings, shares, ← same]
    exact g.backed x e' mine page'
  refine ⟨backed, ?_⟩
  intro x e mine page writable
  rcases grants x e mine page writable with old | one
  · rw [mappings]
    exact g.lone x e mine old writable
  · have counted := backed x e mine page
    rw [shares] at counted
    exact counted.trans one

theorem same (g : w.Guarded S) (mappings : ∀ f, v.mappings f = w.mappings f)
    (shares : v.shares = w.shares) (pages : v.userPages = w.userPages) : v.Guarded S :=
  g.reframe mappings shares (fun x => by rw [pages]) fun x e _ page _ => .inl (pages ▸ page)

/-- A frame that was mapped nowhere is mapped once and counted. The frame that was there before
loses one entry, and may lose one count. -/
theorem put (h : w.Settled O) (g : w.Guarded S) (spaces : v.spaces = w.spaces)
    (leaf : ∀ π i, w.Has π → i < tableEntries → v.leaf? π i = w.pagesWith ρ t (some e) π i)
    (fresh : w.mappings e.frame = ∅) (counted : 1 ≤ v.shares.get e.frame)
    (others : ∀ f, f ≠ e.frame → v.shares.get f = w.shares.get f ∨
      (ρ, t) ∈ w.mappings f ∧ v.shares.get f = w.shares.get f - 1) : v.Guarded S := by
  have once : (v.mappings e.frame).ncard ≤ 1 := by
    have sub := Set.ncard_le_ncard (mappings_put spaces leaf fresh) (Set.finite_singleton _)
    rwa [Set.ncard_singleton] at sub
  have less (f : Nat) (other : f ≠ e.frame) :
      (v.mappings f).ncard ≤ (w.mappings f \ {(ρ, t)}).ncard :=
    Set.ncard_le_ncard (mappings_put_of_ne spaces leaf other) (h.finite_mappings f).sdiff
  have apart {y : Position} {e' : Entry} (page : w.userPages y = some e') :
      e'.frame ≠ e.frame := by
    intro same
    have there := mem_mappings_of_userPages page
    simp [same, fresh] at there
  constructor
  · intro y e' mine page
    obtain ⟨-, ⟨⟩⟩ | ⟨-, old⟩ := userPages_with spaces leaf page
    · exact once.trans counted
    · have fewer := less e'.frame (apart old)
      have before := g.backed y e' mine old
      obtain same | ⟨there, lost⟩ := others e'.frame (apart old)
      · have sub := Set.ncard_le_ncard (s := w.mappings e'.frame \ {(ρ, t)}) Set.sdiff_subset
          (h.finite_mappings _)
        omega
      · rw [Set.ncard_sdiff_singleton_of_mem there] at fewer
        omega
  · intro y e' mine page writable
    obtain ⟨-, ⟨⟩⟩ | ⟨-, old⟩ := userPages_with spaces leaf page
    · exact once
    · exact ((less _ (apart old)).trans (Set.ncard_le_ncard Set.sdiff_subset
        (h.finite_mappings _))).trans (g.lone y e' mine old writable)

theorem switched {p : Nat} (h : w.Settled O) (g : w.Guarded S) (s : w.Switched v p) :
    v.Guarded S :=
  g.same (mappings_switched h s) (by rw [s.books]) (s.userPages h)

theorem setPage {f : Nat} (h : w.Settled O) (g : w.Guarded S) (hf : f ∈ O) (page : Page) :
    (w.setPage f page).Guarded S :=
  g.same (mappings_setPage h hf page) rfl (userPages_setPage h hf page)

/-- A fault gives the right to write to a page that is counted once, or maps a frame that nobody
has known. -/
theorem resolved (h : w.Settled O) (held : w.KernelHeld O) (hd : dirIndex va < mountTableSlot)
    (g : w.Guarded S) (r : w.Resolved O va v Q) : v.Guarded S := by
  cases r with
  | untouched => exact g
  | @granted v e page lone settled pages =>
    have there : (some (e.set EntryFlags.writable)).map Entry.frame =
        (w.leaf? (w.here (dirIndex va)) (tableIndex va)).map Entry.frame := by
      rw [show w.leaf? _ _ = some e from page, Option.map_some, Option.map_some,
        Entry.frame_set_writable]
    refine g.reframe (mappings_replaced pages.spaces pages.leaf there) pages.shares
      (userFrames_replaced pages.spaces pages.leaf there) ?_
    intro x e' _ page' _
    obtain ⟨-, ⟨⟩⟩ | ⟨-, old⟩ := userPages_with pages.spaces pages.leaf page'
    · exact .inr (by rw [Entry.frame_set_writable, lone])
    · exact .inl old
  | @copied v e copy page several replaced =>
    obtain ⟨one, others⟩ := replaced.counts h held hd page
    have fresh := h.mappings_fresh held replaced.fresh
    rw [← replaced.frame] at fresh one others
    exact g.put h replaced.spaces replaced.leaf fresh (by omega) others

end Guarded

/-! ## Forks -/

section Fork
variable (h : w.Settled O) (live : w.Live parent) (live' : w.Live child)
  (fork : w.Forked v O parent child)
include h live live' fork

/-- What the child maps is counted once more. -/
theorem Backed.forked (backed : w.Backed S) (mine : S parent) :
    v.Backed fun p => S p ∨ p = child := by
  intro x e either page
  have frames := w.frame_forkedUserPages parent child x
  rw [← fork.userPages live live', page] at frames
  obtain ⟨e', page', same⟩ := Option.map_eq_some_iff.1 frames.symm
  have before := backed _ e' (by split <;> simp_all) page'
  have more := fork.ncard_mappings_le h live e.frame
  have counted := fork.shares e.frame
  rw [same] at before
  omega

/-- What may still be written is neither the parent's nor the child's, and shared with neither. -/
theorem Lone.forked (lone : w.Lone fun p => S p ∧ p ≠ parent) :
    v.Lone fun p => S p ∨ p = child := by
  intro x e either page writable
  have more := fork.ncard_mappings_le h live e.frame
  rw [fork.userPages live live', forkedUserPages] at page
  split at page
  · obtain ⟨e', -, rfl⟩ := Option.map_eq_some_iff.1 page
    simp at writable
  · rename_i outside
    obtain ⟨notParent, notChild⟩ := not_or.1 outside
    have mine : S x.1 ∧ x.1 ≠ parent := ⟨either.resolve_right notChild, notParent⟩
    have none := lone.pagesIn_eq_zero h mine page writable live (Ne.symm notParent)
    have one := lone x e mine page writable
    omega

theorem Guarded.forked (backed : w.Backed S) (mine : S parent)
    (lone : w.Lone fun p => S p ∧ p ≠ parent) : v.Guarded fun p => S p ∨ p = child :=
  ⟨backed.forked h live live' fork mine, lone.forked h live live' fork⟩

end Fork

/-! ## Runs of programs -/

/-- What goes on between the calls of programs: switches, faults and stores. -/
def Runs (_ : Snapshot) (_ : Finset Nat) : Call → Prop
  | .switch _ => True
  | .pageFault va _ => dirIndex va < mountTableSlot
  | .userWrite va _ => va < kernelStart
  | _ => False

variable {c : Call} {r : Except ArgumentError Answer}

theorem Runs.permits (allowed : w.Runs O c) : w.Permits O c := by
  cases c with
  | switch => trivial
  | pageFault | userWrite => exact allowed
  | _ => cases allowed

theorem Guarded.runs (h : w.Settled O) (held : w.KernelHeld O) (g : w.Guarded S)
    (allowed : w.Runs O c) (effect : w.Effect O c r v Q) : v.Guarded S := by
  cases effect with
  | refused => exact g
  | switched _ _ switched => exact g.switched h switched
  | faulted resolved => exact g.resolved h held allowed resolved
  | stored user resolved page =>
    have settled := resolved.settled h
    exact (g.resolved h held (dirIndex_user_lt user) resolved).setPage settled
      (settled.pageAt?_owned user page) _
  | reowned call | vacated call | taken call => rcases call with rfl | rfl | rfl <;> cases allowed
  | _ => cases allowed

/-- A store in a guarded space is seen in no other space. -/
theorem Guarded.memory_of_ne {value : UInt8} (h : w.Settled O) (held : w.KernelHeld O)
    (g : w.Guarded S) (mine : S w.spaces.active)
    (effect : w.Effect O (.userWrite va value) r v Q) {q : Nat} (other : q ≠ w.spaces.active) :
    v.memory q = w.memory q := by
  cases effect with
  | refused => rfl
  | stored user resolved page writable =>
    have settled := resolved.settled h
    have there := page
    rw [pageAt?_eq settled user, resolved.spaces] at there
    have lone := (g.resolved h held (dirIndex_user_lt user) resolved).lone
    rw [(resolved.memory_stored h user page fun y hy => lone.eq settled mine there writable hy).2,
      Function.update_of_ne other]
  | reowned call | vacated call | taken call => simp at call

end VirtualMemory.Snapshot
