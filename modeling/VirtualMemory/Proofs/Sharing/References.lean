import VirtualMemory.Proofs.Sharing.UserPages

/-!
# References

The positions of the user pages that are in one frame, over all live spaces, and how they move: one
page more or less is one reference more or less, and a fork doubles those of the parent.
-/
namespace VirtualMemory.Snapshot

open Layout

/-- The positions in live spaces. -/
def positions (w : Snapshot) : Finset Position :=
  w.spaces.records.keys.toFinset ×ˢ Finset.range userSlots ×ˢ Finset.range tableEntries

def references (w : Snapshot) (f : Nat) : Finset Position :=
  w.positions.filter fun x => (w.userPages x).map Entry.frame = some f

/-- One, for a page in frame `f`. -/
def tally (o : Option Entry) (f : Nat) : Nat := if o.map Entry.frame = some f then 1 else 0

/-- Whoever may write to a page is the only one to refer to its frame. -/
def Exclusive (w : Snapshot) : Prop :=
  ∀ x e, w.userPages x = some e → e.isWritable = true → (w.references e.frame).card = 1

variable {w v : Snapshot} {x y : Position} {e : Entry} {f p parent child : Nat}
  {new : Option Entry}

theorem mem_positions : x ∈ w.positions ↔
    w.Live x.1 ∧ x.2.1 < userSlots ∧ x.2.2 < tableEntries := by
  have live : x.1 ∈ w.spaces.records.keys ↔ w.Live x.1 := by
    rw [Std.ExtTreeMap.mem_keys, Live, Spaces.find?, Std.ExtTreeMap.isSome_getElem?_iff_mem]
  simp only [positions, Finset.mem_product, List.mem_toFinset, Finset.mem_range, live]

theorem mem_references : x ∈ w.references f ↔ ∃ e, w.userPages x = some e ∧ e.frame = f := by
  rw [references, Finset.mem_filter, Option.map_eq_some_iff, and_iff_right_iff_imp]
  rintro ⟨e, page, -⟩
  obtain ⟨has, ht, -⟩ := userPages_eq_some.1 page
  exact mem_positions.2 ⟨has.1, has.2, ht⟩

theorem mem_references_frame (page : w.userPages x = some e) : x ∈ w.references e.frame :=
  mem_references.2 ⟨e, page, rfl⟩

theorem mem_references_iff : x ∈ w.references f ↔ (w.userPages x).map Entry.frame = some f := by
  rw [mem_references, Option.map_eq_some_iff]

/-! ## Fewer pages -/

theorem references_subset (sub : ∀ x e, v.userPages x = some e → w.userPages x = some e)
    (f : Nat) : v.references f ⊆ w.references f := by
  intro x hx
  obtain ⟨e, page, frame⟩ := mem_references.1 hx
  exact mem_references.2 ⟨e, sub x e page, frame⟩

theorem Exclusive.subset (h : w.Exclusive)
    (sub : ∀ x e, v.userPages x = some e → w.userPages x = some e) : v.Exclusive := by
  intro x e page writable
  have one := h x e (sub x e page) writable
  have fewer := Finset.card_le_card (references_subset sub e.frame)
  have some := Finset.card_pos.2 ⟨x, mem_references_frame page⟩
  omega

/-- References are to frames, with whatever rights. -/
theorem references_reframe
    (frames : ∀ x, (v.userPages x).map Entry.frame = (w.userPages x).map Entry.frame) (f : Nat) :
    v.references f = w.references f := by
  ext x
  rw [mem_references_iff, mem_references_iff, frames]

theorem references_congr (same : v.userPages = w.userPages) (f : Nat) :
    v.references f = w.references f := references_reframe (fun x => by rw [same]) f

/-! ## One page -/

/-- The only reference to the frame of a page that may be written. -/
theorem Exclusive.eq (h : w.Exclusive) (page : w.userPages x = some e)
    (writable : e.isWritable = true) (hy : y ∈ w.references e.frame) : y = x := by
  obtain ⟨z, only⟩ := Finset.card_eq_one.1 (h x e page writable)
  have hx := mem_references_frame page
  rw [only, Finset.mem_singleton] at hx hy
  rw [hx, hy]

theorem references_update (h : v.userPages = Function.update w.userPages x new) (f : Nat) :
    v.references f = if new.map Entry.frame = some f then insert x (w.references f)
      else (w.references f).erase x := by
  ext y
  rw [mem_references_iff, h, Function.update_apply]
  by_cases here : y = x
  · subst here
    rw [if_pos rfl]
    by_cases same : new.map Entry.frame = some f
    · rw [if_pos same]
      exact iff_of_true same (Finset.mem_insert_self _ _)
    · rw [if_neg same]
      exact iff_of_false same (Finset.notMem_erase _ _)
  · rw [if_neg here, ← mem_references_iff]
    split <;> simp [here]

theorem card_references_update (h : v.userPages = Function.update w.userPages x new) (f : Nat) :
    (v.references f).card + tally (w.userPages x) f = (w.references f).card + tally new f := by
  rw [references_update h]
  unfold tally
  by_cases old : x ∈ w.references f
  · have some := Finset.card_pos.2 ⟨x, old⟩
    rw [if_pos (mem_references_iff.1 old)]
    split
    · rw [Finset.insert_eq_of_mem old]
    · rw [Finset.card_erase_of_mem old]
      omega
  · rw [if_neg fun out => old (mem_references_iff.2 out)]
    split
    · rw [Finset.card_insert_of_notMem old]
    · rw [Finset.erase_eq_of_notMem old]

/-- A page may come in where nobody else refers to its frame. -/
theorem Exclusive.update (h : w.Exclusive)
    (changed : v.userPages = Function.update w.userPages x new)
    (only : ∀ e, new = some e → ∀ y ∈ w.references e.frame, y = x) : v.Exclusive := by
  intro y e page writable
  have counted := card_references_update changed e.frame
  rw [changed, Function.update_apply] at page
  split at page
  · subst y
    have here : v.references e.frame = {x} := by
      rw [references_update changed, if_pos (by rw [page, Option.map_some])]
      refine Finset.eq_singleton_iff_unique_mem.2 ⟨Finset.mem_insert_self _ _, ?_⟩
      intro y hy
      exact (Finset.mem_insert.1 hy).elim id (only e page y)
    rw [here, Finset.card_singleton]
  · rename_i other
    have one := h y e page writable
    have old : tally (w.userPages x) e.frame = 0 := by
      rw [tally, if_neg]
      intro out
      have refers : x ∈ w.references e.frame := mem_references_iff.2 out
      exact other (h.eq page writable refers).symm
    have new : tally new e.frame = 0 := by
      rw [tally, if_neg]
      intro out
      obtain ⟨e', rfl, frame⟩ := Option.map_eq_some_iff.1 out
      have refers : y ∈ w.references e'.frame := by
        rw [frame]
        exact mem_references_frame page
      exact other (only e' rfl y refers)
    omega

/-! ## A fork -/

/-- The references of one space, counted in order of address. -/
theorem pagesIn_eq_card (live : w.Live p) (f : Nat) :
    w.pagesIn p (userSlots * tableEntries) f =
      ((w.references f).filter fun x => x.1 = p).card := by
  rw [pagesIn, Nat.count_eq_card_filter_range]
  have has {i : Nat} (hi : i < userSlots * tableEntries) : w.Has (.user p (i / tableEntries)) :=
    ⟨live, Nat.div_lt_of_lt_mul (by rwa [Nat.mul_comm])⟩
  have low (i : Nat) : i % tableEntries < tableEntries := Nat.mod_lt _ (by decide)
  refine Finset.card_bij (fun i _ => (p, i / tableEntries, i % tableEntries)) ?_ ?_ ?_
  · intro i hi
    obtain ⟨bound, page⟩ := Finset.mem_filter.1 hi
    refine Finset.mem_filter.2 ⟨mem_references_iff.2 ?_, rfl⟩
    rwa [userPages_of_has (has (Finset.mem_range.1 bound)) (low i)]
  · intro i _ j _ same
    obtain ⟨-, slots, indices⟩ := Prod.mk.inj same |>.imp id Prod.mk.inj
    rw [← Nat.div_add_mod i tableEntries, ← Nat.div_add_mod j tableEntries, slots, indices]
  · rintro ⟨q, d, t⟩ hx
    obtain ⟨refers, rfl⟩ := Finset.mem_filter.1 hx
    obtain ⟨e, page, frame⟩ := mem_references.1 refers
    obtain ⟨hp, ht, leaf⟩ := userPages_eq_some.1 page
    have slot : (d * tableEntries + t) / tableEntries = d := by
      simp only [tableEntries] at *
      omega
    have index : (d * tableEntries + t) % tableEntries = t := by
      simp only [tableEntries] at *
      omega
    have bound : d * tableEntries + t < userSlots * tableEntries := by
      have := hp.2
      simp only [userSlots, tableEntries] at *
      omega
    refine ⟨d * tableEntries + t, Finset.mem_filter.2 ⟨Finset.mem_range.2 bound, ?_⟩, ?_⟩
    · rw [slot, index, leaf, Option.map_some, frame]
    · rw [slot, index]

section Fork
variable (h : v.userPages = w.forkedUserPages parent child)
  (empty : ∀ y, w.userPages (child, y) = none)
include h empty

/-- The child refers to what the parent refers to. -/
theorem references_forked (f : Nat) : v.references f = w.references f ∪
    ((w.references f).filter fun x => x.1 = parent).image fun x => (child, x.2) := by
  ext x
  rw [mem_references_iff, h, frame_forkedUserPages, Finset.mem_union, Finset.mem_image]
  by_cases hc : x.1 = child
  · have none : x ∉ w.references f := by
      rw [mem_references_iff, show x = (child, x.2) from Prod.ext hc rfl, empty]
      simp
    rw [if_pos hc, ← mem_references_iff]
    constructor
    · intro refers
      exact .inr ⟨(parent, x.2), Finset.mem_filter.2 ⟨refers, rfl⟩, Prod.ext hc.symm rfl⟩
    · rintro (old | ⟨y, hy, rfl⟩)
      · exact absurd old none
      · obtain ⟨refers, own⟩ := Finset.mem_filter.1 hy
        rwa [show (parent, y.2) = y from Prod.ext own.symm rfl]
  · rw [if_neg hc, ← mem_references_iff]
    exact (or_iff_left fun ⟨y, _, eq⟩ => hc (by rw [← eq])).symm

theorem card_references_forked (live : w.Live parent) (f : Nat) :
    (v.references f).card =
      (w.references f).card + w.pagesIn parent (userSlots * tableEntries) f := by
  rw [references_forked h empty, pagesIn_eq_card live, Finset.card_union_of_disjoint,
    Finset.card_image_of_injOn]
  · intro a ha b hb same
    have ofParent := (Finset.mem_filter.1 (Finset.mem_coe.1 ha)).2
    have ofParent' := (Finset.mem_filter.1 (Finset.mem_coe.1 hb)).2
    exact Prod.ext (ofParent.trans ofParent'.symm) (Prod.mk.inj same).2
  · apply Finset.disjoint_left.2
    intro x hx hx'
    obtain ⟨y, -, rfl⟩ := Finset.mem_image.1 hx'
    rw [mem_references_iff, empty] at hx
    cases hx

/-- Pages that may still be written are in neither of the two spaces. -/
theorem Exclusive.forked (lone : w.Exclusive) : v.Exclusive := by
  rintro ⟨q, y⟩ e page writable
  have outside : ¬ (q = parent ∨ q = child) := by
    intro either
    rw [h, forkedUserPages, if_pos either] at page
    obtain ⟨e', -, rfl⟩ := Option.map_eq_some_iff.1 page
    simp at writable
  rw [h, forkedUserPages, if_neg outside] at page
  rw [references_forked h empty, Finset.filter_false_of_mem, Finset.image_empty,
    Finset.union_empty]
  · exact lone _ e page writable
  · rintro z hz rfl
    have same := lone.eq page writable hz
    rw [same] at outside
    exact outside (.inl rfl)

end Fork
end VirtualMemory.Snapshot
