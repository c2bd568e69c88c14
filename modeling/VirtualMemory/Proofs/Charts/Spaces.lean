import VirtualMemory.Proofs.Calls.Rights
import VirtualMemory.Proofs.Charts.Pages

/-!
# Charts of all spaces

A switch moves no place of a chart, so what is known of a chart may be said of all spaces at once,
whichever is resident. Where user slots lead to tables only, the record of a table tells at how many
of its entries a look finds a page.
-/
namespace VirtualMemory

open Layout

namespace Snapshot

/-- Between the two only memory, the pool and the records of tables differ, and which space is
resident. -/
structure Grounds (w v : Snapshot) : Prop where
  root : v.root = w.root
  size : v.size = w.size
  shares : v.shares = w.shares
  spaces : v.spaces = { w.spaces with active := v.spaces.active }

/-- The entries of a place at which a look finds a page. -/
def found (w : Snapshot) (π : Place) : Finset Nat :=
  (Finset.range tableEntries).filter fun t => w.look π t ≠ some none

/-- The user slots of a charted snapshot lead to tables. -/
structure Tabled (w : Snapshot) : Prop extends w.Charted where
  user : ∀ p d, w.Has (.user p d) → (w.slotAt (.user p d)).isPresent = true →
    w.Tallied (w.slotAt (.user p d)).frame

/-- And no table there is empty. -/
structure Furnished (w : Snapshot) : Prop extends w.Tabled where
  filled : w.Filled none

variable {w v u : Snapshot} {O : Finset Nat} {π : Place} {d f p t : Nat}

/-! ## Common ground -/

namespace Grounds

theorem refl (w : Snapshot) : w.Grounds w := ⟨rfl, rfl, rfl, rfl⟩

theorem trans (g : w.Grounds v) (g' : v.Grounds u) : w.Grounds u where
  root := g'.root.trans g.root
  size := g'.size.trans g.size
  shares := g'.shares.trans g.shares
  spaces := by
    rw [g'.spaces, g.spaces]

theorem of_switched (s : w.Switched v p) : w.Grounds v :=
  ⟨s.root, s.size, by rw [s.books], by rw [s.books]⟩

theorem of_spaces (root : v.root = w.root) (size : v.size = w.size) (shares : v.shares = w.shares)
    (spaces : v.spaces = w.spaces) : w.Grounds v := ⟨root, size, shares, by rw [spaces]⟩

variable (g : w.Grounds v)
include g

theorem find? (q : Nat) : v.spaces.find? q = w.spaces.find? q := by
  rw [g.spaces]
  rfl

theorem live (q : Nat) : v.Live q ↔ w.Live q := by rw [Live, Live, g.find?]

theorem has (π : Place) : v.Has π ↔ w.Has π := by
  cases π
  · exact and_congr_left fun _ => g.live _
  · rfl

theorem shown (π : Place) : v.Shown π ↔ w.Shown π := by
  cases π
  · exact and_congr_left fun _ => g.live _
  · rfl

theorem reserved (f : Nat) : v.Reserved f ↔ w.Reserved f := by
  simp only [Reserved, g.root, g.find?]

/-- The register is the old one if the same space is resident again. -/
theorem spaces_eq (active : v.spaces.active = w.spaces.active) : v.spaces = w.spaces := by
  rw [g.spaces, active]

end Grounds

/-! ## Switches -/

theorem Switched.slotAt_shown (s : w.Switched v p) (hπ : w.Shown π) : v.slotAt π = w.slotAt π := by
  obtain has | rfl := hπ.cases
  · exact s.slotAt π has
  · change v.entry v.root mountTableSlot = w.entry w.root mountTableSlot
    rw [s.root, s.kernel _ _ (by decide) (by decide)]

theorem Switched.page_of_unreserved (s : w.Switched v p) (hf : ¬ w.Reserved f) :
    v.page f = w.page f :=
  s.page f (fun root => hf (.inl root)) fun r hr dir => hf (.inr (.inr ⟨_, r, hr, dir.symm⟩))

namespace Charted

theorem leafAt_switched (h : w.Charted) (s : w.Switched v p) (hπ : w.Shown π)
    (present : (w.slotAt π).isPresent = true) (t : Nat) :
    v.entry (w.slotAt π).frame t = w.entry (w.slotAt π).frame t := by
  obtain ⟨root, dirs, -⟩ := h.apart_shown hπ present
  rw [entry, s.page _ root fun r hr => (dirs _ r hr).symm, entry]

theorem leaf?_switched (h : w.Charted) (s : w.Switched v p) (hπ : w.Shown π) (t : Nat) :
    v.leaf? π t = w.leaf? π t := by
  unfold leaf? leafAt
  rw [s.slotAt_shown hπ]
  by_cases present : (w.slotAt π).isPresent = true
  · rw [h.leafAt_switched s hπ present]
  · rw [if_neg fun both => present both.1, if_neg fun both => present both.1]

theorem look_switched (h : w.Charted) (s : w.Switched v p) (hπ : w.Shown π) (t : Nat) :
    v.look π t = w.look π t :=
  look_congr s.size (s.slotAt_shown hπ ▸ .refl _) fun there => h.leafAt_switched s hπ there t

theorem tallied_switched (h : w.Charted) (s : w.Switched v p) (hπ : w.Has π)
    (present : (w.slotAt π).isPresent = true) (tallied : w.Tallied (w.slotAt π).frame) :
    v.Tallied (w.slotAt π).frame := by
  refine ⟨s.size ▸ tallied.inside, ?_⟩
  rw [s.page_of_unreserved (h.apart π hπ present).1, s.books]
  exact tallied.count

theorem switched (h : w.Charted) (live : w.Live p) (s : w.Switched v p) : v.Charted := by
  have g := Grounds.of_switched s
  have slot (ρ : Place) (hρ : v.Has ρ) : w.Has ρ ∧ v.slotAt ρ = w.slotAt ρ :=
    ⟨(g.has ρ).1 hρ, s.slotAt ρ ((g.has ρ).1 hρ)⟩
  refine ⟨h.toSwitchable.switched live s, ?_, ?_, ?_, ?_, by rw [s.books]; exact h.nodup⟩
  · intro π ρ hπ hρ
    rw [(slot π hπ).2, (slot ρ hρ).2]
    exact h.single π ρ (slot π hπ).1 (slot ρ hρ).1
  · intro π hπ
    rw [(slot π hπ).2, g.reserved, s.books]
    exact h.apart π (slot π hπ).1
  · intro π hπ
    rw [(slot π hπ).2]
    intro present plain
    exact h.tallied_switched s (slot π hπ).1 present (h.table π (slot π hπ).1 present plain)
  · intro f hf
    rw [s.books] at hf ⊢
    rw [s.size, g.reserved]
    exact h.free f hf

end Charted

/-! ## Tables of user slots -/

theorem mem_found : t ∈ w.found π ↔ t < tableEntries ∧ w.look π t ≠ some none := by
  rw [found, Finset.mem_filter, Finset.mem_range]

/-- Looks at a table in memory find what is present in it. -/
theorem found_eq (present : (w.slotAt π).isPresent = true)
    (inside : Ram.IsFrame w.size (w.slotAt π).frame) :
    w.found π = (w.page (w.slotAt π).frame).presentEntries := by
  ext t
  rw [mem_found, Page.presentEntries, Finset.mem_filter, Finset.mem_range, look_of_inside inside,
    leaf?, leafAt]
  simp [present, entry]

theorem tallied_iff (present : (w.slotAt π).isPresent = true) :
    w.Tallied (w.slotAt π).frame ↔ Ram.IsFrame w.size (w.slotAt π).frame ∧
      w.occupancy.get (w.slotAt π).frame = (w.found π).card := by
  have count (inside : Ram.IsFrame w.size (w.slotAt π).frame) :
      (w.page (w.slotAt π).frame).presentCount = (w.found π).card := by
    rw [found_eq present inside, Page.presentCount_eq_card]
  exact ⟨fun h => ⟨h.inside, h.count.trans (count h.inside)⟩,
    fun h => ⟨h.1, h.2.trans (count h.1).symm⟩⟩

namespace Tabled

theorem tallied_here (h : w.Tabled) (hd : d < userSlots)
    (present : (w.entry w.root d).isPresent = true) : w.Tallied (w.entry w.root d).frame := by
  have here : w.slotAt (.user w.spaces.active d) = w.entry w.root d := by
    rw [slotAt, home_active]
  rw [← here] at present ⊢
  exact h.user _ d ⟨h.active, hd⟩ present

theorem look_user (h : w.Tabled) (hπ : w.Has (.user p d)) (t : Nat) :
    w.look (.user p d) t = some ((w.leaf? (.user p d) t).map .ofEntry) := by
  cases present : (w.slotAt (.user p d)).isPresent with
  | false => rw [look_of_absent present, leaf?_of_absent present, Option.map_none]
  | true => exact look_of_inside (h.user p d hπ present).inside t

theorem look_eq_none (h : w.Tabled) (hπ : w.Has (.user p d)) (t : Nat) :
    w.look (.user p d) t = some none ↔ w.leaf? (.user p d) t = none := by
  rw [h.look_user hπ, Option.some.injEq, Option.map_eq_none_iff]

theorem switched (h : w.Tabled) (live : w.Live p) (s : w.Switched v p) : v.Tabled where
  toCharted := h.toCharted.switched live s
  user q d hq := by
    have hq' := (s.has _).1 hq
    rw [s.slotAt _ hq']
    exact fun present => h.tallied_switched s hq' present (h.user q d hq' present)

/-- A table has a record of the pages that are found in it. -/
theorem count (h : w.Tabled) (hπ : w.Has (.user p d))
    (present : (w.slotAt (.user p d)).isPresent = true) :
    w.occupancy.get (w.slotAt (.user p d)).frame = (w.found (.user p d)).card :=
  ((tallied_iff present).1 (h.user p d hπ present)).2

end Tabled

/-- A table holds a page, if no table is empty. -/
theorem Tabled.filled_iff (h : w.Tabled) : w.Filled none ↔ ∀ p d, w.Has (.user p d) →
    (w.slotAt (.user p d)).isPresent = true → (w.found (.user p d)).Nonempty := by
  refine ⟨fun filled p d hπ present => ?_, fun found p d _ hπ present => ?_⟩
  · obtain ⟨t, ht, some⟩ := filled p d nofun hπ present
    exact ⟨t, mem_found.2 ⟨ht, mt (h.look_eq_none hπ t).1 some⟩⟩
  · obtain ⟨t, mem⟩ := found p d hπ present
    obtain ⟨ht, some⟩ := mem_found.1 mem
    exact ⟨t, ht, mt (h.look_eq_none hπ t).2 some⟩

theorem Furnished.switched (h : w.Furnished) (live : w.Live p) (s : w.Switched v p) :
    v.Furnished := by
  have tabled := h.toTabled.switched live s
  refine ⟨tabled, tabled.filled_iff.2 fun q d hq present => ?_⟩
  have hq' := (s.has _).1 hq
  rw [s.slotAt _ hq'] at present
  have same : v.found (.user q d) = w.found (.user q d) :=
    Finset.filter_congr fun t _ => by rw [h.look_switched s hq'.shown]
  rw [same]
  exact h.toTabled.filled_iff.1 h.filled q d hq' present

theorem Settled.furnished (h : w.Settled O) : w.Furnished := by
  obtain ⟨role, stable⟩ := h.stable
  refine ⟨⟨h.charted, fun p d hπ present => ?_⟩, h.filled⟩
  have table := stable.table_slotAt hπ present
  exact ⟨stable.isFrame (by simp [table]), stable.count _ _ table⟩

end Snapshot

namespace Kernel

open Snapshot

variable {E : Failure → Books → Prop} {w : Snapshot} {p : Nat} {body : Kernel Unit}
  {Q : Unit → Snapshot → Prop}

/-- To run a body in another space is to switch there, run it, and switch back. -/
theorem within_switched (h : w.Switchable) (live : w.Live p)
    (step : ∀ v, w.Switched v p → Leads E body v fun _ u => u.Switchable ∧
      u.Live w.spaces.active ∧ ∀ x, u.Switched x w.spaces.active → Q () x) :
    Leads E (within p body) w Q := by
  obtain ⟨v, there, s⟩ := switch_yields h live
  refine there.bind (.bind ((step v s).mono ?_))
  rintro _ u ⟨switchable, alive, done⟩
  obtain ⟨x, back, s'⟩ := switch_yields switchable alive
  exact .discard (back.leads (done x s'))

end Kernel
end VirtualMemory
