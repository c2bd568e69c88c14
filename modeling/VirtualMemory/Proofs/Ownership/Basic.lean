import VirtualMemory.Proofs.Counts
import VirtualMemory.Proofs.Places

/-!
# Who owns a frame

Every frame has one role at any time: it is the resident directory, the mount table, free, some
space's own directory frame, a table bound at one place, or in the hands of a caller. Frames on
their way from one role to the next are spare. `Sound` says that the records, the directories and
the counts of present entries all agree with one assignment of roles; the theorems after it say
how a single change to memory or to the books moves the roles along.
-/
namespace VirtualMemory

open Layout

inductive Role where
  | outside
  | resident
  | window
  | free
  | directory (space : Nat)
  | table (place : Place)
  | owned
  | spare
  deriving DecidableEq, Repr

/-- Frames whose contents nothing reads as a table. -/
def Role.Idle : Role → Prop
  | .free | .owned | .spare => True
  | _ => False

/-- The role of the frame is to serve space `p`. -/
def Role.serves (p : Nat) : Role → Bool
  | .directory q => q == p
  | .table (.user q _) => q == p
  | _ => false

/-- Passing a frame between idle roles does not touch the others. -/
theorem Role.update_iff {role : Nat → Role} {f g : Nat} {r k : Role} (idle : (role f).Idle)
    (idle' : r.Idle) (hk : ¬ k.Idle) : Function.update role f r g = k ↔ role g = k := by
  rw [Function.update_apply]
  split
  · subst_vars
    exact iff_of_false (fun e => hk (e ▸ idle')) (fun e => hk (e ▸ idle))
  · rfl

/-- The register names the active space and the kernel's, and has no name in stock that is in
use. -/
structure Spaces.Regular (s : Spaces) : Prop where
  active : (s.find? s.active).isSome = true
  kernel : (s.find? kernelId).isSome = true
  fresh : ∀ p r, s.find? p = some r → p < s.nextId

namespace Snapshot

structure Sound (w : Snapshot) (role : Nat → Role) : Prop where
  wired : w.Wired
  regular : w.spaces.Regular
  outside : ∀ f, role f = .outside ↔ ¬ Ram.IsFrame w.size f
  resident : ∀ f, role f = .resident ↔ f = w.root
  window : ∀ f, role f = .window ↔ f = mountTable
  free : ∀ f, role f = .free ↔ f ∈ w.free
  nodup : w.free.Nodup
  directory : ∀ f p, role f = .directory p ↔ ∃ r, w.spaces.find? p = some r ∧ r.directory = f
  table : ∀ f π, role f = .table π ↔
    w.Has π ∧ (w.slotAt π).isPresent = true ∧ (w.slotAt π).frame = f
  /-- User pages are frames in the hands of callers. -/
  leaf : ∀ p d t e, w.Has (.user p d) → t < tableEntries → w.leaf? (.user p d) t = some e →
    role e.frame = .owned
  /-- The recorded count of a table is the number of its present entries. -/
  count : ∀ f π, role f = .table π → w.occupancy.get f = (w.page f).presentCount
  /-- Exactly the tables that are not empty have a record. -/
  tracked : ∀ f, role f ≠ .spare →
    (f ∈ w.occupancy.counts ↔ ∃ π, role f = .table π ∧ (w.page f).presentCount ≠ 0)
  /-- Outside a mount the mount table is empty. -/
  quiet : ∀ t, t < tableEntries → (w.entry mountTable t).isPresent = false

namespace Sound

variable {w : Snapshot} {role : Nat → Role} {f d t : Nat} {π : Place} {p : Page} {e : Entry}

theorem housed (h : w.Sound role) : w.Housed where
  isFrame p r hr := by
    have := (h.directory r.directory p).2 ⟨r, hr, rfl⟩
    by_contra out
    rw [(h.outside _).2 out] at this
    cases this
  ne_root p r hr eq := by
    have := (h.directory r.directory p).2 ⟨r, hr, rfl⟩
    rw [(h.resident _).2 eq] at this
    cases this
  ne_mount p r hr eq := by
    have := (h.directory r.directory p).2 ⟨r, hr, rfl⟩
    rw [(h.window _).2 eq] at this
    cases this
  apart p q r s hr hs eq := by
    have first := (h.directory r.directory p).2 ⟨r, hr, rfl⟩
    have second := (h.directory r.directory q).2 ⟨s, hs, eq.symm⟩
    rw [first] at second
    cases second
    rfl

theorem isFrame (h : w.Sound role) (hf : role f ≠ .outside) : Ram.IsFrame w.size f :=
  not_not.1 fun out => hf ((h.outside f).2 out)

theorem not_directory (h : w.Sound role) (hf : ∀ p, role f ≠ .directory p) (p : Nat)
    (r : SpaceRecord) (hr : w.spaces.find? p = some r) : r.directory ≠ f := by
  rintro rfl
  exact hf p ((h.directory _ p).2 ⟨r, hr, rfl⟩)

/-- The table bound at a place is a frame, and no other place binds it. -/
theorem isFrame_home (h : w.Sound role) (p : Nat) : Ram.IsFrame w.size (w.home p) := by
  obtain e | ⟨r, hr, e⟩ := home_cases w p
  · exact e ▸ h.wired.isFrame_root
  · exact e ▸ h.housed.isFrame p r hr

theorem table_slotAt (h : w.Sound role) (hπ : w.Has π) (present : (w.slotAt π).isPresent = true) :
    role (w.slotAt π).frame = .table π := (h.table _ π).2 ⟨hπ, present, rfl⟩

/-- Where no page is seen, the entry of the table is absent. -/
theorem absent_entry (h : w.Sound role) (hf : role f = .table π) (none : w.leaf? π t = none) :
    (w.entry f t).isPresent = false := by
  obtain ⟨-, present, rfl⟩ := (h.table f π).1 hf
  rw [Snapshot.leaf?] at none
  by_contra there
  rw [if_pos ⟨present, by simpa [leafAt] using there⟩] at none
  cases none

theorem idle_ne_root (h : w.Sound role) (idle : (role f).Idle) : f ≠ w.root := by
  rintro rfl
  rw [(h.resident _).2 rfl] at idle
  exact idle

theorem idle_ne_mount (h : w.Sound role) (idle : (role f).Idle) : f ≠ mountTable := by
  rintro rfl
  rw [(h.window _).2 rfl] at idle
  exact idle

theorem idle_ne_table (idle : (role f).Idle) (π : Place) : role f ≠ .table π := fun e => by
  rw [e] at idle
  exact idle

theorem idle_ne_directory (h : w.Sound role) (idle : (role f).Idle) (p : Nat) (r : SpaceRecord)
    (hr : w.spaces.find? p = some r) : r.directory ≠ f :=
  h.not_directory (fun p e => by rw [e] at idle; exact idle) p r hr

/-- Which pages are seen does not depend on what idle frames hold. -/
theorem leaf?_setPage (h : w.Sound role) (idle : (role f).Idle) (g : Page) {π : Place}
    (hπ : w.Has π) (t : Nat) : (w.setPage f g).leaf? π t = w.leaf? π t := by
  have hroot := h.idle_ne_root idle
  have hdir := h.idle_ne_directory idle
  unfold leaf?
  rw [slotAt_setPage hroot hdir]
  by_cases present : (w.slotAt π).isPresent = true
  · rw [leafAt_setPage hroot hdir g]
    intro same
    exact idle_ne_table idle π (same ▸ h.table_slotAt hπ present)
  · simp [present]

/-- Frames that are no part of the tables may hold anything. -/
theorem setPage (h : w.Sound role) (idle : (role f).Idle) (g : Page) :
    (w.setPage f g).Sound role := by
  have hroot := h.idle_ne_root idle
  have hmount := (h.idle_ne_mount idle).symm
  have htable := idle_ne_table idle
  have slots := slotAt_setPage hroot (h.idle_ne_directory idle) g
  have pages {π : Place} (hπ : w.Has π) (t : Nat) := h.leaf?_setPage idle g hπ t
  have same {g' : Nat} {π : Place} (hg : role g' = .table π) :
      (w.setPage f g).page g' = w.page g' := by
    rw [page_setPage, if_neg]
    rintro rfl
    exact htable π hg
  exact
    { wired := h.wired.setPage hroot g
      regular := h.regular
      outside := h.outside
      resident := h.resident
      window := h.window
      free := h.free
      nodup := h.nodup
      directory := h.directory
      table := fun f' π => by rw [slots]; exact h.table f' π
      leaf := fun p d t e hp ht he => h.leaf p d t e hp ht (pages (π := .user p d) hp t ▸ he)
      count := fun f' π hf' => by rw [same hf']; exact h.count f' π hf'
      tracked := fun f' hf' => by
        refine (h.tracked f' hf').trans (exists_congr fun π => and_congr_right ?_)
        intro hπ
        rw [same hπ]
      quiet := fun t ht => by rw [entry_setPage_of_ne _ _ _ hmount]; exact h.quiet t ht }

/-- A frame that is no table may be handed on: taken from the pool or put back, or passed between
the kernel and a caller. -/
theorem relabel (h : w.Sound role) (idle : (role f).Idle) {r : Role} (idle' : r.Idle)
    {l : List Nat} (nodup : l.Nodup) (free : ∀ g, g ∈ l ↔ if g = f then r = .free else g ∈ w.free)
    (unused : r ≠ .owned → ∀ p d t e, w.Has (.user p d) → t < tableEntries →
      w.leaf? (.user p d) t = some e → e.frame ≠ f)
    (record : r ≠ .spare → f ∉ w.occupancy.counts) :
    (w.book { w.toBooks with free := l }).Sound (Function.update role f r) where
  wired := h.wired.book _
  regular := h.regular
  outside g := (Role.update_iff idle idle' id).trans (h.outside g)
  resident g := (Role.update_iff idle idle' id).trans (h.resident g)
  window g := (Role.update_iff idle idle' id).trans (h.window g)
  free g := by
    change _ ↔ g ∈ l
    rw [Function.update_apply, free]
    split
    · rfl
    · exact h.free g
  nodup := nodup
  directory g p := (Role.update_iff idle idle' id).trans (h.directory g p)
  table g π := (Role.update_iff idle idle' id).trans (h.table g π)
  leaf p d t e hp ht he := by
    rw [Function.update_apply]
    split
    · by_contra other
      exact unused other p d t e hp ht he ‹_›
    · exact h.leaf p d t e hp ht he
  count g π hg := h.count g π ((Role.update_iff idle idle' id).1 hg)
  tracked g hg := by
    rw [Function.update_apply] at hg ⊢
    split at hg
    · subst_vars
      rw [if_pos rfl]
      refine iff_of_false (record hg) ?_
      rintro ⟨π, rfl, -⟩
      exact idle'
    · rw [if_neg ‹_›]
      exact h.tracked g hg
  quiet := h.quiet

theorem not_tracked (h : w.Sound role) (spare : role f ≠ .spare) (table : ∀ π, role f ≠ .table π) :
    f ∉ w.occupancy.counts := fun hf =>
  let ⟨π, hπ, _⟩ := (h.tracked f spare).1 hf
  table π hπ

theorem free_unused (h : w.Sound role) (hf : role f ≠ .owned) (p d t : Nat) (e : Entry)
    (hp : w.Has (.user p d)) (ht : t < tableEntries) (he : w.leaf? (.user p d) t = some e) :
    e.frame ≠ f := by
  rintro rfl
  exact hf (h.leaf p d t e hp ht he)

/-- The first free frame leaves the pool. -/
theorem take (h : w.Sound role) {rest : List Nat} (hf : w.free = f :: rest) :
    (w.book { w.toBooks with free := rest }).Sound (Function.update role f .spare) := by
  have nodup := h.nodup
  have isFree : role f = .free := (h.free f).2 (by rw [hf]; exact List.mem_cons_self)
  rw [hf] at nodup
  refine h.relabel (r := .spare) (by rw [isFree]; trivial) trivial (List.nodup_cons.1 nodup).2
    ?_ (fun _ => h.free_unused (by rw [isFree]; simp)) (fun no => absurd rfl no)
  intro g
  by_cases same : g = f
  · subst same
    simpa using (List.nodup_cons.1 nodup).1
  · simp [same, hf]

/-- A spare frame goes to a caller. -/
theorem give (h : w.Sound role) (hf : role f = .spare) (record : f ∉ w.occupancy.counts) :
    w.Sound (Function.update role f .owned) := by
  refine h.relabel (r := .owned) (by rw [hf]; trivial) trivial h.nodup ?_
    (fun no => absurd rfl no) (fun _ => record)
  intro g
  split
  · subst_vars
    simp [← h.free, hf]
  · rfl

/-- A frame that is mapped nowhere comes back from a caller. -/
theorem reclaim (h : w.Sound role) (hf : role f = .owned)
    (unused : ∀ p d t e, w.Has (.user p d) → t < tableEntries →
      w.leaf? (.user p d) t = some e → e.frame ≠ f) :
    w.Sound (Function.update role f .spare) := by
  refine h.relabel (r := .spare) (by rw [hf]; trivial) trivial h.nodup ?_
    (fun _ => unused) (fun no => absurd rfl no)
  intro g
  split
  · subst_vars
    simp [← h.free, hf]
  · rfl

/-- A spare frame goes back to the pool. -/
theorem putBack (h : w.Sound role) (hf : role f = .spare) (record : f ∉ w.occupancy.counts) :
    (w.book { w.toBooks with free := f :: w.free }).Sound (Function.update role f .free) := by
  have out : f ∉ w.free := by simp [← h.free, hf]
  refine h.relabel (r := .free) (by rw [hf]; trivial) trivial (List.nodup_cons.2 ⟨out, h.nodup⟩)
    ?_ (fun _ => h.free_unused (by rw [hf]; simp)) (fun _ => record)
  intro g
  by_cases same : g = f <;> simp [same]

/-- The record of a spare frame may say anything. -/
theorem recount (h : w.Sound role) (hf : role f = .spare) {o : Occupancy}
    (get : ∀ g, g ≠ f → o.get g = w.occupancy.get g)
    (mem : ∀ g, g ≠ f → (g ∈ o.counts ↔ g ∈ w.occupancy.counts)) :
    (w.book { w.toBooks with occupancy := o }).Sound role :=
  { h with
    wired := h.wired.book _
    count := fun g π hg => (get g (by rintro rfl; simp [hf] at hg)).trans (h.count g π hg)
    tracked := fun g hg => (mem g (by rintro rfl; exact hg hf)).trans (h.tracked g hg) }

/-- Share counts are no part of who owns what. -/
theorem reshare (h : w.Sound role) (c : Shares) :
    (w.book { w.toBooks with shares := c }).Sound role :=
  { h with wired := h.wired.book _ }

end Sound
end Snapshot
end VirtualMemory
