import VirtualMemory.Proofs.Boot.Handover
import VirtualMemory.Proofs.Calls.Pages
import VirtualMemory.Proofs.Operations.Exposed

/-!
# Huge pages that a boot loader leaves

The start of the kernel passes over huge slots. After that nobody asks: lookups answer from the
data of the page as if it were a table, and calls under the slot rewrite its words. So the page
keeps its bytes only where each call would leave the words as they are anyway.
-/
namespace VirtualMemory

open Layout Snapshot

namespace Snapshot

/-- The same but for the rights in slot `d`. -/
def SameButRights (w v : Snapshot) (d : Nat) : Prop :=
  ∃ e, (w.entry w.root d).SameBesideRights e ∧ v = w.setEntry w.root d e

/-- Slot `d`, one of the kernel's, is a huge page that starts with frame `f` of memory. -/
structure HugeAt (w : Snapshot) (d f : Nat) : Prop where
  low : userSlots ≤ d
  high : d < mountTableSlot
  present : (w.entry w.root d).isPresent = true
  huge : (w.entry w.root d).isHuge = true
  frame : (w.entry w.root d).frame = f
  inside : Ram.IsFrame w.size f
  away : f ≠ w.root

theorem hugeAt_iff {w : Snapshot} {d f : Nat} : w.HugeAt d f ↔
    userSlots ≤ d ∧ d < mountTableSlot ∧ (w.entry w.root d).isPresent = true ∧
      (w.entry w.root d).isHuge = true ∧ (w.entry w.root d).frame = f ∧ Ram.IsFrame w.size f ∧
      f ≠ w.root :=
  ⟨fun h => ⟨h.low, h.high, h.present, h.huge, h.frame, h.inside, h.away⟩, fun h =>
    ⟨h.1, h.2.1, h.2.2.1, h.2.2.2.1, h.2.2.2.2.1, h.2.2.2.2.2.1, h.2.2.2.2.2.2⟩⟩

instance (w : Snapshot) (d f : Nat) : Decidable (w.HugeAt d f) :=
  decidable_of_iff _ hugeAt_iff.symm

/-- Slot `d` leads to frame `f`, which holds `p`, and nothing is shared. -/
structure LaysOpen (w : Snapshot) (d f : Nat) (p : Page) : Prop extends Holds w d f p where
  present : (w.entry w.root d).isPresent = true
  unshared : ∀ g, w.shares.get g = 0

variable {w v u : Snapshot} {d f : Nat} {p : Page}

namespace SameButRights

theorem refl (w : Snapshot) (hd : d < tableEntries) : w.SameButRights w d :=
  ⟨_, .refl _, (setEntry_entry w _ hd).symm⟩

theorem trans (hd : d < tableEntries) (h : w.SameButRights v d) (h' : v.SameButRights u d) :
    w.SameButRights u d := by
  obtain ⟨e, same, rfl⟩ := h
  obtain ⟨e', same', rfl⟩ := h'
  rw [root_setEntry, entry_setEntry _ _ _ hd hd, if_pos ⟨rfl, rfl⟩] at same'
  exact ⟨e', same.trans same', setEntry_setEntry _ _ hd _ _⟩

end SameButRights

theorem LaysOpen.sameButRights (h : w.LaysOpen d f p) (same : w.SameButRights v d) :
    v.LaysOpen d f p := by
  obtain ⟨e, same, rfl⟩ := same
  have hd := Sound.slot_lt h.slot
  refine ⟨h.toHolds.setSlot fun _ => same.frame.trans (h.only h.present), ?_, h.unshared⟩
  rw [root_setEntry, entry_setEntry _ _ _ hd hd, if_pos ⟨rfl, rfl⟩, same.isPresent]
  exact h.present

/-- Nothing but the flag of its slot tells a huge page from a table. -/
theorem HandedOver.laysOpen (h : w.HandedOver) (huge : w.HugeAt d f) :
    w.LaysOpen d f (w.page f) where
  wired := h.wired
  alone := by
    obtain ⟨store, spaces⟩ := h.spaces
    refine ⟨by rw [spaces]; rfl, fun q => ?_⟩
    rw [Live, spaces, Spaces.find?_withKernel]
    by_cases own : Spaces.kernelId = q
    · simp [own]
    · simp [own, Ne.symm own]
  slot := huge.high
  inside := huge.inside
  away := huge.away
  only _ := huge.frame
  page := rfl
  present := huge.present
  unshared := h.shares

end Snapshot

/-! ## One call -/

namespace Call

open Kernel

/-- The call is one on pages, at addresses under slot `d`. -/
def Under (d : Nat) : Call → Prop
  | map _ slot _ _ => slot = d
  | unmap va | add _ va _ _ | pageFault va _ => dirIndex va = d
  | remove _ first last | protect _ first last _ =>
    ∀ va, first ≤ va → va < last → dirIndex va = d
  | _ => False

/-- Work on a range that is not refused while only the kernel's space lives. -/
abbrev Serves (q first last : Nat) : Prop :=
  isAligned first = true ∧ isAligned last = true ∧ first ≤ last ∧ q = Spaces.kernelId

/-- The words of a table that such work rewrites. -/
def rangeRewrites (q first last : Nat) (g : Entry → Entry) : Rewriting :=
  if Serves q first last then .ofPages first ((last - first) / pageSize) g else []

/-- The words of a table that the call rewrites, and how, while only the kernel's space lives; none,
where it is refused. -/
def rewrites : Call → Rewriting
  | map frame _ t prot =>
    if t < tableEntries ∧ isAligned frame = true then [(t, fun _ => .of frame prot.entryFlags)]
    else []
  | unmap va => if isAligned va then [(tableIndex va, Entry.removed)] else []
  | add q va frame prot =>
    if isAligned va = true ∧ isAligned frame = true ∧ q = Spaces.kernelId then
      [(tableIndex va, fun _ => .of frame prot.entryFlags)]
    else []
  | remove q first last => rangeRewrites q first last Entry.removed
  | protect q first last prot => rangeRewrites q first last (Entry.rebuilt prot)
  | _ => []

/-- Every word that the call rewrites is already as it would leave it. -/
def Spares (c : Call) (p : Page) : Prop := c.rewrites.Fixes p

instance (c : Call) (p : Page) : Decidable (c.Spares p) :=
  inferInstanceAs (Decidable (c.rewrites.Fixes p))

variable {d f : Nat} {p : Page} {c : Call} {w v : Snapshot} {s : KernelState} {x : Kernel Unit}

/-! Work that is done is answered, and so is work that is refused. -/

theorem done_leads {Q : Snapshot → Prop} (h : Yields x w () v) (hQ : Q v) :
    Leads (fun _ _ => False) (attempt do x; return Answer.done) w fun _ u => Q u :=
  (h.trans (.pure Answer.done v)).attempt.leads hQ

theorem refused_leads {Q : Snapshot → Prop} (h : ∃ e, Refuses x w e) (hQ : Q w) :
    Leads (fun _ _ => False) (attempt do x; return Answer.done) w fun _ u => Q u := by
  obtain ⟨e, refused⟩ := h
  exact refused.bind.attempt.leads hQ

theorem answered_lands {P : KernelState → Prop} (h : Lands P x s) :
    Lands P (attempt do x; return Answer.done) s :=
  .attempt (Ends.bind (Ends.mono h fun _ _ hu => .pure hu))

section Range
variable {body : Nat → Kernel Unit} {g : Entry → Entry} (work : RewritesWord body g)
  {q first last : Nat} (under : ∀ va, first ≤ va → va < last → dirIndex va = d)

include under in
theorem dirIndex_page : ∀ k < (last - first) / pageSize, dirIndex (first + k * pageSize) = d := by
  intro k hk
  refine under _ (Nat.le_add_right _ _) ?_
  simp only [pageSize] at *
  omega

include work under

theorem forPages_fixed (h : w.LaysOpen d f p) (fixed : (rangeRewrites q first last g).Fixes p) :
    Yields (forPages q first last body) w () w ∨ ∃ e, Refuses (forPages q first last body) w e := by
  by_cases serves : Serves q first last
  · rw [rangeRewrites, if_pos serves] at fixed
    obtain ⟨firstAligned, lastAligned, ordered, rfl⟩ := serves
    rw [forPages_eq firstAligned lastAligned ordered]
    exact .inl (within_yields h.alone rfl
      (forEach_fixed (dirIndex_page under) work firstAligned h.toHolds fixed))
  · refine .inr (forPages_refuses (fun ok => serves ⟨ok.1, ok.2.1, ok.2.2.1, ?_⟩) body)
    exact (h.alone.live q).1 ok.2.2.2

theorem forPages_changes (h : s.snapshot.LaysOpen d f p)
    (hit : ¬ (rangeRewrites q first last g).Fixes p) :
    Lands (fun u => u.snapshot.Reworked d f p (rangeRewrites q first last g))
      (forPages q first last body) s := by
  have serves := Rewriting.serves_of_not_fixes hit
  rw [rangeRewrites, if_pos serves] at hit ⊢
  obtain ⟨firstAligned, lastAligned, ordered, rfl⟩ := serves
  rw [forPages_eq firstAligned lastAligned ordered]
  refine within_lands (P := (Reworked · d f p _)) h.alone (fun _ => Reworked.alone) fun t ht => ?_
  exact forEach_changes (dirIndex_page under) work firstAligned (ht.symm ▸ h.toHolds)
    (ht.symm ▸ h.present) hit

end Range

/-- A call that spares the page changes nothing but, at most, the rights in its slot. -/
theorem spares_leads (h : w.LaysOpen d f p) (under : c.Under d) (spared : c.Spares p) :
    Leads (fun _ _ => False) c.perform w fun _ v => w.SameButRights v d := by
  have same := SameButRights.refl w (Sound.slot_lt h.slot)
  have widened (prot : Protection) : w.SameButRights (w.widenedAt d prot) d :=
    ⟨_, Entry.sameBesideRights_widened _ _, rfl⟩
  cases c with
  | map frame slot t prot =>
    obtain rfl := under
    by_cases serves : t < tableEntries ∧ isAligned frame = true
    · rw [Spares, rewrites, if_pos serves, Rewriting.fixes_singleton] at spared
      exact done_leads (map_fixed serves.1 serves.2 prot h.toHolds h.present spared.symm)
        (widened prot)
    · exact refused_leads (map_refuses (fun ok => serves ok.2) prot) same
  | unmap va =>
    refine done_leads (v := w) ?_ same
    cases aligned : isAligned va with
    | false => exact unmap_unaligned aligned w
    | true =>
      rw [Spares, rewrites, if_pos aligned, Rewriting.fixes_singleton] at spared
      exact unmap_rewrites.yields w f va p aligned (under.symm ▸ h.toHolds) spared
  | add q va frame prot =>
    obtain rfl := under
    by_cases serves : isAligned va = true ∧ isAligned frame = true ∧ q = Spaces.kernelId
    · rw [Spares, rewrites, if_pos serves, Rewriting.fixes_singleton] at spared
      obtain ⟨aligned, aligned', rfl⟩ := serves
      have mapped := map_fixed (tableIndex_lt va) aligned' prot h.toHolds h.present spared.symm
      refine done_leads (v := w.widenedAt (dirIndex va) prot) ?_ (widened prot)
      rw [add_eq aligned aligned']
      exact within_yields h.alone rfl (mapped.trans (invalidatePage_yields va _))
    · refine refused_leads (add_refuses (fun ok => serves ⟨ok.1, ok.2.1, ?_⟩) prot) same
      exact (h.alone.live q).1 ok.2.2
  | remove q first last =>
    rcases forPages_fixed unmap_rewrites under h spared with done | refused
    · exact done_leads done same
    · exact refused_leads refused same
  | protect q first last prot =>
    rcases forPages_fixed (protectPage_rewrites prot) under h spared with done | refused
    · exact done_leads done same
    · exact refused_leads refused same
  | pageFault va code =>
    obtain rfl := under
    refine Leads.attempt (.bind ((pageFault_handsOn h.toHolds h.unshared code).mono ?_))
      (fun _ _ => id) fun _ _ hv => hv
    rintro _ _ rfl
    exact .pure same
  | _ => exact under.elim

/-- A call that does not spare the page makes it another one, whatever becomes of the call. -/
theorem hits_lands (h : s.snapshot.LaysOpen d f p) (under : c.Under d) (hits : ¬ c.Spares p) :
    Lands (fun u => u.snapshot.Reworked d f p c.rewrites) c.perform s := by
  cases c with
  | map frame slot t prot =>
    obtain rfl := under
    have serves := Rewriting.serves_of_not_fixes hits
    rw [Spares, rewrites, if_pos serves] at hits
    rw [rewrites, if_pos serves]
    refine answered_lands ((map_lands serves.1 serves.2 prot h.toHolds h.present).mono ?_)
    exact fun _ held => held.reworked serves.1 hits
  | unmap va =>
    obtain rfl := under
    have aligned := Rewriting.serves_of_not_fixes hits
    rw [Spares, rewrites, if_pos aligned] at hits
    rw [rewrites, if_pos aligned]
    refine answered_lands ((unmap_rewrites.lands s f va p aligned h.toHolds).mono ?_)
    intro u held
    rw [Rewritten, if_pos h.present] at held
    exact held.reworked (tableIndex_lt va) hits
  | add q va frame prot =>
    obtain rfl := under
    have serves := Rewriting.serves_of_not_fixes hits
    rw [Spares, rewrites, if_pos serves] at hits
    rw [rewrites, if_pos serves]
    obtain ⟨aligned, aligned', rfl⟩ := serves
    refine answered_lands ?_
    rw [add_eq aligned aligned']
    refine within_lands (P := (Reworked · (dirIndex va) f p _)) h.alone
      (fun _ => Reworked.alone) fun t ht => ?_
    have mapped := map_lands (tableIndex_lt va) aligned' prot (ht.symm ▸ h.toHolds)
      (ht.symm ▸ h.present)
    refine .bind (mapped.ends (fun _ held => held.reworked (tableIndex_lt va) hits)
      fun u held => Ends.invalidatePage fun v hv => hv.snapshot ▸ ?_)
    exact held.reworked (tableIndex_lt va) hits
  | remove q first last =>
    exact answered_lands (forPages_changes unmap_rewrites under h hits)
  | protect q first last prot =>
    exact answered_lands (forPages_changes (protectPage_rewrites prot) under h hits)
  | pageFault va code => exact absurd (Rewriting.fixes_nil p) hits
  | _ => exact under.elim

end Call

/-! ## Runs of calls -/

/-- The state that an action ends in, whether it fails or not. -/
def Kernel.final {α : Type} (x : Kernel α) (s : KernelState) : KernelState :=
  match x s with
  | .ok _ t => t
  | .error _ t => t

theorem Kernel.Lands.final {α : Type} {P : KernelState → Prop} {x : Kernel α} {s : KernelState}
    (h : Lands P x s) : P (final x s) := by
  unfold Lands Ends at h
  unfold Kernel.final
  split <;> simp_all

namespace KernelState

/-- The state after calls, one after the other, whatever becomes of each. -/
def after (s : KernelState) (calls : List Call) : KernelState :=
  calls.foldl (fun s c => Kernel.final c.perform s) s

variable {n reserved d f : Nat} {setup : List (Nat × UInt32)} {s : KernelState} {p : Page}
  {c : Call} {calls : List Call}

theorem sameButRights_of_spares (h : s.snapshot.LaysOpen d f p) (under : c.Under d)
    (spared : c.Spares p) : s.snapshot.SameButRights (s.after [c]).snapshot d := by
  obtain ⟨_, t, run, same⟩ := (Call.spares_leads h under spared).succeeds
  have final : s.after [c] = t := by
    rw [after, List.foldl_cons, List.foldl_nil, Kernel.final, run]
  rwa [final]

/-- While all calls spare the page, nothing changes but the rights in its slot. -/
theorem after_sameButRights (h : s.snapshot.LaysOpen d f p) (under : ∀ c ∈ calls, c.Under d)
    (spared : ∀ c ∈ calls, c.Spares p) : s.snapshot.SameButRights (s.after calls).snapshot d := by
  have hd := Sound.slot_lt h.slot
  induction calls generalizing s with
  | nil => exact .refl _ hd
  | cons c calls ih =>
    have first := sameButRights_of_spares h (under c List.mem_cons_self)
      (spared c List.mem_cons_self)
    refine first.trans hd (ih (h.sameButRights first) ?_ ?_)
    · exact fun x hx => under x (List.mem_cons_of_mem _ hx)
    · exact fun x hx => spared x (List.mem_cons_of_mem _ hx)

/-- The page keeps its bytes all along just where every call spares it. -/
theorem after_page_iff (h : s.snapshot.LaysOpen d f p) (under : ∀ c ∈ calls, c.Under d) :
    (∀ before, before <+: calls → (s.after before).snapshot.page f = p) ↔
      ∀ c ∈ calls, c.Spares p := by
  constructor
  · intro keeps
    induction calls generalizing s with
    | nil => exact fun _ hc => absurd hc List.not_mem_nil
    | cons c calls ih =>
      have under' := under c List.mem_cons_self
      have spared : c.Spares p := by
        by_contra hits
        obtain ⟨q, other, -, held⟩ := (Call.hits_lands h under' hits).final
        exact other (held.page.symm.trans (keeps [c] (List.prefix_iff_eq_take.2 rfl)))
      refine List.forall_mem_cons.2 ⟨spared, ih (h.sameButRights
        (sameButRights_of_spares h under' spared))
        (fun x hx => under x (List.mem_cons_of_mem _ hx)) fun before early => ?_⟩
      exact keeps (c :: before) (List.cons_prefix_cons.2 ⟨rfl, early⟩)
  · intro spared before early
    have sub := early.subset
    exact (h.sameButRights (after_sameButRights h (fun x hx => under x (sub hx))
      fun x hx => spared x (sub hx))).page

/-- Lookups take the data of the page for entries. -/
theorem lookup?_of_laysOpen (h : s.snapshot.LaysOpen d f p) {va : Nat} (hd : dirIndex va = d) :
    s.lookup? va = some (if (p.entry (tableIndex va)).isPresent then
      some (.ofEntry (p.entry (tableIndex va))) else none) := by
  obtain rfl := hd
  have found : Kernel.Yields (Kernel.lookup va) s.snapshot _ s.snapshot :=
    (Kernel.heldLeafAt?_yields h.toHolds).trans (.pure (Option.map Mapping.ofEntry _) _)
  obtain ⟨t, run, -⟩ := found s rfl
  refine (run'_of_ok run).trans ?_
  simp only [h.present, true_and]
  split <;> rfl

/-- In `t` the page behind slot `d` is the one of `s` still, and it is taken for a table. -/
structure ServesAsTable (s t : KernelState) (d f : Nat) : Prop where
  same : s.snapshot.SameButRights t.snapshot d
  lookups : ∀ va, dirIndex va = d → t.lookup? va =
    some (if (s.snapshot.entry f (tableIndex va)).isPresent then
      some (.ofEntry (s.snapshot.entry f (tableIndex va))) else none)
  /-- A call that finds words to rewrite does so, and rewrites no others. -/
  rewrites : ∀ c : Call, c.Under d → ¬ c.Spares (s.snapshot.page f) →
    (t.after [c]).snapshot.page f ≠ s.snapshot.page f ∧
      ((t.after [c]).snapshot.page f).PartOf (s.snapshot.page f) c.rewrites

theorem servesAsTable (h : s.snapshot.LaysOpen d f (s.snapshot.page f))
    (under : ∀ c ∈ calls, c.Under d) (spared : ∀ c ∈ calls, c.Spares (s.snapshot.page f)) :
    s.ServesAsTable (s.after calls) d f := by
  have same := after_sameButRights h under spared
  have still := h.sameButRights same
  refine ⟨same, fun va => lookup?_of_laysOpen still, fun c under' hits => ?_⟩
  obtain ⟨q, other, part, held⟩ := (Call.hits_lands still under' hits).final
  obtain rfl := held.page
  exact ⟨other, part⟩

/-- Whether a slot is huge makes a difference to the boot alone. Afterwards the page keeps its bytes
just as long as no call under the slot finds a word to rewrite, as it would in a table; until then
the books and all other memory stay as they are, and lookups answer from its data. -/
theorem huge_page_serves_as_table (small : Ram.Addressable n) (away : SparesMachineSlots setup)
    (booted : boot n reserved setup = .ok s) (huge : s.snapshot.HugeAt d f) :
    (f ∈ s.snapshot.occupancy.counts → s.snapshot.LeadsPlainly f) ∧
    ∀ calls : List Call, (∀ c ∈ calls, c.Under d) →
      ((∀ before, before <+: calls → (s.after before).snapshot.page f = s.snapshot.page f) ↔
        ∀ c ∈ calls, c.Spares (s.snapshot.page f)) ∧
      ((∀ c ∈ calls, c.Spares (s.snapshot.page f)) → s.ServesAsTable (s.after calls) d f) := by
  have handed := boot_handedOver small away booted
  have opened := handed.laysOpen huge
  exact ⟨handed.plain f, fun calls under =>
    ⟨after_page_iff opened under, servesAsTable opened under⟩⟩

/-- The loader left the page at slot 800 huge. A fault and an empty word leave it alone; the first
word is unmapped as if it were an entry. -/
theorem huge_page_serves_as_table_loaded : ∃ setup s,
    setup = [(0x100c80, 0x400083), (0x400000, 0xb8163)] ∧ Ram.Addressable 772 ∧
    SparesMachineSlots setup ∧ boot 772 767 setup = .ok s ∧ s.snapshot.HugeAt 800 0x400000 ∧
    s.ServesAsTable (s.after [.pageFault 0xC8000000 2, .unmap 0xC8001000]) 800 0x400000 ∧
    ¬ ∀ before, before <+: [.pageFault 0xC8000000 2, .unmap 0xC8000000] →
      (s.after before).snapshot.page 0x400000 = s.snapshot.page 0x400000 := by
  have runs : ((Session.boot? 772 767 [(0x100c80, 0x400083), (0x400000, 0xb8163)]).filter fun σ =>
      σ.snapshot.HugeAt 800 0x400000 ∧
      (Call.unmap 0xC8001000).Spares (σ.snapshot.page 0x400000) ∧
      ¬ (Call.unmap 0xC8000000).Spares (σ.snapshot.page 0x400000)).isSome = true := by
    decide +kernel
  obtain ⟨σ, run⟩ := Option.isSome_iff_exists.1 runs
  obtain ⟨started, holds⟩ := Option.filter_eq_some_iff.1 run
  obtain ⟨huge, empty, taken⟩ := of_decide_eq_true holds
  obtain ⟨s, booted, rfl⟩ := Session.boot_of_boot? started
  have away : SparesMachineSlots [(0x100c80, 0x400083), (0x400000, 0xb8163)] := by decide
  obtain ⟨-, serves⟩ := huge_page_serves_as_table (by decide) away booted huge
  have fault : (Call.pageFault 0xC8000000 2).Spares (s.snapshot.page 0x400000) :=
    Rewriting.fixes_nil _
  refine ⟨_, s, rfl, by decide, away, booted, huge, (serves _ ?_).2 ?_, fun keeps => taken ?_⟩
  · simp [Call.Under, dirIndex]
  · simpa using ⟨fault, empty⟩
  · exact (serves _ (by simp [Call.Under, dirIndex])).1.1 keeps _ (by simp)

/-- A lookup below that page answers from its data; mapping writes to the page and counts it as a
table; and unmapping the new entry gives its frame away. -/
theorem huge_page_rewritten : ∃ setup s,
    setup = [(0x100c80, 0x400083), (0x400000, 0xb8163)] ∧ SparesMachineSlots setup ∧
    boot 772 767 setup = .ok s ∧ s.snapshot.HugeAt 800 0x400000 ∧
    0x400000 ∉ s.occupancy.counts ∧ 0x400000 ∉ s.pool.free ∧
    s.lookup? 0xC8000000 = some (some ⟨0xb8000, ⟨0x163⟩⟩) ∧
    (s.after [.map 0x403000 800 1 .kernelRW]).snapshot.page 0x400000 ≠ s.snapshot.page 0x400000 ∧
    0x400000 ∈ (s.after [.map 0x403000 800 1 .kernelRW]).occupancy.counts ∧
    0x400000 ∈ (s.after [.map 0x403000 800 1 .kernelRW, .unmap 0xC8001000]).pool.free := by
  have runs : ((Session.boot? 772 767 [(0x100c80, 0x400083), (0x400000, 0xb8163)]).filter fun σ =>
      σ.snapshot.HugeAt 800 0x400000 ∧
      0x400000 ∉ σ.state.occupancy.counts ∧ 0x400000 ∉ σ.state.pool.free ∧
      σ.state.lookup? 0xC8000000 = some (some ⟨0xb8000, ⟨0x163⟩⟩) ∧
      (σ.state.after [.map 0x403000 800 1 .kernelRW]).snapshot.page 0x400000 ≠
        σ.state.snapshot.page 0x400000 ∧
      0x400000 ∈ (σ.state.after [.map 0x403000 800 1 .kernelRW]).occupancy.counts ∧
      0x400000 ∈ (σ.state.after [.map 0x403000 800 1 .kernelRW,
        .unmap 0xC8001000]).pool.free).isSome = true := by
    decide +kernel
  obtain ⟨σ, run⟩ := Option.isSome_iff_exists.1 runs
  obtain ⟨started, holds⟩ := Option.filter_eq_some_iff.1 run
  obtain ⟨s, booted, rfl⟩ := Session.boot_of_boot? started
  exact ⟨_, s, rfl, by decide, booted, of_decide_eq_true holds⟩

end KernelState
end VirtualMemory
