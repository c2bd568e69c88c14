import VirtualMemory.Proofs.Boot.Start

/-!
# What a boot leaves of any preparation

A boot loader may leave slots of all kinds behind: huge ones, some that lead nowhere, some that
share a frame. As long as it keeps away from the last two slots of the directory, the kernel starts
with these in place, with no space but its own, with no shares, and with no records but of the
tables that plain slots lead to.
-/
namespace VirtualMemory

open Layout Snapshot

namespace Snapshot

/-- One of the kernel's slots leads to frame `f`, and not as a huge page. -/
def LeadsPlainly (w : Snapshot) (f : Nat) : Prop :=
  ∃ d, userSlots ≤ d ∧ d < mountTableSlot ∧ (w.entry w.root d).isPresent = true ∧
    (w.entry w.root d).isHuge = false ∧ (w.entry w.root d).frame = f

/-- Some of the tables that plain slots of `u` lead to are recorded, and nothing else is new. -/
structure SeedsPlain (u v : Snapshot) : Prop where
  same : v = u.book { u.toBooks with occupancy := v.occupancy }
  plain : ∀ f ∈ v.occupancy.counts, u.LeadsPlainly f

/-- What every boot hands over. -/
structure HandedOver (w : Snapshot) : Prop where
  wired : w.Wired
  spaces : ∃ store, w.spaces = .withKernel store
  shares : ∀ f, w.shares.get f = 0
  plain : ∀ f ∈ w.occupancy.counts, w.LeadsPlainly f

variable {u v : Snapshot} {d f k : Nat}

theorem SeedsPlain.seed (h : u.SeedsPlain v) (leads : u.LeadsPlainly f) (n : Nat) :
    u.SeedsPlain (v.book { v.toBooks with occupancy := v.occupancy.seed f n }) where
  same := congrArg (fun x => x.book { x.toBooks with occupancy := v.occupancy.seed f n }) h.same
  plain g hg := by
    by_cases here : f = g
    · exact here ▸ leads
    · have mem := Occupancy.mem_seed.1 hg
      rw [if_neg here] at mem
      exact h.plain g mem

end Snapshot

namespace Kernel

variable {u v w : Snapshot} {k : Nat}

/-- Slots that are absent or huge are passed over, and a table that cannot be read ends the boot. -/
theorem seedBootTable_plain (hu : u.Wired) (h : u.SeedsPlain v)
    (hk : userSlots + k < mountTableSlot) :
    Leads (fun _ _ => True) (seedBootTable (userSlots + k)) v fun _ x => u.SeedsPlain x := by
  have wired : v.Wired := h.same ▸ hu.book _
  have slot : v.entry v.root (userSlots + k) = u.entry u.root (userSlots + k) := by
    rw [h.same, entry_book, root_book]
  refine (slot_yields wired (Sound.slot_lt hk)).bind ?_
  rw [slot]
  refine .ite (fun plain => ?_) fun _ => .pure h
  rw [Bool.and_eq_true, Bool.not_eq_true'] at plain
  refine .bind ((table_looks _).leads.mono ?_)
  rintro page _ rfl
  exact (seedTable_yields _ _ _).leads
    (h.seed ⟨_, Nat.le_add_right _ _, hk, plain.1, plain.2, rfl⟩ _)

theorem start_plain (hw : w.Wired) (shares : ∀ f, w.shares.get f = 0)
    (untracked : ∀ f, f ∉ w.occupancy.counts) (free : ∀ f ∈ w.free,
      Ram.IsFrame w.size f ∧ f ≠ mountTable ∧ f ≠ w.root) :
    Leads (fun _ _ => True) start w fun _ v => v.HandedOver := by
  refine .bind (acquireRaw_leads (fun _ => trivial) fun store rest first => ?_)
  obtain ⟨inside, hm, hr⟩ := free store (first ▸ List.mem_cons_self)
  refine (zero_yields (hw.book { w.toBooks with free := rest }) inside hm hr).bind ?_
  generalize hu : (w.book { w.toBooks with free := rest }).setPage store Page.zero = u
  have wired : u.Wired := hu ▸ (hw.book { w.toBooks with free := rest }).setPage hr _
  have unshared : ∀ f, u.shares.get f = 0 := by
    rw [← hu]
    exact shares
  refine .bind (Leads.mono (Leads.forEach (fun _ v => u.SeedsPlain v)
    ⟨rfl, fun f hf => ?_⟩ fun k v hk seeds => ?_) fun _ v seeds => ?_)
  · rw [← hu] at hf
    exact absurd hf (untracked f)
  · rw [Nat.mul_one]
    refine seedBootTable_plain wired seeds ?_
    simp only [userSlots, mountTableSlot] at *
    omega
  · have registered : Yields (modify fun s : KernelState =>
        { s with spaces := .withKernel store }) v ()
        (v.book { v.toBooks with spaces := .withKernel store }) := by
      refine modify_yields ?_
      rintro s rfl
      rfl
    refine registered.bind (.get fun s hs => (note_yields _ _).leads ?_)
    have plain := seeds.plain
    rw [seeds.same]
    exact ⟨(wired.book _).book _, ⟨store, rfl⟩, unshared, plain⟩

end Kernel

/-- Whatever the boot loader left in the other slots, the kernel starts so. -/
theorem KernelState.boot_handedOver {n reserved : Nat} {setup : List (Nat × UInt32)}
    {s : KernelState} (small : Ram.Addressable n) (away : SparesMachineSlots setup)
    (h : boot n reserved setup = .ok s) : s.snapshot.HandedOver := by
  obtain ⟨-, m, machine, started⟩ := boot_eq_ok h
  obtain ⟨room, windowed⟩ := bootMachine_windowed away machine
  have starts := Kernel.start_plain
    (windowed.wired room small ⟨frameRange (2 + reserved) n⟩) Shares.get_empty
    (fun _ => Std.ExtTreeMap.not_mem_empty) ?_ _ rfl
  · rwa [started] at starts
  · intro f hf
    obtain ⟨k, hk, rfl⟩ := List.mem_map.1 hf
    rw [List.mem_range'_1] at hk
    change Ram.IsFrame m.ram.frames.size _ ∧ _ ∧ _ ≠ m.directory
    rw [windowed.size, windowed.directory, mountTable, show Ram.base = Ram.frameAddress 0 from rfl]
    simp only [ne_eq, Ram.frameAddress_inj, Ram.isFrame_frameAddress]
    omega

end VirtualMemory
