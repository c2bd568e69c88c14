import VirtualMemory.Proofs.Calls.Ranges
import VirtualMemory.Proofs.Translations.Basic

/-!
# What protecting a range makes effective

Protecting rewrites the entries of pages and never a slot, where mapping and the resolution of
faults widen the slot first. So rights that a slot lacks are reported and not granted: what is asked
for takes effect exactly if the slot above the page has it already. Taking rights away always does,
as long as slots grant what their entries do.
-/
namespace VirtualMemory

open Layout Snapshot Kernel

theorem Rights.meet_eq_right {a b : Rights} : a.meet b = b ↔ b.Within a := by
  obtain ⟨w, u⟩ := a
  obtain ⟨w', u'⟩ := b
  simp only [meet, Rights.mk.injEq, Bool.and_eq_right_iff_imp]
  exact ⟨fun both => ⟨both.1, both.2⟩, fun both => ⟨both.write, both.user⟩⟩

theorem Rights.meet_within (a b : Rights) : (a.meet b).Within a :=
  ⟨fun both => (Bool.and_eq_true_iff.1 both).1, fun both => (Bool.and_eq_true_iff.1 both).1⟩

theorem Rights.Within.trans {a b c : Rights} (h : a.Within b) (h' : b.Within c) : a.Within c :=
  ⟨h'.write ∘ h.write, h'.user ∘ h.user⟩

/-- The rights that a protection stands for. -/
def Protection.rights (prot : Protection) : Rights := ⟨prot.grantsWrite, prot.grantsUser⟩

namespace KernelState

variable {s t : KernelState} {p va first last : Nat} {prot : Protection}

/-- What the processor grants at `va` while space `p` is resident, if a page is there. -/
def grantedIn? (s : KernelState) (p va : Nat) : Option (Option Rights) :=
  EStateM.run' (switch p >>= fun _ => inspect (·.granted va)) s

theorem grantedIn?_eq (h : s.snapshot.Tabled) (live : s.snapshot.Live p)
    (user : dirIndex va < userSlots) : s.grantedIn? p va =
      some ((s.snapshot.leaf? (.seenBy p (dirIndex va)) (tableIndex va)).map fun e =>
        (s.snapshot.slotIn p (dirIndex va)).rights.meet e.rights) := by
  have low : dirIndex va < mountTableSlot := user.trans (by decide)
  obtain ⟨v, switches, switched⟩ := switch_yields h.toSwitchable live
  obtain ⟨t, run, rfl⟩ := switches s rfl
  have tabled := h.switched live switched
  have has := has_seenBy live low
  have inside (present : (t.snapshot.entry t.snapshot.root (dirIndex va)).isPresent = true) :
      Ram.IsFrame t.snapshot.size (t.snapshot.entry t.snapshot.root (dirIndex va)).frame :=
    (tabled.tallied_here user present).inside
  have granted := Machine.granted_of_inside tabled.wired rfl inside
  rw [pageAt?, switched.here, h.leaf?_switched switched has.shown, switched.slotAt _ has] at granted
  rw [slotIn, if_pos low]
  refine run'_of_ok (t := t) ((bind_of_ok run _).trans ?_)
  rw [Kernel.inspect, granted]

/-- What is found and what is granted in the range after its rights were set. -/
structure RightsSet (s t : KernelState) (p first last : Nat) (prot : Protection) : Prop where
  /-- No slot of any space is rewritten. -/
  slots : ∀ q d, s.snapshot.Live q → d < tableEntries →
    t.snapshot.slotIn q d = s.snapshot.slotIn q d
  reported : ∀ va m, InRange first last va → t.lookupIn? p va = some (some m) →
    m.rights = prot.rights
  granted : ∀ va m, InRange first last va → t.lookupIn? p va = some (some m) →
    t.grantedIn? p va = some (some ((s.snapshot.slotIn p (dirIndex va)).rights.meet prot.rights))
  /-- The two agree just where the slot has had the rights already. -/
  effective : ∀ va m, InRange first last va → t.lookupIn? p va = some (some m) →
    (t.grantedIn? p va = some (some m.rights) ↔
      prot.rights.Within (s.snapshot.slotIn p (dirIndex va)).rights)
  /-- It is so where no right is asked for that was not granted before. -/
  narrowed : ∀ va m r, InRange first last va → t.lookupIn? p va = some (some m) →
    s.grantedIn? p va = some (some r) → prot.rights.Within r →
      t.grantedIn? p va = some (some m.rights)

theorem rightsSet (firstAligned : isAligned first = true) (lastAligned : isAligned last = true)
    (user : last ≤ kernelStart) (h : s.snapshot.Tabled) (live : s.snapshot.Live p)
    (regrants : s.snapshot.Regrants t.snapshot p prot (hits p first ((last - first) / pageSize))) :
    s.RightsSet t p first last prot := by
  have tabled := regrants.tabled
  have live' := (regrants.live p).2 live
  have slots (q d : Nat) (hq : s.snapshot.Live q) (hd : d < tableEntries) :
      t.snapshot.slotIn q d = s.snapshot.slotIn q d := regrants.slotIn hq hd
  have reported (va : Nat) (m : Mapping) (inside : InRange first last va)
      (page : t.lookupIn? p va = some (some m)) : m.rights = prot.rights := by
    obtain ⟨write, accessible⟩ :=
      rights_regranted firstAligned lastAligned user h live regrants inside page
    rw [Mapping.rights, write, accessible, Protection.rights]
  have granted (va : Nat) (m : Mapping) (inside : InRange first last va)
      (page : t.lookupIn? p va = some (some m)) : t.grantedIn? p va =
        some (some ((s.snapshot.slotIn p (dirIndex va)).rights.meet prot.rights)) := by
    have low := inside.user user
    have place : Place.seenBy p (dirIndex va) = .user p (dirIndex va) := if_pos low
    have found := page
    rw [lookupIn?_eq tabled.toCharted live', lookIn_of_lt (low.trans (by decide)), place,
      tabled.look_user ⟨live', low⟩, Option.some.injEq, Option.map_eq_some_iff] at found
    obtain ⟨e, leaf, rfl⟩ := found
    rw [grantedIn?_eq tabled live' low, place, leaf, Option.map_some,
      slots p _ live (dirIndex_lt va), ← reported va _ inside page, Mapping.rights_ofEntry]
  have effective (va : Nat) (m : Mapping) (inside : InRange first last va)
      (page : t.lookupIn? p va = some (some m)) : t.grantedIn? p va = some (some m.rights) ↔
        prot.rights.Within (s.snapshot.slotIn p (dirIndex va)).rights := by
    rw [granted va m inside page, reported va m inside page, Option.some.injEq, Option.some.injEq,
      Rights.meet_eq_right]
  refine ⟨slots, reported, granted, effective, fun va m r inside page before fewer => ?_⟩
  rw [grantedIn?_eq h live (inside.user user), Option.some.injEq, Option.map_eq_some_iff] at before
  obtain ⟨e, -, rfl⟩ := before
  exact (effective va m inside page).2 (fewer.trans (Rights.meet_within _ _))

end KernelState

namespace Session

open KernelState

/-- On a state where every user slot leads to a table of its own, protecting a range of user pages
ends. The pages are then reported with the rights that were asked for, and the processor grants
those of them that the slot above grants. And every session keeps its state so. -/
theorem protect_grants {first last : Nat} (firstAligned : isAligned first = true)
    (lastAligned : isAligned last = true) (ordered : first ≤ last) (user : last ≤ kernelStart)
    (p : Nat) (prot : Protection) :
    (∀ s : KernelState, s.snapshot.Tabled → s.snapshot.Live p →
      ∃ t, protect p first last prot s = .ok () t ∧ s.RightsSet t p first last prot) ∧
    ∀ n reserved setup σ, Ram.Addressable n → KernelState.Prepares n reserved setup →
      Shared Permits n reserved setup σ → σ.snapshot.Tabled := by
  refine ⟨fun s h live => ?_, fun n reserved setup σ small prepares shared =>
    (shared.settled (fun _ _ _ => id) small prepares).furnished.toTabled⟩
  obtain ⟨⟨⟩, t, run, regrants, -⟩ :=
    (protect_regrants h live firstAligned lastAligned ordered user prot).succeeds
  exact ⟨t, run, rightsSet firstAligned lastAligned user h live regrants⟩

/-- A page that may be written is made readable only. -/
theorem protect_grants_mapped : ∃ σ τ υ, boot? 8 0 [] = some σ ∧
    σ.next? (.mapFresh 0 0x400000 .userRW) = some τ ∧ τ.next? .create = some υ ∧
    υ.snapshot.Tabled ∧ υ.snapshot.Live 0 ∧
    ∃ t, protect 0 0x400000 0x402000 .userRead υ.state = .ok () t ∧
      υ.state.RightsSet t 0 0x400000 0x402000 .userRead := by
  obtain ⟨σ, τ, υ, boot, mint, create, live, -⟩ := one_page
  have low : dirIndex 0x400000 < mountTableSlot := by decide
  have reaches : Reaches Permits 8 0 [] υ :=
    ((Reaches.of_boot? boot).next? mint low).next? create trivial
  have firstAligned : isAligned 0x400000 = true := by decide
  have lastAligned : isAligned 0x402000 = true := by decide
  obtain ⟨protects, tabled⟩ :=
    protect_grants firstAligned lastAligned (by decide) (by decide) 0 .userRead
  have tabled := tabled 8 0 [] υ (by decide) (KernelState.prepares_nil 8) (.of_reaches reaches)
  exact ⟨σ, τ, υ, boot, mint, create, tabled, live, protects υ.state tabled live⟩

/-- A page that may be read only is made writable: it is found so, and the slot above it denies
it. -/
theorem protect_grants_nothing : ∃ σ τ t, boot? 8 0 [] = some σ ∧
    σ.next? (.mapFresh 0 0x400000 .userRead) = some τ ∧ Shared Permits 8 0 [] τ ∧
    protect 0 0x400000 0x401000 .userRW τ.state = .ok () t ∧
    t.lookup? 0x400000 = some (some ⟨0x103000, Protection.userRW.entryFlags⟩) ∧
    t.machine.granted 0x400000 = .ok (some ⟨false, true⟩) := by
  have runs : (((boot? 8 0 []).bind (·.next? (.mapFresh 0 0x400000 .userRead))).filter fun τ =>
      EStateM.run' (do protect 0 0x400000 0x401000 .userRW; lookup 0x400000) τ.state =
        some (some ⟨0x103000, Protection.userRW.entryFlags⟩) ∧
      EStateM.run' (do protect 0 0x400000 0x401000 .userRW; inspect (·.granted 0x400000)) τ.state =
        some (some ⟨false, true⟩)).isSome = true := by decide +kernel
  obtain ⟨τ, run⟩ := Option.isSome_iff_exists.1 runs
  obtain ⟨run, holds⟩ := Option.filter_eq_some_iff.1 run
  obtain ⟨found, granted⟩ := of_decide_eq_true holds
  obtain ⟨σ, boot, mint⟩ := Option.bind_eq_some_iff.1 run
  have low : dirIndex 0x400000 < mountTableSlot := by decide
  have reaches : Reaches Permits 8 0 [] τ := (Reaches.of_boot? boot).next? mint low
  obtain ⟨u, done⟩ := ok_of_run' found
  obtain ⟨⟨⟩, t, sets, found⟩ := bind_eq_ok.1 done
  obtain ⟨u, done⟩ := ok_of_run' granted
  rw [bind_of_ok sets, inspect] at done
  refine ⟨σ, τ, t, boot, mint, .of_reaches reaches, sets, run'_of_ok found, ?_⟩
  split at done
  · rename_i granted
    cases done
    exact granted
  · cases done

end Session
end VirtualMemory
