import VirtualMemory.Proofs.Calls.Isolation

/-!
# Rights to shared pages

A fork takes the right to write from what it shares, and a fault gives it back only to the last
sharer. Protecting a range gives the rights that are asked for and looks at no share count. So it
leaves pages that can be written and are counted more than once exactly if it grants writing to a
page that was counted more than once; whoever stores there is read in the other spaces.
-/
namespace VirtualMemory

open Layout Snapshot

namespace Snapshot

/-- If the rights include writing, all pages in the range are counted at most once. -/
def Unshared (w : Snapshot) (p first last : Nat) (prot : Protection) : Prop :=
  prot.grantsWrite = true → ∀ va e, first ≤ va → va < last →
    w.userPages (.of p va) = some e → w.shares.get e.frame ≤ 1

variable {w v : Snapshot} {O : Finset Nat} {S : Nat → Prop} {x : Position} {e : Entry}
  {p first last va : Nat} {prot : Protection}

/-- The pages of a range are those of its addresses. -/
theorem hits_range (firstAligned : isAligned first = true) (lastAligned : isAligned last = true)
    (user : last ≤ kernelStart) : hits p first ((last - first) / pageSize) (.user x.1 x.2.1) x.2.2 ↔
      ∃ va, first ≤ va ∧ va < last ∧ x = .of p va := by
  obtain ⟨q, d, t⟩ := x
  rw [isAligned_iff] at firstAligned lastAligned
  have low {va : Nat} (inside : va < last) : dirIndex va < userSlots :=
    dirIndex_user (inside.trans_le user)
  constructor
  · rintro ⟨i, hi, place, entry⟩
    have inside : first + i * pageSize < last := by
      simp only [pageSize] at *
      omega
    refine ⟨_, Nat.le_add_right _ _, inside, ?_⟩
    rw [Place.seenBy, if_pos (low inside)] at place
    obtain ⟨rfl, rfl⟩ := Place.user.inj place
    exact congrArg (q, _, ·) entry
  · rintro ⟨va, lower, upper, ⟨⟩⟩
    refine ⟨(va - first) / pageSize, ?_, ?_, ?_⟩
    · simp only [pageSize]
      omega
    · rw [Place.seenBy, if_pos]
      · congr 1
        simp only [dirIndex, pageSize]
        omega
      · refine low (lt_of_le_of_lt ?_ upper)
        simp only [pageSize]
        omega
    · simp only [tableIndex, pageSize]
      omega

section Protect
variable (pages : w.Rewrites v O (w.pagesOver (hits p first ((last - first) / pageSize))
  (Option.map fun e => .of e.frame prot.entryFlags)))
include pages

/-- Protecting pages moves none to another frame. -/
theorem frame_protected {π : Place} {t : Nat} (hπ : w.Has π) (ht : t < tableEntries) :
    (v.leaf? π t).map Entry.frame = (w.leaf? π t).map Entry.frame := by
  rw [pages.leaf π t hπ ht, pagesOver]
  split
  · cases w.leaf? π t <;> simp
  · rfl

theorem userFrames_protected (x : Position) :
    (v.userPages x).map Entry.frame = (w.userPages x).map Entry.frame :=
  userFrames_congr pages.spaces (fun _ _ => frame_protected pages) x

theorem mappings_protected (f : Nat) : v.mappings f = w.mappings f :=
  mappings_congr (has_congr pages.spaces) (fun _ _ => frame_protected pages) f

variable (firstAligned : isAligned first = true) (lastAligned : isAligned last = true)
  (user : last ≤ kernelStart)
include firstAligned lastAligned user

theorem userPages_protected (lower : first ≤ va) (upper : va < last) : v.userPages (.of p va) =
    (w.userPages (.of p va)).map fun e => .of e.frame prot.entryFlags := by
  rw [userPages_over pages.spaces rfl pages.leaf]
  exact if_pos ((hits_range firstAligned lastAligned user).2 ⟨va, lower, upper, rfl⟩)

/-- Pages that may be written have been so before, or are in a range that may be. -/
theorem writable_protected (page : v.userPages x = some e) (writable : e.isWritable = true) :
    w.userPages x = some e ∨ prot.grantsWrite = true ∧ ∃ va e', first ≤ va ∧ va < last ∧
      w.userPages (.of p va) = some e' ∧ e'.frame = e.frame := by
  rw [userPages_over pages.spaces rfl pages.leaf] at page
  dsimp only at page
  split at page
  · rename_i hit
    obtain ⟨va, lower, upper, rfl⟩ := (hits_range firstAligned lastAligned user).1 hit
    obtain ⟨e', old, rfl⟩ := Option.map_eq_some_iff.1 page
    rw [Entry.isWritable_of e'.frame_aligned] at writable
    exact .inr ⟨writable, va, e', lower, upper, old, (Entry.frame_of_frame e' prot).symm⟩
  · exact .inl page

theorem Guarded.protected (g : w.Guarded S) (safe : w.Unshared p first last prot) :
    v.Guarded S := by
  refine g.reframe (mappings_protected pages) pages.shares (userFrames_protected pages) ?_
  intro x e _ page writable
  refine (writable_protected pages firstAligned lastAligned user page writable).imp id ?_
  rintro ⟨grants, va, e', lower, upper, old, same⟩
  exact same ▸ safe grants va e' lower upper old

/-- What may be written is counted once afterwards, just where it is safe to grant it. -/
theorem tight_protected_iff (tidy : w.Tidy O) :
    (∀ x e, v.userPages x = some e → e.isWritable = true → v.shares.get e.frame ≤ 1) ↔
      w.Unshared p first last prot := by
  constructor
  · intro tight grants va e lower upper page
    have now := userPages_protected pages firstAligned lastAligned user lower upper
    rw [page] at now
    have one := tight _ _ now (by rwa [Entry.isWritable_of e.frame_aligned])
    rwa [Entry.frame_of_frame, pages.shares] at one
  · intro safe x e page writable
    rw [pages.shares]
    rcases writable_protected pages firstAligned lastAligned user page writable with
      old | ⟨grants, va, e', lower, upper, old, same⟩
    · exact tidy.tight x e old writable
    · exact same ▸ safe grants va e' lower upper old

end Protect
end Snapshot

namespace Kernel

variable {s : KernelState} {O : Finset Nat} {p first last va : Nat} {prot : Protection} {e : Entry}

/-- Protecting pages of the user half of a live space succeeds. -/
theorem protect_ok (h : s.snapshot.Settled O) (live : s.snapshot.Live p)
    (firstAligned : isAligned first = true) (lastAligned : isAligned last = true)
    (ordered : first ≤ last) (user : last ≤ kernelStart) (prot : Protection) :
    ∃ t, protect p first last prot s = .ok () t ∧ t.snapshot.Settled O ∧
      s.snapshot.Rewrites t.snapshot O
        (s.snapshot.pagesOver (hits p first ((last - first) / pageSize))
          (Option.map fun e => .of e.frame prot.entryFlags)) := by
  have low : ∀ i < (last - first) / pageSize, dirIndex (first + i * pageSize) < mountTableSlot := by
    intro i hi
    refine dirIndex_user_lt (lt_of_lt_of_le ?_ user)
    simp only [pageSize] at *
    omega
  obtain ⟨_, t, run, outcome⟩ :=
    (protect_leads h live firstAligned lastAligned ordered prot low).succeeds
  exact ⟨t, run, outcome⟩

/-- With the right to write, a store to a page of the range is seen by whoever refers to its
frame. -/
theorem protect_leaks {t : KernelState} (settled : t.snapshot.Settled O)
    (pages : s.snapshot.Rewrites t.snapshot O
      (s.snapshot.pagesOver (hits p first ((last - first) / pageSize))
        (Option.map fun e => .of e.frame prot.entryFlags)))
    (firstAligned : isAligned first = true) (lastAligned : isAligned last = true)
    (user : last ≤ kernelStart) (grants : prot.grantsWrite = true)
    (right : prot.grantsUser = true) (active : s.spaces.active = p) (lower : first ≤ va)
    (upper : va < last) (page : s.snapshot.userPages (.of p va) = some e) (value : UInt8) :
    ∃ u, userWrite .recording va value t = .ok () u ∧ ∀ q a, a < kernelStart →
      offset a = offset va → Position.of q a ∈ s.snapshot.references e.frame →
        u.memory q a = some value := by
  have now := userPages_protected pages firstAligned lastAligned user lower upper
  have resident : t.spaces.active = p := (congrArg Spaces.active pages.spaces).trans active
  rw [page, ← resident] at now
  have seen := userWrite_seen settled (upper.trans_le user) now
    (by rwa [Entry.isUser_of e.frame_aligned]) (.inl (by rwa [Entry.isWritable_of e.frame_aligned]))
    value
  rwa [Entry.frame_of_frame, references_reframe (userFrames_protected pages)] at seen

end Kernel

namespace Session

variable {n : Nat} {σ : Session}

/-- Protecting pages succeeds and changes no memory. It leaves every page that may be written
counted once exactly if it is not asked to grant writing to a page that is counted more often;
then no space sees what another stores afterwards. Otherwise whoever has such a page does. -/
theorem Reaches.protect_safe_iff {p first last : Nat} {prot : Protection}
    (small : Ram.Addressable n) (h : Reaches Plain n 0 [] σ) (live : σ.snapshot.Live p)
    (firstAligned : isAligned first = true) (lastAligned : isAligned last = true)
    (ordered : first ≤ last) (user : last ≤ kernelStart) :
    ∃ t, Kernel.protect p first last prot σ.state = .ok () t ∧ t.memory = σ.state.memory ∧
      ((∀ x e, t.snapshot.userPages x = some e → e.isWritable = true →
        t.snapshot.shares.get e.frame ≤ 1) ↔ σ.snapshot.Unshared p first last prot) ∧
      (σ.snapshot.Unshared p first last prot →
        ∀ τ, Follows Runs ⟨t, σ.held⟩ τ → τ.Isolates fun _ => True) ∧
      (prot.grantsWrite = true → prot.grantsUser = true → σ.state.spaces.active = p →
        ∀ va e, first ≤ va → va < last → σ.snapshot.userPages (.of p va) = some e →
          ∀ value, ∃ u, Kernel.userWrite .recording va value t = .ok () u ∧
            ∀ q a, a < kernelStart → offset a = offset va →
              Position.of q a ∈ σ.snapshot.references e.frame → u.memory q a = some value) := by
  obtain ⟨settled, tidy⟩ := h.tidy small
  obtain ⟨t, run, settled', pages⟩ :=
    Kernel.protect_ok settled live firstAligned lastAligned ordered user prot
  refine ⟨t, run, ?_, tight_protected_iff pages firstAligned lastAligned user tidy, ?_, ?_⟩
  · rw [memory_eq settled, memory_eq settled']
    refine memory_congr (funext fun x => ?_)
    exact contents_of_frame settled pages.data (userFrames_protected pages x)
  · intro safe τ follows
    exact Follows.isolates (σ := ⟨t, σ.held⟩) settled' (tidy.held.reprotected pages)
      (tidy.toGuarded.protected pages firstAligned lastAligned user safe) follows
  · intro grants right active va e lower upper page
    exact Kernel.protect_leaks settled' pages firstAligned lastAligned user grants right
      active lower upper page

/-- The session whose only page has been forked. -/
theorem forked_page : ∃ σ τ υ ρ, boot? 8 0 [] = some σ ∧
    σ.next? (.mapFresh 0 0x400000 .userRW) = some τ ∧ τ.next? .create = some υ ∧
    υ.next? (.fork 0 1) = some ρ ∧ Reaches Plain 8 0 [] ρ ∧ ρ.snapshot.Live 0 ∧
    ρ.state.spaces.active = 0 ∧ ρ.state.memory 1 0x400000 = some 0 ∧
    (∀ p, p = 0 ∨ p = 1 → ρ.snapshot.userPages (.of p 0x400000) =
      some ((Entry.of 0x103000 Protection.userRW.entryFlags).clear EntryFlags.writable)) ∧
    1 < ρ.snapshot.shares.get 0x103000 := by
  obtain ⟨σ, τ, υ, boot, mint, create, live, live', vacant, one, enough, page, count, zero,
    accounted⟩ := one_page
  have low : dirIndex 0x400000 < mountTableSlot := by decide
  have plain : Reaches Plain 8 0 [] υ :=
    ((Reaches.of_boot? boot).next? mint low).next? create trivial
  obtain ⟨settled, -⟩ := plain.tidy (by decide)
  obtain ⟨t, run, settled', duplicated⟩ := Kernel.fork_ok settled live live' (by decide) vacant
    (one.trans_le enough) (settled.countable accounted 0)
  have forked := duplicated.toForked
  have next : υ.next? (.fork 0 1) = some ⟨t, υ.held⟩ := by
    rw [next?, Call.fork_answered run]
    rfl
  refine ⟨σ, τ, υ, ⟨t, υ.held⟩, boot, mint, create, next,
    plain.next? next ⟨by decide, fun _ => vacant⟩, ?_, congrArg Spaces.active forked.spaces, ?_, ?_,
    ?_⟩
  · change t.snapshot.Live 0
    unfold Live
    rw [forked.spaces]
    exact live
  · rw [Kernel.memory_fork settled live live' settled' forked, Function.update_self]
    exact zero
  · intro p either
    change t.snapshot.userPages (.of p 0x400000) = _
    rw [forked.userPages live live', forkedUserPages, Position.of, if_pos either]
    exact congrArg (Option.map (·.clear EntryFlags.writable)) page
  · obtain ⟨has, ht, leaf⟩ := userPages_eq_some.1 page
    have more := pagesIn_lt has.2 ht leaf
    have frame : (Entry.of 0x103000 Protection.userRW.entryFlags).frame = 0x103000 := by decide
    rw [frame] at more
    change 1 < t.snapshot.shares.get 0x103000
    rw [forked.shares, show υ.state.snapshot.shares.get 0x103000 = 1 from count]
    exact Nat.lt_add_of_pos_right (Nat.zero_lt_of_lt more)

theorem Reaches.protect_safe_iff_forked :
    ∃ σ τ υ ρ t, boot? 8 0 [] = some σ ∧ σ.next? (.mapFresh 0 0x400000 .userRW) = some τ ∧
      τ.next? .create = some υ ∧ υ.next? (.fork 0 1) = some ρ ∧ Ram.Addressable 8 ∧
      Reaches Plain 8 0 [] ρ ∧ ρ.snapshot.Live 0 ∧
      ρ.snapshot.Unshared 0 0x400000 0x401000 Protection.userRead ∧
      Kernel.protect 0 0x400000 0x401000 Protection.userRead ρ.state = .ok () t ∧
      t.memory = ρ.state.memory ∧
      ∀ ψ, Follows Runs ⟨t, ρ.held⟩ ψ → ψ.Isolates fun _ => True := by
  obtain ⟨σ, τ, υ, ρ, boot, mint, create, fork, reaches, live, -⟩ := forked_page
  have small : Ram.Addressable 8 := by decide
  have safe : ρ.snapshot.Unshared 0 0x400000 0x401000 Protection.userRead :=
    fun grants => absurd grants (by decide)
  have aligned : isAligned 0x400000 = true ∧ isAligned 0x401000 = true := by decide
  obtain ⟨t, protects, same, -, isolates, -⟩ := reaches.protect_safe_iff small live aligned.1
    aligned.2 (by decide) (by decide)
  exact ⟨σ, τ, υ, ρ, t, boot, mint, create, fork, small, reaches, live, safe, protects, same,
    isolates safe⟩

/-- After a fork the parent asks for the right to write to the shared page. It gets it, and what it
stores there the child reads. -/
theorem Reaches.protect_leaks_shared :
    ∃ ρ t u e, Reaches Plain 8 0 [] ρ ∧ ρ.snapshot.Live 0 ∧
      Kernel.protect 0 0x400000 0x401000 Protection.userRW ρ.state = .ok () t ∧
      t.snapshot.userPages (.of 0 0x400000) = some e ∧ e.isWritable = true ∧
      1 < t.snapshot.shares.get e.frame ∧ ρ.state.memory 1 0x400000 = some 0 ∧
      Kernel.userWrite .recording 0x400000 7 t = .ok () u ∧ u.memory 1 0x400000 = some 7 := by
  obtain ⟨-, -, -, ρ, -, -, -, -, reaches, live, active, zero, page, several⟩ := forked_page
  have aligned : isAligned 0x400000 = true ∧ isAligned 0x401000 = true := by decide
  have user : 0x401000 ≤ kernelStart := by decide
  have inside : 0x400000 ≤ 0x400000 ∧ 0x400000 < 0x401000 := by decide
  obtain ⟨settled, -⟩ := reaches.tidy (by decide)
  obtain ⟨t, protects, settled', pages⟩ :=
    Kernel.protect_ok settled live aligned.1 aligned.2 (by decide) user .userRW
  have before : ρ.state.snapshot.userPages (.of 0 0x400000) = _ := page 0 (.inl rfl)
  have other : ρ.state.snapshot.userPages (.of 1 0x400000) = _ := page 1 (.inr rfl)
  have now := userPages_protected pages aligned.1 aligned.2 user inside.1 inside.2
  rw [before, Option.map_some] at now
  obtain ⟨u, stored, seen⟩ := Kernel.protect_leaks settled' pages aligned.1 aligned.2 user
    (by decide) (by decide) active inside.1 inside.2 before 7
  refine ⟨ρ, t, u, _, reaches, live, protects, now, by decide, ?_, zero, stored,
    seen 1 0x400000 (by decide) rfl (mem_references_frame other)⟩
  rw [pages.shares]
  exact several

end Session
end VirtualMemory
