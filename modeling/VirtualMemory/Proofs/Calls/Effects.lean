import VirtualMemory.Proofs.Calls.Basic

/-!
# What calls do

Every permitted call either stops the kernel, is refused, or has its effect; each lemma says for
what reasons alone its call can stop. Since each effect ends in a settled snapshot, so does every
run of permitted calls.
-/
namespace VirtualMemory

open Layout Snapshot Kernel

theorem Snapshot.Disowned.stops {w : Snapshot} {c : Call} {f : Failure} {b : Books}
    (h : w.Disowned c f b) : Stops f b := by
  cases h
  exact .halt _ _

namespace Call

variable {w v : Snapshot} {O : Finset Nat} {c : Call} {p va first last frame f d t : Nat}
  {prot : Protection} {E : Failure → Books → Prop}

/-- The call performs its effect, or it fails with `E`. -/
def Performs (E : Failure → Books → Prop) (c : Call) (w : Snapshot) (O : Finset Nat) : Prop :=
  Leads E c.perform w fun r v => w.Effect O c r v (c.held r v O)

theorem Performs.weaken {F : Failure → Books → Prop} (h : c.Performs E w O)
    (hE : ∀ f b, E f b → F f b) : c.Performs F w O := Leads.weaken h hE

theorem Performs.of_leads (hE : ∀ f b, E f b → Stops f b) (h : Leads E c.action w fun a v =>
    w.Effect O c (.ok a) v (c.held (.ok a) v O)) : c.Performs E w O :=
  Leads.attempt h (fun e b no => hE _ b no e rfl) fun _ _ => id

theorem Performs.of_refuses {e : ArgumentError} (h : Refuses c.action w e) : c.Performs E w O :=
  h.attempt.leads (by rw [held_error]; exact .refused c e)

/-! ## Spaces -/

theorem create_performs (h : w.Settled O) : create.Performs Depleted w O := by
  refine .of_leads (fun _ _ => Depleted.stops) (.bind ((create_leads h).mono ?_))
  rintro _ v ⟨f, -, rfl, settled, admitted⟩
  exact .pure (.created settled admitted)

theorem incref_performs (h : w.Settled O) : (incref p).Performs Depleted w O := by
  by_cases live : w.Live p
  · obtain ⟨r, hr⟩ := Option.isSome_iff_exists.1 live
    refine .of_leads (fun _ _ => Depleted.stops) (.bind ((incref_leads h hr).mono ?_))
    rintro _ _ ⟨rfl, rfl, settled⟩
    exact .pure (.reowned (.inl rfl) hr settled)
  · exact .of_refuses (incref_refuses live).bind

/-- Dropping an owner, by whichever call. A space that is no more is for that call to look out
for. -/
theorem leave_effect (h : w.Settled O) (call : c = .decref p ∨ c = .destroy p)
    (alive : c = .decref p ∨ w.Live p) :
    Leads (w.Disowned c) (Kernel.decref p) w fun _ v => ∀ a, w.Effect O c (.ok a) v O := by
  by_cases ended : ∀ r, w.spaces.find? p = some r → r.owners = 1 ∧ p = Spaces.kernelId
  · refine decref_halts ended ?_ ?_
    · intro dead
      obtain rfl := alive.resolve_right dead
      exact .halted (.released dead)
    · intro r b hr
      obtain ⟨one, rfl⟩ := ended r hr
      exact .halted (.kernel call hr one)
  · simp only [not_forall, exists_prop] at ended
    obtain ⟨r, hr, keep⟩ := ended
    refine (decref_leads h hr fun one kernel => keep ⟨one, kernel⟩).mono ?_
    rintro _ v ⟨-, settled, ⟨-, rfl⟩ | ⟨-, gone⟩⟩ a
    · exact .reowned (.inr call) hr settled
    · exact .vacated call settled gone

theorem decref_performs (h : w.Settled O) :
    (decref p).Performs (w.Disowned (decref p)) w O := by
  refine .of_leads (fun _ _ => Disowned.stops)
    (.bind ((leave_effect h (.inl rfl) (.inl rfl)).mono ?_))
  exact fun a v effect => .pure (effect _)

theorem destroy_performs (h : w.Settled O) :
    (destroy p).Performs (w.Disowned (destroy p)) w O := by
  by_cases live : w.Live p
  · obtain ⟨r, hr⟩ := Option.isSome_iff_exists.1 live
    refine .of_leads (fun _ _ => Disowned.stops) (.bind (destroy_leads hr
      ((leave_effect h (.inr rfl) (.inr live)).mono ?_)))
    exact fun a v effect => .pure (effect _)
  · exact .of_refuses (destroy_refuses live).bind

theorem switch_performs (h : w.Settled O) : (switch p).Performs Depleted w O := by
  by_cases live : w.Live p
  · obtain ⟨role, stable⟩ := h.stable
    obtain ⟨v, there, s⟩ := switch_yields stable.toSound.switchable live
    exact .of_leads (fun _ _ => Depleted.stops)
      (there.bind (.pure (.switched live (h.switched live s) s)))
  · exact .of_refuses (switch_refuses live).bind

theorem fork_performs {parent child : Nat} (h : w.Settled O) (into : w.ForksInto parent child) :
    (fork parent child).Performs Depleted w O := by
  by_cases live : w.Live parent ∧ w.Live child
  · have vacant := into.2 live.2
    refine .of_leads (fun _ _ => Depleted.stops)
      (.bind ((fork_leads h live.1 live.2 into.1 vacant).mono ?_))
    rintro _ v ⟨settled, forked⟩
    exact .pure (.forked live.1 live.2 into.1 vacant settled forked)
  · exact .of_refuses (fork_refuses live).bind

/-! ## Pages -/

theorem add_performs (h : w.Settled O) (hd : dirIndex va < mountTableSlot) (owned : frame ∈ O) :
    (add p va frame prot).Performs Depleted w O := by
  by_cases ok : isAligned va = true ∧ w.Live p
  · refine .of_leads (fun _ _ => Depleted.stops)
      (.bind ((add_leads h ok.2 ok.1 hd owned prot).mono ?_))
    rintro _ v ⟨settled, pages⟩
    exact .pure (.added ok.2 settled pages)
  · have invalid := fun all : isAligned va = true ∧ isAligned frame = true ∧ w.Live p =>
      ok ⟨all.1, all.2.2⟩
    obtain ⟨e, no⟩ := add_refuses invalid prot
    exact .of_refuses no.bind

/-- What stops a removal depends on where the range lies. -/
theorem remove_performs (hE : ∀ f b, E f b → Stops f b)
    (leads : w.Live p → isAligned first = true → isAligned last = true → first ≤ last →
      Leads E (Kernel.remove p first last) w fun _ v =>
        v.Settled O ∧ w.Remaps v O (w.pagesBut p first last)) :
    (remove p first last).Performs E w O := by
  by_cases ok : isAligned first = true ∧ isAligned last = true ∧ first ≤ last ∧ w.Live p
  · obtain ⟨firstAligned, lastAligned, ordered, live⟩ := ok
    refine .of_leads hE (.bind ((leads live firstAligned lastAligned ordered).mono ?_))
    rintro _ v ⟨settled, pages⟩
    exact .pure (.removed live settled pages)
  · obtain ⟨e, no⟩ := forPages_refuses ok Kernel.unmap
    exact .of_refuses no.bind

theorem drop_performs (h : w.Settled O) : (drop p va f).Performs Stops w O := by
  by_cases ok : isAligned va = true ∧ isAligned (va + pageSize) = true ∧ va ≤ va + pageSize ∧
      w.Live p
  · obtain ⟨firstAligned, lastAligned, ordered, live⟩ := ok
    refine .of_leads (fun _ _ => id)
      (.bind ((remove_leads h live firstAligned lastAligned ordered).mono ?_))
    rintro _ v ⟨settled, pages⟩
    by_cases shared : v.shares.get f = 0
    · exact .bind (unshareFrame_stops shared)
    · refine (unshareFrame_yields shared).bind (.pure ?_)
      rw [pages.shares] at shared ⊢
      exact .dropped live settled pages shared rfl
  · obtain ⟨e, no⟩ := forPages_refuses ok Kernel.unmap
    exact .of_refuses no.bind

theorem protect_performs (h : w.Settled O)
    (low : ∀ i < (last - first) / pageSize, dirIndex (first + i * pageSize) < mountTableSlot) :
    (protect p first last prot).Performs Depleted w O := by
  by_cases ok : isAligned first = true ∧ isAligned last = true ∧ first ≤ last ∧ w.Live p
  · obtain ⟨firstAligned, lastAligned, ordered, live⟩ := ok
    refine .of_leads (fun _ _ => Depleted.stops)
      (.bind ((protect_leads h live firstAligned lastAligned ordered prot low).mono ?_))
    rintro _ v ⟨settled, pages⟩
    exact .pure (.reprotected live settled pages)
  · obtain ⟨e, no⟩ := forPages_refuses ok (protectPage prot)
    exact .of_refuses no.bind

theorem map_performs (h : w.Settled O) (hd : d < mountTableSlot) (owned : frame ∈ O) :
    (map frame d t prot).Performs Depleted w O := by
  by_cases ht : t < tableEntries
  · refine .of_leads (fun _ _ => Depleted.stops)
      (.bind ((map_leads h hd ht owned prot).mono ?_))
    rintro _ v ⟨settled, pages⟩
    exact .pure (.mapped settled pages)
  · have invalid := fun all : d < tableEntries ∧ t < tableEntries ∧ isAligned frame = true =>
      ht all.2.1
    obtain ⟨e, no⟩ := map_refuses invalid prot
    exact .of_refuses no.bind

theorem unmap_performs (h : w.Settled O) (hE : ∀ f b, E f b → Stops f b)
    (leads : isAligned va = true → Leads E (Kernel.unmap va) w fun _ v => v.Settled O ∧
      w.Remaps v O (w.pagesWith (w.here (dirIndex va)) (tableIndex va) none)) :
    (unmap va).Performs E w O := by
  by_cases aligned : isAligned va = true
  · refine .of_leads hE (.bind ((leads aligned).mono ?_))
    rintro _ v ⟨settled, pages⟩
    exact .pure (.unmapped settled pages (.inr rfl))
  · refine .of_leads hE ((unmap_unaligned (by simpa using aligned) w).bind (.pure ?_))
    exact .unmapped h (.refl w O) (.inl rfl)

theorem mapFresh_performs (h : w.Settled O) (hd : dirIndex va < mountTableSlot) :
    (mapFresh p va prot).Performs Stops w O := by
  refine .of_leads (fun _ _ => id) (.bind ((mapFresh_leads h hd prot).mono ?_))
  rintro f v ⟨rest, first, live, settled, pages⟩
  exact .pure (.minted (h.hand first).2.1 live settled pages)

/-! ## Faults -/

theorem pageFault_performs {code : UInt32} (h : w.Settled O) (hd : dirIndex va < mountTableSlot) :
    (pageFault va code).Performs Depleted w O := by
  refine .of_leads (fun _ _ => Depleted.stops) (.bind ((pageFault_leads h hd code).mono ?_))
  exact fun o v resolved => .pure (.faulted resolved)

theorem userWrite_performs {value : UInt8} (h : w.Settled O) (user : va < kernelStart) :
    (userWrite va value).Performs Stops w O := by
  have hd := dirIndex_user_lt user
  refine .of_leads (fun _ _ => id)
    (.bind ((userWrite_leads h hd (fun _ => h.pageAt?_owned user) value).mono ?_))
  rintro _ _ ⟨u, e, resolved, page, writable, rfl⟩
  have settled := resolved.settled h
  have same := settled.withPageAt_setPage hd (settled.pageAt?_owned user page)
    ((u.page e.frame).setByte (offset va) value) O
  refine .pure ?_
  change w.Effect O _ _ _ (Snapshot.withPageAt _ va O)
  rw [same]
  exact .stored user resolved page writable

/-! ## Frames -/

theorem acquireRaw_performs (h : w.Settled O) : acquireRaw.Performs Depleted w O := by
  refine .of_leads (fun _ _ => Depleted.stops) (.bind (acquireRaw_leads .frames ?_))
  intro f rest first
  obtain ⟨settled, fresh, -⟩ := h.hand first
  refine .pure (.taken (.inr rfl) fresh settled
    ⟨⟨rfl, rfl, rfl, ?_, fun _ _ => rfl⟩, .book rfl⟩)
  intro π t _ _
  exact leaf?_book (by rfl) π t

theorem acquire_performs (h : w.Settled O) : acquire.Performs Depleted w O := by
  obtain ⟨role, stable⟩ := h.stable
  refine .of_leads (fun _ _ => Depleted.stops)
    (.bind (acquire_leads stable.wired stable.usable .frames ?_))
  intro f rest first
  obtain ⟨handed, fresh, -⟩ := h.hand first
  obtain ⟨settled, pages⟩ := handed.setPage (Finset.mem_insert_self f O) Page.zero
  have taken : w.Upholds (w.book { w.toBooks with free := rest }) := .book rfl
  have cleared := handed.upholds_setPage (Finset.mem_insert_self f O) Page.zero
  refine .pure (.taken (.inl rfl) fresh settled ⟨⟨rfl, rfl, rfl, ?_, ?_⟩, taken.trans cleared⟩)
  · intro π t hπ _
    exact (pages π t hπ).trans (leaf?_book (by rfl) π t)
  · intro g hg
    refine (page_setPage ..).trans (if_neg ?_)
    rintro rfl
    exact fresh hg

theorem release_performs (h : w.Settled O) (owned : f ∈ O)
    (unused : ∀ π t e, w.Has π → t < tableEntries → w.leaf? π t = some e → e.frame ≠ f) :
    (release f).Performs Depleted w O := by
  obtain ⟨out, settled⟩ := h.giveBack owned fun p d t e => unused (.user p d) t e
  refine .of_leads (fun _ _ => Depleted.stops) ((release_yields out).bind
    (.pure (.returned settled ⟨⟨rfl, rfl, rfl, ?_, fun _ _ => rfl⟩, .book rfl⟩)))
  intro π t _ _
  exact leaf?_book (by rfl) π t

/-- Permitted calls have their effects. -/
theorem performs (h : w.Settled O) (permitted : w.Permits O c) : c.Performs Stops w O := by
  have or {c : Call} (sure : c.Performs Depleted w O) : c.Performs Stops w O :=
    sure.weaken fun _ _ => Depleted.stops
  have orNot {c : Call} (sure : c.Performs (w.Disowned c) w O) : c.Performs Stops w O :=
    sure.weaken fun _ _ => Disowned.stops
  cases c with
  | create => exact or (create_performs h)
  | incref => exact or (incref_performs h)
  | decref => exact orNot (decref_performs h)
  | destroy => exact orNot (destroy_performs h)
  | switch => exact or (switch_performs h)
  | add => exact or (add_performs h permitted.1 permitted.2)
  | remove => exact remove_performs (fun _ _ => id) (remove_leads h)
  | protect => exact or (protect_performs h permitted)
  | map => exact or (map_performs h permitted.1 permitted.2)
  | unmap => exact unmap_performs h (fun _ _ => id) (unmap_stops h)
  | mapFresh => exact mapFresh_performs h permitted
  | drop => exact drop_performs h
  | fork => exact or (fork_performs h permitted)
  | pageFault => exact or (pageFault_performs h permitted)
  | userWrite => exact userWrite_performs h permitted
  | acquire => exact or (acquire_performs h)
  | acquireRaw => exact or (acquireRaw_performs h)
  | release => exact or (release_performs h permitted.1 permitted.2)

end Call
end VirtualMemory
