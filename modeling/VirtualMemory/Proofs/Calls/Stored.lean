import VirtualMemory.Proofs.Calls.Lifetimes
import VirtualMemory.Proofs.Calls.Progress
import VirtualMemory.Proofs.Outline.Faults

/-!
# Stored directories in every session

The frame of the active space is stale: it holds the user half that was stored there last. A fork of
that space into itself reads it all the same, so it matters where its slots lead. In every session
of permitted calls they lead to frames that the kernel may mount, and that goes on for as long as
callers then map frames and fork spaces at will.
-/
namespace VirtualMemory

open Layout Snapshot Kernel

namespace Kernel

variable {w : Snapshot} {O : Finset Nat} {p va frame first last : Nat} {prot : Protection}

theorem unmap_settled (h : w.Settled O) (va : Nat) :
    Leads Stops (unmap va) w fun _ v => v.Settled O ∧ w.Edits v := by
  obtain ⟨role, placed⟩ := h.placed
  by_cases aligned : isAligned va = true
  · have settled := (unmap_stops h aligned).mono fun _ _ out => out.1
    refine settled.both (F := Stops) ?_
    by_cases low : dirIndex va < mountTableSlot
    · exact unmap_edits placed low
    · refine (unmap_above h aligned low).mono ?_
      rintro _ _ rfl
      exact .refl placed
  · exact (unmap_unaligned (by simpa using aligned) w).leads ⟨h, .refl placed⟩

theorem remove_firm (h : w.Settled O) (firm : w.Firm) (live : w.Live p)
    (firstAligned : isAligned first = true) (lastAligned : isAligned last = true)
    (ordered : first ≤ last) : Leads Stops (remove p first last) w fun _ v => v.Firm := by
  rw [remove, forPages_eq firstAligned lastAligned ordered]
  refine (within_firm firm live fun v hv s => ?_).mono fun _ _ => And.left
  obtain ⟨role, placed⟩ := hv.placed
  have settled := h.switched live s
  refine (Leads.forEach (fun _ u => u.Settled O ∧ v.Edits u) ⟨settled, .refl placed⟩ ?_).mono
    fun _ _ => And.right
  rintro k u - ⟨hu, edits⟩
  exact (unmap_settled hu _).mono fun _ x out => ⟨out.1, edits.trans out.2⟩

theorem add_firm (firm : w.Firm) (live : w.Live p) (aligned : isAligned va = true)
    (aligned' : isAligned frame = true) (hd : dirIndex va < mountTableSlot) :
    Leads Stops (add p va frame prot) w fun _ v => v.Firm := by
  rw [add_eq aligned aligned']
  refine (within_firm firm live fun v hv _ => ?_).mono fun _ _ => And.left
  obtain ⟨role, placed⟩ := hv.placed
  refine .bind ((map_edits placed hd (tableIndex_lt va) aligned').mono fun _ u edits => ?_)
  exact (invalidatePage_yields va u).leads edits

theorem mapFresh_firm (h : w.Settled O) (firm : w.Firm) (hd : dirIndex va < mountTableSlot) :
    Leads Stops (mapFresh p va prot) w fun _ v => v.Firm := by
  refine .bind ((takeFrame_leads ?_).weaken fun _ _ => Exhausted.stops)
  intro f rest first
  obtain ⟨handed, -, inside, hm, -, -⟩ := h.hand first
  refine (setShareCount_yields f 1 _).bind (.bind ?_)
  have counted := handed.setShare inside hm 1
  have taken : w.Edits (w.book { w.toBooks with free := rest, shares := w.shares.set f 1 }) :=
    Settled.edits_book (w := w) counted rfl
  by_cases clean : isAligned va = true ∧ w.Live p
  · refine .attempt (add_firm (firm.edits taken) clean.2 clean.1 inside.1 hd)
      (fun _ _ no => no _ rfl) fun _ v firm => .pure firm
  · have unfit : ¬ (isAligned va = true ∧ isAligned f = true ∧ w.Live p) :=
      fun ok => clean ⟨ok.1, ok.2.2⟩
    obtain ⟨e, no⟩ := add_refuses
      (w := w.book { w.toBooks with free := rest, shares := w.shares.set f 1 }) unfit prot
    exact no.attempt.leads (.violate (.violation _ _))

end Kernel

namespace Call

variable {w : Snapshot} {O : Finset Nat} {c : Call}

/-- Work on the resident space, and an answer. -/
theorem answer_firm {α : Type} {x : Kernel α} (firm : w.Firm)
    (h : Leads Stops x w fun _ v => w.Edits v) (answer : α → Answer) :
    Leads Stops (do return answer (← x)) w fun _ v => v.Firm :=
  .bind (h.mono fun _ _ edits => .pure (firm.edits edits))

theorem permitted_firm (h : w.Settled O) (firm : w.Firm) (ok : w.Permits O c)
    (clean : ArgumentError.first (c.objections w.spaces) = none) :
    Leads Stops c.action w fun _ v => v.Firm := by
  obtain ⟨role, placed⟩ := firm.placed
  have known (on : c.OnSpaces) : Leads Stops c.action w fun _ v => v.Firm :=
    (turns firm on clean).mono fun _ _ turn => turn.1
  cases c with
  | create | incref | decref | destroy | switch | fork | acquire => exact known trivial
  | add p => exact known ⟨p, rfl, ok.1⟩
  | protect p => exact known ⟨p, rfl, ok⟩
  | remove p first last =>
    rw [ArgumentError.first_eq_none] at clean
    obtain ⟨⟨aligned, aligned'⟩, ordered, live⟩ : (isAligned first = true ∧ isAligned last = true) ∧
        first ≤ last ∧ w.spaces.dead p = false := by simpa [objections, rangeObjections] using clean
    refine .bind ((remove_firm h firm (live_of_not_dead live) aligned aligned' ordered).mono ?_)
    exact fun _ _ firm => .pure firm
  | drop p va f =>
    rw [ArgumentError.first_eq_none] at clean
    obtain ⟨⟨aligned, aligned'⟩, ordered, live⟩ : (isAligned va = true ∧
        isAligned (va + pageSize) = true) ∧ va ≤ va + pageSize ∧ w.spaces.dead p = false := by
      simpa [objections, rangeObjections] using clean
    have live := live_of_not_dead live
    refine .bind (((remove_firm h firm live aligned aligned' ordered).both
      (remove_leads h live aligned aligned' ordered)).mono ?_)
    rintro _ v ⟨firm', settled, -⟩
    by_cases counted : v.shares.get f = 0
    · exact .bind (unshareFrame_stops counted)
    · obtain ⟨inside, hm⟩ := settled.shared f counted
      have rest := settled.setShare inside hm (v.shares.get f - 1)
      exact (unshareFrame_yields counted).bind (.pure (firm'.edits (rest.edits_book rfl)))
  | map f d t =>
    rw [ArgumentError.first_eq_none] at clean
    obtain ⟨⟨-, ht⟩, aligned⟩ : (d < tableEntries ∧ t < tableEntries) ∧ isAligned f = true := by
      simpa [objections] using clean
    exact answer_firm firm (map_edits placed ok.1 ht aligned) _
  | unmap va => exact answer_firm firm ((unmap_settled h va).mono fun _ _ => And.right) _
  | mapFresh p va =>
    exact .bind ((mapFresh_firm h firm ok).mono fun _ _ firm => .pure firm)
  | pageFault va code => exact answer_firm firm (pageFault_edits h ok code) _
  | userWrite va value => exact answer_firm firm (userWrite_edits h ok value) _
  | acquireRaw =>
    refine answer_firm firm (acquireRaw_leads (fun _ => .halt _ _) fun f rest first => ?_) _
    exact (h.hand first).1.edits_book rfl
  | release f =>
    obtain ⟨out, settled⟩ := h.giveBack ok.1 fun p d t e => ok.2 (.user p d) t e
    exact answer_firm firm ((release_yields out).leads (settled.edits_book rfl)) _

theorem answered_firm {r : Except ArgumentError Answer} {s t : KernelState}
    (h : s.snapshot.Settled O) (firm : s.snapshot.Firm) (ok : s.snapshot.Permits O c)
    (answered : c.perform s = .ok r t) : t.snapshot.Firm := by
  obtain ⟨role, placed⟩ := firm.placed
  cases first : ArgumentError.first (c.objections s.spaces) with
  | some e =>
    rw [perform_of_refused placed.lodged.regular first] at answered
    cases answered
    exact firm
  | none =>
    have ends : Leads Stops c.perform s.snapshot fun _ v => v.Firm :=
      (permitted_firm h firm ok first).attempt (fun e _ no => no e rfl) fun _ _ => id
    have done := ends s rfl
    rw [answered] at done
    exact done

end Call

namespace Session.Shared

variable {n reserved : Nat} {setup : List (Nat × UInt32)} {σ : Session}

theorem firm (small : Ram.Addressable n) (prepares : KernelState.Prepares n reserved setup)
    (h : Shared Permits n reserved setup σ) : σ.snapshot.Firm := by
  induction h with
  | boot booted => exact KernelState.firm_of_boot small prepares booted
  | call before allowed answered ih =>
    have settled := before.settled (fun _ _ _ => id) small prepares
    exact Call.answered_firm settled ih allowed answered
  | @counted σ f count t before frame shareable range done ih =>
    have settled := before.settled (fun _ _ _ => id) small prepares
    change t.snapshot.Firm
    rw [Kernel.setShareCount_of_ok done]
    exact ih.edits ((settled.setShare frame shareable count).edits_book rfl)

end Session.Shared
end VirtualMemory
