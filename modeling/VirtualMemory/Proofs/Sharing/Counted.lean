import VirtualMemory.Proofs.Sharing.Ledger

/-!
# Exact counts

Callers that map only where no page is, that say so when they give a page up, and that destroy
spaces only once they are empty, find every share count equal to the number of references. A page
that may be written is then referred to once, so nobody writes into what others see.
-/
namespace VirtualMemory

open Layout Snapshot

namespace Snapshot

/-- Calls that account for every reference that comes or goes. -/
def Accounts (w : Snapshot) (O : Finset Nat) : Call → Prop
  | .mapFresh p va _ => va < kernelStart ∧ w.userPages (.of p va) = none
  | .drop p va f => va < kernelStart ∧ ∃ e, w.userPages (.of p va) = some e ∧ e.frame = f
  | .destroy p => w.Live p → w.Vacant p
  | .remove .. => False
  | c => w.UserCall O c

variable {w v : Snapshot} {O Q : Finset Nat} {c : Call} {r : Except ArgumentError Answer}
  {p va f : Nat} {e : Entry}

theorem Accounts.permits (allowed : w.Accounts O c) : w.Permits O c := by
  cases c with
  | mapFresh p va prot => exact UserCall.permits (c := .mapFresh p va prot) allowed.1
  | drop | destroy => trivial
  | remove => cases allowed
  | _ => exact UserCall.permits allowed

/-- One page is given up, and its frame is counted one reference less. -/
theorem Ledger.dropped {extra : Nat → Nat} (l : w.Ledger extra) (user : va < kernelStart)
    (page : w.userPages (.of p va) = some e)
    (pages : w.Rewrites v O (w.pagesBut p va (va + pageSize)))
    (shared : w.shares.get e.frame ≠ 0) :
    (v.book { v.toBooks with
      shares := w.shares.set e.frame (w.shares.get e.frame - 1) }).Ledger extra := by
  have changed : v.userPages = Function.update w.userPages (.of p va) none := by
    have one : (va + pageSize - va) / pageSize = 1 := by simp [pageSize]
    rw [userPages_removed pages, one]
    funext x
    rw [Function.update_apply]
    exact if_congr (hits_page user x) rfl rfl
  refine l.update ((userPages_book (by rfl)).trans changed) (fun _ none => by cases none) ?_
  intro g
  rw [page, toBooks_book, Shares.get_set]
  by_cases same : e.frame = g
  · subst same
    simp only [tally, Option.map_some, Option.map_none, if_true, reduceCtorEq, if_false]
    omega
  · simp [tally, same]

theorem Ledger.accounts (h : w.Settled O) (l : w.Ledger fun _ => 0) (allowed : w.Accounts O c)
    (effect : w.Effect O c r v Q) : v.Ledger fun _ => 0 := by
  cases c with
  | mapFresh p va prot =>
    cases effect with
    | refused => exact l
    | minted fresh live settled pages =>
      obtain ⟨user, none⟩ := allowed
      have new := l.minted h user live fresh settled pages.toRewrites
      rw [none] at new
      refine ⟨fun g => (new.count g).trans ?_, new.exclusive⟩
      simp [tally]
    | reowned call | vacated call | taken call => simp at call
  | drop p va f =>
    cases effect with
    | refused => exact l
    | dropped live settled pages shared counts =>
      obtain ⟨user, e, page, rfl⟩ := allowed
      subst counts
      exact l.dropped user page pages.toRewrites shared
    | reowned call | vacated call | taken call => simp at call
  | destroy p =>
    cases effect with
    | refused => exact l
    | reowned call record => exact l.same (userPages_owning record _) rfl
    | vacated call settled gone =>
      obtain rfl : p = _ := by simpa using call
      refine l.same ?_ gone.shares
      rw [gone.userPages]
      funext x
      split
      · rename_i there
        rw [← userPages_of_vacant allowed x.2, ← there]
      · rfl
    | taken call => simp at call
  | remove => cases allowed
  | create | switch | fork | pageFault | userWrite => exact l.moves h effect trivial allowed
  | _ => cases allowed

end Snapshot

/-- As long as callers account for their references, every share count is the number of present
user pages in that frame over all live spaces, and what may be written is referred to once. -/
theorem Session.Reaches.shares_exact {n : Nat} {σ : Session} (small : Ram.Addressable n)
    (h : Session.Reaches Accounts n 0 [] σ) :
    (∀ f, σ.snapshot.shares.get f = (σ.snapshot.references f).card) ∧
      ∀ x e, σ.snapshot.userPages x = some e → e.isWritable = true →
        σ.snapshot.shares.get e.frame = 1 := by
  have ledger := (h.induction (I := fun w _ => w.Ledger fun _ => 0) (fun _ _ _ => Accounts.permits)
    small (KernelState.prepares_nil n) (fun _ _ booted => booted.ledger)
    fun _ _ _ _ _ _ settled l allowed effect => l.accounts settled allowed effect).2
  refine ⟨ledger.count, ?_⟩
  intro x e page writable
  rw [ledger.count]
  exact ledger.exclusive x e page writable

theorem Session.Reaches.shares_exact_mapped :
    ∃ σ τ, Session.boot? 6 0 [] = some σ ∧
      σ.next? (.mapFresh 0 0x400000 .userRW) = some τ ∧ Ram.Addressable 6 ∧
      Session.Reaches Accounts 6 0 [] τ ∧
      (∀ f, τ.snapshot.shares.get f = (τ.snapshot.references f).card) ∧
      ∀ x e, τ.snapshot.userPages x = some e → e.isWritable = true →
        τ.snapshot.shares.get e.frame = 1 := by
  have runs : ((Session.boot? 6 0 []).bind
      (·.next? (.mapFresh 0 0x400000 .userRW))).isSome = true := by decide +kernel
  obtain ⟨τ, run⟩ := Option.isSome_iff_exists.1 runs
  obtain ⟨σ, boot, call⟩ := Option.bind_eq_some_iff.1 run
  have booted := Session.booted_of_boot? (by decide) (KernelState.prepares_nil 6) boot
  have none : σ.snapshot.userPages (.of 0 0x400000) = none :=
    userPages_of_vacant (fun _ => booted.vacant 0) _
  have reaches : Session.Reaches Accounts 6 0 [] τ :=
    (of_boot? boot).next? call ⟨by decide, none⟩
  exact ⟨σ, τ, boot, call, by decide, reaches, shares_exact (by decide) reaches⟩

end VirtualMemory
