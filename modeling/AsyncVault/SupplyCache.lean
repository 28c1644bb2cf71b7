/-
AsyncVault/SupplyCache.lean

The tranche supply cache.

The supply a tranche configuration caches covers every committed share of its
tranche: live ones, those of claimable deposits and those of pending
redemptions.  It counts them exactly as long as no holder burns shares of that
tranche outside the program.
-/
import AsyncVault.Scenario

namespace AsyncVault

open Checked TokenLedger KeyedStore OrderBook Machine

variable {s s₀ : VaultState} {tr : List (Transition VaultState Action)} {tc : TrancheConfig}
variable {m : Pubkey}

/-! ### Along a run -/

/-- The cache of `m` counts its committed shares along runs that burn none. -/
theorem countsShares_of_run (h₀ : Created s₀) (hrun : VaultRun s₀ tr s)
    (hburn : ∀ t ∈ tr, t.act.event ≠ .burned m) : s.book.CountsShares m := by
  obtain ⟨-, hunused⟩ := h₀.wellFormed
  refine (hrun.invariant_of_forall (I := fun s => Ledgered s ∧ s.book.CountsShares m)
    (Q := fun t => t.act.event ≠ .burned m) ?_ hburn ⟨h₀.ledgered, hunused.countsShares m⟩).2
  intro s a s' hs ha he
  obtain ⟨hl, hc⟩ := hs
  have hr := exec_refines hl.wellFormed he
  exact ⟨hl.exec he, hr.step.countsShares hl.coversShares ha hc⟩

/-- The cached supply and the committed shares of a tranche, as the order book has
them. -/
theorem book_tranche (hw : s.WellFormed) (htc : s.trancheConfig = some tc) :
    (s.book.IsTranche tc.seniorShareMint ∧ s.book.cached tc.seniorShareMint = tc.seniorSupply ∧
      s.book.committed tc.seniorShareMint = s.committedShares tc.seniorShareMint) ∧
    (s.book.IsTranche tc.juniorShareMint ∧ s.book.cached tc.juniorShareMint = tc.juniorSupply ∧
      s.book.committed tc.juniorShareMint = s.committedShares tc.juniorShareMint) := by
  have htranches := VaultState.book_tranches htc
  have hne := VaultState.senior_ne_junior hw.terms.coherent htc
  rw [VaultState.book_cached htc, tc.supplyOf_senior, TrancheConfig.supplyOf_junior hne]
  refine ⟨⟨⟨_, htranches, .inl rfl⟩, rfl, ?_⟩, ⟨_, htranches, .inr rfl⟩, rfl, ?_⟩
  · exact VaultState.book_committed ((VaultState.mem_shareMints htc).2 (.inl rfl))
  · exact VaultState.book_committed ((VaultState.mem_shareMints htc).2 (.inr rfl))

/-- **The cache counts every committed share.** Along every run of a vault, the
cached supply of each tranche covers its committed shares, and is exactly their
number when the run burns no shares of that tranche. -/
theorem supply_cache_counts (h₀ : Created s₀) (hrun : VaultRun s₀ tr s)
    (htc : s.trancheConfig = some tc) :
    (s.committedShares tc.seniorShareMint ≤ tc.seniorSupply ∧
      s.committedShares tc.juniorShareMint ≤ tc.juniorSupply) ∧
    ((∀ t ∈ tr, t.act.event ≠ .burned tc.seniorShareMint) →
      tc.seniorSupply = s.committedShares tc.seniorShareMint) ∧
    ((∀ t ∈ tr, t.act.event ≠ .burned tc.juniorShareMint) →
      tc.juniorSupply = s.committedShares tc.juniorShareMint) := by
  have hl : Ledgered s := VaultState.IsReachable.ledgered ⟨s₀, tr, h₀, hrun⟩
  obtain ⟨⟨hs, hsc, hsk⟩, hj, hjc, hjk⟩ := book_tranche hl.wellFormed htc
  refine ⟨⟨?_, ?_⟩, fun hburn => ?_, fun hburn => ?_⟩
  · rw [← hsc, ← hsk]
    exact hl.coversShares _ hs
  · rw [← hjc, ← hjk]
    exact hl.coversShares _ hj
  · rw [← hsc, ← hsk]
    exact countsShares_of_run h₀ hrun hburn hs
  · rw [← hjc, ← hjk]
    exact countsShares_of_run h₀ hrun hburn hj

open Scenario in
/-- **Non-vacuity.** 100 senior shares approved and claimed, 30 of them given up
again, and 50 junior shares approved but not claimed: the cache counts them all. -/
theorem supply_cache_counts_shares :
    ∃ (s₀ : VaultState) (tr : List (Transition VaultState Action)) (s : VaultState)
      (tc : TrancheConfig), Created s₀ ∧ VaultRun s₀ tr s ∧ s.trancheConfig = some tc ∧
      s.token.supply tc.seniorShareMint = 70 ∧ s.token.supply tc.juniorShareMint = 0 ∧
      tc.seniorSupply = 100 ∧ s.committedShares tc.seniorShareMint = 100 ∧
      tc.juniorSupply = 50 ∧ s.committedShares tc.juniorShareMint = 50 := by
  obtain ⟨s₀, tr, s, h₀, hrun, hp⟩ := exists_run 0 0
    [anyNav, split 0 0, start, post 10, deposit 100 senior 1000,
      approve 100 senior .deposit 1000 1, collect 100 senior, redeem 101 senior 30,
      deposit 102 junior 500, approve 102 junior .deposit 500 1]
    (fun tr s => s.trancheConfig.any fun tc =>
      s.token.supply tc.seniorShareMint = 70 ∧ s.token.supply tc.juniorShareMint = 0 ∧
        tc.seniorSupply = 100 ∧ tc.juniorSupply = 50 ∧
        ∀ t ∈ tr, t.act.event ≠ .burned tc.seniorShareMint ∧
          t.act.event ≠ .burned tc.juniorShareMint) (by decide +kernel)
  obtain ⟨tc, htc, hp⟩ := (Option.any_eq_true _ _).1 hp
  obtain ⟨hsenior, hjunior, hsc, hjc, hburn⟩ := of_decide_eq_true hp
  obtain ⟨-, hs, hj⟩ := supply_cache_counts h₀ hrun htc
  have hs := hs fun t ht => (hburn t ht).1
  have hj := hj fun t ht => (hburn t ht).2
  exact ⟨s₀, tr, s, tc, h₀, hrun, htc, hsenior, hjunior, hsc, hs.symm.trans hsc, hjc,
    hj.symm.trans hjc⟩

end AsyncVault
