/-
AsyncVault/Solvency.lean

Solvency at a constant NAV.

While every settlement of a vault without tranches is at the NAV `n`, and no fee
shares are minted, the recorded assets of the vault cover all its shares at `n`:
the live ones, those owed on claimable deposits, and those given up in pending
redemptions.  Deposits round the shares down and redemptions round the assets
down, so every settlement leaves the slack it found or widens it.
-/
import AsyncVault.Scenario

namespace AsyncVault

open Checked TokenLedger KeyedStore OrderBook Machine FixedPoint

variable {s s' s₀ : VaultState} {tr : List (Transition VaultState Action)} {n : ℕ}

/-! ### Along a run -/

/-- What a constant-NAV run asks of a transition: a settlement is at the NAV `n`,
and a NAV update mints no shares. -/
def AtNav (n : ℕ) (t : Transition VaultState Action) : Prop :=
  (t.act.event.Settles → t.pre.vault.nav = n) ∧
    (t.act.event = .posted →
      t.post.token.supply t.pre.vault.shareMint = t.pre.token.supply t.pre.vault.shareMint)

instance (n : ℕ) (t : Transition VaultState Action) : Decidable (AtNav n t) :=
  inferInstanceAs (Decidable (_ ∧ _))

/-- The supply of the vault's own share mint. -/
theorem book_supply_share (hv : s.terms.Valid s.token) :
    s.book.supply s.book.share = s.token.supply s.vault.shareMint :=
  VaultState.supply_of_mem hv.coherent.shareMint_mem

theorem solvent_of_run (h₀ : Created s₀) (hrun : VaultRun s₀ tr s) (hnav : ∀ t ∈ tr, AtNav n t)
    (hplain : s.book.tranches = none) : s.book.Solvent n := by
  obtain ⟨-, hunused⟩ := h₀.wellFormed
  refine (hrun.invariant_of_forall
    (I := fun s => Ledgered s ∧ (s.book.tranches = none → s.book.Solvent n)) (Q := AtNav n) ?_ hnav
    ⟨h₀.ledgered, fun _ => hunused.solvent n⟩).2 hplain
  intro s a s' hI hat he
  obtain ⟨hl, hsolvent⟩ := hI
  obtain ⟨hsettle, hpost⟩ := hat
  have hr := exec_refines hl.wellFormed he
  refine ⟨hl.exec he, fun hp => hr.step.solvent hp hsettle ?_ (hsolvent (hr.step.plain hp))⟩
  intro ha
  have hshare : s'.vault.shareMint = s.vault.shareMint := hr.step.share_eq
  rw [← hr.step.share_eq, book_supply_share hr.wellFormed.terms, hr.step.share_eq,
    book_supply_share hl.wellFormed.terms, hshare]
  exact hpost ha

/-! ### Solvency -/

/-- The price unit of the vault's own shares. -/
theorem book_unit_share (hv : s.terms.Valid s.token) :
    s.book.unit s.book.share = s.token.unit s.vault.shareMint := by
  have hm : s.vault.shareMint ∈ s.terms.shareMints := hv.coherent.shareMint_mem
  show (if s.vault.shareMint ∈ s.terms.shareMints then _ else _) = _
  rw [if_pos hm]
  rfl

/-- **Solvency at constant NAV.** When every settlement of a run was at the NAV `n`
and no fee shares were minted, the recorded assets of a vault without tranches
cover its shares at `n`; so no redemption at `n`, requested or instant, fails on
the subtraction from them. -/
theorem solvent_at_constant_nav (h₀ : Created s₀) (hrun : VaultRun s₀ tr s)
    (hplain : s.trancheConfig = none) (hnav : ∀ t ∈ tr, AtNav n t) :
    n * s.committedShares s.vault.shareMint ≤
      s.vault.totalAssetBalance * s.token.unit s.vault.shareMint ∧
    (∀ k r, s.requests.lookup k = some r → r.requestType = .redeem →
      r.requestState = .pending →
      ∃ v, debitRedeem s.vault (r.amount * n / s.token.unit s.vault.shareMint) = .ok v) ∧
    ∀ shares, shares ≤ s.token.supply s.vault.shareMint →
      sub arithmetic s.vault.totalAssetBalance
          (shares * n / s.token.unit s.vault.shareMint) =
        .ok (s.vault.totalAssetBalance - shares * n / s.token.unit s.vault.shareMint) := by
  have hl : Ledgered s := VaultState.IsReachable.ledgered ⟨s₀, tr, h₀, hrun⟩
  have hv := hl.wellFormed.terms
  have hbook : s.book.tranches = none := by simp [VaultState.book, hplain]
  have hsolvent := solvent_of_run h₀ hrun hnav hbook
  have hunit := book_unit_share hv
  have hcover : ∀ shares, shares ≤ s.book.committed s.book.share →
      shares * n / s.token.unit s.vault.shareMint ≤ s.vault.totalAssetBalance := by
    intro shares hle
    rw [← hunit]
    exact hsolvent.worth_le hle
  refine ⟨?_, ?_, ?_⟩
  · have hmem : s.vault.shareMint ∈ s.terms.shareMints := hv.coherent.shareMint_mem
    rw [← VaultState.book_committed hmem, ← hunit]
    exact hsolvent
  · intro k r hr ht hst
    -- the shares of a pending redemption are committed
    have hfound := VaultState.lookup_book hr
    have hmint : r.shareMintAddress = s.book.share :=
      VaultState.share_of_plain (hl.wellFormed.requests k r hr).shareMint hbook
    have hside : r.order.side = .redeem := by simp [Request.order, ht, RequestType.side]
    have hstage : r.order.stage = .pending := by simp [Request.order, hst, RequestState.stage]
    have hle := Book.supply_add_le_committed hfound hside hstage
    have hshare : r.order.share = s.book.share := hmint
    rw [hshare] at hle
    have hamount : r.amount ≤ s.book.committed s.book.share :=
      (Nat.le_add_left r.amount _).trans hle
    simp only [debitRedeem, bind_eq_ok, sub_eq_ok, pure_eq_ok]
    exact ⟨_, _, ⟨hcover _ hamount, rfl⟩, rfl⟩
  · intro shares hle
    rw [sub_eq_ok]
    refine ⟨hcover shares ?_, rfl⟩
    apply le_trans hle
    rw [← book_supply_share hv]
    exact s.book.supply_le_committed _

open Scenario in
/-- **Non-vacuity.** Shares of three decimals at a NAV of 7: a deposit of 1000 buys
142857 shares, and 100001 of them are given up again. -/
theorem solvent_at_constant_nav_rounding :
    ∃ (s₀ : VaultState) (tr : List (Transition VaultState Action)) (s : VaultState),
      Created s₀ ∧ VaultRun s₀ tr s ∧ s.committedShares s.vault.shareMint = 142857 ∧
      s.vault.totalAssetBalance = 1000 ∧ s.pendingRedeems s.vault.shareMint = 100001 ∧
      7 * 142857 ≤ 1000 * s.token.unit s.vault.shareMint := by
  obtain ⟨s₀, tr, s, h₀, hrun, hp⟩ := exists_run 3 0
    [anyNav, start, post 7, deposit 100 senior 1000, approve 100 senior .deposit 1000 1,
      collect 100 senior, redeem 101 senior 100001]
    (fun tr s => (∀ t ∈ tr, AtNav 7 t) ∧ s.trancheConfig = none ∧
      s.committedShares s.vault.shareMint = 142857 ∧ s.vault.totalAssetBalance = 1000 ∧
      s.pendingRedeems s.vault.shareMint = 100001) (by decide +kernel)
  obtain ⟨hnav, hplain, hcommitted, htotal, hpending⟩ := of_decide_eq_true hp
  obtain ⟨hsolvent, -, -⟩ := solvent_at_constant_nav h₀ hrun hplain hnav
  rw [hcommitted, htotal] at hsolvent
  exact ⟨s₀, tr, s, h₀, hrun, hcommitted, htotal, hpending, hsolvent⟩

end AsyncVault
