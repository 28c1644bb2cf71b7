/-
AsyncVault/JuniorFloor.lean

The junior floor between NAV updates.

The guard of an approval values a tranche at the larger of its live and cached
supply and at the NAV requests are priced at.  Only senior deposits and junior
redemptions are checked against the floor.  Everything else either leaves the
valuation alone, because the cache already covers the shares it moves, or moves
it in junior's favour.

The cache covers the shares as long as they are issued by the program.  A managed
call may have the vault sign for a mint of another tranche, and shares that come
from there are in no cache: the guard counts them while they are live, and a
redemption request, which is not guarded, takes them out again.
-/
import AsyncVault.Custody
import AsyncVault.ShareSupply

namespace AsyncVault

open Checked TokenLedger KeyedStore OrderBook Machine FixedPoint

variable {s s' : VaultState} {tc : TrancheConfig} {verify : MerkleCheck}
variable {t₀ t t' : ManagedState} {run : List (Transition ManagedState ManagedAction)}

/-! ### The guard valuation -/

/-- The NAV a tranche is priced at: its recorded NAV when there is one, the
vault's otherwise. -/
def VaultState.trancheNav (s : VaultState) (recorded : ℕ) : ℕ :=
  if 0 < recorded then recorded else s.vault.nav

/-- The senior tranche as the guard values it. -/
def VaultState.seniorValue (s : VaultState) (tc : TrancheConfig) : ℕ :=
  max (s.token.supply tc.seniorShareMint) tc.seniorSupply * s.trancheNav tc.seniorNav /
    s.token.unit tc.seniorShareMint

/-- The junior tranche as the guard values it. -/
def VaultState.juniorValue (s : VaultState) (tc : TrancheConfig) : ℕ :=
  max (s.token.supply tc.juniorShareMint) tc.juniorSupply * s.trancheNav tc.juniorNav /
    s.token.unit tc.juniorShareMint

/-- Junior keeps its minimum part of the value, or there is no value. -/
def VaultState.JuniorFloor (s : VaultState) : Prop :=
  ∀ tc, s.trancheConfig = some tc → 0 < tc.minJuniorRatioBps →
    s.seniorValue tc + s.juniorValue tc = 0 ∨
      tc.minJuniorRatioBps ≤
        s.juniorValue tc * 10000 / (s.seniorValue tc + s.juniorValue tc)

instance (s : VaultState) : Decidable s.JuniorFloor :=
  inferInstanceAs (Decidable (∀ tc ∈ s.trancheConfig, _ → _))

/-! ### In the order book -/

theorem trancheNav_senior (htc : s.trancheConfig = some tc) :
    s.trancheNav tc.seniorNav = s.book.price tc.seniorShareMint := by
  rw [← price_eq_book]
  simp [VaultState.price, VaultState.requestContext, htc, settlementNav_some,
    VaultState.trancheNav]

theorem trancheNav_junior (hc : s.terms.Coherent) (htc : s.trancheConfig = some tc) :
    s.trancheNav tc.juniorNav = s.book.price tc.juniorShareMint := by
  rw [← price_eq_book]
  simp [VaultState.price, VaultState.requestContext, htc, settlementNav_some,
    VaultState.trancheNav, TrancheConfig.navOf_junior (VaultState.senior_ne_junior hc htc)]

theorem seniorValue_eq (htc : s.trancheConfig = some tc) :
    s.seniorValue tc = s.book.guardWorth tc.seniorShareMint := by
  have hm := (VaultState.mem_shareMints htc).2 (.inl rfl : tc.seniorShareMint = _ ∨ _)
  rw [VaultState.seniorValue, Book.guardWorth, worth, trancheNav_senior htc,
    VaultState.supply_of_mem hm, VaultState.book_cached htc, tc.supplyOf_senior]
  simp [VaultState.book, hm]

theorem juniorValue_eq (hc : s.terms.Coherent) (htc : s.trancheConfig = some tc) :
    s.juniorValue tc = s.book.guardWorth tc.juniorShareMint := by
  have hm := (VaultState.mem_shareMints htc).2 (.inr rfl : _ ∨ tc.juniorShareMint = _)
  rw [VaultState.juniorValue, Book.guardWorth, worth, trancheNav_junior hc htc,
    VaultState.supply_of_mem hm, VaultState.book_cached htc,
    TrancheConfig.supplyOf_junior (VaultState.senior_ne_junior hc htc)]
  simp [VaultState.book, hm]

theorem juniorFloor_iff (hc : s.terms.Coherent) : s.JuniorFloor ↔ s.book.FloorHolds := by
  constructor
  · intro h t ht hmin
    obtain ⟨tc, htc, rfl⟩ := Option.map_eq_some_iff.1 ht
    have hfloor := h tc htc hmin
    rwa [seniorValue_eq htc, juniorValue_eq hc htc] at hfloor
  · intro h tc htc hmin
    rw [seniorValue_eq htc, juniorValue_eq hc htc]
    exact h tc.tranches (VaultState.book_tranches htc) hmin

theorem book_valid (hc : s.terms.Coherent) : s.book.Valid := by
  intro t ht
  obtain ⟨tc, htc, rfl⟩ := Option.map_eq_some_iff.1 ht
  have hvalid := VaultState.validTranches hc htc
  exact ⟨hvalid.senior_ne_junior, hvalid.minJuniorRatioBps⟩

/-! ### Shares from elsewhere -/

/-- The vault keeps its share mints, and nobody has issued shares of them. -/
def VaultState.SharesSpared (s : VaultState) (token : Ledger Pubkey) : Prop :=
  ∀ m ∈ s.terms.shareMints, token.Mintable m s.key ∧ token.unit m = s.token.unit m ∧
    token.supply m ≤ s.token.supply m

/-- The program a managed call runs issues no shares of the vault.  Other transactions run no
program of others. -/
def ManagedAction.SparesShares (t : ManagedState) : ManagedAction → Prop
  | .manageVault _ _ _ effect =>
    ∀ token, effect t.core.token = .ok token → t.core.SharesSpared token
  | _ => True

/-- The vault issues its shares, and its caches cover them. -/
structure VaultState.Backed (s : VaultState) : Prop where
  minting : s.Minting
  covers : s.book.CoversShares

/-- The caches cover the shares and the floor holds. -/
structure VaultState.Floored (s : VaultState) : Prop extends Backed s where
  floor : s.book.FloorHolds

theorem Created.backed (h : Created s) : s.Backed :=
  let ⟨hw, hunused⟩ := h.wellFormed
  ⟨hw.minting, hunused.coversShares⟩

/-- **An instruction of the core** keeps the caches in order, and the floor unless it posts a
NAV. -/
theorem VaultState.Backed.exec (h : s.Backed) {a : Action} (he : exec s a = .ok s') :
    s'.Backed ∧ (a.event ≠ .posted → s.book.FloorHolds → s'.book.FloorHolds) := by
  have htracked := exec_tracked h.minting he
  -- neither the caches nor the floor depend on the escrow balances
  obtain ⟨esc, esc', hstep⟩ := htracked.shadow
  exact ⟨⟨htracked.minting, hstep.coversShares h.covers⟩, fun ha hfloor =>
    hstep.floorHolds h.covers (book_valid h.minting.coherent) ha hfloor⟩

/-- So does what moves nothing of the order book but tokens, and spares the shares. -/
theorem VaultState.Backed.of_resting (h : s.Backed) (hr : Resting s s')
    (hs : s.SharesSpared s'.token) :
    s'.Backed ∧ (s.book.FloorHolds → s'.book.FloorHolds) := by
  have hkey : s'.key = s.key := congrArg Terms.key hr.terms
  have hminting : s'.Minting := by
    refine ⟨by rw [hr.terms]; exact h.minting.coherent, fun m hm => ?_, fun k r hk => ?_,
      fun hi => ?_⟩
    · rw [hr.terms] at hm
      rw [hkey]
      exact (hs m hm).1
    · rw [hr.requests] at hk
      exact (h.minting.requests k r hk).of_terms hr.terms
    · rw [hr.requests]
      exact h.minting.uninitialized ((congrArg Terms.initialized hr.terms).symm.trans hi)
  -- the tranches are share mints of the vault, so their supplies are spared
  have hmem : ∀ m, s.book.IsTranche m → m ∈ s.terms.shareMints := by
    rintro m ⟨t, ht, hm⟩
    obtain ⟨tc, htc, rfl⟩ := Option.map_eq_some_iff.1 ht
    exact (VaultState.mem_shareMints htc).2 hm
  have hsupply : ∀ m, s.book.IsTranche m → s'.book.supply m ≤ s.book.supply m := by
    intro m hm
    have hm' := hmem m hm
    simp only [VaultState.book, hr.terms, if_pos hm']
    exact (hs m hm').2.2
  have hunit : ∀ m, s.book.IsTranche m → s'.book.unit m = s.book.unit m := by
    intro m hm
    have hm' := hmem m hm
    simp only [VaultState.book, hr.terms, if_pos hm']
    exact (hs m hm').2.1
  -- fewer live shares are covered as before, and weigh no more in the floor
  refine ⟨⟨hminting, ?_⟩, fun hfloor => ?_⟩
  · rw [hr.book]
    exact h.covers.fewer hsupply
  · rw [hr.book]
    exact hfloor.fewer h.covers hsupply hunit

/-- **A transaction of the whole program** that issues no shares elsewhere keeps the caches in
order, and the floor unless it posts a NAV. -/
theorem VaultState.Backed.execManaged (h : t.core.Backed) {a : ManagedAction}
    (ha : a.SparesShares t) (he : execManaged verify t a = .ok t') :
    t'.core.Backed ∧ (a.event ≠ .posted → t.core.book.FloorHolds → t'.core.book.FloorHolds) := by
  cases a with
  | core b =>
    simp only [AsyncVault.execManaged, bind_eq_ok, pure_eq_ok] at he
    obtain ⟨c, hc, rfl⟩ := he
    exact h.exec hc
  | venue i =>
    have hmints := execVenue_mints h.minting.coherent he
    have hresting := (execVenue_kept h.minting.coherent he).resting (execVenue_idle he).1
    have hspared : t.core.SharesSpared t'.core.token := by
      intro m hm
      obtain ⟨y, hy, hauth⟩ := h.minting.mintable m hm
      exact ⟨⟨y, by rw [hmints, hy], hauth⟩, by simp only [Ledger.unit, hmints],
        by simp only [Ledger.supply, hmints, le_refl]⟩
    obtain ⟨hbacked, hfloor⟩ := h.of_resting hresting hspared
    exact ⟨hbacked, fun _ => hfloor⟩
  | policy i =>
    rw [execPolicy_core he]
    exact ⟨h, fun _ hfloor => hfloor⟩
  | manageVault ctx args accounts effect =>
    obtain ⟨share, policy, v, token, -, heffect, -, hstate⟩ := manageVault_ok he
    have hresting := (manageVault_kept he).resting (manageVault_idle he).1
    have hspared : t.core.SharesSpared t'.core.token := by
      rw [hstate]
      exact ha token heffect
    obtain ⟨hbacked, hfloor⟩ := h.of_resting hresting hspared
    exact ⟨hbacked, fun _ => hfloor⟩

/-! ### Between NAV updates -/

/-- **The junior floor is kept between NAV updates**, in every run in which no managed call issues
shares of the vault: from a state that satisfies it, whatever else happens before the next update
ends in one that does. -/
theorem junior_floor_kept {rest : List (Transition ManagedState ManagedAction)}
    (h₀ : t₀.Created) (hrun : ManagedRun verify t₀ run t) (hrest : ManagedRun verify t rest t')
    (hspares : ∀ x ∈ run ++ rest, x.act.SparesShares x.pre)
    (hnav : ∀ x ∈ rest, x.act.event ≠ .posted) (hfloor : t.core.JuniorFloor) :
    t'.core.JuniorFloor := by
  have hbacked : t.core.Backed :=
    hrun.invariant_of_forall (I := fun t => t.core.Backed) (Q := fun x => x.act.SparesShares x.pre)
      (fun _ _ _ h ha he => (h.execManaged ha he).1)
      (fun x hx => hspares x (List.mem_append_left _ hx)) h₀.core.backed
  have hfloored : t'.core.Floored := by
    refine hrest.invariant_of_forall (I := fun t => t.core.Floored)
      (Q := fun x => x.act.SparesShares x.pre ∧ x.act.event ≠ .posted) ?_
      (fun x hx => ⟨hspares x (List.mem_append_right _ hx), hnav x hx⟩)
      ⟨hbacked, (juniorFloor_iff hbacked.minting.coherent).1 hfloor⟩
    intro t a t' h ha he
    obtain ⟨hbacked', hkept⟩ := h.toBacked.execManaged ha.1 he
    exact ⟨hbacked', hkept ha.2 h.floor⟩
  exact (juniorFloor_iff hfloored.minting.coherent).2 hfloored.floor

/-- A run of core instructions makes no managed call. -/
theorem sparesShares_of_core {script : List Action}
    (h : run.map Transition.act = script.map .core) :
    ∀ x ∈ run, x.act.SparesShares x.pre := by
  intro x hx
  have hact : x.act ∈ script.map ManagedAction.core := by
    rw [← h]
    exact List.mem_map_of_mem hx
  obtain ⟨b, -, hb⟩ := List.mem_map.1 hact
  rw [← hb]
  trivial

namespace Scenario

/-- A floor of 20%, and 100 junior shares. -/
def juniorFirst : List Action :=
  [anyNav, split 0 2000, start, post 10, deposit 100 junior 1000,
    approve 100 junior .deposit 1000 1]

/-- 200 senior shares approved against them, 50 of which are claimed, and 20 given up. -/
def seniorAfter : List Action :=
  [deposit 101 senior 2000, collect 100 junior, approve 101 senior .deposit 2000 1,
    collect 101 senior, redeem 102 senior 20]

end Scenario

open Scenario in
/-- **Non-vacuity.** Under a floor of 20%, senior shares are approved, claimed and redeemed against
junior ones. -/
theorem junior_floor_kept_deposits :
    ∃ t₀ run t rest t', ManagedState.Created t₀ ∧ ManagedRun noCalls t₀ run t ∧
      ManagedRun noCalls t rest t' ∧ rest.map Transition.act = seniorAfter.map .core ∧
      t'.core.JuniorFloor ∧ t'.core.trancheConfig.map (fun tc =>
        (t'.core.seniorValue tc, t'.core.juniorValue tc)) = some (2000, 1000) := by
  obtain ⟨t₀, run, t, h₀, hrun, hacts, hp⟩ := exists_managed_run (juniorFirst.map .core)
    (fun _ t => decide t.core.JuniorFloor &&
      plays (execManaged noCalls) t (seniorAfter.map .core) fun rest t' =>
        (∀ x ∈ rest, x.act.event ≠ .posted) ∧ t'.core.trancheConfig.map (fun tc =>
          (t'.core.seniorValue tc, t'.core.juniorValue tc)) = some (2000, 1000))
    (by decide +kernel)
  obtain ⟨hfloor, hplay⟩ := Bool.and_eq_true_iff.1 hp
  obtain ⟨rest, t', hrest, hacts', hp'⟩ := exists_of_plays hplay
  obtain ⟨hnav, hvalue⟩ := of_decide_eq_true hp'
  have hspares : ∀ x ∈ run ++ rest, x.act.SparesShares x.pre := by
    intro x hx
    rcases List.mem_append.1 hx with hx | hx
    · exact sparesShares_of_core hacts x hx
    · exact sparesShares_of_core hacts' x hx
  exact ⟨t₀, run, t, rest, t', h₀, hrun, hrest, hacts',
    junior_floor_kept h₀ hrun hrest hspares hnav (of_decide_eq_true hfloor), hvalue⟩

namespace Scenario

/-- A floor of 50%, 10 shares of each tranche at a NAV of 10, and a managed call that mints 5 more
junior shares. -/
def juniorIssued : List ManagedAction :=
  [anyNav, post 10, split 0 5000, start, deposit 101 junior 100, approve 101 junior .deposit 100 1,
      deposit 100 senior 100, approve 100 senior .deposit 100 1, collect 100 senior,
      collect 101 junior].map .core ++ openVenue ++ openPolicy juniorRoot ++
    [.manageVault call (callArgs threeAccounts) juniorAccounts issueJunior]

/-- 5 senior shares are approved against them, and the junior ones are given up. -/
def juniorRedeemed : List Action :=
  [deposit 102 senior 50, approve 102 senior .deposit 50 1, redeem 103 junior 5]

end Scenario

open Scenario in
/-- **The floor is lost between NAV updates** once a managed call has minted junior shares: they
count for the floor, and a redemption request takes them out without being checked against it. -/
theorem junior_floor_lost :
    ∃ t rest t', ManagedState.IsReachable (merkleCheck Sha256.hash) t ∧ t.core.JuniorFloor ∧
      ManagedRun (merkleCheck Sha256.hash) t rest t' ∧
      rest.map Transition.act = juniorRedeemed.map .core ∧ ¬t'.core.JuniorFloor := by
  obtain ⟨t, ht, hp⟩ := exists_managed_state (merkleCheck Sha256.hash) juniorIssued
    (fun t => decide t.core.JuniorFloor &&
      plays (execManaged (merkleCheck Sha256.hash)) t (juniorRedeemed.map .core) fun _ t' =>
        ¬t'.core.JuniorFloor) (by decide +kernel)
  obtain ⟨hfloor, hplay⟩ := Bool.and_eq_true_iff.1 hp
  obtain ⟨rest, t', hrest, hacts, hp'⟩ := exists_of_plays hplay
  exact ⟨t, rest, t', ht, of_decide_eq_true hfloor, hrest, hacts, of_decide_eq_true hp'⟩

end AsyncVault
