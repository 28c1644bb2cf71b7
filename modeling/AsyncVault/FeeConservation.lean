/-
AsyncVault/FeeConservation.lean

Fees are taken out of what is paid, and nothing else is.

A percentage fee is rounded up and still never exceeds its base, so a split
leaves two parts that make the fee.  Each of the four settlements pays the two
parts to accounts of their recipients, and a net amount, out of one account
(`Disbursed`), and the three come to what is settled: the requested amount, or
the gross value of the shares.  An
instant redemption stacks a second fee on the first; with the fees apart it is
three steps, a quote, the fees and the settlement (`instantRedeem_eq`), and the
middle one fails exactly when the fees leave nothing (`redeemFees_of_fees`).
-/
import AsyncVault.InstantAgreement

namespace AsyncVault

open Checked TokenLedger KeyedStore

variable {s s' : VaultState} {r : Request} {remaining : List AccountInfo}
variable {token token' : Ledger Pubkey} {bps amount fee gross : ℕ}

/-! ### One fee -/

/-- A percentage never exceeds its base. -/
theorem getFee_percentage (hbps : bps ≤ maxBps) (hamount : amount < u64) :
    ∃ fee, (FeeType.percentage bps).getFee amount = .ok fee ∧ fee ≤ amount := by
  have hproduct : amount * bps ≤ amount * 10000 := Nat.mul_le_mul_left _ hbps
  have hle : (amount * bps + 9999) / 10000 ≤ amount := by omega
  refine ⟨_, ?_, hle⟩
  simp only [FeeType.getFee, bind_eq_ok, mul_eq_ok, add_eq_ok, div_eq_ok, narrow_eq_ok]
  simp only [u64] at hamount
  refine ⟨_, ⟨?_, rfl⟩, _, ⟨?_, rfl⟩, _, ⟨by decide, rfl⟩, hle.trans_lt hamount, rfl⟩
  · simp only [u128]
    omega
  · simp only [u128]
    omega

/-- A split never fails. -/
theorem exists_splitProtocolFee (hbps : bps ≤ maxBps) (hfee : fee < u64) :
    ∃ protocol recipient, splitProtocolFee fee bps = .ok (protocol, recipient) ∧
      protocol + recipient = fee := by
  obtain ⟨protocol, hprotocol, hle⟩ := getFee_percentage hbps hfee
  by_cases hzero : fee = 0 ∨ bps = 0
  · exact ⟨0, fee, if_pos hzero, Nat.zero_add _⟩
  · refine ⟨protocol, fee - protocol, ?_, Nat.add_sub_cancel' hle⟩
    simp only [splitProtocolFee, if_neg hzero, hprotocol, bind_eq_ok, sub_eq_ok, pure_eq_ok]
    exact ⟨protocol, rfl, _, ⟨hle, rfl⟩, rfl⟩

/-- A validated fee of a vault can be computed. -/
theorem exists_extensionFee {fee : Option FeeType}
    (hvalid : ∀ f ∈ fee, ∃ u, f.validate = .ok u) (hamount : amount < u64) :
    ∃ n, extensionFee fee amount = .ok n := by
  cases fee with
  | none => exact ⟨0, rfl⟩
  | some f =>
    obtain ⟨u, hu⟩ := hvalid f rfl
    cases f with
    | percentage bps =>
      obtain ⟨n, hn, -⟩ := getFee_percentage (ensure_eq_ok.1 hu) hamount
      exact ⟨n, hn⟩
    | fixedAmount n => exact ⟨n, rfl⟩

theorem exists_instantRedemptionFee (hbps : bps ≤ maxBps) (hamount : amount < u64) :
    ∃ n, instantRedemptionFee bps amount = .ok n := by
  unfold instantRedemptionFee
  split
  · exact ⟨0, rfl⟩
  · obtain ⟨n, hn, -⟩ := getFee_percentage hbps hamount
    exact ⟨n, hn⟩

/-! ### Settlements -/

/-- **`amount` leaves `src`** in three payments: each part of the fee `f` to an account of its
recipient, and `net` to `dst`.  `posts` gives every balance afterwards, `extra` being what is booked
besides; `out`, what the source itself is out by, unless whoever holds it is paid by it. -/
structure Disbursed (s s' : VaultState) (src dst : Pubkey) (extra : Postings Pubkey)
    (amount net : ℕ) (f : FeeParts) (feeAccount protocolAccount : Pubkey) : Prop where
  total : f.recipient + f.protocol + net = amount
  paidTo : f.PaidTo s feeAccount protocolAccount
  posts : s.token.Posts s'.token
    (payments src [(feeAccount, f.recipient), (protocolAccount, f.protocol), (dst, net)] ++ extra)
  out : ∀ o, s.token.Holds src s.vault.assetMint o → o ≠ s.vault.feeRecipient →
    ¬ s.IsProtocolRecipient o → dst ≠ src → extra.net src = 0 →
    s'.token.balance src + amount = s.token.balance src

/-- A part of a fee that is paid at all goes to another account than the source, if the source
belongs to nobody who gets one. -/
theorem FeeParts.PaidTo.ne_src {f : FeeParts} {src fa pa o : Pubkey} (h : f.PaidTo s fa pa)
    (hsrc : s.token.Holds src s.vault.assetMint o) (hrecipient : o ≠ s.vault.feeRecipient)
    (hprotocol : ¬ s.IsProtocolRecipient o) :
    (0 < f.recipient → fa ≠ src) ∧ (0 < f.protocol → pa ≠ src) := by
  refine ⟨fun hpos he => ?_, fun hpos he => ?_⟩
  · have hholds := h.recipient hpos
    rw [he] at hholds
    exact hrecipient (hsrc.unique hholds).2
  · obtain ⟨k, hk, hholds⟩ := h.protocol hpos
    rw [he] at hholds
    exact hprotocol ((hsrc.unique hholds).2 ▸ hk)

/-- What a payment to another account, or of nothing, takes off the source. -/
theorem net_payment {src dst : Pubkey} {n : ℕ} (h : 0 < n → dst ≠ src) :
    Postings.net [(src, -(n : ℤ)), (dst, (n : ℤ))] src = -n := by
  rcases Nat.eq_zero_or_pos n with rfl | hpos
  · simp
  · simp [h hpos]

theorem disbursed_of_posts {src dst : Pubkey} {extra : Postings Pubkey} {fa pa : Pubkey}
    {net : ℕ} {f : FeeParts} (hsum : f.recipient + f.protocol + net = amount)
    (hpaid : f.PaidTo s fa pa)
    (h : s.token.Posts s'.token
      (payments src [(fa, f.recipient), (pa, f.protocol), (dst, net)] ++ extra)) :
    Disbursed s s' src dst extra amount net f fa pa := by
  refine ⟨hsum, hpaid, h, fun o hsrc hrecipient hprotocol hdst hextra => ?_⟩
  obtain ⟨hfa, hpa⟩ := hpaid.ne_src hsrc hrecipient hprotocol
  have hbooked := h src
  have hfirst := net_payment hfa
  have hsecond := net_payment hpa
  have hthird := net_payment (n := net) fun _ => hdst
  simp only [net_cons, net_nil] at hfirst hsecond hthird
  simp only [payments_cons, payments_nil, net_append, net_cons, net_nil, hextra] at hbooked
  unfold Ledger.change at hbooked
  omega

theorem PaidOut.disbursed {src dst fa pa : Pubkey} {net : ℕ} {f : FeeParts}
    (h : PaidOut s s.token s'.token src dst fee net f fa pa) :
    Disbursed s s' src dst [] (fee + net) net f fa pa := by
  have hsum : f.recipient + f.protocol = fee := h.total
  refine disbursed_of_posts (by rw [hsum]) h.paidTo ?_
  rw [List.append_nil]
  exact h.posts

/-- A deposit settled at once. -/
theorem instantDeposit_disbursed {ctx : InstantDeposit}
    (h : instantDeposit s ctx amount remaining = .ok s') :
    ∃ (shares net : ℕ) (f : FeeParts) (fa pa : Pubkey),
      Disbursed s s' ctx.userAssetAccount s.vault.vaultTokenAccount
        [(ctx.userShareAccount, shares)] amount net f fa pa := by
  obtain ⟨d, fa, pa, -, hsells, hpaid, hbooks, -⟩ := instantDeposit_sells h
  refine ⟨d.shares, d.net, d.fee, fa, pa,
    disbursed_of_posts hsells.total hpaid (hbooks.congr fun a => ?_)⟩
  simp only [DepositTerms.postings, FeeParts.total, payments_cons, payments_nil, net_append,
    net_cons, net_nil]
  push_cast
  split <;> omega

/-- A redemption settled at once. -/
theorem instantRedeem_disbursed {ctx : InstantRedeem} {shares : ℕ}
    (h : instantRedeem s ctx shares remaining = .ok s') :
    ∃ (net : ℕ) (f : FeeParts) (fa pa : Pubkey),
      Disbursed s s' s.vault.vaultTokenAccount ctx.userAssetAccount
        [(ctx.userShareAccount, -shares)]
        (FixedPoint.worth (s.token.unit s.vault.shareMint) shares s.vault.nav) net f fa pa := by
  obtain ⟨d, fa, pa, -, hbuys, hpaid, hbooks, -⟩ := instantRedeem_buys h
  obtain ⟨hgross, fee, -, hsum, hparts⟩ := hbuys
  have htotal : d.fee.recipient + d.fee.protocol + d.net = d.gross := by
    unfold FeeParts.total at hparts
    omega
  have hworth : d.gross = FixedPoint.worth (s.token.unit s.vault.shareMint) shares s.vault.nav :=
    hgross
  rw [← hworth]
  refine ⟨d.net, d.fee, fa, pa, disbursed_of_posts htotal hpaid (hbooks.congr fun a => ?_)⟩
  simp only [RedeemTerms.postings, payments_cons, payments_nil, net_append, net_cons, net_nil]
  push_cast [← htotal]
  split <;> split <;> omega

/-! ### Where the fees of an instant redemption leave nothing -/

/-- An instant redemption up to its fees: the user buckets, and what the shares are worth. -/
def instantRedeemQuote (s : VaultState) (ctx : InstantRedeem) (shares : ℕ) :
    Result ((Pubkey → Option InstantSettlementUser) × ℕ) := do
  let (asset, share, inst) ← instantChecks s ctx.user ctx.assetMint ctx.shareMint
    ctx.vaultTokenAccount ctx.userAssetAccount ctx.userShareAccount ctx.assetTokenProgram
    ctx.shareTokenProgram
  inst.assertRedeemShares shares
  validateAssetMintExtensions asset
  ensure .navIsNotSet (0 < s.vault.nav)
  s.vault.assertNavNotStale s.clock.slot
  let instantUsers ←
    (if inst.maxUserRedeemShares ≠ 0 then do
      let u ← loadOrInitInstantUser s ctx.instantUser ctx.user
      let u ← u.consumeRedeemLimit shares s.clock.slot inst.maxUserRedeemShares
        s.vault.rollingLimitWindowSlots
      pure (Function.update s.instantUsers ctx.user (some u))
    else
      pure s.instantUsers)
  let grossAssets ← calculateAssets s.vault.nav share.decimals shares
  ensure .insufficientLiquidity (grossAssets ≤ s.token.balance ctx.vaultTokenAccount)
  pure (instantUsers, grossAssets)

/-- Its fees: the total, and what is left. -/
def redeemFees (s : VaultState) (grossAssets : ℕ) : Result (ℕ × ℕ) := do
  let withdrawalFee ← getWithdrawalFee s.extensions grossAssets
  let instantFee ← instantRedemptionFee s.vault.instantRedemptionFeeBps grossAssets
  let totalFee ← add arithmetic u64 withdrawalFee instantFee
  let netAssets ← sub arithmetic grossAssets totalFee
  ensure .insufficientRedeemAmount (0 < netAssets)
  pure (totalFee, netAssets)

/-- The rest of it. -/
def settleInstantRedeem (s : VaultState) (ctx : InstantRedeem) (shares : ℕ)
    (remaining : List AccountInfo) (instantUsers : Pubkey → Option InstantSettlementUser)
    (grossAssets totalFee netAssets : ℕ) : Result VaultState := do
  let vault ← s.vault.consumeRedemptionRollingLimit grossAssets s.clock.slot
  let token ← cpi (s.token.burn ctx.shareTokenProgram ctx.userShareAccount ctx.shareMint ctx.user
    shares)
  let token ← payInstantFee s token ctx.assetTokenProgram ctx.vaultTokenAccount ctx.assetMint
    s.key totalFee ctx.feeRecipientTokenAccount ctx.protocolFeeRecipientTokenAccount remaining
  let token ← cpi (token.transferChecked ctx.assetTokenProgram ctx.vaultTokenAccount ctx.assetMint
    ctx.userAssetAccount s.key netAssets)
  let total ← sub arithmetic vault.totalAssetBalance grossAssets
  pure { s with
    instantUsers := instantUsers
    token := token
    vault := { vault with totalAssetBalance := total } }

/-- The three steps make the instruction. -/
theorem instantRedeem_eq (s : VaultState) (ctx : InstantRedeem) (shares : ℕ)
    (remaining : List AccountInfo) :
    instantRedeem s ctx shares remaining = (do
      let (instantUsers, grossAssets) ← instantRedeemQuote s ctx shares
      let (totalFee, netAssets) ← redeemFees s grossAssets
      settleInstantRedeem s ctx shares remaining instantUsers grossAssets totalFee netAssets) := by
  unfold instantRedeem instantRedeemQuote redeemFees settleInstantRedeem
  simp only [bind_assoc, pure_bind]

/-- The fees fail where they leave nothing, also when they do not fit. -/
theorem redeemFees_of_fees {w i : ℕ} (hw : getWithdrawalFee s.extensions gross = .ok w)
    (hi : instantRedemptionFee s.vault.instantRedemptionFeeBps gross = .ok i)
    (hgross : gross < u64) :
    (gross ≤ w + i → ∃ e, redeemFees s gross = .error e) ∧
      (w + i < gross → redeemFees s gross = .ok (w + i, gross - (w + i))) := by
  have hok : ∀ x, redeemFees s gross = .ok x ↔ w + i < gross ∧ x = (w + i, gross - (w + i)) := by
    intro x
    simp only [redeemFees, hw, hi, bind_eq_ok, add_eq_ok, sub_eq_ok, ensure_eq_ok, pure_eq_ok]
    constructor
    · rintro ⟨_, hw', _, hi', _, ⟨-, rfl⟩, _, ⟨hle, rfl⟩, _, hpos, rfl⟩
      obtain rfl := Except.ok.inj hw'
      obtain rfl := Except.ok.inj hi'
      exact ⟨by omega, rfl⟩
    · rintro ⟨hlt, rfl⟩
      exact ⟨w, rfl, i, rfl, _, ⟨hlt.trans hgross, rfl⟩, _, ⟨hlt.le, rfl⟩, (), by omega, rfl⟩
  constructor
  · intro hle
    cases h : redeemFees s gross with
    | error e => exact ⟨e, rfl⟩
    | ok x =>
      obtain ⟨hlt, -⟩ := (hok x).1 h
      omega
  · intro hlt
    exact (hok _).2 ⟨hlt, rfl⟩

/-- What a quote comes to fits 64 bits. -/
theorem instantRedeemQuote_lt {ctx : InstantRedeem} {shares : ℕ}
    {users : Pubkey → Option InstantSettlementUser}
    (h : instantRedeemQuote s ctx shares = .ok (users, gross)) : gross < u64 := by
  simp only [instantRedeemQuote, bind_eq_ok, pure_eq_ok, Prod.mk.injEq] at h
  obtain ⟨_, -, _, -, _, -, _, -, _, -, _, -, gross', hgross, _, -, -, rfl⟩ := h
  simp only [calculateAssets, bind_eq_ok, narrow_eq_ok] at hgross
  obtain ⟨_, -, _, -, _, -, _, -, hlt, rfl⟩ := hgross
  exact hlt

/-- **Fees are conserved.**  A percentage never exceeds its base and a fee always splits; in every
settlement the two parts of the fee and the net amount come to what is settled, each part goes to
an account of its recipient, and the account that pays is out by the amount; and an instant
redemption that is otherwise in order is refused for its fees exactly when they leave nothing. -/
theorem fee_conservation :
    (∀ bps amount u, (FeeType.percentage bps).validate = .ok u → amount < u64 →
      ∃ fee, (FeeType.percentage bps).getFee amount = .ok fee ∧ fee ≤ amount) ∧
    (∀ bps fee, bps ≤ maxBps → fee < u64 → ∃ protocol recipient,
      splitProtocolFee fee bps = .ok (protocol, recipient) ∧ protocol + recipient = fee) ∧
    (∀ s ctx args remaining s' r, approveRequest s ctx args remaining = .ok s' →
      s.requests.lookup ctx.request = some r → r.requestType = .deposit →
      ∃ net f fa pa, Disbursed s s' s.vault.pendingVault s.vault.vaultTokenAccount [] r.amount
        net f fa pa) ∧
    (∀ s ctx args remaining s' r, approveRequest s ctx args remaining = .ok s' →
      s.requests.lookup ctx.request = some r → r.requestType = .redeem →
      ∃ context, validateRequestShareMint s r.shareMintAddress remaining = .ok context ∧
        ∃ net f fa pa, Disbursed s s' s.vault.vaultTokenAccount s.vault.pendingVault []
          (r.amount * settlementNav context.trancheNav s.vault.nav /
            s.token.unit r.shareMintAddress) net f fa pa) ∧
    (∀ s ctx amount remaining s', instantDeposit s ctx amount remaining = .ok s' →
      ∃ (shares net : ℕ) (f : FeeParts) (fa pa : Pubkey),
        Disbursed s s' ctx.userAssetAccount s.vault.vaultTokenAccount
          [(ctx.userShareAccount, shares)] amount net f fa pa) ∧
    (∀ s ctx shares remaining s', instantRedeem s ctx shares remaining = .ok s' →
      ∃ net f fa pa, Disbursed s s' s.vault.vaultTokenAccount ctx.userAssetAccount
        [(ctx.userShareAccount, -shares)]
        (shares * s.vault.nav / s.token.unit s.vault.shareMint) net f fa pa) ∧
    ∀ s ctx shares remaining users gross,
      (∀ f ∈ s.extensions.withdrawalFee, ∃ u, f.validate = .ok u) →
      s.vault.instantRedemptionFeeBps ≤ maxBps →
      instantRedeemQuote s ctx shares = .ok (users, gross) →
      ∃ w i, getWithdrawalFee s.extensions gross = .ok w ∧
        instantRedemptionFee s.vault.instantRedemptionFeeBps gross = .ok i ∧
        (gross ≤ w + i → ∃ e, redeemFees s gross = .error e ∧
          instantRedeem s ctx shares remaining = .error e) ∧
        (w + i < gross → instantRedeem s ctx shares remaining =
          settleInstantRedeem s ctx shares remaining users gross (w + i) (gross - (w + i))) := by
  refine ⟨?_, ?_, ?_, ?_, ?_, ?_, ?_⟩
  · intro bps amount u hvalid hamount
    exact getFee_percentage (ensure_eq_ok.1 hvalid) hamount
  · intro bps fee hbps hfee
    exact exists_splitProtocolFee hbps hfee
  · intro s ctx args remaining s' r h hr ht
    obtain ⟨fee, net, _, _, f, fa, pa, hbooked, -, hsum, -⟩ := approveDeposit_books hr ht h
    rw [← hsum]
    exact ⟨net, f, fa, pa, hbooked.paid.disbursed⟩
  · intro s ctx args remaining s' r h hr ht
    obtain ⟨gross, fee, net, _, f, fa, pa, hbooked, -, hsum, hgross, -⟩ :=
      approveRedeem_books hr ht h
    obtain ⟨context, hcontext, rfl⟩ := hbooked.priced
    refine ⟨context, hcontext, net, f, fa, pa, ?_⟩
    -- what the shares are worth is the fee and the net amount
    have hworth : r.amount * settlementNav context.trancheNav s.vault.nav /
        s.token.unit r.shareMintAddress = fee + net := hgross.symm.trans hsum.symm
    rw [hworth]
    exact hbooked.paid.disbursed
  · intro s ctx amount remaining s' h
    exact instantDeposit_disbursed h
  · intro s ctx shares remaining s' h
    exact instantRedeem_disbursed h
  · intro s ctx shares remaining users gross hvalid hbps hquote
    have hgross := instantRedeemQuote_lt hquote
    -- valid fees can be computed, and whether they leave something decides
    obtain ⟨w, hw⟩ := exists_extensionFee hvalid hgross
    obtain ⟨i, hi⟩ := exists_instantRedemptionFee hbps hgross
    obtain ⟨hfails, hpasses⟩ := redeemFees_of_fees hw hi hgross
    refine ⟨w, i, hw, hi, fun hle => ?_, fun hlt => ?_⟩
    · obtain ⟨e, he⟩ := hfails hle
      refine ⟨e, he, ?_⟩
      rw [instantRedeem_eq, hquote]
      show (redeemFees s gross >>= _) = _
      rw [he]
      rfl
    · rw [instantRedeem_eq, hquote]
      show (redeemFees s gross >>= _) = _
      rw [hpasses hlt]
      rfl

open Scenario in
/-- **Non-vacuity.** A vault with all fees: 500 assets deposited at once, and 50 shares of which
the fees leave something. -/
theorem fee_conservation_with_fees : ∃ s s' : VaultState, VaultState.IsReachable s ∧
    (∃ (shares net : ℕ) (f : FeeParts) (fa pa : Pubkey),
      Disbursed s s' userAsset s.vault.vaultTokenAccount [(userSenior, shares)] 500 net f fa pa) ∧
    ∃ users gross w i, getWithdrawalFee s.extensions gross = .ok w ∧
      instantRedemptionFee s.vault.instantRedemptionFeeBps gross = .ok i ∧
      (w + i < gross → instantRedeem s instantRedeemAccounts 50 [] =
        settleInstantRedeem s instantRedeemAccounts 50 [] users gross (w + i)
          (gross - (w + i))) := by
  obtain ⟨-, s, hs, h⟩ := exists_reachable 0 0 withAllFees (fun _ s =>
    (succeedsWith (instantDeposit s instantDepositAccounts 500 []) (fun _ => true) &&
      (instantRedeemQuote s instantRedeemAccounts 50).isOk) &&
    (s.vault.instantRedemptionFeeBps ≤ maxBps &&
      s.extensions.withdrawalFee = some (.percentage 500))) (by decide +kernel)
  simp only [Bool.and_eq_true, decide_eq_true_eq, isOk_iff] at h
  obtain ⟨⟨hdeposit, ⟨users, gross⟩, hquote⟩, hbps, hfee⟩ := h
  obtain ⟨s', hs', -⟩ := of_succeedsWith hdeposit
  obtain ⟨-, -, -, -, hdeposits, -, hfees⟩ := fee_conservation
  obtain ⟨w, i, hw, hi, -, hsettle⟩ := hfees s instantRedeemAccounts 50 [] users gross (by
    intro f hf
    rw [hfee] at hf
    obtain rfl := Option.some.inj hf
    exact ⟨(), rfl⟩) hbps hquote
  exact ⟨s, s', hs, hdeposits s instantDepositAccounts 500 [] s' hs', users, gross, w, i, hw, hi,
    hsettle⟩

end AsyncVault
