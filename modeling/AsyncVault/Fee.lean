/-
AsyncVault/Fee.lean

Fees and share/asset conversion.

The two halves of every settlement: what a fee takes off an amount, and how an
amount of assets and an amount of shares are converted into one another at a
NAV.  The definitions follow the source call by call, each intermediate product
checked against 128 bits.  The lemmas `…_eq_ok` say, for each, exactly when it
returns and that it returns the plain formula of `FixedPoint`; nothing later
looks at the intermediate steps.
-/
import AsyncVault.Types
import AsyncVault.Lib.FixedPoint

namespace AsyncVault

open Checked FixedPoint

/-- Fail with an error of the program unless `c` holds (`require!`). -/
def ensure (e : AsyncVaultError) (c : Prop) [Decidable c] : Result Unit :=
  require (.async e) c

@[simp] theorem ensure_eq_ok {e : AsyncVaultError} {c : Prop} [Decidable c] {u : Unit} :
    ensure e c = .ok u ↔ c := require_eq_ok

/-- The error of every failed checked operation of the program. -/
abbrev arithmetic : VaultError := .async .arithmeticError

/-! ### Fee types -/

/-- Percentage fees may not exceed 100%. -/
def FeeType.validate : FeeType → Result Unit
  | .percentage bps => ensure .feeBpsExceeded (bps ≤ maxBps)
  | .fixedAmount _ => pure ()

/-- The fee on a fee-inclusive total, rounded up for percentages. -/
def FeeType.getFee (fee : FeeType) (totalAmount : ℕ) : Result ℕ :=
  match fee with
  | .percentage bps => do
    let product ← mul arithmetic u128 totalAmount bps
    let product ← add arithmetic u128 product 9999
    let fee ← div arithmetic product 10000
    narrow arithmetic u64 fee
  | .fixedAmount amount => pure amount

/-- Split a fee between the protocol and the vault's fee recipient: the
protocol's part first. -/
def splitProtocolFee (totalFee protocolFeeBps : ℕ) : Result (ℕ × ℕ) :=
  if totalFee = 0 ∨ protocolFeeBps = 0 then
    pure (0, totalFee)
  else do
    let protocolFee ← (FeeType.percentage protocolFeeBps).getFee totalFee
    let feeRecipientFee ← sub arithmetic totalFee protocolFee
    pure (protocolFee, feeRecipientFee)

/-- The two parts of a split fee sum to the fee. -/
theorem splitProtocolFee_add {totalFee bps : ℕ} {parts : ℕ × ℕ}
    (h : splitProtocolFee totalFee bps = .ok parts) : parts.1 + parts.2 = totalFee := by
  unfold splitProtocolFee at h
  split at h
  · obtain rfl := pure_eq_ok.1 h
    simp
  · simp only [bind_eq_ok, sub_eq_ok, pure_eq_ok] at h
    obtain ⟨fee, -, _, ⟨hle, rfl⟩, rfl⟩ := h
    simp only
    omega

theorem splitProtocolFee_zero (bps : ℕ) : splitProtocolFee 0 bps = .ok (0, 0) := by
  simp [splitProtocolFee, pure, Except.pure]

/-! ### Settlement fees of the vault -/

/-- The fee of an optional fee extension. -/
def extensionFee (fee : Option FeeType) (amount : ℕ) : Result ℕ :=
  match fee with
  | some fee => fee.getFee amount
  | none => pure 0

def getDepositFee (ext : VaultExtensions) (amount : ℕ) : Result ℕ :=
  extensionFee ext.depositFee amount

def getWithdrawalFee (ext : VaultExtensions) (amount : ℕ) : Result ℕ :=
  extensionFee ext.withdrawalFee amount

def getDepositFeeAndNet (ext : VaultExtensions) (amount : ℕ) : Result (ℕ × ℕ) := do
  let fee ← getDepositFee ext amount
  let net ← sub arithmetic amount fee
  pure (fee, net)

def getWithdrawalFeeAndNet (ext : VaultExtensions) (amount : ℕ) : Result (ℕ × ℕ) := do
  let fee ← getWithdrawalFee ext amount
  let net ← sub arithmetic amount fee
  pure (fee, net)

theorem getDepositFeeAndNet_add {ext : VaultExtensions} {amount : ℕ} {parts : ℕ × ℕ}
    (h : getDepositFeeAndNet ext amount = .ok parts) : parts.1 + parts.2 = amount := by
  simp only [getDepositFeeAndNet, bind_eq_ok, sub_eq_ok, pure_eq_ok] at h
  obtain ⟨fee, -, _, ⟨hle, rfl⟩, rfl⟩ := h
  exact Nat.add_sub_cancel' hle

theorem getWithdrawalFeeAndNet_add {ext : VaultExtensions} {amount : ℕ} {parts : ℕ × ℕ}
    (h : getWithdrawalFeeAndNet ext amount = .ok parts) : parts.1 + parts.2 = amount := by
  simp only [getWithdrawalFeeAndNet, bind_eq_ok, sub_eq_ok, pure_eq_ok] at h
  obtain ⟨fee, -, _, ⟨hle, rfl⟩, rfl⟩ := h
  exact Nat.add_sub_cancel' hle

/-- Without a withdrawal fee the gross amount is the net amount. -/
theorem getWithdrawalFeeAndNet_none {ext : VaultExtensions} (h : ext.withdrawalFee = none)
    (amount : ℕ) : getWithdrawalFeeAndNet ext amount = .ok (0, amount) := by
  simp [getWithdrawalFeeAndNet, getWithdrawalFee, h, extensionFee, sub, bind, Except.bind, pure,
    Except.pure]

/-! ### Conversion -/

/-- Shares bought by `netAmount` of assets, floored. -/
def calculateShares (nav decimals netAmount : ℕ) : Result ℕ := do
  let precision ← pow arithmetic u128 10 decimals
  let product ← mul arithmetic u128 netAmount precision
  let shares ← div arithmetic product nav
  narrow arithmetic u64 shares

/-- Assets paid for `shareAmount` shares, floored; nothing is an error. -/
def calculateAssets (nav decimals shareAmount : ℕ) : Result ℕ := do
  let precision ← pow arithmetic u128 10 decimals
  let product ← mul arithmetic u128 shareAmount nav
  let assets ← div arithmetic product precision
  ensure .arithmeticError (assets ≠ 0)
  narrow arithmetic u64 assets

/-- The value of a supply at a NAV: `assets_from_supply` of the approval path
and `assets_from_nav` of the waterfall, which are the same function. -/
def assetsFromNav (supply nav decimals : ℕ) : Result ℕ :=
  if supply = 0 ∨ nav = 0 then
    pure 0
  else do
    let precision ← pow arithmetic u128 10 decimals
    let product ← mul arithmetic u128 supply nav
    div arithmetic product precision

def assetsFromSupply (supply decimals nav : ℕ) : Result ℕ :=
  assetsFromNav supply nav decimals

/-- The NAV at which a supply has a value; an empty supply has NAV zero. -/
def navFromAssets (assets supply decimals : ℕ) : Result ℕ :=
  if supply = 0 then
    pure 0
  else do
    let precision ← pow arithmetic u128 10 decimals
    let product ← mul arithmetic u128 assets precision
    div arithmetic product supply

variable {nav decimals amount supply n : ℕ}

theorem calculateShares_ok (h : calculateShares nav decimals amount = .ok n) :
    0 < nav ∧ n = sharesFor (10 ^ decimals) nav amount ∧ n < u64 := by
  simp only [calculateShares, bind_eq_ok, pow_eq_ok, mul_eq_ok, div_eq_ok, narrow_eq_ok] at h
  obtain ⟨_, ⟨-, rfl⟩, _, ⟨-, rfl⟩, _, ⟨hnav, rfl⟩, hlt, rfl⟩ := h
  exact ⟨hnav, rfl, hlt⟩

theorem calculateAssets_eq_ok :
    calculateAssets nav decimals amount = .ok n ↔
      10 ^ decimals < u128 ∧ amount * nav < u128 ∧
        0 < n ∧ n < u64 ∧ n = worth (10 ^ decimals) amount nav := by
  simp only [calculateAssets, bind_eq_ok, pow_eq_ok, mul_eq_ok, div_eq_ok, narrow_eq_ok,
    ensure_eq_ok]
  constructor
  · rintro ⟨_, ⟨hp, rfl⟩, _, ⟨hm, rfl⟩, _, ⟨-, rfl⟩, -, hne, hlt, rfl⟩
    exact ⟨hp, hm, Nat.pos_of_ne_zero hne, hlt, rfl⟩
  · rintro ⟨hp, hm, hpos, hlt, rfl⟩
    exact ⟨_, ⟨hp, rfl⟩, _, ⟨hm, rfl⟩, _, ⟨by positivity, rfl⟩, (), hpos.ne', hlt, rfl⟩

theorem assetsFromNav_ok (h : assetsFromNav supply nav decimals = .ok n) :
    n = worth (10 ^ decimals) supply nav := by
  unfold assetsFromNav at h
  split at h
  · next h0 =>
    obtain rfl := pure_eq_ok.1 h
    rcases h0 with rfl | rfl <;> simp
  · simp only [bind_eq_ok, pow_eq_ok, mul_eq_ok, div_eq_ok] at h
    obtain ⟨_, ⟨-, rfl⟩, _, ⟨-, rfl⟩, -, rfl⟩ := h
    rfl

theorem navFromAssets_ok (h : navFromAssets amount supply decimals = .ok n) :
    n = priceOf (10 ^ decimals) supply amount := by
  unfold navFromAssets at h
  split at h
  · next h0 =>
    obtain rfl := pure_eq_ok.1 h
    simp [h0]
  · simp only [bind_eq_ok, pow_eq_ok, mul_eq_ok, div_eq_ok] at h
    obtain ⟨_, ⟨-, rfl⟩, _, ⟨-, rfl⟩, -, rfl⟩ := h
    rfl

/-! ### Performance fee -/

/-- The shares minted as performance fee when the NAV rises over the high-water
mark: the fee in assets over what the old shares keep. -/
def calculatePerformanceFeeShares (updatedNav highWaterMark feeBps shareSupply decimals : ℕ) :
    Result ℕ :=
  if feeBps = 0 ∨ shareSupply = 0 ∨ updatedNav ≤ highWaterMark then
    pure 0
  else do
    let precision ← pow arithmetic u128 10 decimals
    let profitPerShare ← sub arithmetic updatedNav highWaterMark
    let grossProfit ← mul arithmetic u128 shareSupply profitPerShare
    let grossProfitAssets ← div arithmetic grossProfit precision
    let fee ← mul arithmetic u128 grossProfitAssets feeBps
    let feeAssets ← div arithmetic fee maxBps
    if feeAssets = 0 then
      pure 0
    else do
      let total ← mul arithmetic u128 shareSupply updatedNav
      let totalAssets ← div arithmetic total precision
      let denominator ← sub arithmetic totalAssets feeAssets
      ensure .arithmeticError (0 < denominator)
      let feeShares ← mul arithmetic u128 feeAssets shareSupply
      let feeShares ← div arithmetic feeShares denominator
      narrow arithmetic u64 feeShares

end AsyncVault
