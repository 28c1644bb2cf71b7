/-
AsyncVault/AccountLayout.lean

The fields of an account as bytes.

A vault account and a request account start with an eight-byte discriminator and
their fields in the order of the declaration, each as wide as its type; an
optional field takes one byte when it is missing.  The fields so take at most
664 and 203 bytes, and the extensions start behind that room, wherever the
fields end.

An account is saved by writing its fields from the start; what an earlier, longer
save left behind them stays.
-/
import AsyncVault.ExtensionStore
import AsyncVault.Lib.Codec
import AsyncVault.StrategyLeaf

namespace AsyncVault

open Bytes

namespace Layout

-- integers, least significant byte first; `i64` in two's complement
def u8 : Codec ℕ := .uint 1
def u16 : Codec ℕ := .uint 2
def u32 : Codec ℕ := .uint 4
def u64 : Codec ℕ := .uint 8
def u128 : Codec ℕ := .uint 16
def i64 : Codec ℤ := .int 8

/-- A key is its 32 bytes. -/
def pubkey : Codec Pubkey :=
  (Codec.word 32).congr ⟨Pubkey.mk, Pubkey.bytes, fun _ => rfl, fun _ => rfl⟩

/-- A variant is its index in the declaration, in one byte; other bytes are no variant. -/
def navMode : Codec NavMode :=
  u8.restrict
    (fun | 0 => some .authoritySigned | 1 => some .oracle | 2 => some .hybrid | _ => none)
    (fun | .authoritySigned => 0 | .oracle => 1 | .hybrid => 2)
    (by rintro (_ | _ | _) <;> rfl)
    (by rintro (_ | _ | _ | n) m h <;> cases h <;> rfl)

def requestType : Codec RequestType :=
  u8.restrict (fun | 0 => some .deposit | 1 => some .redeem | _ => none)
    (fun | .deposit => 0 | .redeem => 1)
    (by rintro (_ | _) <;> rfl)
    (by rintro (_ | _ | n) t h <;> cases h <;> rfl)

def requestState : Codec RequestState :=
  u8.restrict
    (fun | 0 => some .pending | 1 => some .claimable | 2 => some .canceled | _ => none)
    (fun | .pending => 0 | .claimable => 1 | .canceled => 2)
    (by rintro (_ | _ | _) <;> rfl)
    (by rintro (_ | _ | _ | n) s h <;> cases h <;> rfl)

end Layout

/-- The bumps a vault account keeps beside the fields of `Vault`. -/
structure VaultBumps where
  reserveBump : ℕ
  pendingVaultBump : ℕ
  bump : ℕ
  deriving DecidableEq

/-- A vault account: the fields the instructions read and the bumps of its derived addresses. -/
structure VaultAccount where
  vault : Vault
  bumps : VaultBumps

/-- The fields of a request account; the id it got from a queue stands behind them. -/
structure RequestAccount where
  vault : Pubkey
  requestType : RequestType
  requestState : RequestState
  owner : Pubkey
  amount : ℕ
  price : ℕ
  assetMintAddress : Pubkey
  shareMintAddress : Pubkey
  createdAt : ℤ
  navUpdateVersion : ℕ
  operator : Option Pubkey
  deriving DecidableEq

namespace Layout

open Codec

/-- The fields of a vault in order, one behind the other. -/
def vaultFields :=
  pubkey.pair <| u8.pair <| pubkey.pair <| pubkey.pair <| pubkey.pair <| pubkey.pair <|
  pubkey.pair <| pubkey.pair <| pubkey.pair <| pubkey.pair <| pubkey.pair <| Codec.bool.pair <|
  Codec.bool.pair <| pubkey.pair <| u128.pair <| u64.pair <| navMode.pair <| Codec.bool.pair <|
  u16.pair <| u32.pair <| u64.pair <| u64.pair <| i64.pair <| u16.pair <| u64.pair <| u64.pair <|
  u64.pair <| u64.pair <| u64.pair <| u64.pair <| u64.pair <| u64.pair <| u64.pair <| u64.pair <|
  u64.pair <| u64.pair <| u64.pair <| u64.pair <| u16.pair <| u64.pair <| u16.pair <|
  pubkey.pair <| u16.pair <| u128.pair <| pubkey.option.pair <| i64.pair <| u8.pair <| u8.pair <|
  u8.pair pubkey.option

/-- The fields of a vault account, tuple by tuple against the record. -/
def vault : Codec VaultAccount := vaultFields.congr <| {
  -- the bumps stand between the fields, before the pending authority
  toFun := fun
    ⟨assetMint, approvedAssetCount, shareMint, vaultTokenAccount, authority, curator, manager,
      hotManager, fulfiller, breaker, feeRecipient, paused, initialized, pendingVault, nav,
      navVersion, navMode, requireFreshNav, maxNavDeltaBps, maxImpliedApyBps,
      maxNavStalenessSlots, lastNavUpdateSlot, lastNavUpdateTimestamp, pendingAsyncRequests,
      totalAssetBalance, depositCap, pendingDepositAmount, rollingLimitWindowSlots,
      managerRollingLimit, managerWindowStartSlot, managerWindowAmount,
      externalWithdrawRollingLimit, redemptionRollingLimit, externalWithdrawWindowStartSlot,
      externalWithdrawWindowAmount, redemptionWindowStartSlot, redemptionWindowAmount,
      timelockDelaySlots, performanceFeeBps, performanceFeeCrystallizationIntervalSeconds,
      protocolFeeBps, protocolFeeRecipient, instantRedemptionFeeBps, highWaterMark, trancheConfig,
      lastFeeCrystallizationTimestamp, reserveBump, pendingVaultBump, bump, pendingAuthority⟩ =>
    { vault :=
        { assetMint := assetMint, approvedAssetCount := approvedAssetCount, shareMint :=
          shareMint, vaultTokenAccount := vaultTokenAccount, authority := authority, curator :=
          curator, manager := manager, hotManager := hotManager, fulfiller := fulfiller, breaker
          := breaker, feeRecipient := feeRecipient, paused := paused, initialized := initialized,
          pendingVault := pendingVault, nav := nav, navVersion := navVersion, navMode := navMode,
          requireFreshNav := requireFreshNav, maxNavDeltaBps := maxNavDeltaBps, maxImpliedApyBps
          := maxImpliedApyBps, maxNavStalenessSlots := maxNavStalenessSlots, lastNavUpdateSlot :=
          lastNavUpdateSlot, lastNavUpdateTimestamp := lastNavUpdateTimestamp,
          pendingAsyncRequests := pendingAsyncRequests, totalAssetBalance := totalAssetBalance,
          depositCap := depositCap, pendingDepositAmount := pendingDepositAmount,
          rollingLimitWindowSlots := rollingLimitWindowSlots, managerRollingLimit :=
          managerRollingLimit, managerWindowStartSlot := managerWindowStartSlot,
          managerWindowAmount := managerWindowAmount, externalWithdrawRollingLimit :=
          externalWithdrawRollingLimit, redemptionRollingLimit := redemptionRollingLimit,
          externalWithdrawWindowStartSlot := externalWithdrawWindowStartSlot,
          externalWithdrawWindowAmount := externalWithdrawWindowAmount, redemptionWindowStartSlot
          := redemptionWindowStartSlot, redemptionWindowAmount := redemptionWindowAmount,
          timelockDelaySlots := timelockDelaySlots, performanceFeeBps := performanceFeeBps,
          performanceFeeCrystallizationIntervalSeconds :=
          performanceFeeCrystallizationIntervalSeconds, protocolFeeBps := protocolFeeBps,
          protocolFeeRecipient := protocolFeeRecipient, instantRedemptionFeeBps :=
          instantRedemptionFeeBps, highWaterMark := highWaterMark, trancheConfig := trancheConfig,
          lastFeeCrystallizationTimestamp := lastFeeCrystallizationTimestamp, pendingAuthority :=
          pendingAuthority }
      bumps := ⟨reserveBump, pendingVaultBump, bump⟩ }
  invFun a :=
    ⟨a.vault.assetMint, a.vault.approvedAssetCount, a.vault.shareMint, a.vault.vaultTokenAccount,
      a.vault.authority, a.vault.curator, a.vault.manager, a.vault.hotManager, a.vault.fulfiller,
      a.vault.breaker, a.vault.feeRecipient, a.vault.paused, a.vault.initialized,
      a.vault.pendingVault, a.vault.nav, a.vault.navVersion, a.vault.navMode,
      a.vault.requireFreshNav, a.vault.maxNavDeltaBps, a.vault.maxImpliedApyBps,
      a.vault.maxNavStalenessSlots, a.vault.lastNavUpdateSlot, a.vault.lastNavUpdateTimestamp,
      a.vault.pendingAsyncRequests, a.vault.totalAssetBalance, a.vault.depositCap,
      a.vault.pendingDepositAmount, a.vault.rollingLimitWindowSlots, a.vault.managerRollingLimit,
      a.vault.managerWindowStartSlot, a.vault.managerWindowAmount,
      a.vault.externalWithdrawRollingLimit, a.vault.redemptionRollingLimit,
      a.vault.externalWithdrawWindowStartSlot, a.vault.externalWithdrawWindowAmount,
      a.vault.redemptionWindowStartSlot, a.vault.redemptionWindowAmount,
      a.vault.timelockDelaySlots, a.vault.performanceFeeBps,
      a.vault.performanceFeeCrystallizationIntervalSeconds, a.vault.protocolFeeBps,
      a.vault.protocolFeeRecipient, a.vault.instantRedemptionFeeBps, a.vault.highWaterMark,
      a.vault.trancheConfig, a.vault.lastFeeCrystallizationTimestamp, a.bumps.reserveBump,
      a.bumps.pendingVaultBump, a.bumps.bump, a.vault.pendingAuthority⟩
  left_inv _ := rfl
  right_inv _ := rfl }

/-- The fields of a request in order, one behind the other. -/
def requestFields :=
  pubkey.pair <| requestType.pair <| requestState.pair <| pubkey.pair <| u64.pair <| u128.pair <|
  pubkey.pair <| pubkey.pair <| i64.pair <| u64.pair pubkey.option

/-- The fields of a request account. -/
def request : Codec RequestAccount := requestFields.congr <| {
  toFun := fun
    ⟨vault, requestType, requestState, owner, amount, price, assetMintAddress, shareMintAddress,
      createdAt, navUpdateVersion, operator⟩ =>
    { vault := vault, requestType := requestType, requestState := requestState, owner := owner,
      amount := amount, price := price, assetMintAddress := assetMintAddress,
      shareMintAddress := shareMintAddress, createdAt := createdAt,
      navUpdateVersion := navUpdateVersion, operator := operator }
  invFun a :=
    ⟨a.vault, a.requestType, a.requestState, a.owner, a.amount, a.price, a.assetMintAddress,
      a.shareMintAddress, a.createdAt, a.navUpdateVersion, a.operator⟩
  left_inv _ := rfl
  right_inv _ := rfl }

/-- The room kept for the fields is the room they may take. -/
theorem size_vault : 8 + vault.size = tlvStart := rfl

/-- So it is for a request. -/
theorem size_request : 8 + request.size = requestTlvStart := rfl

end Layout

/-! ### Saving and loading -/

/-- The eight bytes that tell a vault account from the other accounts of the program. -/
def vaultDiscriminator : List Byte := [211, 8, 232, 43, 2, 152, 117, 119]

/-- Those of a request account. -/
def requestDiscriminator : List Byte := [125, 172, 150, 161, 162, 115, 39, 71]

/-- What saving a vault writes from the start of its account. -/
def VaultAccount.bytes (a : VaultAccount) : List Byte := vaultDiscriminator ++ Layout.vault.encode a

/-- What saving a request writes from the start of its account. -/
def RequestAccount.bytes (a : RequestAccount) : List Byte :=
  requestDiscriminator ++ Layout.request.encode a

/-- A saved vault ends before its extensions begin, whichever optional fields it has. -/
theorem VaultAccount.length_bytes_le (a : VaultAccount) : a.bytes.length ≤ tlvStart := by
  -- a codec never writes more than its size
  have := Layout.vault.length_encode a
  rw [bytes, List.length_append, ← Layout.size_vault]
  exact Nat.add_le_add_left this _

/-- A saved request ends before its queue ids begin. -/
theorem RequestAccount.length_bytes_le (a : RequestAccount) : a.bytes.length ≤ requestTlvStart := by
  have := Layout.request.length_encode a
  rw [bytes, List.length_append, ← Layout.size_request]
  exact Nat.add_le_add_left this _

namespace AccountStep

/-- An instruction ends with the vault as it is in memory. -/
def saveVault (a : VaultAccount) : AccountStep := exitVault a.bytes a.length_bytes_le

end AccountStep

end AsyncVault
