/-
AsyncVault/ShareSupply.lean

What a managed call can do to the supplies of the share mints.

The vault signs a call to another program, and nobody knows what that program
does.  The runtime bounds it (`Permitted`): an account that is not passed
writable keeps its data, and unless the vault is among the signers nobody takes
from it or mints for it.  Within these bounds the called program is free.

The instruction compares one supply before and after the call, that of the mint
the vault was created with.  A tranche vault may mint for another one as well
(`Terms.otherShareMint`), which the instruction does not even load.  So the
share supplies stay, whatever the called program does, exactly when that mint is
out of its reach (`VaultState.Sheltered`).
-/
import AsyncVault.Lib.Sha256
import AsyncVault.ManagedScenario
import AsyncVault.StrategyLeaf
import AsyncVault.Tallies

namespace AsyncVault

open Checked TokenLedger Function Machine Scenario

variable {s s' : ManagedState} {t : Terms} {verify : MerkleCheck} {m : Pubkey}
variable {ctx : ManageVault} {args : ManageVaultArgs} {remaining : List PolicyAccountMeta}
variable {effect : Ledger Pubkey → Result (Ledger Pubkey)}

/-! ### What a called program may do -/

/-- The account at `a` is passed writable. -/
def Writable (accounts : List PolicyAccountMeta) (a : Pubkey) : Prop :=
  ∃ x ∈ accounts, x.key = a ∧ x.isWritable = true

/-- The account at `a` is passed as a signer. -/
def Signs (accounts : List PolicyAccountMeta) (a : Pubkey) : Prop :=
  ∃ x ∈ accounts, x.key = a ∧ x.isSigner = true

instance (accounts : List PolicyAccountMeta) (a : Pubkey) : Decidable (Writable accounts a) :=
  inferInstanceAs (Decidable (∃ x ∈ accounts, _))

instance (accounts : List PolicyAccountMeta) (a : Pubkey) : Decidable (Signs accounts a) :=
  inferInstanceAs (Decidable (∃ x ∈ accounts, _))

/-- What the privileges of the passed accounts allow, for all that `key` controls. -/
structure Permitted (key : Pubkey) (accounts : List PolicyAccountMeta)
    (token token' : Ledger Pubkey) : Prop where
  mints : ∀ m, ¬Writable accounts m → token'.mints m = token.mints m
  tokenAccounts : ∀ a, ¬Writable accounts a → token'.accounts a = token.accounts a
  unsigned : ¬Signs accounts key → Outside key token token'

/-- The called program stays within the privileges the vault gives it. -/
def ManagedState.Respected (s : ManagedState) (remaining : List PolicyAccountMeta)
    (effect : Ledger Pubkey → Result (Ledger Pubkey)) : Prop :=
  ∀ token, effect s.core.token = .ok token →
    Permitted s.core.key (policyAccounts s.core.key remaining) s.core.token token

/-! ### The share mints of a vault -/

/-- The share mint of a tranche vault that it was not created with. -/
def Terms.otherShareMint (t : Terms) : Option Pubkey :=
  t.tranches.map fun tt =>
    if tt.seniorShareMint = t.shareMint then tt.juniorShareMint else tt.seniorShareMint

theorem Terms.Coherent.mem_shareMints (h : t.Coherent) :
    m ∈ t.shareMints ↔ m = t.shareMint ∨ t.otherShareMint = some m := by
  unfold Terms.shareMints Terms.otherShareMint
  cases ht : t.tranches with
  | none => simp
  | some tt =>
    obtain ⟨-, hvalid⟩ := h.tranched tt ht
    show m ∈ [tt.seniorShareMint, tt.juniorShareMint] ↔ _
    rcases hvalid.shareMint with hs | hs
    · simp [hs, eq_comm (a := m)]
    · have hne : tt.seniorShareMint ≠ t.shareMint := by
        rw [hs]
        exact hvalid.senior_ne_junior
      rw [Option.map_some, if_neg hne, Option.some.injEq, hs]
      simp [or_comm, eq_comm (a := m)]

theorem Terms.Coherent.otherShareMint_ne (h : t.Coherent) (ho : t.otherShareMint = some m) :
    m ≠ t.shareMint := by
  obtain ⟨tt, ht, rfl⟩ := Option.map_eq_some_iff.1 ho
  obtain ⟨-, hvalid⟩ := h.tranched tt ht
  split
  · next hs =>
    rw [← hs]
    exact hvalid.senior_ne_junior.symm
  · next hs => exact hs

/-- Every share mint the vault may mint keeps its supply. -/
def SuppliesKept (c c' : VaultState) : Prop :=
  ∀ m ∈ c.terms.shareMints, c.token.Mintable m c.key → c'.token.supply m = c.token.supply m

/-- The other share mint is out of reach of a program that is passed `remaining`: it is not
writable, or it has no supply to burn and the vault does not sign. -/
def VaultState.Sheltered (c : VaultState) (remaining : List PolicyAccountMeta) : Prop :=
  ∀ m, c.terms.otherShareMint = some m → c.token.Mintable m c.key →
    ¬Writable (policyAccounts c.key remaining) m ∨
      ¬Signs (policyAccounts c.key remaining) c.key ∧ c.token.supply m = 0

/-! ### One call -/

/-- The supply the instruction looks at. -/
theorem manageVault_shareSupply
    (h : manageVaultWithMerkleVerification verify s ctx args remaining effect = .ok s') :
    s'.core.token.supply s.core.vault.shareMint = s.core.token.supply s.core.vault.shareMint := by
  obtain ⟨share, policy, v, token, hcheck, -, ⟨y, hy, hsupply⟩, rfl⟩ := manageVault_ok h
  obtain ⟨hshare, hmint, -⟩ := checkManagedCall_ok hcheck
  rw [supply_of_some hshare, ← hsupply, ← hmint]
  exact supply_of_some hy

/-- **A sheltered vault keeps its share supplies.** -/
theorem SuppliesKept.of_sheltered (hc : s.core.terms.Coherent) (hs : s.core.Sheltered remaining)
    (hr : s.Respected remaining effect)
    (h : manageVaultWithMerkleVerification verify s ctx args remaining effect = .ok s') :
    SuppliesKept s.core s'.core := by
  intro m hm hmintable
  rcases hc.mem_shareMints.1 hm with rfl | hother
  · exact manageVault_shareSupply h
  · obtain ⟨share, policy, v, token, -, heffect, -, rfl⟩ := manageVault_ok h
    have hp := hr token heffect
    show token.supply m = s.core.token.supply m
    rcases hs m hother hmintable with hw | ⟨hsigns, hzero⟩
    · rw [Ledger.supply, hp.mints m hw]
      rfl
    · have hle := (hp.unsigned hsigns).supply m hmintable
      omega

/-- A call that passes its checks goes through when the called program leaves the mint alone that
the instruction looks at. -/
theorem manageVault_of_check (effect : Ledger Pubkey → Result (Ledger Pubkey))
    {share : Mint Pubkey} {policy : StrategyPolicy} {v : Vault} {token : Ledger Pubkey}
    (hcheck : checkManagedCall verify s ctx args remaining = .ok (share, policy, v))
    (heffect : effect s.core.token = .ok token)
    (hm : token.mints s.core.vault.shareMint = s.core.token.mints s.core.vault.shareMint) :
    ∃ s', manageVaultWithMerkleVerification verify s ctx args remaining effect = .ok s' ∧
      s'.core.token = token := by
  obtain ⟨hshare, hmint, -⟩ := checkManagedCall_ok hcheck
  refine ⟨{ s with
    core := { s.core with vault := v, token := token }
    policies := update s.policies ctx.strategist (some { policy with executing := false }) },
    ?_, rfl⟩
  rw [manageVault_eq]
  simp only [bind_eq_ok, okOr_eq_ok, ensure_eq_ok]
  refine ⟨(share, policy, v), hcheck, token, heffect, share, ?_, (), rfl, rfl⟩
  rw [hmint, hm, hshare]

/-! ### What goes wrong -/

/-- Some other supply for a mint: none if there was any, else one token. -/
def disturbed (token : Ledger Pubkey) (m : Pubkey) (y : Mint Pubkey) : Ledger Pubkey :=
  token.setSupply m y (if y.supply = 0 then 1 else 0)

theorem disturbed_supply {token : Ledger Pubkey} {y : Mint Pubkey} (hy : token.mints m = some y) :
    (disturbed token m y).supply m ≠ token.supply m := by
  rw [disturbed, supply_setSupply, if_pos rfl, supply_of_some hy]
  split <;> omega

/-- A writable mint may be burned by others, and minted where the vault signs. -/
theorem permitted_disturbed {key : Pubkey} {accounts : List PolicyAccountMeta}
    {token : Ledger Pubkey} {y : Mint Pubkey} (hy : token.mints m = some y)
    (hw : Writable accounts m) (hs : Signs accounts key ∨ token.supply m ≠ 0) :
    Permitted key accounts token (disturbed token m y) where
  mints m' hm' := by
    have hne : m' ≠ m := by
      rintro rfl
      exact hm' hw
    exact update_of_ne hne _ _
  tokenAccounts a _ := rfl
  unsigned hns := by
    have hpos : token.supply m ≠ 0 := hs.resolve_left hns
    rw [supply_of_some hy] at hpos
    refine ⟨(sameShape_setSupply hy _).guarded key, fun a m' _ => le_rfl, fun m' _ => ?_⟩
    rw [disturbed, supply_setSupply, if_neg hpos]
    split <;> omega

/-- **An exposed share mint**: a program that stays within its privileges changes its supply, and
the call succeeds. -/
theorem exists_unkept (hc : s.core.terms.Coherent) (hs : ¬s.core.Sheltered remaining)
    (hcheck : (checkManagedCall verify s ctx args remaining).isOk = true) :
    ∃ effect s', s.Respected remaining effect ∧
      manageVaultWithMerkleVerification verify s ctx args remaining effect = .ok s' ∧
      ¬SuppliesKept s.core s'.core := by
  obtain ⟨⟨share, policy, v⟩, hcheck⟩ := isOk_iff.1 hcheck
  simp only [VaultState.Sheltered, not_forall, not_or, not_and_or, not_not] at hs
  obtain ⟨m, hother, hmintable, hw, hreach⟩ := hs
  obtain ⟨y, hy, -⟩ := id hmintable
  have hne := hc.otherShareMint_ne hother
  obtain ⟨s', hs', htoken⟩ := manageVault_of_check
    (fun _ => .ok (disturbed s.core.token m y)) hcheck rfl (update_of_ne hne.symm _ _)
  refine ⟨_, s', ?_, hs', fun hkept => ?_⟩
  · rintro _ ⟨rfl⟩
    exact permitted_disturbed hy hw hreach
  · have hm := hkept m (hc.mem_shareMints.2 (.inr hother)) hmintable
    rw [htoken] at hm
    exact disturbed_supply hy hm

/-- Minting on the signature of the vault stays within the privileges of its accounts. -/
theorem permitted_mintTo {key a : Pubkey} {accounts : List PolicyAccountMeta} {n : ℕ}
    {program : TokenProgram} {token token' : Ledger Pubkey}
    (h : token.mintTo program m a key n = .ok token') (hm : Writable accounts m)
    (ha : Writable accounts a) (hs : Signs accounts key) :
    Permitted key accounts token token' := by
  simp only [Ledger.mintTo, bind_eq_ok, pure_eq_ok] at h
  obtain ⟨y, -, x, -, -, -, -, -, -, -, -, -, -, -, supply, -, rfl⟩ := h
  refine ⟨fun m' hm' => ?_, fun a' ha' => ?_, fun hns => absurd hs hns⟩
  · have hne : m' ≠ m := by
      rintro rfl
      exact hm' hm
    exact update_of_ne hne _ _
  · have hne : a' ≠ a := by
      rintro rfl
      exact ha' ha
    exact update_of_ne hne _ _

namespace Scenario

/-- Operators that commit a call to the first three accounts it passes. -/
def threeAccounts : List PolicyOperator := [.ingestAccount 0, .ingestAccount 1, .ingestAccount 2]

/-- The vault, and the junior mint with an account for it. -/
def juniorAccounts : List PolicyAccountMeta :=
  [⟨vault, false, false⟩, ⟨junior, false, true⟩, ⟨userJunior, false, true⟩]

/-- The leaf of the call that passes them. -/
def juniorRoot : BitVec 256 := 0x0e96890375a2a3503a8c0e2ac94164dd6416c02b9db62125e6970e983e6b56e4

/-- A vault of two tranches whose policy allows that call. -/
def juniorPolicy : List ManagedAction :=
  (twoTranches ++ [collect 100 senior, collect 101 junior]).map .core ++ openVenue
    ++ openPolicy juniorRoot

/-- The called program mints shares of the junior tranche. -/
def issueJunior (token : Ledger Pubkey) : Result (Ledger Pubkey) :=
  cpi (token.mintTo .token junior userJunior vault 5)

/-- Whether that call goes through and leaves more junior shares than there were. -/
def issues (s : ManagedState) : Bool :=
  match manageVaultWithMerkleVerification (merkleCheck Sha256.hash) s call
      (callArgs threeAccounts) juniorAccounts issueJunior with
  | .ok s' => decide (s.core.key = vault ∧ junior ∈ s.core.terms.shareMints ∧
      (s.core.token.mints junior).map Mint.mintAuthority = some (some vault) ∧
      s.core.token.supply junior = 10 ∧ s'.core.token.supply junior = 15)
  | .error _ => false

end Scenario

/-! ### Every call -/

/-- **What a managed call does to the share supplies.**  In every reachable state and for every
policy, instruction data and account list: whatever a program within its privileges does, the call
leaves the supply of each share mint the vault may mint, if and only if the call is refused before
the program runs or the share mint the vault was not created with is out of the program's reach. -/
theorem managed_call_keeps_supplies_iff (verify : MerkleCheck) (s : ManagedState)
    (hs : s.IsReachable verify) (ctx : ManageVault) (args : ManageVaultArgs)
    (remaining : List PolicyAccountMeta) :
    (∀ effect s', s.Respected remaining effect →
      manageVaultWithMerkleVerification verify s ctx args remaining effect = .ok s' →
      SuppliesKept s.core s'.core) ↔
    ((checkManagedCall verify s ctx args remaining).isOk = true → s.core.Sheltered remaining) := by
  have hc := hs.tallied.coherent
  constructor
  · intro hkept hcheck
    by_contra hexposed
    obtain ⟨effect, s', hr, he, hunkept⟩ := exists_unkept hc hexposed hcheck
    exact hunkept (hkept effect s' hr he)
  · intro hsheltered effect s' hr he
    obtain ⟨share, policy, v, token, hcheck, -⟩ := manageVault_ok he
    exact .of_sheltered hc (hsheltered (isOk_iff.2 ⟨_, hcheck⟩)) hr he

/-- Whether that call passes its checks on a vault whose other share mint is the junior one. -/
def exposesJunior (s : ManagedState) : Bool :=
  decide (s.core.key = vault ∧ s.core.terms.otherShareMint = some junior ∧
    (s.core.token.mints junior).map Mint.mintAuthority = some (some vault)) &&
  (checkManagedCall (merkleCheck Sha256.hash) s call (callArgs threeAccounts) juniorAccounts).isOk

/-- **Non-vacuity.** On a vault of two tranches, a call that passes the junior mint does not keep
the supplies whatever the called program does; one that passes no accounts does. -/
theorem managed_call_keeps_supplies_iff_of_tranches :
    ∃ s, ManagedState.IsReachable (merkleCheck Sha256.hash) s ∧
      (¬∀ effect s', s.Respected juniorAccounts effect →
        manageVaultWithMerkleVerification (merkleCheck Sha256.hash) s call
          (callArgs threeAccounts) juniorAccounts effect = .ok s' → SuppliesKept s.core s'.core) ∧
      ∀ args effect s', s.Respected [] effect →
        manageVaultWithMerkleVerification (merkleCheck Sha256.hash) s call args [] effect = .ok s' →
        SuppliesKept s.core s'.core := by
  obtain ⟨s, hs, hp⟩ := exists_managed_state (merkleCheck Sha256.hash) juniorPolicy exposesJunior
    (by decide +kernel)
  obtain ⟨hfacts, hcheck⟩ := Bool.and_eq_true_iff.1 hp
  obtain ⟨hkey, hother, hauthority⟩ := of_decide_eq_true hfacts
  obtain ⟨y, hy, hmint⟩ := Option.map_eq_some_iff.1 hauthority
  refine ⟨s, hs, fun hkept => ?_, fun args => ?_⟩
  · have hsheltered := (managed_call_keeps_supplies_iff (merkleCheck Sha256.hash) s hs call
      (callArgs threeAccounts) juniorAccounts).1 hkept hcheck
    have hreach := hsheltered junior hother ⟨y, hy, by rw [hmint, hkey]⟩
    rw [hkey] at hreach
    rcases hreach with hw | ⟨hsigns, -⟩
    · exact hw (by decide)
    · exact hsigns (by decide)
  · refine (managed_call_keeps_supplies_iff (merkleCheck Sha256.hash) s hs call args []).2 ?_
    intro _ m _ _
    exact .inl (by simp [Writable, policyAccounts])

/-- **A managed call that mints junior shares.**  The curator's policy allows a call that passes the
junior mint; the vault signs, the called program mints, and the call succeeds. -/
theorem managed_call_mints_junior :
    ∃ s ctx args remaining effect s',
      ManagedState.IsReachable (merkleCheck Sha256.hash) s ∧ s.Respected remaining effect ∧
      manageVaultWithMerkleVerification (merkleCheck Sha256.hash) s ctx args remaining effect
        = .ok s' ∧
      ∃ m ∈ s.core.terms.shareMints, s.core.token.Mintable m s.core.key ∧
        s.core.token.supply m = 10 ∧ s'.core.token.supply m = 15 := by
  obtain ⟨s, hs, hp⟩ := exists_managed_state (merkleCheck Sha256.hash) juniorPolicy issues
    (by decide +kernel)
  unfold issues at hp
  split at hp
  · next s' he =>
    obtain ⟨hkey, hmem, hauthority, hbefore, hafter⟩ := of_decide_eq_true hp
    obtain ⟨y, hy, hmint⟩ := Option.map_eq_some_iff.1 hauthority
    refine ⟨s, call, callArgs threeAccounts, juniorAccounts, issueJunior, s', hs, ?_, he, junior,
      hmem, ⟨y, hy, ?_⟩, hbefore, hafter⟩
    · intro token htoken
      rw [hkey]
      exact permitted_mintTo (cpi_eq_ok.1 htoken) (by decide) (by decide) (by decide)
    · rw [hmint, hkey]
  · cases hp

end AsyncVault
