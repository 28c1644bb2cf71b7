/-
AsyncVault/Authorization.lean

Whose signatures the program moves tokens on.

An instruction has the signatures of its declared signers, and in some
instructions the program signs for the vault (`VaultSigns`).  Every instruction
changes the tokens by calls of the token programs on these signatures and no
others (`execManaged_dealings`).  So along any run, from any state, nothing is taken
out of an account in transactions that neither its owner nor a delegate of the
owner signed, and nothing the vault owns is taken by instructions in which the
program does not sign for it.

A managed call is bounded by the runtime alone: the called program has the
signatures of the accounts that are passed as signers, and the vault's only if
the vault is passed.
-/
import AsyncVault.Lib.TokenAuthority
import AsyncVault.Custody
import AsyncVault.FeeHistory
import AsyncVault.ManagedScenario
import AsyncVault.ShareSupply

namespace AsyncVault

open Checked TokenLedger KeyedStore Function Machine

variable {s s' : VaultState} {t t' : ManagedState} {k m a o : Pubkey} {r : Request} {n : ℕ}
variable {remaining : List AccountInfo} {token token' : Ledger Pubkey} {program : TokenProgram}
variable {verify : MerkleCheck}

/-! ### Signatures -/

/-- The declared signers of a request instruction; a canceled request is skipped without one. -/
def RequestInstruction.signers : RequestInstruction → List Pubkey
  | .createDepositRequest ctx _ => [ctx.user]
  | .createRedeemRequest ctx _ => [ctx.user]
  | .approveRequest ctx _ => [ctx.authority]
  | .rejectRequest authority _ _ _ => [authority]
  | .cancelRequest user _ => [user]
  | .cancelQueuedDepositRequest ctx => [ctx.user]
  | .cancelQueuedRedemptionRequest ctx => [ctx.user]
  | .skipCanceledQueueRequest _ _ => []
  | .claim ctx => [ctx.user]
  | .setOperator user operator _ => [user, operator]

def ConfigInstruction.signers : ConfigInstruction → List Pubkey
  | .initializeVault authority _ => [authority]
  | .initializeTranches ctx _ => [ctx.mintAuthority, ctx.authority]
  | .initDepositFee authority _ => [authority]
  | .initWithdrawalFee authority _ => [authority]
  | .initPausableSubscriptions authority _ => [authority]
  | .initPausableRedemptions authority _ => [authority]
  | .initializeSubscriptionQueue authority => [authority]
  | .initializeRedemptionQueue authority => [authority]
  | .initMinSubscription authority _ => [authority]
  | .initMinRedemption authority _ => [authority]
  | .initializeExternallyManagedWithdrawals authority => [authority]
  | .initializeInstantSettlement authority _ => [authority]
  | .updateFee authority _ => [authority]
  | .updateExtension authority _ => [authority]
  | .updateVault authority _ => [authority]
  | .queueVaultUpdate authority _ _ => [authority]
  | .executeVaultUpdate executor _ => [executor]
  | .cancelVaultUpdate authority _ => [authority]
  | .queueFeeUpdate authority _ _ => [authority]
  | .executeFeeUpdate executor _ => [executor]
  | .cancelFeeUpdate authority _ => [authority]
  | .queueExtensionUpdate authority _ _ => [authority]
  | .executeExtensionUpdate executor _ => [executor]
  | .cancelExtensionUpdate authority _ => [authority]
  | .pauseVault breaker => [breaker]
  | .inviteNewAuthority authority _ => [authority]
  | .acceptAuthorityInvitation newAuthority => [newAuthority]
  | .initializeProtocolFeeConfig authority _ => [authority]
  | .updateProtocolFeeConfig authority _ => [authority]
  | .addVaultAsset ctx _ => [ctx.authority]
  | .removeVaultAsset authority _ => [authority]

def WorldAction.signers : WorldAction → List Pubkey
  | .transfer authority _ _ _ _ _ => [authority]
  | .burn authority _ _ _ _ => [authority]
  | .transferDelegated delegate _ _ _ _ _ => [delegate]
  | .burnDelegated delegate _ _ _ _ => [delegate]
  | .applySetting authority _ => [authority]
  | .mintTo authority _ _ _ _ => [authority]
  | .setMintAuthority authority _ _ _ => [authority]
  | .setTransferFee authority _ _ _ => [authority]
  | .closeAccount authority _ => [authority]
  | .initializeMint .. | .initializeAccount .. | .advanceClock _ => []

def Action.signers : Action → List Pubkey
  | .request i _ => i.signers
  | .instantDeposit ctx _ _ => [ctx.user]
  | .instantRedeem ctx _ _ => [ctx.user]
  | .updateVaultNav authority _ _ => [authority]
  | .config i => i.signers
  | .world w => w.signers

def VenueInstruction.signers : VenueInstruction → List Pubkey
  | .registerVenue registryAuthority _ => [registryAuthority]
  | .setVenueEntryPaused registryAuthority _ _ => [registryAuthority]
  | .approveVaultVenue authority _ _ => [authority]
  | .removeVaultVenue authority _ => [authority]
  | .createVenuePosition ctx => [ctx.authority]
  | .deployVenuePosition ctx _ => [ctx.authority]
  | .pullVenuePosition ctx _ => [ctx.authority]
  | .removeVenuePosition ctx => [ctx.authority]
  | .withdrawAssets ctx _ => [ctx.authority]

def PolicyInstruction.signers : PolicyInstruction → List Pubkey
  | .initializeStrategyPolicy authority _ => [authority]
  | .updateStrategyPolicy authority _ _ => [authority]
  | .queueStrategyPolicyUpdate authority _ _ _ => [authority]
  | .executeStrategyPolicyUpdate executor _ _ => [executor]
  | .cancelStrategyPolicyUpdate authority _ => [authority]
  | .pauseStrategyPolicy authority _ => [authority]
  | .closeStrategyPolicy authority _ => [authority]

/-- The signers of a transaction; those of a managed call are the strategist and the accounts it
passes on as signers. -/
def ManagedAction.signers : ManagedAction → List Pubkey
  | .core b => b.signers
  | .venue i => i.signers
  | .policy i => i.signers
  | .manageVault ctx _ accounts _ =>
    ctx.strategist :: (accounts.filter PolicyAccountMeta.isSigner).map PolicyAccountMeta.key

/-- The request instructions in which the program signs for the vault. -/
def RequestInstruction.vaultSigns : RequestInstruction → Bool
  | .approveRequest .. | .rejectRequest .. | .cancelRequest .. | .cancelQueuedDepositRequest _
  | .cancelQueuedRedemptionRequest _ | .claim _ => true
  | .createDepositRequest .. | .createRedeemRequest .. | .skipCanceledQueueRequest ..
  | .setOperator .. => false

def Action.vaultSigns : Action → Bool
  | .request i _ => i.vaultSigns
  | .instantDeposit .. | .instantRedeem .. | .updateVaultNav .. => true
  | .config (.removeVaultAsset ..) => true
  | .config _ | .world _ => false

def VenueInstruction.vaultSigns : VenueInstruction → Bool
  | .deployVenuePosition .. | .pullVenuePosition .. | .removeVenuePosition _
  | .withdrawAssets .. => true
  | .registerVenue .. | .setVenueEntryPaused .. | .approveVaultVenue .. | .removeVaultVenue ..
  | .createVenuePosition _ => false

/-- A managed call has the vault's signature when it passes the vault on. -/
def ManagedAction.vaultSigns (key : Pubkey) : ManagedAction → Bool
  | .core b => b.vaultSigns
  | .venue i => i.vaultSigns
  | .policy _ => false
  | .manageVault _ _ accounts _ => accounts.any fun x => x.key = key

/-- The keys a transaction can act for: those that sign it, which the vault never does, and the
vault where the program signs for it. -/
def Authority (signers : List Pubkey) (vaultSigns : Bool) (key k : Pubkey) : Prop :=
  k ∈ signers ∧ k ≠ key ∨ vaultSigns = true ∧ k = key

theorem authority_signer {signers : List Pubkey} {b : Bool} (hk : k ∈ signers) (hne : k ≠ s.key) :
    Authority signers b s.key k :=
  .inl ⟨hk, hne⟩

theorem authority_vault {signers : List Pubkey} {key : Pubkey} : Authority signers true key key :=
  .inr ⟨rfl, rfl⟩

/-- Calls the vault alone signs. -/
theorem calls_ofVault {signers : List Pubkey}
    (h : Calls (· = s.key) token token') : Calls (Authority signers true s.key) token token' :=
  h.mono fun _ he => .inr ⟨rfl, he⟩

/-! ### Parts that move no tokens -/

theorem Requeued.key (h : Requeued s s') : s'.key = s.key := by
  obtain ⟨_, _, rfl, -⟩ := h
  rfl

/-! ### Settlements -/

theorem payFee_calls {src : Pubkey} {account : Option AccountInfo} {auth : Pubkey → Prop}
    (ha : auth a) (h : payFee token program src m account a n = .ok token') :
    Calls auth token token' := by
  unfold payFee at h
  cases account with
  | none => exact .of_eq (pure_eq_ok.1 h).symm
  | some info =>
    simp only [VaultState.transferToInfo, bind_eq_ok, cpi_eq_ok] at h
    obtain ⟨-, -, h⟩ := h
    exact .transferChecked ha h

theorem paySettlementFee_calls {src : Pubkey}
    (h : paySettlementFee s program src m n remaining = .ok token) :
    Calls (· = s.key) s.token token := by
  simp only [paySettlementFee, bind_eq_ok] at h
  obtain ⟨parts, -, account, -, protocolAccount, -, token₁, h₁, h₂⟩ := h
  have hfirst : Calls (· = s.key) s.token token₁ := payFee_calls rfl h₁
  exact hfirst.trans (payFee_calls rfl h₂)

theorem payInstantFee_calls {src : Pubkey} {account protocolAccount : Option Pubkey}
    {auth : Pubkey → Prop} (ha : auth a)
    (h : payInstantFee s token program src m a n account protocolAccount remaining = .ok token') :
    Calls auth token token' := by
  simp only [payInstantFee, bind_eq_ok] at h
  obtain ⟨parts, -, token₁, h₁, h₂⟩ := h
  have hfirst : Calls auth token token₁ := by
    split at h₁
    · simp only [bind_eq_ok, cpi_eq_ok] at h₁
      obtain ⟨account', -, -, -, h₁⟩ := h₁
      exact .transferChecked ha h₁
    · exact .of_eq (pure_eq_ok.1 h₁).symm
  refine hfirst.trans ?_
  split at h₂
  · simp only [bind_eq_ok, cpi_eq_ok] at h₂
    obtain ⟨recipient, -, account', -, -, -, h₂⟩ := h₂
    exact .transferChecked ha h₂
  · exact .of_eq (pure_eq_ok.1 h₂).symm

theorem settleDeposit_calls {ctx : ApproveRequest} {context : RequestShareMintContext} {nav : ℕ}
    {share : Mint Pubkey} {x : Settlement}
    (h : settleDeposit s ctx context r nav share remaining = .ok x) :
    Calls (· = s.key) s.token x.state.token := by
  obtain ⟨_, _, _, _, _, _, _, hs, rfl⟩ := settleDeposit_iff.1 h
  obtain ⟨tc, rfl, -⟩ := updateTrancheSupplyCache_terms hs.cached
  exact (paySettlementFee_calls hs.feePaid).trans (.transferChecked rfl hs.paid)

theorem settleRedeem_calls {ctx : ApproveRequest} {context : RequestShareMintContext} {nav : ℕ}
    {share : Mint Pubkey} {x : Settlement}
    (h : settleRedeem s ctx context r nav share remaining = .ok x) :
    Calls (· = s.key) s.token x.state.token := by
  obtain ⟨_, _, _, _, _, _, _, _, hs, rfl⟩ := settleRedeem_iff.1 h
  obtain ⟨tc, rfl, -⟩ := updateTrancheSupplyCache_terms hs.cached
  exact (paySettlementFee_calls hs.feePaid).trans (.transferChecked rfl hs.paid)

/-- A refund is the vault's to sign. -/
theorem refund_calls {ctx : RefundAccounts} (h : refund s ctx r = .ok s') :
    Calls (· = s.key) s.token s'.token := by
  cases ht : r.requestType with
  | deposit =>
    obtain ⟨pending, a, program, token, s₁, h⟩ := (refund_deposit_iff ht).1 h
    rw [(decrementPendingRequests_ok h.counted).token]
    exact .transferChecked rfl h.paid
  | redeem =>
    obtain ⟨a, program, token, h⟩ := (refund_redeem_iff ht).1 h
    rw [(decrementPendingRequests_ok h.counted).token]
    exact .mintTo rfl h.minted

/-! ### Requests -/

theorem approveRequest_calls {ctx : ApproveRequest} {args : ApproveRequestArgs}
    (h : approveRequest s ctx args remaining = .ok s') : Calls (· = s.key) s.token s'.token := by
  obtain ⟨r, share, context, s₁, x, v, -, hsettles⟩ := approveRequest_iff.1 h
  have hqueue := advanceQueue_ok hsettles.queue
  rw [(decrementPendingRequests_ok hsettles.state).token, ← hqueue.key, ← hqueue.adjusted.token]
  cases ht : r.requestType with
  | deposit => exact settleDeposit_calls (hsettles.deposit ht).1
  | redeem => exact settleRedeem_calls (hsettles.redeem ht).1

/-- **Requests move tokens on the signatures of the instruction.** -/
theorem execRequest_calls {i : RequestInstruction} (h : execRequest s i remaining = .ok s') :
    Calls (Authority i.signers i.vaultSigns s.key) s.token s'.token := by
  cases i <;> simp only [execRequest] at h
  case createDepositRequest ctx args =>
    obtain ⟨_, _, _, _, _, _, hacc, ⟨htoken, -, -, -, rfl⟩⟩ := createDepositRequest_iff.1 h
    exact .transferChecked (authority_signer (List.mem_singleton.2 rfl) hacc.signer) htoken
  case createRedeemRequest ctx args =>
    obtain ⟨_, _, _, _, _, hacc, ⟨htoken, -, -, rfl⟩⟩ := createRedeemRequest_iff.1 h
    exact .burn (authority_signer (List.mem_singleton.2 rfl) hacc.signer) htoken
  -- what the vault pays, it signs for itself
  case approveRequest ctx args => exact calls_ofVault (approveRequest_calls h)
  case rejectRequest authority user ctx args =>
    obtain ⟨_, _, _, _, h⟩ := rejectRequest_iff.1 h
    obtain rfl := h.state
    -- the queue moves no token
    have hqueue := advanceQueue_ok h.queue
    have hcalls := refund_calls h.refunded
    rw [hqueue.key, hqueue.adjusted.token] at hcalls
    exact calls_ofVault hcalls
  case cancelRequest user ctx =>
    obtain ⟨_, _, _, h⟩ := cancelRequest_iff.1 h
    obtain rfl := h.state
    have hcalls := refund_calls h.refunded
    exact calls_ofVault hcalls
  case cancelQueuedDepositRequest ctx =>
    obtain ⟨_, _, _, h⟩ := cancelQueuedDepositRequest_iff.1 h
    obtain rfl := h.state
    have hcalls := refund_calls h.refunded
    exact calls_ofVault hcalls
  case cancelQueuedRedemptionRequest ctx =>
    obtain ⟨-, _, _, _, h⟩ := cancelQueuedRedemptionRequest_iff.1 h
    obtain rfl := h.state
    have hcalls := refund_calls h.refunded
    exact calls_ofVault hcalls
  case skipCanceledQueueRequest k owner =>
    obtain ⟨_, _, _, h⟩ := skipCanceledQueueRequest_iff.1 h
    obtain rfl := h.state
    exact .of_eq (advanceQueue_ok h.queue).adjusted.token
  case claim ctx =>
    obtain ⟨_, p, token, -, hpay, rfl⟩ := claim_iff.1 h
    cases p with
    | mint => exact .mintTo authority_vault hpay
    | transfer => exact .transferChecked authority_vault hpay
  case setOperator user operator k =>
    obtain ⟨-, -, r, -, -, rfl⟩ := setOperator_iff.1 h
    exact .refl _ _

/-! ### Instant settlement -/

/-- The user pays, and the vault mints the shares. -/
theorem instantDeposit_calls {ctx : InstantDeposit} {amount : ℕ}
    (h : instantDeposit s ctx amount remaining = .ok s') :
    Calls (Authority [ctx.user] true s.key) s.token s'.token := by
  obtain ⟨_, _, _, _, _, _, _, token₁, token₂, token, hi⟩ := instantDeposit_iff.1 h
  have huser : Authority [ctx.user] true s.key ctx.user :=
    authority_signer (List.mem_singleton.2 rfl) hi.accepted.signer
  have hpaid := (payInstantFee_calls huser hi.feePaid).trans (.transferChecked huser hi.paid)
  obtain rfl := hi.state
  exact hpaid.trans (.mintTo authority_vault hi.minted)

/-- The user's shares are burned, and the vault pays. -/
theorem instantRedeem_calls {ctx : InstantRedeem} {shares : ℕ}
    (h : instantRedeem s ctx shares remaining = .ok s') :
    Calls (Authority [ctx.user] true s.key) s.token s'.token := by
  obtain ⟨_, _, _, _, _, _, _, _, token₁, token₂, token, hi⟩ := instantRedeem_iff.1 h
  have huser : Authority [ctx.user] true s.key ctx.user :=
    authority_signer (List.mem_singleton.2 rfl) hi.accepted.signer
  have hburned : Calls (Authority [ctx.user] true s.key) s.token token₁ := .burn huser hi.burned
  obtain rfl := hi.state
  exact (hburned.trans (payInstantFee_calls authority_vault hi.feePaid)).trans
    (.transferChecked authority_vault hi.paid)

/-! ### NAV updates -/

theorem mintToInfo_calls {info : AccountInfo} {auth : Pubkey → Prop} (ha : auth a)
    (h : mintToInfo token program m info a n = .ok token') : Calls auth token token' := by
  simp only [mintToInfo, bind_eq_ok, cpi_eq_ok] at h
  obtain ⟨-, -, h⟩ := h
  exact .mintTo ha h

theorem mintPerformanceFee_calls {accounts : PerformanceFeeAccounts}
    (h : mintPerformanceFee s program accounts n = .ok token) :
    Calls (· = s.key) s.token token := by
  simp only [mintPerformanceFee, bind_eq_ok] at h
  obtain ⟨parts, -, -, -, token₁, h₁, h₂⟩ := h
  have hfirst : Calls (· = s.key) s.token token₁ := by
    split at h₁
    · exact mintToInfo_calls rfl h₁
    · exact .of_eq (pure_eq_ok.1 h₁).symm
  refine hfirst.trans ?_
  split at h₂
  · simp only [bind_eq_ok] at h₂
    obtain ⟨account, -, h₂⟩ := h₂
    exact mintToInfo_calls rfl h₂
  · exact .of_eq (pure_eq_ok.1 h₂).symm

theorem maybeCrystallizePerformanceFee_calls {u : ℕ} {rest : List AccountInfo}
    (h : maybeCrystallizePerformanceFee s u remaining = .ok (s', rest)) :
    Calls (· = s.key) s.token s'.token := by
  cases maybeCrystallizePerformanceFee_cases h with
  | below => exact .refl _ _
  | heldBack => exact .refl _ _
  | untaxed => exact .refl _ _
  | taxed _ _ _ hpaid =>
    obtain ⟨-, rfl⟩ | ⟨-, htoken⟩ := hpaid.issued
    · exact .refl _ _
    · exact mintPerformanceFee_calls htoken

/-- A NAV update mints fee shares at most. -/
theorem updateVaultNav_calls {authority : Pubkey} {u : ℕ}
    (h : updateVaultNav s authority u remaining = .ok s') : Calls (· = s.key) s.token s'.token := by
  obtain ⟨s₁, rest, s₂, h⟩ := updateVaultNav_iff.1 h
  have h₁ := h.charged
  have h₂ := h.divided
  obtain rfl := h.state
  have hcalls := maybeCrystallizePerformanceFee_calls h₁
  obtain ⟨tc, rfl, -⟩ := maybeApplyTrancheWaterfall_ok h₂
  exact hcalls

/-! ### Configuration -/

/-- A split takes the authority over the other share mint on its holder's signature. -/
theorem initializeTranches_calls {ctx : InitializeTranches} {args : InitializeTranchesArgs}
    (h : initializeTranches s ctx args = .ok s') :
    Calls (Authority [ctx.mintAuthority, ctx.authority] false s.key) s.token s'.token := by
  obtain ⟨token, hd⟩ := initializeTranches_divides h
  obtain ⟨program, m, hhanded⟩ := hd.handed
  have hauth : Authority [ctx.mintAuthority, ctx.authority] false s.key ctx.mintAuthority :=
    authority_signer List.mem_cons_self hd.signer
  obtain rfl := hd.state
  exact .setMintAuthority hauth hhanded

theorem execConfig_calls {i : ConfigInstruction} (h : execConfig s i = .ok s') :
    Calls (Authority i.signers (Action.config i).vaultSigns s.key) s.token s'.token := by
  by_cases hi : i.IsSetting
  · exact .of_eq (execConfig_reconfigured hi h).token
  · cases i <;> try exact absurd trivial hi
    case initializeTranches => exact initializeTranches_calls h
    case addVaultAsset ctx depositCap =>
      obtain ⟨token₁, token, hl⟩ := addVaultAsset_listed h
      rw [hl.state]
      exact (Calls.initializeAccount hl.reserve).trans (.initializeAccount hl.pendingVault)
    case removeVaultAsset authority m =>
      obtain ⟨va, token₁, token, count, hremoved⟩ := removeVaultAsset_removed h
      rw [hremoved.state]
      exact (Calls.closeAccount authority_vault hremoved.reserve).trans
        (.closeAccount authority_vault hremoved.pendingVault)

/-! ### Every transaction -/

/-- A third party changes a setting. -/
def WorldAction.Sets : WorldAction → Prop
  | .applySetting .. => True
  | _ => False

instance (w : WorldAction) : Decidable w.Sets := by
  unfold WorldAction.Sets
  split <;> infer_instance

/-- Third parties act on their own signatures. -/
theorem execWorld_calls {w : WorldAction} (hw : ¬w.Sets) (h : execWorld s w = .ok s') :
    Calls (Authority w.signers false s.key) s.token s'.token := by
  simp only [execWorld, bind_eq_ok, pure_eq_ok] at h
  obtain ⟨token, htoken, clock, -, rfl⟩ := h
  show Calls _ s.token token
  cases w <;> simp only [worldToken, bind_eq_ok, VaultState.signer_eq_ok, cpi_eq_ok,
    pure_eq_ok] at htoken
  -- a third party signs for itself, as the owner or as the delegate
  case transfer =>
    obtain ⟨-, hne, htoken⟩ := htoken
    refine Relation.ReflTransGen.single (.transfer ?_ htoken)
    exact authority_signer (List.mem_singleton.2 rfl) hne
  case burn =>
    obtain ⟨-, hne, htoken⟩ := htoken
    exact .burn (authority_signer (List.mem_singleton.2 rfl) hne) htoken
  case mintTo =>
    obtain ⟨-, hne, htoken⟩ := htoken
    exact .mintTo (authority_signer (List.mem_singleton.2 rfl) hne) htoken
  case transferDelegated =>
    obtain ⟨-, hne, htoken⟩ := htoken
    refine Relation.ReflTransGen.single (.transferDelegated ?_ htoken)
    exact authority_signer (List.mem_singleton.2 rfl) hne
  case burnDelegated =>
    obtain ⟨-, hne, htoken⟩ := htoken
    refine Relation.ReflTransGen.single (.burnDelegated ?_ htoken)
    exact authority_signer (List.mem_singleton.2 rfl) hne
  -- the settings of the token program are left out by assumption
  case applySetting => exact absurd trivial hw
  case initializeMint => exact Relation.ReflTransGen.single (.initializeMint htoken)
  case setMintAuthority =>
    obtain ⟨-, hne, htoken⟩ := htoken
    exact .setMintAuthority (authority_signer (List.mem_singleton.2 rfl) hne) htoken
  case setTransferFee =>
    obtain ⟨-, -, htoken⟩ := htoken
    exact Relation.ReflTransGen.single (.setTransferFee htoken)
  case initializeAccount => exact .initializeAccount htoken
  case closeAccount =>
    obtain ⟨-, hne, htoken⟩ := htoken
    exact .closeAccount (authority_signer (List.mem_singleton.2 rfl) hne) htoken
  case advanceClock => exact .of_eq htoken.symm

/-- And so do those that change settings. -/
theorem execWorld_dealings {w : WorldAction} (h : execWorld s w = .ok s') :
    Dealings (Authority w.signers false s.key) s.token s'.token := by
  by_cases hw : w.Sets
  · cases w <;> try exact hw.elim
    case applySetting authority i =>
    simp only [execWorld, worldToken, bind_eq_ok, VaultState.signer_eq_ok, cpi_eq_ok,
      pure_eq_ok] at h
    obtain ⟨token, ⟨-, hne, htoken⟩, clock, -, rfl⟩ := h
    refine Relation.ReflTransGen.single (.applySetting ?_ htoken)
    exact authority_signer (List.mem_singleton.2 rfl) hne
  · exact (execWorld_calls hw h).dealings

/-- The setting a transaction of the core changes, if it is one. -/
def Action.Sets : Action → Prop
  | .world w => w.Sets
  | _ => False

theorem exec_calls {b : Action} (hb : ¬b.Sets) (h : exec s b = .ok s') :
    Calls (Authority b.signers b.vaultSigns s.key) s.token s'.token := by
  cases b with
  | request i remaining => exact execRequest_calls h
  | instantDeposit ctx amount remaining => exact instantDeposit_calls h
  | instantRedeem ctx shares remaining => exact instantRedeem_calls h
  | updateVaultNav authority u remaining => exact calls_ofVault (updateVaultNav_calls h)
  | config i => exact execConfig_calls h
  | world w => exact execWorld_calls hb h

theorem exec_dealings {b : Action} (h : exec s b = .ok s') :
    Dealings (Authority b.signers b.vaultSigns s.key) s.token s'.token := by
  cases b with
  | world w => exact execWorld_dealings h
  | _ => exact (exec_calls id h).dealings

theorem accountMovement_token {ctx : VenuePosition} {p : Position} {unavailable : AsyncVaultError}
    {available : VaultAsset → ℕ} {move : PositionLedger → Result PositionLedger}
    {ledger : Option PositionLedger}
    (h : accountMovement t ctx p n unavailable available move = .ok (s, ledger)) :
    s.key = t.core.key ∧ s.token = t.core.token := by
  obtain ⟨start, used, h, -⟩ | ⟨m, va, start, used, l, h, -⟩ := accountMovement_iff.1 h
  · obtain rfl := h.state
    exact ⟨rfl, rfl⟩
  · obtain rfl := h.state
    exact ⟨rfl, rfl⟩

theorem execVenue_calls {i : VenueInstruction} (h : execVenue t i = .ok t') :
    Calls (Authority i.signers i.vaultSigns t.core.key) t.core.token t'.core.token := by
  cases i <;> simp only [execVenue] at h
  case registerVenue =>
    obtain ⟨-, -, -, rfl⟩ := registerVenue_iff.1 h
    exact .refl _ _
  case setVenueEntryPaused =>
    obtain ⟨-, e, -, -, rfl⟩ := setVenueEntryPaused_iff.1 h
    exact .refl _ _
  case approveVaultVenue =>
    obtain ⟨e, h⟩ := approveVaultVenue_iff.1 h
    obtain rfl := h.state
    exact .refl _ _
  case removeVaultVenue =>
    obtain ⟨v, h⟩ := removeVaultVenue_iff.1 h
    obtain rfl := h.state
    exact .refl _ _
  -- opening, moving and closing positions is signed by the vault
  case createVenuePosition ctx =>
    obtain ⟨e, v, token, h⟩ := createVenuePosition_iff.1 h
    obtain rfl := h.state
    exact .initializeAccount h.opened
  case deployVenuePosition ctx n =>
    obtain ⟨p, core, ledger, token, recorded, h⟩ := deployVenuePosition_iff.1 h
    obtain ⟨hkey, htok⟩ := accountMovement_token h.charged
    have hmoved := h.moved
    rw [hkey, htok] at hmoved
    obtain rfl := h.state
    exact .transferChecked authority_vault hmoved
  case pullVenuePosition ctx n =>
    obtain ⟨p, core, ledger, token, recorded, h⟩ := pullVenuePosition_iff.1 h
    obtain ⟨hkey, htok⟩ := accountMovement_token h.charged
    have hmoved := h.moved
    rw [hkey, htok] at hmoved
    obtain rfl := h.state
    exact .transferChecked authority_vault hmoved
  case removeVenuePosition ctx =>
    obtain ⟨p, asset, v, token, h⟩ := removeVenuePosition_iff.1 h
    obtain rfl := h.state
    exact .closeAccount authority_vault h.closed
  case withdrawAssets ctx n =>
    obtain ⟨asset, e, v, w, token, h⟩ := withdrawAssets_iff.1 h
    obtain rfl := h.state
    exact .transferChecked authority_vault h.paid

/-- The runtime bounds a managed call: the called program reaches the token programs with the
signatures that are passed to it. -/
def ManagedAction.Bounded (key : Pubkey) : ManagedAction → Prop
  | .manageVault _ _ accounts effect => ∀ token token', effect token = .ok token' →
      Dealings (Signs (policyAccounts key accounts)) token token'
  | _ => True

/-- The signatures passed on are those of the transaction, and the vault's if it is passed. -/
theorem authority_of_signs {ctx : ManageVault} {args : ManageVaultArgs}
    {accounts : List PolicyAccountMeta} {effect : Ledger Pubkey → Result (Ledger Pubkey)}
    (h : Signs (policyAccounts s.key accounts) k) :
    Authority (ManagedAction.manageVault ctx args accounts effect).signers
      ((ManagedAction.manageVault ctx args accounts effect).vaultSigns s.key) s.key k := by
  obtain ⟨x, hx, rfl, hsigner⟩ := h
  obtain ⟨y, hy, rfl⟩ := List.mem_map.1 hx
  by_cases hkey : y.key = s.key
  · refine .inr ⟨?_, hkey⟩
    exact List.any_eq_true.2 ⟨y, hy, by simpa using hkey⟩
  · refine .inl ⟨List.mem_cons_of_mem _ (List.mem_map.2 ⟨y, List.mem_filter.2 ⟨hy, ?_⟩, rfl⟩), hkey⟩
    simpa [hkey] using hsigner

/-- **Every transaction moves tokens on its own signatures and, where the program signs for the
vault, the vault's.** -/
theorem execManaged_dealings {b : ManagedAction} (hb : b.Bounded t.core.key)
    (h : execManaged verify t b = .ok t') :
    Dealings (Authority b.signers (b.vaultSigns t.core.key) t.core.key) t.core.token
      t'.core.token := by
  cases b with
  | core b =>
    simp only [execManaged, bind_eq_ok, pure_eq_ok] at h
    obtain ⟨c, hc, rfl⟩ := h
    exact exec_dealings hc
  | venue i => exact (execVenue_calls h).dealings
  | policy i => exact (Calls.of_eq (congrArg VaultState.token (execPolicy_core h))).dealings
  | manageVault ctx args accounts effect =>
    obtain ⟨share, policy, v, token, -, heffect, -, rfl⟩ := manageVault_ok h
    exact (hb _ _ heffect).mono fun k hk => authority_of_signs hk

/-! ### Runs -/

theorem VaultState.change_key (s : VaultState) (c : Change) : (s.change c).key = s.key := by
  cases c <;> rfl

/-- The address of a vault is fixed. -/
theorem Configured.key {i : ConfigInstruction} (h : Configured s i s') : s'.key = s.key := by
  cases h with
  | changed => exact s.change_key _
  | executed => exact s.change_key _
  | _ => rfl

theorem exec_key {b : Action} (h : exec s b = .ok s') : s'.key = s.key := by
  cases b with
  | request i remaining =>
    obtain ⟨d, hd, -⟩ := execRequest_worked h
    exact hd.key
  | instantDeposit ctx amount remaining =>
    obtain ⟨net, -, -, hd⟩ := instantDeposit_worked h
    exact hd.key
  | instantRedeem ctx shares remaining =>
    obtain ⟨gross, hd⟩ := instantRedeem_worked h
    exact hd.key
  | updateVaultNav authority u remaining =>
    obtain ⟨_, _, _, _, _, rfl, -⟩ := updateVaultNav_posted h
    rfl
  | config i => exact (execConfig_configured h).key
  | world w =>
    obtain ⟨_, _, rfl, -⟩ := execWorld_outside h
    rfl

theorem execManaged_key {b : ManagedAction} (h : execManaged verify t b = .ok t') :
    t'.core.key = t.core.key := by
  rcases execManaged_core h with ⟨c, -, hc, -⟩ | ⟨-, hidle⟩
  · exact exec_key hc
  · exact hidle.key

variable {t₀ : ManagedState} {tr : List (Transition ManagedState ManagedAction)}

theorem ManagedRun.key (hrun : ManagedRun verify t₀ tr t) : t.core.key = t₀.core.key :=
  hrun.invariant (I := fun t => t.core.key = t₀.core.key)
    (fun _ _ _ hk he => (execManaged_key he).trans hk) rfl

/-- A key that no transaction of a run acts for is left alone. -/
theorem ManagedRun.outside (hrun : ManagedRun verify t₀ tr t)
    (hb : ∀ x ∈ tr, x.act.Bounded t₀.core.key) {o : Pubkey}
    (ho : ∀ x ∈ tr, ¬Authority x.act.signers (x.act.vaultSigns t₀.core.key) t₀.core.key o) :
    Outside o t₀.core.token t.core.token := by
  induction hrun with
  | nil => exact Outside.refl o _
  | @snoc tr t t' a hr he ih =>
    have hlast : (⟨t, a, t'⟩ : Transition ManagedState ManagedAction) ∈ tr ++ [⟨t, a, t'⟩] := by
      simp
    have hbounded := hb _ hlast
    have hunsigned := ho _ hlast
    rw [← ManagedRun.key hr] at hbounded hunsigned
    have hstep := (execManaged_dealings hbounded he).outside hunsigned
    exact (ih (fun x hx => hb x (List.mem_append_left _ hx))
      fun x hx => ho x (List.mem_append_left _ hx)).trans hstep

/-- An account neither whose owner nor whose delegate acts in a run is left alone. -/
theorem ManagedRun.spared (hrun : ManagedRun verify t₀ tr t)
    (hb : ∀ y ∈ tr, y.act.Bounded t₀.core.key) {x : TokenAccount Pubkey}
    (hx : t₀.core.token.accounts a = some x)
    (hsafe : ∀ k, x.Debitor k →
      ∀ y ∈ tr, ¬Authority y.act.signers (y.act.vaultSigns t₀.core.key) t₀.core.key k) :
    ∃ x', t.core.token.accounts a = some x' ∧ x.Spared x' := by
  induction hrun with
  | nil => exact ⟨x, hx, .refl x⟩
  | @snoc tr t t' b hr he ih =>
    have hlast : (⟨t, b, t'⟩ : Transition ManagedState ManagedAction) ∈ tr ++ [⟨t, b, t'⟩] := by
      simp
    have hbounded := hb _ hlast
    obtain ⟨z, hz, hspared⟩ := ih (fun y hy => hb y (List.mem_append_left _ hy))
      fun k hk y hy => hsafe k hk y (List.mem_append_left _ hy)
    rw [← ManagedRun.key hr] at hbounded
    -- the account has the debitors it started with
    obtain ⟨x', hx', hspared'⟩ := (execManaged_dealings hbounded he).spared hz fun k hk => by
      rw [ManagedRun.key hr]
      exact hsafe k ((hspared.debitor k).1 hk) _ hlast
    exact ⟨x', hx', hspared.trans hspared'⟩

/-- **Nothing is taken without its owner or the owner's delegate.**  A key acts in a transaction
that it signs, and the vault in those in which the program signs for it.  In any run, from any
state, an account neither whose owner nor whose delegate acts stays open to them and loses nothing,
and nothing is minted that only a key that does not act may mint. -/
theorem only_signers_pay (hrun : ManagedRun verify t₀ tr t)
    (hb : ∀ y ∈ tr, y.act.Bounded t₀.core.key) :
    (∀ a x, t₀.core.token.accounts a = some x →
      (∀ k, x.Debitor k →
        ∀ y ∈ tr, ¬Authority y.act.signers (y.act.vaultSigns t₀.core.key) t₀.core.key k) →
      ∃ x', t.core.token.accounts a = some x' ∧ x.Spared x') ∧
    ∀ o, (∀ y ∈ tr, ¬Authority y.act.signers (y.act.vaultSigns t₀.core.key) t₀.core.key o) →
      Outside o t₀.core.token t.core.token :=
  ⟨fun _ _ hx hsafe => ManagedRun.spared hrun hb hx hsafe,
    fun _ ho => ManagedRun.outside hrun hb ho⟩

namespace Scenario

/-- A deposit waits for its approval, and its owner lets somebody spend what is left. -/
def waiting : List ManagedAction :=
  [anyNav, start, post 10, deposit 100 senior 100,
    .world (.applySetting user (.approve userAsset (address 70) 5))].map .core

/-- The curator approves it, and prices the shares again. -/
def curatorWorks : List ManagedAction :=
  [approve 100 senior .deposit 100 1, post 20].map .core

end Scenario

open Scenario in
/-- **Non-vacuity.** While a curator works nothing is taken out of the user's account. -/
theorem only_signers_pay_of_curator :
    ∃ t₀ tr t x x', ManagedRun noCalls t₀ tr t ∧ tr.map Transition.act = curatorWorks ∧
      t₀.core.token.accounts userAsset = some x ∧ x.Debitor user ∧ x.Debitor (address 70) ∧
      t.core.token.accounts userAsset = some x' ∧ x.Spared x' := by
  obtain ⟨t₀, tr, t, -, hrun, hacts, hp⟩ := exists_managed_run_from waiting curatorWorks
    (fun t₀ _ _ => decide (t₀.core.key = vault) &&
      decide ((t₀.core.token.accounts userAsset).map (fun x => (x.owner, x.delegate))
        = some (user, some (address 70, 5)))) (by decide +kernel)
  obtain ⟨hkey, haccount⟩ := Bool.and_eq_true_iff.1 hp
  obtain ⟨x, hx, hparties⟩ := Option.map_eq_some_iff.1 (of_decide_eq_true haccount)
  obtain ⟨howner, hdelegate⟩ := Prod.mk.inj hparties
  have hmem : ∀ y ∈ tr, y.act ∈ curatorWorks := by
    rintro y hy
    rw [← hacts]
    exact List.mem_map_of_mem hy
  have hbounded : ∀ y ∈ tr, y.act.Bounded t₀.core.key := by
    intro y hy
    obtain ⟨b, -, hb⟩ := List.mem_map.1 (hmem y hy)
    rw [← hb]
    trivial
  have hsafe : ∀ k, x.Debitor k →
      ∀ y ∈ tr, ¬Authority y.act.signers (y.act.vaultSigns t₀.core.key) t₀.core.key k := by
    intro k hk y hy
    -- the user and the delegate are no curators, nor is either the vault
    obtain rfl | rfl : k = user ∨ k = address 70 := by
      rcases hk with hk | ⟨n, hk⟩
      · exact .inl (hk.symm.trans howner)
      · rw [hdelegate] at hk
        exact .inr (congrArg Prod.fst (Option.some.inj hk)).symm
    all_goals
      rw [of_decide_eq_true hkey]
      have hact := hmem y hy
      simp only [curatorWorks, List.map_cons, List.map_nil, List.mem_cons, List.not_mem_nil,
        or_false] at hact
      rcases hact with hact | hact <;> rw [hact, Authority] <;> decide
  obtain ⟨x', hx', hspared⟩ := (only_signers_pay hrun hbounded).1 _ x hx hsafe
  exact ⟨t₀, tr, t, x, x', hrun, hacts, hx, .inl howner, .inr ⟨5, hdelegate⟩, hx', hspared⟩

end AsyncVault
