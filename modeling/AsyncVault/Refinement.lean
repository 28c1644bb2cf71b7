/-
AsyncVault/Refinement.lean

The program refines the order book.

Every action has a name in the vocabulary of the order book (`Action.event`), and
every accepted action is a step of the book of that name (`exec_refines`).  So
what `OrderBookLaws` proves of steps holds along every run of the program, and
what it proves of an empty book's future holds in every state a vault can reach
(`Ledgered`).
-/
import AsyncVault.ConfigEffects

namespace AsyncVault

open Checked TokenLedger KeyedStore OrderBook Function Machine

variable {s s' s₀ : VaultState} {tr : List (Transition VaultState Action)} {a : Action}

/-! ### Names of actions -/

/-- The request account an instruction is about. -/
def RequestInstruction.request : RequestInstruction → Pubkey
  | .createDepositRequest ctx _ => ctx.request
  | .createRedeemRequest ctx _ => ctx.request
  | .approveRequest ctx _ => ctx.request
  | .rejectRequest _ _ ctx _ => ctx.request
  | .cancelRequest _ ctx => ctx.request
  | .cancelQueuedDepositRequest ctx => ctx.request
  | .cancelQueuedRedemptionRequest ctx => ctx.request
  | .skipCanceledQueueRequest request _ => request
  | .claim ctx => ctx.request
  | .setOperator _ _ request => request

def RequestInstruction.event (i : RequestInstruction) : Event Pubkey :=
  match i with
  | .createDepositRequest .. | .createRedeemRequest .. => .opened i.request
  | .approveRequest .. => .approved i.request
  | .rejectRequest .. | .cancelRequest .. => .refunded i.request
  | .cancelQueuedDepositRequest .. | .cancelQueuedRedemptionRequest .. => .canceled i.request
  | .skipCanceledQueueRequest .. => .skipped i.request
  | .claim .. => .claimed i.request
  | .setOperator .. => .touched i.request

def WorldAction.event : WorldAction → Event Pubkey
  | .burn _ _ _ mint _ | .burnDelegated _ _ _ mint _ => .burned mint
  | _ => .outside

/-- What an action is called in the order book. -/
def Action.event : Action → Event Pubkey
  | .request i _ => i.event
  | .instantDeposit .. => .instantDeposit
  | .instantRedeem .. => .instantRedeem
  | .updateVaultNav .. => .posted
  | .config _ => .configured
  | .world w => w.event

/-! ### Request instructions -/

/-- **Specification of the request instructions.** -/
theorem execRequest_ok (hm : s.Minting) {i : RequestInstruction} {remaining : List AccountInfo}
    (h : execRequest s i remaining = .ok s') :
    RequestEffect s s' i.request i.event ∧ Tracked s i.event s' := by
  cases i with
  | createDepositRequest ctx args => exact createDepositRequest_ok hm h
  | createRedeemRequest ctx args => exact createRedeemRequest_ok hm h
  | approveRequest ctx args => exact approveRequest_ok hm h
  | rejectRequest authority user ctx args => exact rejectRequest_ok hm h
  | cancelRequest user ctx => exact cancelRequest_ok hm h
  | cancelQueuedDepositRequest ctx => exact cancelQueuedDepositRequest_ok hm h
  | cancelQueuedRedemptionRequest ctx => exact cancelQueuedRedemptionRequest_ok hm h
  | skipCanceledQueueRequest request owner => exact skipCanceledQueueRequest_ok hm h
  | claim ctx => exact claim_ok hm h
  | setOperator user operator request => exact setOperator_ok hm h

/-! ### Third parties -/

/-- The state with other tokens at another time. -/
def VaultState.outside (s : VaultState) (token : Ledger Pubkey) (clock : Clock) : VaultState :=
  { s with token := token, clock := clock }

theorem execWorld_ok {w : WorldAction} (h : execWorld s w = .ok s') :
    ∃ token clock, worldToken s w = .ok token ∧ s' = s.outside token clock := by
  simp only [execWorld, bind_eq_ok, pure_eq_ok] at h
  obtain ⟨token, htoken, clock, -, rfl⟩ := h
  exact ⟨token, clock, htoken, rfl⟩

/-- Third parties leave the vault in control, take nothing from its accounts and
create none of its shares. -/
theorem worldToken_outside {w : WorldAction} {token : Ledger Pubkey}
    (h : worldToken s w = .ok token) : Outside s.key s.token token := by
  cases w <;> simp only [worldToken, bind_eq_ok, VaultState.signer_eq_ok, cpi_eq_ok,
    pure_eq_ok] at h
  -- whoever signs is not the vault, or was approved by somebody else
  case transfer =>
    obtain ⟨-, hkey, h⟩ := h
    exact ((transfer_ok h).outside hkey).1
  case burn =>
    obtain ⟨-, hkey, h⟩ := h
    exact (burn_ok h).outside hkey
  case transferDelegated =>
    obtain ⟨-, -, h⟩ := h
    exact (transferDelegated_ok h).outside s.key
  case burnDelegated =>
    obtain ⟨-, -, h⟩ := h
    exact (burnDelegated_ok h).outside s.key
  case applySetting =>
    obtain ⟨-, hkey, h⟩ := h
    exact ((applySetting_ok h).untouched hkey).outside
  case mintTo =>
    obtain ⟨-, hkey, h⟩ := h
    exact ((mintTo_ok h).outside hkey).1
  case initializeMint => exact (initializeMint_untouched h _).outside
  case setMintAuthority =>
    obtain ⟨-, hkey, h⟩ := h
    exact (setMintAuthority_untouched h hkey).outside
  case setTransferFee =>
    obtain ⟨-, -, h⟩ := h
    exact (setTransferFee_untouched h _).outside
  case initializeAccount => exact (initializeAccount_untouched h _).outside
  case closeAccount =>
    obtain ⟨-, hkey, h⟩ := h
    exact (closeAccount_untouched h hkey).outside
  case advanceClock =>
    subst h
    exact ⟨.refl _ _, fun _ _ _ => le_rfl, fun _ _ => le_rfl⟩

/-- Third parties change the supply of the vault's shares by burning only. -/
theorem worldToken_supply {w : WorldAction} {token : Ledger Pubkey}
    (h : worldToken s w = .ok token) (hw : w.event = .outside) {m : Pubkey}
    (hm : s.token.Mintable m s.key) : token.supply m = s.token.supply m := by
  cases w <;> simp only [worldToken, bind_eq_ok, VaultState.signer_eq_ok, cpi_eq_ok,
    pure_eq_ok] at h
  case transfer =>
    obtain ⟨-, hkey, h⟩ := h
    exact ((transfer_ok h).outside hkey).2 m
  -- burning has an event of its own
  case burn => cases hw
  case transferDelegated =>
    obtain ⟨-, -, h⟩ := h
    rw [Ledger.supply, (transferDelegated_ok h).mints, Ledger.supply]
  case burnDelegated => cases hw
  case applySetting =>
    obtain ⟨-, -, h⟩ := h
    exact (applySetting_ok h).supply m
  case mintTo =>
    obtain ⟨-, hkey, h⟩ := h
    exact ((mintTo_ok h).outside hkey).2 m hm
  case initializeMint => exact (initializeMint_untouched h _).supply m hm
  case setMintAuthority =>
    obtain ⟨-, hkey, h⟩ := h
    exact (setMintAuthority_untouched h hkey).supply m hm
  case setTransferFee =>
    obtain ⟨-, -, h⟩ := h
    exact (setTransferFee_untouched h _).supply m hm
  case initializeAccount => exact (initializeAccount_untouched h _).supply m hm
  case closeAccount =>
    obtain ⟨-, hkey, h⟩ := h
    exact (closeAccount_untouched h hkey).supply m hm
  case advanceClock =>
    subst h
    rfl

theorem bookAt_outside {token : Ledger Pubkey} {clock : Clock} (hm : s.Minting)
    (hg : Guarded s.key s.token token) (esc : Pubkey → ℕ) :
    (s.outside token clock).bookAt esc = { s.book with
      escrow := esc
      supply := (s.outside token clock).book.supply } :=
  Book.ext rfl rfl rfl rfl rfl rfl rfl
    (VaultState.unit_eq hm (rfl : (s.outside token clock).terms = s.terms) hg) rfl rfl rfl rfl

/-- Burned tokens are shares of the vault, or none of its shares are burned. -/
theorem burned_step {token : Ledger Pubkey} {clock : Clock} {mint : Pubkey} {n : ℕ}
    {esc esc' : Pubkey → ℕ} (hm : s.Minting) (hg : Guarded s.key s.token token)
    (hself : token.supply mint + n = s.token.supply mint)
    (hother : ∀ m, m ≠ mint → token.supply m = s.token.supply m) (hesc : esc ≤ esc') :
    Step (s.bookAt esc) (.burned mint) ((s.outside token clock).bookAt esc') := by
  have hterms : (s.outside token clock).terms = s.terms := rfl
  rw [bookAt_outside hm hg]
  by_cases hmem : mint ∈ s.terms.shareMints
  · obtain ⟨hsup, hlive⟩ := VaultState.supply_sub hterms hmem hself hother
    rw [hsup]
    exact Step.burn (B := s.bookAt esc) hlive hesc
  · rw [VaultState.supply_eq hterms fun m hm' => hother m ?_]
    · have hnone := Step.burn (B := s.bookAt esc) (m := mint) (n := 0) (Nat.zero_le _) hesc
      rwa [Nat.sub_zero, update_eq_self] at hnone
    · rintro rfl
      exact hmem hm'

/-- **Specification of third-party actions.** -/
theorem world_tracked (hm : s.Minting) {w : WorldAction} (h : execWorld s w = .ok s') :
    s'.requests = s.requests ∧ Tracked s w.event s' := by
  obtain ⟨token, clock, htoken, rfl⟩ := execWorld_ok h
  have hout := worldToken_outside htoken
  have hterms : (s.outside token clock).terms = s.terms := rfl
  refine ⟨rfl, .of_kept (hm.of_terms rfl hout.toGuarded (fun _ _ hk => hk) id) rfl hout.toGuarded
    (fun esc esc' hesc => ?_) fun hv => VaultState.escrow_mono rfl fun m a ha =>
      hout.balance a m (hv.alone_pendingVaultOf ha)⟩
  cases w with
  | burn authority program src mint amount =>
    simp only [worldToken, bind_eq_ok, cpi_eq_ok] at htoken
    obtain ⟨-, -, htoken⟩ := htoken
    have hburned := burn_ok htoken
    exact burned_step hm hout.toGuarded hburned.supply hburned.supply_of_ne hesc
  | burnDelegated delegate program src mint amount =>
    simp only [worldToken, bind_eq_ok, cpi_eq_ok] at htoken
    obtain ⟨-, -, htoken⟩ := htoken
    have hburned := burnDelegated_ok htoken
    exact burned_step hm hout.toGuarded hburned.supply hburned.supply_of_ne hesc
  | _ =>
    rw [bookAt_outside hm hout.toGuarded,
      VaultState.supply_eq hterms fun m hm' => worldToken_supply htoken rfl (hm.mintable m hm')]
    exact Step.idle (B := s.bookAt esc) (.inr rfl) hesc

/-! ### Every action -/

/-- **Refinement.** An accepted action leaves the vault its shares and takes the order book one
step of the action's name. -/
theorem exec_tracked (hm : s.Minting) (h : exec s a = .ok s') : Tracked s a.event s' := by
  cases a with
  | request i remaining => exact (execRequest_ok hm h).2
  | instantDeposit ctx amount remaining => exact (instantDeposit_ok hm h).2
  | instantRedeem ctx shares remaining => exact (instantRedeem_ok hm h).2
  | updateVaultNav authority updatedNav remaining => exact (updateVaultNav_ok hm h).2
  | config i => exact (execConfig_ok hm h).2
  | world w => exact (world_tracked hm h).2

/-- In a well-formed state the step is one of the vault's own balances. -/
theorem exec_refines (hw : s.WellFormed) (h : exec s a = .ok s') : Refines s a.event s' :=
  (exec_tracked hw.minting h).refines hw

/-- An action that is no request instruction leaves the requests alone. -/
theorem exec_requests (hm : s.Minting) (h : exec s a = .ok s')
    (ha : ∀ i remaining, a ≠ .request i remaining) : s'.requests = s.requests := by
  cases a with
  | request i remaining => exact absurd rfl (ha i remaining)
  | instantDeposit ctx amount remaining => exact (instantDeposit_ok hm h).1
  | instantRedeem ctx shares remaining => exact (instantRedeem_ok hm h).1
  | updateVaultNav authority updatedNav remaining => exact (updateVaultNav_ok hm h).1
  | config i => exact (execConfig_ok hm h).1
  | world w => exact (world_tracked hm h).1

/-! ### A new vault -/

/-- The token accounts and the share mint of a new vault. -/
theorem createVault_token {w : World} {ctx : CreateVault} {args : AsyncVaultArgs}
    (h : createVault w ctx args = .ok s) :
    s.token.Mintable ctx.shareMint ctx.vault ∧ s.token.supply ctx.shareMint = 0 ∧
      s.token.HoldsAlone ctx.reserve ctx.assetMint ctx.vault ∧
      s.token.HoldsAlone ctx.pendingVault ctx.assetMint ctx.vault ∧
        ctx.reserve ≠ ctx.pendingVault := by
  obtain ⟨share, token₁, token₂, token, hacc, rfl⟩ := createVault_iff.1 h
  have hover := setMintAuthority_handedOver hacc.authority hacc.signer
  have hu₂ := initializeAccount_untouched hacc.pendingVault ctx.vault
  obtain ⟨-, ht₁⟩ := initializeAccount_ok hacc.reserve
  obtain ⟨⟨hfree, -⟩, ht₂⟩ := initializeAccount_ok hacc.pendingVault
  have hreserve := initializeAccount_alone hacc.reserve
  have hpending := initializeAccount_alone hacc.pendingVault
  refine ⟨hover.mintable_self, ?_, hover.alone _ _ (hu₂.alone _ _ hreserve),
    hover.alone _ _ hpending, fun he => ?_⟩
  · show token.supply ctx.shareMint = 0
    rw [hover.supply_eq, ht₂, ht₁]
    exact (supply_of_some hacc.shareMint).trans hacc.unissued
  · obtain ⟨x, hx, -⟩ := hreserve
    rw [he, hfree] at hx
    cases hx

/-- What `create_vault` writes apart from the tokens. -/
theorem createVault_state {w : World} {ctx : CreateVault} {args : AsyncVaultArgs}
    (h : createVault w ctx args = .ok s) :
    s.key = ctx.vault ∧ s.vault = initialVault ctx args ∧ s.trancheConfig = none ∧
      s.vaultAssets = (fun _ => none) ∧ s.requests = ∅ := by
  obtain ⟨_, _, _, token, -, rfl⟩ := createVault_iff.1 h
  exact ⟨rfl, rfl, rfl, rfl, rfl⟩

/-- **A new vault** is well formed and its book unused. -/
theorem Created.wellFormed (h : Created s) : s.WellFormed ∧ s.book.Unused := by
  obtain ⟨w, ctx, args, h⟩ := h
  obtain ⟨hmint, hzero, hreserve, hpending, hne⟩ := createVault_token h
  obtain ⟨hkey, hvault, htc, hassets, hreq⟩ := createVault_state h
  have hterms : s.terms.shareMints = [ctx.shareMint] := by
    simp [Terms.shareMints, VaultState.terms, htc, hvault, initialVault]
  -- the share mint was handed over and the accounts were opened by the same call
  refine ⟨⟨⟨?_, ?_, ?_, ?_, ?_, ?_, ?_⟩, ?_, fun _ => hreq⟩, ?_⟩
  · rw [hterms]
    rintro m hm
    rw [List.mem_singleton.1 hm]
    show s.token.Mintable ctx.shareMint s.key
    rwa [hkey]
  · intro _
    simp [VaultState.terms, hvault, initialVault]
  · intro tt htt
    simp [VaultState.terms, htc] at htt
  · simpa [VaultState.terms, hvault, initialVault, hkey] using hreserve
  · simpa [VaultState.terms, hvault, initialVault, hkey] using hpending
  · simpa [VaultState.terms, hvault, initialVault] using hne
  · intro m a ha
    simp [VaultState.terms, hassets] at ha
  · rw [hreq]
    rintro k r ⟨⟩
  · refine ⟨by simp [VaultState.book, hreq], by simp [VaultState.book, hvault, initialVault], ?_,
      ?_, by simp [VaultState.book, htc]⟩
    · funext m
      simp [VaultState.book, VaultState.reserved, hvault, initialVault, hassets]
    · funext m
      simp only [VaultState.book, hterms, List.mem_singleton]
      split
      · next hm => rw [hm, hzero]
      · rfl

/-! ### Reachable states -/

/-- What holds of every state a vault can reach. -/
structure Ledgered (s : VaultState) : Prop where
  wellFormed : s.WellFormed
  escrowedAt : ∀ m, s.book.EscrowedAt m
  openCount : s.book.openCount = s.book.openOrders
  coversShares : s.book.CoversShares

theorem Created.ledgered (h : Created s) : Ledgered s := by
  obtain ⟨hw, hb⟩ := h.wellFormed
  exact ⟨hw, hb.escrowedAt, hb.openCount_eq, hb.coversShares⟩

theorem Ledgered.exec (hs : Ledgered s) (h : exec s a = .ok s') : Ledgered s' := by
  have hr := exec_refines hs.wellFormed h
  exact ⟨hr.wellFormed, fun m => hr.step.escrowedAt (hs.escrowedAt m),
    hr.step.openCount hs.openCount, hr.step.coversShares hs.coversShares⟩

/-- **Reachable states are in order.** -/
theorem VaultState.IsReachable.ledgered (h : s.IsReachable) : Ledgered s :=
  Reachable.invariant (fun _ => Created.ledgered) (fun _ _ _ => Ledgered.exec) h

end AsyncVault
