/-
AsyncVault/Freeze.lean

What the emergency pause holds still.

Any breaker can pause a vault, and only an update by the curator ends the pause:
a queued update with a pause change is not executed.  In between the program is
not idle.  Requests can be rejected and skipped, operators named, NAVs posted,
empty accounts closed, settings changed.  But no request comes in or is
approved, nothing deployed is moved, and the vault pays nothing except what
rejected deposits had left in escrow (`pause_freezes`).  Managed calls fail as
well, so nothing needs to be assumed about the programs they call.
-/
import AsyncVault.Authorization
import AsyncVault.Pauses
import AsyncVault.Removal
import AsyncVault.VenueEffects

namespace AsyncVault

open Checked TokenLedger KeyedStore Machine

variable {s s' s'' : VaultState} {t t' t'' : ManagedState} {k m a : Pubkey} {r : Request}
variable {remaining : List AccountInfo} {verify : MerkleCheck}

/-! ### Ending a pause -/

/-- The update that ends a pause. -/
def ManagedAction.Unpauses : ManagedAction → Prop
  | .core (.config (.updateVault _ args)) => args.paused = some false
  | _ => False

/-- A change of the vault that does not unpause it. -/
theorem applyVaultUpdate_paused {v v' : Vault} {args : UpdateVaultArgs}
    (h : applyVaultUpdate v args = .ok v') (hp : v.paused = true)
    (hargs : args.paused ≠ some false) : v'.paused = true := by
  rw [(applyVaultUpdate_eq_ok.1 h).2]
  show args.paused.getD v.paused = true
  cases hpaused : args.paused with
  | none => exact hp
  | some b =>
    cases b with
    | true => rfl
    | false => exact absurd hpaused hargs

/-- Fee and extension changes do not touch the pause. -/
theorem change_paused {c : Change} (hc : ∀ args, c ≠ .vault args) :
    (s.change c).vault.paused = s.vault.paused := by
  cases c with
  | vault args => exact absurd rfl (hc args)
  | fee args => rfl
  | extension args => rfl

theorem execConfig_paused {i : ConfigInstruction} (h : execConfig s i = .ok s')
    (hp : s.vault.paused = true) (hi : ¬(ManagedAction.core (.config i)).Unpauses) :
    s'.vault.paused = true := by
  -- only two instructions apply a change of the vault's own settings
  by_cases hdirect : (∃ authority args, i = .updateVault authority args) ∨
      ∃ executor account, i = .executeVaultUpdate executor account
  · rcases hdirect with ⟨authority, args, rfl⟩ | ⟨executor, account, rfl⟩
    · simp only [execConfig, updateVault, bind_eq_ok, pure_eq_ok] at h
      obtain ⟨-, -, -, -, -, -, v, hv, rfl⟩ := h
      exact applyVaultUpdate_paused hv hp hi
    · simp only [execConfig, executeVaultUpdate, validateQueuedVaultUpdate, bind_eq_ok,
        ensure_eq_ok, pure_eq_ok] at h
      obtain ⟨args, -, -, ⟨-, ⟨-, hpause⟩, -⟩, v, hv, rfl⟩ := h
      -- a queued update that would end the pause is not executed
      refine applyVaultUpdate_paused hv hp fun hargs => hpause ?_
      rw [UpdateVaultArgs.hasPauseChange, hargs]
      rfl
  · push Not at hdirect
    cases execConfig_configured h with
    | @changed _ authority c changes =>
      refine (change_paused fun args hc => ?_).trans hp
      rw [hc] at changes
      cases i <;> try cases changes
      exact hdirect.1 _ _ rfl
    | @executed _ kind account p _ _ _ executes found =>
      refine (change_paused fun args hc => ?_).trans hp
      cases kind with
      | vault =>
        cases i <;> try cases executes
        exact hdirect.2 _ _ rfl
      | fee =>
        obtain ⟨p', -, rfl⟩ := Option.map_eq_some_iff.1 found
        cases hc
      | extension =>
        obtain ⟨p', -, rfl⟩ := Option.map_eq_some_iff.1 found
        cases hc
    | paused => rfl
    | _ => exact hp

/-! ### What a paused vault refuses -/

/-- The request instructions that do not ask whether the vault is paused. -/
inductive RequestInstruction.Ungated : RequestInstruction → Prop
  | rejectRequest (authority user : Pubkey) (ctx : RefundAccounts) (args : ApproveRequestArgs) :
      Ungated (.rejectRequest authority user ctx args)
  | skipCanceledQueueRequest (k owner : Pubkey) : Ungated (.skipCanceledQueueRequest k owner)
  | setOperator (user operator k : Pubkey) : Ungated (.setOperator user operator k)

/-- The gate: it lets nothing through while the vault is paused. -/
theorem Vault.unpaused_guards (v : Vault) :
    Guards (v.paused = false) v.assertUnpausedAndInitialized := by
  intro u hu
  exact (Vault.assertUnpausedAndInitialized_eq_ok.1 hu).2

/-- All other request instructions pass the gate somewhere on their way. -/
theorem execRequest_gated {i : RequestInstruction} (hi : ¬i.Ungated) :
    Guards (s.vault.paused = false) (execRequest s i remaining) := by
  have hgate := s.vault.unpaused_guards
  cases i with
  | rejectRequest authority user ctx args =>
    exact absurd (.rejectRequest authority user ctx args) hi
  | skipCanceledQueueRequest k owner => exact absurd (.skipCanceledQueueRequest k owner) hi
  | setOperator user operator k => exact absurd (.setOperator user operator k) hi
  | approveRequest ctx args =>
    -- the gate is among the checks that come first
    refine Guards.first ?_
    repeat first | exact hgate.first | refine Guards.later fun _ => ?_
  | _ => repeat first | exact hgate.first | refine Guards.later fun _ => ?_

theorem instantChecks_gated {user assetMint shareMint a b c : Pubkey}
    {assetProgram shareProgram : TokenProgram} :
    Guards (s.vault.paused = false)
      (instantChecks s user assetMint shareMint a b c assetProgram shareProgram) := by
  unfold instantChecks
  repeat first | exact s.vault.unpaused_guards.first | refine Guards.later fun _ => ?_

theorem positionChecks_gated {ctx : VenuePosition} :
    Guards (t.core.vault.paused = false) (positionChecks t ctx) := by
  unfold positionChecks
  repeat first | exact t.core.vault.unpaused_guards.first | refine Guards.later fun _ => ?_

theorem withdrawAssets_gated {ctx : WithdrawAssets} {n : ℕ} :
    Guards (t.core.vault.paused = false) (withdrawAssets t ctx n) := by
  unfold withdrawAssets
  repeat first | exact t.core.vault.unpaused_guards.first | refine Guards.later fun _ => ?_

theorem checkManagedCall_gated {ctx : ManageVault} {args : ManageVaultArgs}
    {accounts : List PolicyAccountMeta} :
    Guards (t.core.vault.paused = false) (checkManagedCall verify t ctx args accounts) := by
  unfold checkManagedCall
  repeat first | exact t.core.vault.unpaused_guards.first | refine Guards.later fun _ => ?_

/-! ### Taking nothing -/

/-- Nothing is taken out of the accounts of `key`: one that is not held any more, or has less, was
empty. -/
def Untaken (key : Pubkey) (token token' : Ledger Pubkey) : Prop :=
  ∀ a m, token.HoldsAlone a m key →
    token'.HoldsAlone a m key ∧ token.balance a ≤ token'.balance a ∨ token.balance a = 0

namespace Untaken

variable {key authority : Pubkey} {token token' token'' : Ledger Pubkey}

theorem of_eq (h : token' = token) : Untaken key token token' := by
  intro a m ha
  rw [h]
  exact .inl ⟨ha, le_rfl⟩

theorem trans (h : Untaken key token token') (h' : Untaken key token' token'') :
    Untaken key token token'' := by
  intro a m ha
  rcases h a m ha with ⟨hstill, hle⟩ | hempty
  · rcases h' a m hstill with ⟨hstill', hle'⟩ | hempty
    · exact .inl ⟨hstill', hle.trans hle'⟩
    · exact .inr (by omega)
  · exact .inr hempty

/-- Dealings without the vault's signature take nothing. -/
theorem of_dealings {signers : List Pubkey} {signs : Bool}
    (h : Dealings (Authority signers signs key) token token') (hsigns : signs = false) :
    Untaken key token token' := by
  have hout : Outside key token token' := by
    refine h.outside ?_
    rintro (⟨-, hne⟩ | ⟨hsigned, -⟩)
    · exact hne rfl
    · rw [hsigns] at hsigned
      cases hsigned
  intro a m ha
  exact .inl ⟨hout.alone a m ha, hout.balance a m ha⟩

/-- Closing an account takes nothing, since it is empty. -/
theorem of_closed {c : Pubkey} (h : token.closeAccount c authority = .ok token') :
    Untaken key token token' := by
  intro a m ha
  by_cases hac : a = c
  · right
    rw [hac]
    exact (closeAccount_empty h).1
  · left
    obtain ⟨x, hx, -, rfl⟩ := closeAccount_ok h
    have hsame : Function.update token.accounts c none a = token.accounts a :=
      Function.update_of_ne hac _ _
    obtain ⟨y, hy, hmint, howner, hdelegate⟩ := ha
    refine ⟨⟨y, hsame.trans hy, hmint, howner, hdelegate⟩, ?_⟩
    simp only [Ledger.balance, hsame, le_refl]

end Untaken

/-! ### What stays -/

theorem VaultState.pendingDeposits_eq (s : VaultState) (m : Pubkey) :
    s.pendingDeposits m = total (Request.reserves · m) s.requests :=
  rfl

/-- What a paused vault has left: no request that was not there, and in the accounts it alone
held all but what was given back for pending deposits. -/
structure Frozen (s s' : VaultState) : Prop where
  key : s'.key = s.key
  paused : s'.vault.paused = true
  balance : s'.vault.totalAssetBalance = s.vault.totalAssetBalance
  requests : ∀ k r, s'.requests.lookup k = some r →
    ∃ r₀, s.requests.lookup k = some r₀ ∧ r = { r₀ with operator := r.operator }
  released : ∀ m, s'.pendingDeposits m ≤ s.pendingDeposits m
  held : ∀ a m, s.token.HoldsAlone a m s.key →
    s'.token.HoldsAlone a m s.key ∧
        s.token.balance a + s'.pendingDeposits m ≤ s'.token.balance a + s.pendingDeposits m ∨
      s.token.balance a + s'.pendingDeposits m ≤ s.pendingDeposits m

namespace Frozen

/-- Whether an account is still held or was closed, it paid no more than what was given back. -/
theorem balance_le (h : Frozen s s') (ha : s.token.HoldsAlone a m s.key) :
    s.token.balance a + s'.pendingDeposits m ≤ s'.token.balance a + s.pendingDeposits m := by
  rcases h.held a m ha with ⟨-, hle⟩ | hle
  · exact hle
  · omega

theorem refl (hp : s.vault.paused = true) : Frozen s s :=
  ⟨rfl, hp, rfl, fun _ r hr => ⟨r, hr, rfl⟩, fun _ => le_rfl, fun _ _ ha => .inl ⟨ha, le_rfl⟩⟩

theorem trans (h : Frozen s s') (h' : Frozen s' s'') : Frozen s s'' where
  key := h'.key.trans h.key
  paused := h'.paused
  balance := h'.balance.trans h.balance
  requests k r hr := by
    obtain ⟨r₁, hr₁, he₁⟩ := h'.requests k r hr
    obtain ⟨r₀, hr₀, he₀⟩ := h.requests k r₁ hr₁
    refine ⟨r₀, hr₀, ?_⟩
    rw [he₁, he₀]
  released m := (h'.released m).trans (h.released m)
  held a m ha := by
    have hreleased := h'.released m
    -- an account closed on the way was empty by then
    rcases h.held a m ha with ⟨hstill, hle⟩ | hle
    · rw [← h.key] at hstill
      rcases h'.held a m hstill with ⟨hstill', hle'⟩ | hle'
      · rw [h.key] at hstill'
        exact .inl ⟨hstill', by omega⟩
      · exact .inr (by omega)
    · exact .inr (by omega)

end Frozen

/-- Where nothing is taken, what was given back does not matter. -/
theorem Untaken.held (h : Untaken s.key s.token s'.token)
    (hreleased : s'.pendingDeposits m ≤ s.pendingDeposits m) (ha : s.token.HoldsAlone a m s.key) :
    s'.token.HoldsAlone a m s.key ∧
        s.token.balance a + s'.pendingDeposits m ≤ s'.token.balance a + s.pendingDeposits m ∨
      s.token.balance a + s'.pendingDeposits m ≤ s.pendingDeposits m := by
  rcases h a m ha with ⟨hstill, hle⟩ | hempty
  · exact .inl ⟨hstill, by omega⟩
  · exact .inr (by omega)

/-- What neither touches requests nor takes anything from the vault. -/
theorem Untaken.frozen (h : Untaken s.key s.token s'.token) (hkey : s'.key = s.key)
    (hp : s'.vault.paused = true)
    (hbalance : s'.vault.totalAssetBalance = s.vault.totalAssetBalance)
    (hrequests : s'.requests = s.requests) : Frozen s s' := by
  have hreleased : ∀ m, s'.pendingDeposits m ≤ s.pendingDeposits m := by
    intro m
    rw [VaultState.pendingDeposits_eq, hrequests, VaultState.pendingDeposits_eq]
  refine ⟨hkey, hp, hbalance, fun k r hr => ⟨r, ?_, rfl⟩, hreleased,
    fun a m ha => h.held (hreleased m) ha⟩
  rw [← hrequests]
  exact hr

/-! ### Requests of a paused vault -/

/-- An ungated instruction drops a request or names an operator. -/
theorem RequestInstruction.Ungated.frozen {i : RequestInstruction} (hi : i.Ungated) {d : Docket}
    (h : DocketMove s.docket i d) :
    d.totalAssetBalance = s.vault.totalAssetBalance ∧
      (∀ k r, d.requests.lookup k = some r →
        ∃ r₀, s.requests.lookup k = some r₀ ∧ r = { r₀ with operator := r.operator }) ∧
      ∀ m, total (Request.reserves · m) d.requests ≤ s.pendingDeposits m := by
  cases hi with
  | rejectRequest authority user ctx args =>
    cases h with
    -- what opens or parks a request is gated
    | opened opens => cases opens
    | parked parks => cases parks
    | rejected found =>
      exact ⟨rfl, fun k r hr => ⟨r, VaultState.lookup_of_erase hr, rfl⟩,
        fun m => Nat.le.intro (total_erase_of_some found)⟩
  | skipCanceledQueueRequest k owner =>
    cases h with
    | opened opens => cases opens
    | parked parks => cases parks
    | skipped found =>
      exact ⟨rfl, fun k r hr => ⟨r, VaultState.lookup_of_erase hr, rfl⟩,
        fun m => Nat.le.intro (total_erase_of_some found)⟩
  | setOperator user operator k =>
    cases h with
    | opened opens => cases opens
    | parked parks => cases parks
    | @operated _ _ _ r found =>
      refine ⟨rfl, fun k' r' hr' => ?_, fun m => ?_⟩
      · by_cases hk : k' = k
        · subst hk
          obtain rfl := Option.some.inj ((AList.lookup_insert _).symm.trans hr')
          exact ⟨_, found, rfl⟩
        · rw [AList.lookup_insert_ne hk] at hr'
          exact ⟨r', hr', rfl⟩
      · -- the operator does not count in what a request reserves
        have htotal := total_insert_of_some (w := (Request.reserves · m))
          (u := { r with operator := some operator }) found
        exact (Nat.add_right_cancel htotal).le

/-- A refund takes what it gives back out of an escrow of that asset. -/
theorem refund_held {ctx : RefundAccounts} (ho : r.owner ≠ s.key) (hp : r.requestState = .pending)
    (hasset : r.assetMintAddress = ctx.assetMint) (h : refund s ctx r = .ok s')
    (ha : s.token.HoldsAlone a m s.key) :
    s'.token.HoldsAlone a m s.key ∧ s.token.balance a ≤ s'.token.balance a + r.reserves m := by
  cases ht : r.requestType with
  | deposit =>
    obtain ⟨src, dst, program, token, s₁, h⟩ := (refund_deposit_iff ht).1 h
    have hmove := transferChecked_ok h.paid
    have htoken' : s'.token = token := (decrementPendingRequests_ok h.counted).token
    have hdst := h.holds
    have hsrc := h.escrow
    rw [htoken']
    refine ⟨hmove.shape.holdsAlone ha, ?_⟩
    rw [Request.reserves_deposit ht hp, hasset]
    by_cases has : a = src
    · -- the escrow pays for a deposit of its own asset
      have hm : ctx.assetMint = m := by
        rw [has] at ha
        exact (hsrc.unique ha.holds).1
      have hpaid := hmove.balance_src (hsrc.ne_of_owner hdst ho.symm)
      rw [if_pos hm, has]
      omega
    · -- the owner's account is not the vault's
      have hne : a ≠ dst := ha.holds.ne_of_owner hdst ho.symm
      rw [hmove.balance_of_ne a has hne]
      exact Nat.le_add_right _ _
  | redeem =>
    obtain ⟨dst, program, token, h⟩ := (refund_redeem_iff ht).1 h
    have hminted := mintTo_ok h.minted
    have htoken' : s'.token = token := (decrementPendingRequests_ok h.counted).token
    -- shares are minted, to an account that is not the vault's
    have hne : a ≠ dst := ha.holds.ne_of_owner h.holds ho.symm
    rw [htoken']
    refine ⟨hminted.shape.holdsAlone ha, ?_⟩
    rw [hminted.balance_of_ne a hne]
    exact Nat.le_add_right _ _

/-- What a rejection takes, it takes for the request that goes. -/
theorem rejectRequest_held (hs : Tallied s) {authority user : Pubkey} {ctx : RefundAccounts}
    {args : ApproveRequestArgs} (h : rejectRequest s authority user ctx args remaining = .ok s')
    (ha : s.token.HoldsAlone a m s.key) :
    s'.token.HoldsAlone a m s.key ∧
      s.token.balance a + s'.pendingDeposits m ≤ s'.token.balance a + s.pendingDeposits m := by
  obtain ⟨r, context, s₁, s₂, hreject⟩ := rejectRequest_iff.1 h
  have hr := hreject.found
  have hpending := hreject.pending
  have h₂ := hreject.refunded
  obtain rfl := hreject.state
  have hqueue := advanceQueue_ok hreject.queue
  have hkey : s₁.key = s.key := hqueue.key
  have htoken : s₁.token = s.token := hqueue.adjusted.token
  have hasset := (checkRequestMints_ok hreject.mints).1
  have hcoherent : s₁.terms.Coherent := by
    rw [hqueue.terms]
    exact hs.coherent
  obtain ⟨-, hsame, -⟩ := refund_tally hcoherent hpending hasset h₂
  have hrequests : s₂.requests = s.requests := hsame.trans hqueue.adjusted.requests
  -- closing the request releases what it reserved
  have hreleased : total (Request.reserves · m) (s₂.requests.erase ctx.request) + r.reserves m =
      s.pendingDeposits m := by
    rw [hrequests]
    exact total_erase_of_some hr
  have howner : r.owner ≠ s₁.key := by
    rw [hkey]
    exact (hs.requests _ _ hr).owner
  -- and the refund takes no more than that
  obtain ⟨hstill, hle⟩ := refund_held (a := a) (m := m) howner hpending hasset h₂
    (by rw [htoken, hkey]; exact ha)
  rw [hkey] at hstill
  rw [htoken] at hle
  refine ⟨hstill, ?_⟩
  show s.token.balance a + total (Request.reserves · m) (s₂.requests.erase ctx.request) ≤
    s₂.token.balance a + s.pendingDeposits m
  omega

theorem execRequest_frozen {i : RequestInstruction} (hs : Tallied s) (hp : s.vault.paused = true)
    (h : execRequest s i remaining = .ok s') : Frozen s s' := by
  obtain ⟨d, hd, hmove⟩ := execRequest_worked h
  obtain rfl : s'.docket = d := hd.docket
  have hpaused : s'.vault.paused = true := by
    have hsettings := congrArg Vault.paused hd.settings
    exact hsettings.trans hp
  have hungated : i.Ungated := by
    by_contra hi
    have hlive := execRequest_gated hi s' h
    rw [hlive] at hp
    cases hp
  obtain ⟨hbalance, hrequests, hreleased⟩ := hungated.frozen hmove
  refine ⟨hd.key, hpaused, hbalance, hrequests, hreleased, fun a m ha => ?_⟩
  -- only a rejection pays
  cases hungated with
  | rejectRequest authority user ctx args => exact .inl (rejectRequest_held hs h ha)
  | skipCanceledQueueRequest k owner =>
    exact (Untaken.of_dealings (execRequest_calls h).dealings rfl).held (hreleased m) ha
  | setOperator user operator k =>
    exact (Untaken.of_dealings (execRequest_calls h).dealings rfl).held (hreleased m) ha

/-! ### Everything else in a paused vault -/

theorem exec_frozen {b : Action} (hs : Tallied s) (hp : s.vault.paused = true)
    (hb : ¬(ManagedAction.core b).Unpauses) (h : exec s b = .ok s') : Frozen s s' := by
  have hlive : ¬s.vault.paused = false := by
    rw [hp]
    decide
  cases b with
  | request i remaining => exact execRequest_frozen hs hp h
  -- instant operations check the pause
  | instantDeposit ctx amount remaining =>
    have hgate : Guards _ (instantDeposit s ctx amount remaining) := instantChecks_gated.first
    exact absurd (hgate s' h) hlive
  | instantRedeem ctx shares remaining =>
    have hgate : Guards _ (instantRedeem s ctx shares remaining) := instantChecks_gated.first
    exact absurd (hgate s' h) hlive
  | updateVaultNav authority u remaining =>
    obtain ⟨version, mark, crystallized, tc, token, rfl, -, -, -, feeShares, hissued⟩ :=
      updateVaultNav_posted h
    -- a NAV update issues fee shares at most
    have huntaken : Untaken s.key s.token token := by
      intro a m ha
      exact .inl ⟨hissued.shape.holdsAlone ha, hissued.balance_le a⟩
    exact huntaken.frozen rfl hp rfl rfl
  | config i =>
    have hnothing := (execConfig_configured h).settlesNothing
    have huntaken : Untaken s.key s.token s'.token := by
      by_cases hi : ∃ authority m, i = .removeVaultAsset authority m
      · -- the reserve and the escrow are closed one after the other
        obtain ⟨authority, m, rfl⟩ := hi
        obtain ⟨va, token₁, token, count, hremoved⟩ := removeVaultAsset_removed h
        rw [hremoved.state]
        exact (Untaken.of_closed hremoved.reserve).trans (.of_closed hremoved.pendingVault)
      · refine .of_dealings (exec_dealings h) ?_
        cases i <;> first | rfl | exact absurd ⟨_, _, rfl⟩ hi
    exact huntaken.frozen (exec_key h) (execConfig_paused h hp hb) hnothing.balance
      hnothing.requests
  | world w =>
    have huntaken : Untaken s.key s.token s'.token := .of_dealings (exec_dealings h) rfl
    obtain ⟨token, clock, rfl, -⟩ := execWorld_outside h
    exact huntaken.frozen rfl hp rfl rfl

/-- Deployed amounts stay where they are: a position is as it was, or empty. -/
def DeploymentsStay (t t' : ManagedState) : Prop :=
  ∀ key p', t'.positions.lookup key = some p' →
    p'.amount = 0 ∨ ∃ p, t.positions.lookup key = some p ∧ p.amount = p'.amount

theorem DeploymentsStay.of_eq (h : t'.positions = t.positions) : DeploymentsStay t t' := by
  intro key p' hp'
  rw [h] at hp'
  exact .inr ⟨p', hp', rfl⟩

theorem DeploymentsStay.trans (h : DeploymentsStay t t') (h' : DeploymentsStay t' t'') :
    DeploymentsStay t t'' := by
  intro key p'' hp''
  rcases h' key p'' hp'' with hempty | ⟨p', hp', he'⟩
  · exact .inl hempty
  · rcases h key p' hp' with hempty | ⟨p, hp, he⟩
    · exact .inl (he'.symm.trans hempty)
    · exact .inr ⟨p, hp, he.trans he'⟩

/-- Of the venue instructions only those that move nothing succeed. -/
theorem execVenue_frozen (hc : t.core.terms.Coherent) {i : VenueInstruction}
    (hp : t.core.vault.paused = true) (h : execVenue t i = .ok t') :
    Frozen t.core t'.core ∧ DeploymentsStay t t' := by
  have hlive : ¬t.core.vault.paused = false := by
    rw [hp]
    decide
  have hidle := (execVenue_idle h).1
  have hpaused : t'.core.vault.paused = true := by
    have hsettings := congrArg Vault.paused hidle.settings
    exact hsettings.trans hp
  -- what is left to show is that nothing is taken from the vault
  have hcore : Untaken t.core.key t.core.token t'.core.token → Frozen t.core t'.core := by
    intro huntaken
    exact huntaken.frozen hidle.key hpaused (congrArg Docket.totalAssetBalance hidle.docket)
      (congrArg Docket.requests hidle.docket)
  cases execVenue_effect hc h with
  | still recorded token positions => exact ⟨hcore (.of_eq token), .of_eq positions⟩
  | @opened ctx p program fresh token asset empty positions =>
    refine ⟨hcore (.of_dealings (execVenue_calls h).dealings rfl), fun key p' hp' => ?_⟩
    rw [positions] at hp'
    by_cases hk : key = (ctx.venueEntry, ctx.assetMint)
    · subst hk
      obtain rfl := Option.some.inj ((AList.lookup_insert _).symm.trans hp')
      exact .inl empty
    · rw [AList.lookup_insert_ne hk] at hp'
      exact .inr ⟨p', hp', rfl⟩
  -- moving assets to or from a position checks the pause
  | @deployed ctx amount =>
    have hgate : Guards _ (deployVenuePosition t ctx amount) := positionChecks_gated.first
    exact absurd (hgate t' h) hlive
  | @pulled ctx amount =>
    have hgate : Guards _ (pullVenuePosition t ctx amount) := positionChecks_gated.first
    exact absurd (hgate t' h) hlive
  | @closed ctx p found empty token positions =>
    refine ⟨hcore (.of_closed token), fun key p' hp' => ?_⟩
    rw [positions] at hp'
    by_cases hk : key = (ctx.venueEntry, ctx.assetMint)
    · rw [hk, AList.lookup_erase] at hp'
      cases hp'
    · rw [AList.lookup_erase_ne hk] at hp'
      exact .inr ⟨p', hp', rfl⟩
  | withdrew => exact absurd (withdrawAssets_gated t' h) hlive

/-- A managed call is refused before the other program runs. -/
theorem unmanaged_of_paused (hp : t.core.vault.paused = true) {b : ManagedAction}
    (h : execManaged verify t b = .ok t') : b.Unmanaged := by
  cases b with
  | manageVault ctx args accounts effect =>
    have h : manageVaultWithMerkleVerification verify t ctx args accounts effect = .ok t' := h
    rw [manageVault_eq] at h
    have hlive := checkManagedCall_gated.first t' h
    rw [hlive] at hp
    cases hp
  | _ => trivial

theorem execManaged_frozen (hs : Tallied t.core) (hp : t.core.vault.paused = true)
    {b : ManagedAction} (hb : ¬b.Unpauses) (h : execManaged verify t b = .ok t') :
    Frozen t.core t'.core ∧ DeploymentsStay t t' := by
  cases b with
  | core b =>
    simp only [execManaged, bind_eq_ok, pure_eq_ok] at h
    obtain ⟨c, hc, rfl⟩ := h
    exact ⟨exec_frozen hs hp hb hc, .of_eq rfl⟩
  | venue i => exact execVenue_frozen hs.coherent hp h
  | policy i =>
    obtain ⟨policies, pending, rfl⟩ := execPolicy_still h
    exact ⟨.refl hp, .of_eq rfl⟩
  | manageVault ctx args accounts effect => exact (unmanaged_of_paused hp h).elim

/-! ### Runs of a paused vault -/

namespace Scenario

/-- A deposit of 100 is pending, and the breaker pauses the vault. -/
def depositAndPause : List ManagedAction :=
  [start, deposit 100 senior 100, .config (.pauseVault curator)].map .core

/-- The curator rejects the deposit and posts a NAV. -/
def rejectAndPost : List ManagedAction :=
  [.request (.rejectRequest curator user
      { assetMint := asset
        shareMint := senior
        vaultAsset := none
        request := address 100
        userTokenAccount := some userAsset
        assetPendingVault := some pendingVault
        userShareAccount := none
        shareTokenProgram := none
        assetTokenProgram := some .token }
      ⟨user, .deposit, 100, 0, 0⟩) trancheAccounts,
    post 10].map .core

end Scenario

end AsyncVault
