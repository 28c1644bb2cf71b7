/-
AsyncVault/AssignedFloor.lean

The junior floor at the value the waterfall assigned.

The guard of an approval prices a tranche as settlements do: a recorded zero is
the vault's NAV.  That is right for a tranche the last NAV update found without
shares and wrong for one whose shares it found worthless.  Which of the two a
recorded zero means is not in the state; it is in the history, and the
valuation here reads it there (`navSupplies`).

At that valuation the guard keeps the floor exactly as long as junior is not
wiped out (`assigned_floor_iff`); once it is, senior deposits and junior
redemptions are approved against junior shares that are worth nothing.
-/
import AsyncVault.Repost

namespace AsyncVault

open Checked TokenLedger KeyedStore OrderBook Machine FixedPoint

variable {s s' s₀ : VaultState} {tc tc' : TrancheConfig} {a : Action}
variable {tr : List (Transition VaultState Action)} {remaining : List AccountInfo}

/-! ### The last NAV update -/

/-- The effective supplies of the two tranches, zero for a vault without tranches. -/
def VaultState.effectiveSupplies (s : VaultState) : ℕ × ℕ :=
  match s.trancheConfig with
  | some tc => ((s.pool tc).seniorSupply, (s.pool tc).juniorSupply)
  | none => (0, 0)

/-- The effective supplies at the last NAV update of a history. -/
def navSupplies (tr : List (Transition VaultState Action)) : ℕ × ℕ :=
  tr.foldl (fun last t => if t.act.event = .posted then t.post.effectiveSupplies else last) (0, 0)

theorem navSupplies_snoc (tr : List (Transition VaultState Action)) (s : VaultState) (a : Action)
    (s' : VaultState) :
    navSupplies (tr ++ [⟨s, a, s'⟩]) =
      if a.event = .posted then s'.effectiveSupplies else navSupplies tr := by
  simp [navSupplies, List.foldl_append]

theorem effectiveSupplies_of_some (htc : s.trancheConfig = some tc) :
    s.effectiveSupplies = ((s.pool tc).seniorSupply, (s.pool tc).juniorSupply) := by
  rw [VaultState.effectiveSupplies, htc]

theorem updateVaultNav_of_posted (ha : a.event = .posted) (h : exec s a = .ok s') :
    ∃ authority u remaining, updateVaultNav s authority u remaining = .ok s' := by
  cases a with
  | updateVaultNav authority u remaining => exact ⟨authority, u, remaining, h⟩
  | request i => cases i <;> cases ha
  | world w => cases w <;> cases ha
  | _ => cases ha

/-- A recorded NAV was recorded for shares. -/
structure RecordedFor (tc : TrancheConfig) (supplies : ℕ × ℕ) : Prop where
  senior : 0 < tc.seniorNav → 0 < supplies.1
  junior : 0 < tc.juniorNav → 0 < supplies.2

/-- Only a NAV update changes recorded NAVs. -/
theorem recordedFor_kept (hw : s.WellFormed) (h : exec s a = .ok s') (ha : a.event ≠ .posted)
    (htc' : s'.trancheConfig = some tc') {supplies : ℕ × ℕ}
    (hs : ∀ tc, s.trancheConfig = some tc → RecordedFor tc supplies) :
    RecordedFor tc' supplies := by
  have hr := exec_refines hw h
  have hrec := (hr.step.recorded_eq ha).1
  have hne := VaultState.senior_ne_junior hr.wellFormed.terms.coherent htc'
  have hsenior := congrFun hrec tc'.seniorShareMint
  have hjunior := congrFun hrec tc'.juniorShareMint
  rw [VaultState.book_recorded htc'] at hsenior hjunior
  rw [TrancheConfig.navOf_senior] at hsenior
  rw [TrancheConfig.navOf_junior hne] at hjunior
  cases htc : s.trancheConfig with
  | none =>
    -- the vault was just split
    have hzero : ∀ m, s.book.recorded m = 0 := fun m => by simp [VaultState.book, htc]
    rw [hzero] at hsenior hjunior
    exact ⟨fun h => by omega, fun h => by omega⟩
  | some tc =>
    have ht : s'.book.tranches = s.book.tranches :=
      hr.step.tranches_eq (by rw [VaultState.book_tranches htc]; exact Option.some_ne_none _)
    rw [VaultState.book_tranches htc, VaultState.book_tranches htc', Option.some.injEq] at ht
    have hsm : tc'.seniorShareMint = tc.seniorShareMint := congrArg Tranches.senior ht
    have hjm : tc'.juniorShareMint = tc.juniorShareMint := congrArg Tranches.junior ht
    rw [VaultState.book_recorded htc, hsm, TrancheConfig.navOf_senior] at hsenior
    rw [VaultState.book_recorded htc, hjm,
      TrancheConfig.navOf_junior (VaultState.senior_ne_junior hw.terms.coherent htc)] at hjunior
    obtain ⟨h₁, h₂⟩ := hs tc htc
    exact ⟨fun h => h₁ (hsenior ▸ h), fun h => h₂ (hjunior ▸ h)⟩

/-- A NAV update records NAVs for shares only. -/
theorem recordedFor_posted (hs : s.IsReachable) (h : exec s a = .ok s') (ha : a.event = .posted)
    (htc' : s'.trancheConfig = some tc') : RecordedFor tc' s'.effectiveSupplies := by
  have hr := exec_refines hs.ledgered.wellFormed h
  have ht := (ha ▸ hr.step).tranches_posted
  rw [VaultState.book_tranches htc'] at ht
  obtain ⟨tc, htc, -⟩ := Option.map_eq_some_iff.1 ht.symm
  obtain ⟨authority, u, remaining, h⟩ := updateVaultNav_of_posted ha h
  obtain ⟨t, hp⟩ := updateVaultNav_reposted hs.ledgered.wellFormed.terms.coherent htc h
  obtain rfl := Option.some.inj (htc'.symm.trans hp.config)
  rw [effectiveSupplies_of_some htc', hp.pool, hp.after]
  constructor
  · intro hnav
    refine Nat.pos_of_ne_zero fun h0 => hnav.ne' (seniorNav_of_unissued h0 tc)
  · intro hnav
    refine Nat.pos_of_ne_zero fun h0 => hnav.ne' (juniorNav_of_unissued h0 tc)

/-- **Recorded NAVs are of shares** that existed at the last NAV update. -/
theorem recordedFor_of_run (h₀ : Created s₀) (hrun : VaultRun s₀ tr s)
    (htc : s.trancheConfig = some tc) : RecordedFor tc (navSupplies tr) := by
  induction hrun generalizing tc with
  | nil =>
    obtain ⟨w, ctx, args, h₀⟩ := h₀
    rw [(createVault_state h₀).2.2.1] at htc
    cases htc
  | @snoc tr s s' a hr he ih =>
    have hs : s.IsReachable := ⟨s₀, tr, h₀, hr⟩
    rw [navSupplies_snoc]
    split
    · next ha => exact recordedFor_posted hs he ha htc
    · next ha => exact recordedFor_kept hs.ledgered.wellFormed he ha htc fun t ht => ih ht

/-! ### The assigned value -/

/-- The NAV the waterfall assigned to a tranche that had `issued` shares at the last NAV
update; the vault's NAV for one that had none. -/
def VaultState.assignedNav (s : VaultState) (issued recorded : ℕ) : ℕ :=
  if 0 < issued then recorded else s.vault.nav

def VaultState.seniorAssigned (s : VaultState) (tr : List (Transition VaultState Action))
    (tc : TrancheConfig) : ℕ :=
  (s.pool tc).seniorWorth (s.assignedNav (navSupplies tr).1 tc.seniorNav)

def VaultState.juniorAssigned (s : VaultState) (tr : List (Transition VaultState Action))
    (tc : TrancheConfig) : ℕ :=
  (s.pool tc).juniorWorth (s.assignedNav (navSupplies tr).2 tc.juniorNav)

/-- Junior has its minimum part of the value the waterfall assigned. -/
def VaultState.AssignedFloor (s : VaultState) (tr : List (Transition VaultState Action))
    (tc : TrancheConfig) : Prop :=
  tc.minJuniorRatioBps * (s.seniorAssigned tr tc + s.juniorAssigned tr tc) ≤
    s.juniorAssigned tr tc * 10000

/-- Losses have wiped junior out: it had shares at the last NAV update, which found them
worth nothing. -/
def JuniorWipedOut (tr : List (Transition VaultState Action)) (tc : TrancheConfig) : Prop :=
  0 < (navSupplies tr).2 ∧ tc.juniorNav = 0

instance (tr : List (Transition VaultState Action)) (tc : TrancheConfig) :
    Decidable (JuniorWipedOut tr tc) :=
  inferInstanceAs (Decidable (_ ∧ _))

/-- The guard never prices a tranche below its assigned NAV. -/
theorem assignedNav_le {issued recorded : ℕ} (h : 0 < recorded → 0 < issued) :
    s.assignedNav issued recorded ≤ s.trancheNav recorded := by
  unfold VaultState.assignedNav VaultState.trancheNav
  split <;> split <;> omega

/-- ... and prices it at that NAV unless its shares are worthless. -/
theorem assignedNav_eq {issued recorded : ℕ} (h : 0 < recorded ↔ 0 < issued) :
    s.assignedNav issued recorded = s.trancheNav recorded := by
  unfold VaultState.assignedNav VaultState.trancheNav
  simp only [h]

theorem seniorAssigned_le (h : RecordedFor tc (navSupplies tr)) :
    s.seniorAssigned tr tc ≤ s.seniorValue tc :=
  worth_mono_price (assignedNav_le h.senior)

theorem juniorAssigned_eq (h : RecordedFor tc (navSupplies tr)) (hw : ¬JuniorWipedOut tr tc) :
    s.juniorAssigned tr tc = s.juniorValue tc := by
  refine congrArg (worth _ _) (assignedNav_eq ⟨h.junior, fun hi => ?_⟩)
  exact Nat.pos_of_ne_zero fun h0 => hw ⟨hi, h0⟩

theorem juniorAssigned_wiped (hw : JuniorWipedOut tr tc) : s.juniorAssigned tr tc = 0 := by
  rw [VaultState.juniorAssigned, VaultState.assignedNav, if_pos hw.1, hw.2, TranchePool.juniorWorth,
    worth_zero_price]

/-- The floor at the guard's valuation is the floor at the assigned one, as long as junior is
not wiped out. -/
theorem assignedFloor_of_floor (h : RecordedFor tc (navSupplies tr)) (hw : ¬JuniorWipedOut tr tc)
    (hf : RatioHolds tc.minJuniorRatioBps (s.seniorValue tc) (s.juniorValue tc)) :
    s.AssignedFloor tr tc := by
  unfold VaultState.AssignedFloor
  rw [juniorAssigned_eq h hw]
  calc tc.minJuniorRatioBps * (s.seniorAssigned tr tc + s.juniorValue tc)
      ≤ tc.minJuniorRatioBps * (s.seniorValue tc + s.juniorValue tc) :=
        Nat.mul_le_mul_left _ (Nat.add_le_add_right (seniorAssigned_le h) _)
    _ ≤ s.juniorValue tc * 10000 := hf.mul_le

/-- **The guard at the assigned value.** In every reachable state of a tranche vault with a
junior floor, the approval of a senior deposit or a junior redemption keeps the floor at
the value the waterfall assigned, and is none made while junior is wiped out, exactly when
junior is not wiped out; when it is, the floor fails as soon as senior is worth anything. -/
theorem assigned_floor_iff (h₀ : Created s₀) (hrun : VaultRun s₀ tr s)
    (htc : s.trancheConfig = some tc) (hmin : 0 < tc.minJuniorRatioBps) {ctx : ApproveRequest}
    {args : ApproveRequestArgs} {r : Request} (hr : s.requests.lookup ctx.request = some r)
    (hguarded : (r.requestType = .deposit ∧ r.shareMintAddress = tc.seniorShareMint) ∨
      (r.requestType = .redeem ∧ r.shareMintAddress = tc.juniorShareMint))
    (h : approveRequest s ctx args remaining = .ok s') :
    ∃ tc', s'.trancheConfig = some tc' ∧
      (s'.AssignedFloor tr tc' ∧ ¬JuniorWipedOut tr tc ↔ ¬JuniorWipedOut tr tc) ∧
      (JuniorWipedOut tr tc → 0 < s'.seniorAssigned tr tc' → ¬s'.AssignedFloor tr tc') := by
  have hs : s.IsReachable := ⟨s₀, tr, h₀, hrun⟩
  have hw := hs.ledgered.wellFormed
  have he : exec s (.request (.approveRequest ctx args) remaining) = .ok s' := h
  have href := exec_refines hw he
  have hv' := href.wellFormed.terms
  -- the configuration after the approval: its NAVs and its minimum are the same
  have ht : s'.book.tranches = s.book.tranches :=
    href.step.tranches_eq (by rw [VaultState.book_tranches htc]; exact Option.some_ne_none _)
  rw [VaultState.book_tranches htc] at ht
  obtain ⟨tc', htc', ht⟩ := Option.map_eq_some_iff.1 ht
  have hmin' : tc'.minJuniorRatioBps = tc.minJuniorRatioBps := congrArg Tranches.minRatio ht
  have hrecorded : RecordedFor tc' (navSupplies tr) :=
    recordedFor_kept hw he (fun h => by cases h) htc' fun t ht => recordedFor_of_run h₀ hrun ht
  have hnav : tc'.juniorNav = tc.juniorNav := by
    have hrec := congrFun (href.step.recorded_eq (fun h => by cases h)).1 tc'.juniorShareMint
    have hjm : tc'.juniorShareMint = tc.juniorShareMint := congrArg Tranches.junior ht
    rw [VaultState.book_recorded htc', VaultState.book_recorded htc,
      TrancheConfig.navOf_junior (VaultState.senior_ne_junior hv'.coherent htc'), hjm,
      TrancheConfig.navOf_junior (VaultState.senior_ne_junior hw.terms.coherent htc)] at hrec
    exact hrec
  have hwiped : JuniorWipedOut tr tc' ↔ JuniorWipedOut tr tc := by
    unfold JuniorWipedOut
    rw [hnav]
  refine ⟨tc', htc', and_iff_right_of_imp fun hnot => ?_, fun hyes hpos hfloor => ?_⟩
  · have hfloor : s'.JuniorFloor := (juniorFloor_iff hv'.coherent).2
      (href.step.guarded (VaultState.lookup_book hr) ⟨_, VaultState.book_tranches htc, ?_⟩)
    · exact assignedFloor_of_floor hrecorded (hwiped.not.2 hnot) (hfloor tc' htc' (hmin' ▸ hmin))
    · rcases hguarded with ⟨htype, hshare⟩ | ⟨htype, hshare⟩
      · exact .inl ⟨by rw [Request.order, htype]; rfl, hshare⟩
      · exact .inr ⟨by rw [Request.order, htype]; rfl, hshare⟩
  · rw [VaultState.AssignedFloor, juniorAssigned_wiped (hwiped.2 hyes), hmin', Nat.zero_mul,
      Nat.add_zero] at hfloor
    exact absurd (Nat.mul_pos hmin hpos) (by omega)

open Scenario in
/-- **Non-vacuity.** A floor of 20% over ten shares of each tranche recorded at a NAV of 10; a
senior deposit of 100 is approved, and junior still has a third of the value. -/
theorem assigned_floor_iff_kept :
    ∃ (s₀ : VaultState) (tr : List (Transition VaultState Action)) (s s' : VaultState)
      (tc tc' : TrancheConfig), Created s₀ ∧ VaultRun s₀ tr s ∧ s.trancheConfig = some tc ∧
      tc.minJuniorRatioBps = 2000 ∧ ¬JuniorWipedOut tr tc ∧
      approveRequest s (approval 102 senior) ⟨user, .deposit, 100, 0, 2⟩ trancheAccounts = .ok s' ∧
      s'.trancheConfig = some tc' ∧ s'.seniorAssigned tr tc' = 200 ∧
      s'.juniorAssigned tr tc' = 100 ∧ s'.AssignedFloor tr tc' := by
  obtain ⟨s₀, tr, s, h₀, hrun, hp⟩ := exists_run 0 0
    [anyNav, post 10, split 0 2000, start, deposit 100 junior 100,
      approve 100 junior .deposit 100 1, deposit 101 senior 100,
      approve 101 senior .deposit 100 1, post 10, deposit 102 senior 100]
    (fun tr => approves 102 senior .deposit 100 2 fun r tc s' tc' =>
      (r.requestType = .deposit ∧ r.shareMintAddress = tc.seniorShareMint) ∧
        tc.minJuniorRatioBps = 2000 ∧ ¬JuniorWipedOut tr tc ∧ s'.seniorAssigned tr tc' = 200 ∧
        s'.juniorAssigned tr tc' = 100) (by decide +kernel)
  obtain ⟨r, tc, s', tc', hr, htc, happrove, htc', hp⟩ := of_approves hp
  obtain ⟨hguarded, hmin, hnot, hsenior, hjunior⟩ := of_decide_eq_true hp
  obtain ⟨tc'', htc'', hiff, -⟩ :=
    assigned_floor_iff h₀ hrun htc (by omega) hr (.inl hguarded) happrove
  obtain rfl := Option.some.inj (htc'.symm.trans htc'')
  exact ⟨s₀, tr, s, s', tc, tc', h₀, hrun, htc, hmin, hnot, happrove, htc', hsenior, hjunior,
    (hiff.2 hnot).1⟩

open Scenario in
/-- **Sold against worthless shares.** The NAV falls to 4 and junior is wiped out; the guard
prices its ten shares at 4 each and lets a senior deposit pass, although junior has none of the
value assigned. -/
theorem assigned_floor_ignored :
    ∃ (s₀ : VaultState) (tr : List (Transition VaultState Action)) (s s' : VaultState)
      (tc tc' : TrancheConfig), Created s₀ ∧ VaultRun s₀ tr s ∧ s.trancheConfig = some tc ∧
      tc.minJuniorRatioBps = 2000 ∧ (s.pool tc).juniorSupply = 10 ∧ navSupplies tr = (10, 10) ∧
      tc.juniorNav = 0 ∧
      approveRequest s (approval 102 senior) ⟨user, .deposit, 80, 0, 3⟩ trancheAccounts = .ok s' ∧
      s'.trancheConfig = some tc' ∧ s'.seniorAssigned tr tc' = 160 ∧
      s'.juniorAssigned tr tc' = 0 ∧ ¬s'.AssignedFloor tr tc' := by
  obtain ⟨s₀, tr, s, h₀, hrun, hp⟩ := exists_run 0 0
    [anyNav, post 10, split 0 2000, start, deposit 100 junior 100,
      approve 100 junior .deposit 100 1, deposit 101 senior 100,
      approve 101 senior .deposit 100 1, post 10, post 4, deposit 102 senior 80]
    (fun tr s => approves 102 senior .deposit 80 3 (fun _ tc s' tc' =>
      tc.minJuniorRatioBps = 2000 ∧ (s.pool tc).juniorSupply = 10 ∧ navSupplies tr = (10, 10) ∧
        tc.juniorNav = 0 ∧ s'.seniorAssigned tr tc' = 160 ∧ s'.juniorAssigned tr tc' = 0 ∧
        tc'.minJuniorRatioBps = 2000) s) (by decide +kernel)
  obtain ⟨r, tc, s', tc', hr, htc, happrove, htc', hp⟩ := of_approves hp
  obtain ⟨hmin, hsupply, hnav, hzero, hsenior, hjunior, hmin'⟩ := of_decide_eq_true hp
  refine ⟨s₀, tr, s, s', tc, tc', h₀, hrun, htc, hmin, hsupply, hnav, hzero, happrove, htc',
    hsenior, hjunior, ?_⟩
  rw [VaultState.AssignedFloor, hsenior, hjunior, hmin']
  decide

end AsyncVault
