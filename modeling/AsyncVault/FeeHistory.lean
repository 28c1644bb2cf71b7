/-
AsyncVault/FeeHistory.lean

No gain is charged twice.

Over a run the high-water mark of a plain vault only rises, and only NAV updates
move it, each over an interval of its own (`gain`).  An update that the
crystallisation interval holds back moves nothing, so what it skipped lies in
the interval of one later update.  The time of the last crystallisation rises
too once there is a mark, as long as a fee and an interval are set; that is what
keeps charges apart in time.
-/
import AsyncVault.PerformanceFee
import AsyncVault.ManagedSteps
import AsyncVault.ManagedScenario
import Mathlib

namespace AsyncVault

open Checked TokenLedger Machine

variable {s s' : VaultState} {s₀ sₙ : ManagedState} {verify : MerkleCheck}
variable {t : Transition ManagedState ManagedAction}
variable {tr : List (Transition ManagedState ManagedAction)}

/-! ### Who moves the mark -/

/-- The high-water mark and the time it was last moved. -/
def Vault.meter (v : Vault) : ℕ × ℤ := (v.highWaterMark, v.lastFeeCrystallizationTimestamp)

theorem meter_of_settings {v v' : Vault} (h : v'.settings = v.settings) : v'.meter = v.meter := by
  show v'.settings.meter = v.settings.meter
  rw [h]

theorem trancheConfig_of_settings {v v' : Vault} (h : v'.settings = v.settings) :
    v'.trancheConfig = v.trancheConfig := by
  show v'.settings.trancheConfig = v.settings.trancheConfig
  rw [h]

/-- A vault that is plain later is plain now. -/
theorem plain_of_le {v v' : Vault} (hle : v.trancheConfig.isSome ≤ v'.trancheConfig.isSome)
    (hplain : v'.trancheConfig = none) : v.trancheConfig = none := by
  cases htc : v.trancheConfig with
  | none => rfl
  | some pda =>
    rw [htc, hplain] at hle
    cases hle rfl

/-- Configuration leaves the meter, and no vault is put together again. -/
theorem Configured.meter {i : ConfigInstruction} (h : Configured s i s') :
    s'.vault.meter = s.vault.meter ∧
      s.vault.trancheConfig.isSome ≤ s'.vault.trancheConfig.isSome := by
  have hchange : ∀ c : Change, (s.change c).vault.meter = s.vault.meter ∧
      s.vault.trancheConfig.isSome ≤ (s.change c).vault.trancheConfig.isSome := by
    intro c
    cases c <;> exact ⟨rfl, le_rfl⟩
  cases h with
  | divided _ undivided =>
    refine ⟨rfl, ?_⟩
    rw [undivided]
    exact Bool.false_le _
  | changed => exact hchange _
  | executed => exact hchange _
  | _ => exact ⟨rfl, le_rfl⟩

/-- The NAV an action posts. -/
def Action.postedNav : Action → Option ℕ
  | .updateVaultNav _ u _ => some u
  | _ => none

/-- Only NAV updates move the meter, and no vault is put together again. -/
theorem exec_meter {a : Action} (h : exec s a = .ok s') :
    (a.postedNav = none → s'.vault.meter = s.vault.meter) ∧
      s.vault.trancheConfig.isSome ≤ s'.vault.trancheConfig.isSome := by
  -- requests and instant settlements keep the settings, and the meter with them
  have hworked : ∀ {d : Docket}, Worked s s' d →
      (a.postedNav = none → s'.vault.meter = s.vault.meter) ∧
        s.vault.trancheConfig.isSome ≤ s'.vault.trancheConfig.isSome := by
    intro d hd
    refine ⟨fun _ => meter_of_settings hd.settings, ?_⟩
    rw [trancheConfig_of_settings hd.settings]
  cases a with
  | request i remaining =>
    obtain ⟨d, hd, -⟩ := execRequest_worked h
    exact hworked hd
  | instantDeposit ctx amount remaining =>
    obtain ⟨net, -, -, hd⟩ := instantDeposit_worked h
    exact hworked hd
  | instantRedeem ctx shares remaining =>
    obtain ⟨gross, hd⟩ := instantRedeem_worked h
    exact hworked hd
  | updateVaultNav authority u remaining =>
    obtain ⟨version, mark, crystallized, tc, token, rfl, -⟩ := updateVaultNav_posted h
    exact ⟨by simp [Action.postedNav], le_rfl⟩
  | config i =>
    obtain ⟨hmeter, hsplit⟩ := (execConfig_configured h).meter
    exact ⟨fun _ => hmeter, hsplit⟩
  | world w =>
    obtain ⟨token, clock, rfl, -⟩ := execWorld_outside h
    exact ⟨fun _ => rfl, le_rfl⟩

/-! ### Updates in a run -/

/-- The NAV a transition posts. -/
def postedNav (t : Transition ManagedState ManagedAction) : Option ℕ :=
  match t.act with
  | .core a => a.postedNav
  | _ => none

/-- The NAV gain a transition moves the high-water mark over. -/
def gain (t : Transition ManagedState ManagedAction) : Set ℕ :=
  Set.Ioc t.pre.core.vault.highWaterMark t.post.core.vault.highWaterMark

/-- A NAV update that charges a fee on its gain. -/
def ChargesFee (t : Transition ManagedState ManagedAction) : Prop :=
  ∃ u ∈ postedNav t, t.pre.core.vault.FeeDue u t.pre.core.clock.unixTimestamp

instance : Decidable (ChargesFee t) :=
  decidable_of_iff (((postedNav t).any fun u =>
    decide (t.pre.core.vault.FeeDue u t.pre.core.clock.unixTimestamp)) = true) (by
      rw [Option.any_eq_true]
      simp only [decide_eq_true_eq]
      rfl)

/-- A NAV update on a gain that the crystallisation interval holds back. -/
def SkipsFee (t : Transition ManagedState ManagedAction) (u : ℕ) : Prop :=
  postedNav t = some u ∧ t.pre.core.vault.highWaterMark < u ∧
    t.pre.core.vault.HeldBack t.pre.core.clock.unixTimestamp

instance (u : ℕ) : Decidable (SkipsFee t u) := inferInstanceAs (Decidable (_ ∧ _))

theorem execManaged_tranched (h : execManaged verify t.pre t.act = .ok t.post) :
    t.pre.core.vault.trancheConfig.isSome ≤ t.post.core.vault.trancheConfig.isSome := by
  rcases execManaged_core h with ⟨b, -, hb, -⟩ | ⟨-, hidle⟩
  · exact (exec_meter hb).2
  · rw [trancheConfig_of_settings hidle.settings]

/-- A run that ends on a plain vault has been on one throughout. -/
theorem plain_of_run (hplain : sₙ.core.vault.trancheConfig = none)
    (hrun : ManagedRun verify s₀ tr sₙ) (ht : t ∈ tr) : t.pre.core.vault.trancheConfig = none := by
  have hmono : ∀ t ∈ tr, t.pre.core.vault.trancheConfig.isSome ≤
      t.post.core.vault.trancheConfig.isSome :=
    fun t ht => execManaged_tranched (hrun.exec_of_mem ht)
  have hlast := (hrun.monotone (f := fun s => s.core.vault.trancheConfig.isSome) hmono).2 t ht
  exact plain_of_le ((hmono t ht).trans hlast) hplain

/-- **What a transition does to the mark.** -/
theorem metered (hplain : t.pre.core.vault.trancheConfig = none)
    (h : execManaged verify t.pre t.act = .ok t.post) :
    (postedNav t = none ∧ t.post.core.vault.meter = t.pre.core.vault.meter) ∨
      ∃ u, postedNav t = some u ∧ Charged t.pre.core t.post.core u := by
  rcases execManaged_core h with ⟨b, hact, hb, -⟩ | ⟨hact, hidle⟩
  · have hposted : postedNav t = b.postedNav := by simp [postedNav, hact]
    rw [hposted]
    cases b with
    | updateVaultNav authority u remaining =>
      exact .inr ⟨u, rfl, (updateVaultNav_charged hplain hb).1⟩
    | _ => exact .inl ⟨rfl, (exec_meter hb).1 rfl⟩
  · refine .inl ⟨?_, meter_of_settings hidle.settings⟩
    cases ha : t.act with
    | core b => exact absurd ha (hact b)
    | _ => simp [postedNav, ha]

section Step

variable (hplain : t.pre.core.vault.trancheConfig = none)
  (h : execManaged verify t.pre t.act = .ok t.post)
include hplain h

theorem highWaterMark_le :
    t.pre.core.vault.highWaterMark ≤ t.post.core.vault.highWaterMark := by
  rcases metered hplain h with ⟨-, hmeter⟩ | ⟨u, -, hcharged⟩
  · exact (congrArg Prod.fst hmeter).ge
  · rw [hcharged.mark]
    split
    · next hc => exact hc.1.le
    · exact le_rfl

/-- A gain is made by an update that is not held back. -/
theorem crystallizes_of_gain {x : ℕ} (hx : x ∈ gain t) :
    ∃ u, postedNav t = some u ∧
      t.pre.core.vault.Crystallizes u t.pre.core.clock.unixTimestamp := by
  have hlt : t.pre.core.vault.highWaterMark < t.post.core.vault.highWaterMark := hx.1.trans_le hx.2
  rcases metered hplain h with ⟨-, hmeter⟩ | ⟨u, hu, hcharged⟩
  · exact absurd (congrArg Prod.fst hmeter) hlt.ne'
  · refine ⟨u, hu, ?_⟩
    by_contra hc
    rw [hcharged.mark, if_neg hc] at hlt
    exact lt_irrefl _ hlt

/-- A skipped update leaves the meter and mints nothing. -/
theorem meter_of_skipsFee {u : ℕ} (hskip : SkipsFee t u) :
    t.post.core.vault.meter = t.pre.core.vault.meter ∧ t.pre.core.feeMinted u = 0 := by
  obtain ⟨hu, -, hheld⟩ := hskip
  have hc : ¬t.pre.core.vault.Crystallizes u t.pre.core.clock.unixTimestamp := fun hc => hc.2 hheld
  rcases metered hplain h with ⟨hnone, -⟩ | ⟨u', hu', hcharged⟩
  · rw [hu] at hnone
    cases hnone
  · obtain rfl := Option.some.inj (hu.symm.trans hu')
    have hmark := hcharged.mark
    have hstamp := hcharged.stamp
    rw [if_neg hc] at hmark hstamp
    refine ⟨Prod.ext hmark hstamp, ?_⟩
    rw [VaultState.feeMinted, Vault.feeMinted, if_neg fun hdue => hc hdue.1]

end Step

/-! ### Charges are apart in time -/

/-- The time of the last crystallisation, once there is a mark. -/
def crystallizedAt (s : ManagedState) : WithBot ℤ :=
  if s.core.vault.highWaterMark = 0 then ⊥
  else s.core.vault.lastFeeCrystallizationTimestamp

/-- A crystallisation above a mark waits for the interval to pass. -/
theorem waited_of_crystallizes {v : Vault} {u : ℕ} {now : ℤ} (hc : v.Crystallizes u now)
    (hmark : 0 < v.highWaterMark) (hbps : 0 < v.performanceFeeBps)
    (hI : 0 < v.performanceFeeCrystallizationIntervalSeconds) :
    v.lastFeeCrystallizationTimestamp + v.performanceFeeCrystallizationIntervalSeconds ≤ now := by
  have hwait : ¬(now - v.lastFeeCrystallizationTimestamp).toNat <
      v.performanceFeeCrystallizationIntervalSeconds :=
    fun hlt => hc.2 ⟨hbps, hmark, hI, hlt⟩
  omega

/-- Under a fee and an interval, the time of the last crystallisation does not go back. -/
theorem crystallizedAt_le {I : ℕ} (hI : 0 < I)
    (hset : (postedNav t).isSome →
      t.pre.core.vault.performanceFeeCrystallizationIntervalSeconds = I ∧
        0 < t.pre.core.vault.performanceFeeBps)
    (hplain : t.pre.core.vault.trancheConfig = none)
    (h : execManaged verify t.pre t.act = .ok t.post) :
    crystallizedAt t.pre ≤ crystallizedAt t.post := by
  unfold crystallizedAt
  by_cases hmark : t.pre.core.vault.highWaterMark = 0
  · rw [if_pos hmark]
    exact bot_le
  rw [if_neg hmark, if_neg (Nat.pos_iff_ne_zero.1
    ((Nat.pos_of_ne_zero hmark).trans_le (highWaterMark_le hplain h)))]
  rcases metered hplain h with ⟨-, hmeter⟩ | ⟨u, hu, hcharged⟩
  · rw [show t.post.core.vault.lastFeeCrystallizationTimestamp =
      t.pre.core.vault.lastFeeCrystallizationTimestamp from congrArg Prod.snd hmeter]
  · obtain ⟨hinterval, hbps⟩ := hset (by rw [hu]; rfl)
    rw [hcharged.stamp]
    split
    · next hc =>
      have hwait := waited_of_crystallizes hc (Nat.pos_of_ne_zero hmark) hbps (hinterval ▸ hI)
      exact WithBot.coe_le_coe.2 (by omega)
    · exact le_rfl

/-- While a fee and an interval are set, charges are an interval apart. -/
theorem charges_apart {I : ℕ} (hI : 0 < I) (hplain : sₙ.core.vault.trancheConfig = none)
    (hrun : ManagedRun verify s₀ tr sₙ)
    (hset : ∀ t ∈ tr, (postedNav t).isSome →
      t.pre.core.vault.performanceFeeCrystallizationIntervalSeconds = I ∧
        0 < t.pre.core.vault.performanceFeeBps) :
    tr.Pairwise fun t t' => ChargesFee t → ChargesFee t' →
      t.pre.core.clock.unixTimestamp + I ≤ t'.pre.core.clock.unixTimestamp := by
  have hpairs := hrun.pairwise_monotone (f := crystallizedAt) fun t ht =>
    crystallizedAt_le hI (hset t ht) (plain_of_run hplain hrun ht) (hrun.exec_of_mem ht)
  refine hpairs.imp_of_mem ?_
  intro t t' ht ht' hle hfee hfee'
  obtain ⟨u, hu, hdue⟩ := hfee
  obtain ⟨u', hu', hdue'⟩ := hfee'
  obtain ⟨hinterval, hbps⟩ := hset t' ht' (by rw [hu']; rfl)
  have hwait := waited_of_crystallizes hdue'.1 hdue'.2.2 hbps (hinterval ▸ hI)
  -- the first charge stamps its own time
  have hstamp : crystallizedAt t.post = (t.pre.core.clock.unixTimestamp : WithBot ℤ) := by
    rcases metered (plain_of_run hplain hrun ht) (hrun.exec_of_mem ht) with
      ⟨hnone, -⟩ | ⟨w, hw, hcharged⟩
    · rw [hnone] at hu
      cases hu
    · obtain rfl := Option.some.inj (hw.symm.trans hu)
      rw [crystallizedAt, hcharged.mark, if_pos hdue.1, hcharged.stamp, if_pos hdue.1,
        if_neg (Nat.zero_lt_of_lt hdue.1.1).ne']
  rw [hstamp, crystallizedAt, if_neg hdue'.2.2.ne', WithBot.coe_le_coe] at hle
  omega

/-! ### The history of a run -/

/-- No gain is charged twice along a run that ends in `s`. -/
structure ChargedOnce (tr : List (Transition ManagedState ManagedAction)) (s : ManagedState) :
    Prop where
  mark_le : ∀ t ∈ tr, t.pre.core.vault.highWaterMark ≤ t.post.core.vault.highWaterMark
  minted : ∀ t ∈ tr, ∀ u, postedNav t = some u →
    Issued t.pre.core.token t.post.core.token t.pre.core.vault.shareMint
        (t.pre.core.feeMinted u) ∧
      (0 < t.pre.core.feeMinted u → ChargesFee t ∧
        t.pre.core.vault.highWaterMark < u ∧ 0 < t.pre.core.vault.highWaterMark)
  disjoint : tr.Pairwise fun t t' => ChargesFee t → ChargesFee t' → Disjoint (gain t) (gain t')
  apart : ∀ seg I, seg <:+: tr → 0 < I →
    (∀ t ∈ seg, (postedNav t).isSome →
      t.pre.core.vault.performanceFeeCrystallizationIntervalSeconds = I ∧
        0 < t.pre.core.vault.performanceFeeBps) →
    seg.Pairwise fun t t' => ChargesFee t → ChargesFee t' →
      t.pre.core.clock.unixTimestamp + I ≤ t'.pre.core.clock.unixTimestamp
  skipped : ∀ tr₁ t tr₂ u, tr = tr₁ ++ t :: tr₂ → SkipsFee t u →
    t.post.core.vault.highWaterMark = t.pre.core.vault.highWaterMark ∧
      t.post.core.vault.lastFeeCrystallizationTimestamp =
        t.pre.core.vault.lastFeeCrystallizationTimestamp ∧
      t.pre.core.feeMinted u = 0 ∧
      -- every part of the gain that the mark passes later is charged at one later update
      ∀ x, t.pre.core.vault.highWaterMark < x → x ≤ u → x ≤ s.core.vault.highWaterMark →
        ∃ l t' r, tr₂ = l ++ t' :: r ∧ x ∈ gain t' ∧
          (0 < t'.pre.core.vault.performanceFeeBps → ChargesFee t') ∧
          ∀ t'' ∈ l ++ r, x ∉ gain t''

/-- The gains of a run do not overlap. -/
theorem gains_disjoint (hplain : sₙ.core.vault.trancheConfig = none)
    (hrun : ManagedRun verify s₀ tr sₙ) :
    tr.Pairwise fun t t' => Disjoint (gain t) (gain t') := by
  have hpairs := hrun.pairwise_monotone (f := fun s => s.core.vault.highWaterMark)
    fun t ht => highWaterMark_le (plain_of_run hplain hrun ht) (hrun.exec_of_mem ht)
  refine hpairs.imp ?_
  intro t t' hle
  exact Set.Ioc_disjoint_Ioc_of_le hle

/-- A level above the mark that the mark passes is in one gain. -/
theorem exists_gain {x : ℕ} (hplain : sₙ.core.vault.trancheConfig = none)
    (hrun : ManagedRun verify s₀ tr sₙ) (h₀ : s₀.core.vault.highWaterMark < x)
    (hx : x ≤ sₙ.core.vault.highWaterMark) :
    ∃ l t r, tr = l ++ t :: r ∧ x ∈ gain t ∧ ∀ t' ∈ l ++ r, x ∉ gain t' := by
  obtain ⟨l, t, r, rfl, hpre, hpost⟩ := hrun.exists_enter
    (P := fun s => x ≤ s.core.vault.highWaterMark) (not_le.2 h₀) hx
  have hgain : x ∈ gain t := ⟨not_le.1 hpre, hpost⟩
  obtain ⟨-, hr, hl⟩ := List.pairwise_append.1 (gains_disjoint hplain hrun)
  refine ⟨l, t, r, rfl, hgain, fun t' ht' => ?_⟩
  rcases List.mem_append.1 ht' with ht' | ht'
  · exact fun hx' => (hl t' ht' t (by simp)).le_bot ⟨hx', hgain⟩
  · exact fun hx' => ((List.pairwise_cons.1 hr).1 t' ht').le_bot ⟨hgain, hx'⟩

/-- **No gain is charged twice**, along every run of a plain vault from any state. -/
theorem chargedOnce_of_run (hplain : sₙ.core.vault.trancheConfig = none)
    (hrun : ManagedRun verify s₀ tr sₙ) : ChargedOnce tr sₙ where
  mark_le t ht := highWaterMark_le (plain_of_run hplain hrun ht) (hrun.exec_of_mem ht)
  minted t ht u hu := by
    rcases metered (plain_of_run hplain hrun ht) (hrun.exec_of_mem ht) with
      ⟨hnone, -⟩ | ⟨u', hu', hcharged⟩
    · rw [hu] at hnone
      cases hnone
    · obtain rfl := Option.some.inj (hu.symm.trans hu')
      refine ⟨hcharged.minted, fun hpos => ?_⟩
      have hdue : t.pre.core.vault.FeeDue u t.pre.core.clock.unixTimestamp :=
        (feeSharesDue_iff.2 hpos).1
      exact ⟨⟨u, hu, hdue⟩, hdue.1.1, hdue.2.2⟩
  disjoint := (gains_disjoint hplain hrun).imp fun hd _ _ => hd
  apart seg I hseg hI hset := by
    obtain ⟨tr₁, tr₂, rfl⟩ := hseg
    obtain ⟨s₂, hrun₁, hrun₂⟩ := hrun.split
    obtain ⟨s₁, -, hrun₁⟩ := hrun₁.split
    have hle := (hrun₂.monotone (f := fun s => s.core.vault.trancheConfig.isSome)
      fun t ht => execManaged_tranched (hrun₂.exec_of_mem ht)).1
    exact charges_apart hI (plain_of_le hle hplain) hrun₁ hset
  skipped tr₁ t tr₂ u htr hskip := by
    subst htr
    have hpre := plain_of_run hplain hrun (t := t) (by simp)
    obtain ⟨-, he, hrun₂⟩ := hrun.of_transition
    obtain ⟨hmeter, hnone⟩ := meter_of_skipsFee hpre he hskip
    have hmark := congrArg Prod.fst hmeter
    refine ⟨hmark, congrArg Prod.snd hmeter, hnone, fun x hlo _ hhi => ?_⟩
    obtain ⟨l, t', r, rfl, hgain, hother⟩ := exists_gain hplain hrun₂ (hmark.trans_lt hlo) hhi
    refine ⟨l, t', r, rfl, hgain, fun hbps => ?_, hother⟩
    have hmem : t' ∈ l ++ t' :: r := by simp
    obtain ⟨u', hu', hc⟩ :=
      crystallizes_of_gain (plain_of_run hplain hrun₂ hmem) (hrun₂.exec_of_mem hmem) hgain
    -- the skipped update saw a mark, so this one does
    have hpos : 0 < t.pre.core.vault.highWaterMark := hskip.2.2.2.1
    have hle : t.post.core.vault.highWaterMark ≤ t'.pre.core.vault.highWaterMark := by
      obtain ⟨hrun₃, -, -⟩ := hrun₂.of_transition
      exact (hrun₃.monotone (f := fun s => s.core.vault.highWaterMark) fun t'' ht'' =>
        highWaterMark_le (plain_of_run hplain hrun₂ (List.mem_append_left _ ht''))
          (hrun₃.exec_of_mem ht'')).1
    exact ⟨u', hu', hc, hbps, hpos.trans_le (hmark.ge.trans hle)⟩

open Scenario in
/-- **Non-vacuity.** At an interval of 100 seconds the NAV rises from 10 to 15 and is charged,
rises to 20 at once and is not, and is charged 300 seconds later. -/
theorem chargedOnce_of_run_interval :
    ∃ s₀ tr s, ManagedState.Created s₀ ∧ ManagedRun noCalls s₀ tr s ∧
      (tr.countP fun t => ChargesFee t) = 2 ∧ (∃ t ∈ tr, SkipsFee t 20) ∧ ChargedOnce tr s := by
  obtain ⟨s₀, tr, s, h₀, hrun, -, hp⟩ := exists_managed_run
    ((plainWithFee 1000 ++ [collect 100 senior,
      .config (.updateVault curator { performanceFeeCrystallizationIntervalSeconds := some 100 }),
      wait 100, .updateVaultNav curator 15 feeAccounts, .updateVaultNav curator 20 feeAccounts,
      wait 400, .updateVaultNav curator 20 feeAccounts]).map .core)
    (fun tr s => s.core.vault.trancheConfig = none ∧
      (tr.countP fun t => ChargesFee t) = 2 ∧ ∃ t ∈ tr, SkipsFee t 20) (by decide +kernel)
  obtain ⟨hplain, hcount, hskip⟩ := of_decide_eq_true hp
  exact ⟨s₀, tr, s, h₀, hrun, hcount, hskip, chargedOnce_of_run hplain hrun⟩

end AsyncVault
