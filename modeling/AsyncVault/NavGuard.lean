/-
AsyncVault/NavGuard.lean

How far the NAV may move in one update, and in many.

The guard compares a floored ratio, so an accepted update stays below the
configured limit plus one basis point (`WithinDelta`).  The guard is off at a
NAV of zero; with a limit below the whole it cannot be brought there, because
the fall to zero is itself the largest change there is (`WithinDelta.pos`).  So
once the NAV is positive the bound holds at every update of a run, and compounds
over it.  An overflow of the guard's own product is an error, which only rejects
more.
-/
import AsyncVault.ImpliedApy

namespace AsyncVault

open Checked Machine

variable {t₀ t : ManagedState} {verify : MerkleCheck}
variable {tr : List (Transition ManagedState ManagedAction)}
variable {bps n n' : ℕ}

/-- From the NAV `n` to `n'` by less than `bps + 1` basis points of `n`. -/
def WithinDelta (bps n n' : ℕ) : Prop :=
  |(n' : ℤ) - n| * maxBps < (bps + 1) * n

/-! ### One update -/

theorem natCast_sub_add_sub (n n' : ℕ) : (((n' - n) + (n - n') : ℕ) : ℤ) = |(n' : ℤ) - n| := by
  rcases le_total n n' with h | h
  · rw [abs_of_nonneg (by omega)]
    omega
  · rw [abs_of_nonpos (by omega)]
    omega

/-- What the guard establishes, the product having fit. -/
theorem validateNavDelta_ok {v : Vault} {u : Unit} (h : v.validateNavDelta n' = .ok u)
    (hbps : 0 < v.maxNavDeltaBps) (hnav : 0 < v.nav) :
    WithinDelta v.maxNavDeltaBps v.nav n' := by
  unfold Vault.validateNavDelta at h
  rw [if_neg (by omega)] at h
  simp only [bind_eq_ok, mul_eq_ok, div_eq_ok, ensure_eq_ok] at h
  obtain ⟨_, ⟨-, rfl⟩, _, ⟨-, rfl⟩, hle⟩ := h
  -- the floored ratio is at most the limit, so the ratio is below the next one
  have hlt := (Nat.div_lt_iff_lt_mul hnav).1 (Nat.lt_succ_of_le hle)
  unfold WithinDelta
  rw [← natCast_sub_add_sub]
  exact_mod_cast hlt

theorem WithinDelta.le_mul (h : WithinDelta bps n n') (hbps : bps < maxBps) :
    n * (9999 - bps) ≤ n' * 10000 := by
  have hfall : ((n : ℤ) - n') * maxBps ≤ |(n' : ℤ) - n| * maxBps := by
    refine mul_le_mul_of_nonneg_right ?_ (by positivity)
    rw [abs_sub_comm]
    exact le_abs_self _
  have hlt : ((n : ℤ) - n') * maxBps < (bps + 1) * n := hfall.trans_lt h
  have hmax : bps ≤ 9999 := by
    simp only [maxBps] at hbps
    omega
  simp only [maxBps] at hlt
  zify [hmax]
  push_cast at hlt
  nlinarith only [hlt]

theorem WithinDelta.mul_le (h : WithinDelta bps n n') : n' * 10000 ≤ n * (10001 + bps) := by
  have hrise : ((n' : ℤ) - n) * maxBps ≤ |(n' : ℤ) - n| * maxBps :=
    mul_le_mul_of_nonneg_right (le_abs_self _) (by positivity)
  have hlt : ((n' : ℤ) - n) * maxBps < (bps + 1) * n := hrise.trans_lt h
  simp only [maxBps] at hlt
  push_cast at hlt
  zify
  nlinarith only [hlt]

/-- The guard cannot be disarmed. -/
theorem WithinDelta.pos (h : WithinDelta bps n n') (hbps : bps < maxBps) : 0 < n' := by
  by_contra hzero
  obtain rfl : n' = 0 := by omega
  -- a fall to zero is one of the whole
  have hall : (n : ℤ) * maxBps < (bps + 1) * n := by
    simpa [WithinDelta] using h
  have hle : ((bps : ℤ) + 1) * n ≤ maxBps * n :=
    mul_le_mul_of_nonneg_right (by exact_mod_cast hbps) (by positivity)
  rw [mul_comm] at hall
  exact absurd (hall.trans_le hle) (lt_irrefl _)

/-- A change of a basis point more than the limit is refused. -/
theorem updateVaultNav_beyond {s : VaultState} {authority : Pubkey} {remaining : List AccountInfo}
    (hbps : 0 < s.vault.maxNavDeltaBps) (hnav : 0 < s.vault.nav)
    (hbeyond : (s.vault.maxNavDeltaBps + 1) * s.vault.nav ≤ |(n : ℤ) - s.vault.nav| * maxBps) :
    ∃ e, updateVaultNav s authority n remaining = .error e := by
  cases h : updateVaultNav s authority n remaining with
  | error e => exact ⟨e, rfl⟩
  | ok s' =>
    obtain ⟨s₁, rest, s₂, h⟩ := updateVaultNav_iff.1 h
    exact absurd (validateNavDelta_ok h.delta hbps hnav) (not_lt.2 hbeyond)

/-! ### Runs -/

/-- The updates a run makes. -/
def navUpdates (tr : List (Transition ManagedState ManagedAction)) : ℕ :=
  tr.countP fun x => (postedNav x).isSome

/-- One step of a run: the NAV stays, or an update moves it within the limit. -/
theorem nav_step {x : Transition ManagedState ManagedAction}
    (he : execManaged verify x.pre x.act = .ok x.post) :
    (postedNav x = none ∧ x.post.core.vault.nav = x.pre.core.vault.nav) ∨
      ((postedNav x).isSome ∧ (0 < x.pre.core.vault.maxNavDeltaBps → 0 < x.pre.core.vault.nav →
        WithinDelta x.pre.core.vault.maxNavDeltaBps x.pre.core.vault.nav
          x.post.core.vault.nav)) := by
  rcases execManaged_quote he with ⟨hnone, hquote⟩ | ⟨authority, u, remaining, -, hposted, hupdate⟩
  · exact .inl ⟨hnone, congrArg Quote.nav hquote⟩
  · refine .inr ⟨by rw [hposted]; rfl, fun hbps hnav => ?_⟩
    obtain ⟨hu, -⟩ := updateVaultNav_quote hupdate
    obtain ⟨s₁, rest, s₂, hposting⟩ := updateVaultNav_iff.1 hupdate
    have hnav' : x.post.core.vault.nav = u := hu
    rw [hnav']
    exact validateNavDelta_ok hposting.delta hbps hnav

/-- The bounds of the steps compound. -/
theorem nav_of_run (hrun : ManagedRun verify t₀ tr t) (hpos : 0 < bps) (hbps : bps < maxBps)
    (hnav : 0 < t₀.core.vault.nav)
    (hlimit : ∀ x ∈ tr, (postedNav x).isSome → x.pre.core.vault.maxNavDeltaBps = bps) :
    (∀ x ∈ tr, (postedNav x).isSome →
      0 < x.pre.core.vault.nav ∧
        WithinDelta bps x.pre.core.vault.nav x.post.core.vault.nav) ∧
      0 < t.core.vault.nav ∧
      t₀.core.vault.nav * (9999 - bps) ^ navUpdates tr ≤
        t.core.vault.nav * 10000 ^ navUpdates tr ∧
      t.core.vault.nav * 10000 ^ navUpdates tr ≤
        t₀.core.vault.nav * (10001 + bps) ^ navUpdates tr := by
  induction hrun with
  | nil => exact ⟨by simp, hnav, by simp [navUpdates], by simp [navUpdates]⟩
  | @snoc tr t t' a hr he ih =>
    obtain ⟨hsteps, hpos', hlow, hhigh⟩ := ih fun x hx =>
      hlimit x (List.mem_append_left _ hx)
    have hcount : navUpdates (tr ++ [⟨t, a, t'⟩]) =
        navUpdates tr + if (postedNav ⟨t, a, t'⟩).isSome then 1 else 0 := by
      simp [navUpdates, List.countP_append, List.countP_singleton]
    rcases nav_step (x := ⟨t, a, t'⟩) he with ⟨hnone, hsame⟩ | ⟨hposted, hwithin⟩
    · -- no update: the count and the NAV stay
      have hsame : t'.core.vault.nav = t.core.vault.nav := hsame
      rw [hnone, Option.isSome_none, if_neg Bool.false_ne_true, Nat.add_zero] at hcount
      rw [hcount, hsame]
      refine ⟨fun x hx hx' => ?_, hpos', hlow, hhigh⟩
      rcases List.mem_append.1 hx with hx | hx
      · exact hsteps x hx hx'
      · rw [List.mem_singleton.1 hx, hnone] at hx'
        cases hx'
    · -- one update more, by one factor more
      have hm : t.core.vault.maxNavDeltaBps = bps := hlimit ⟨t, a, t'⟩ (by simp) hposted
      have hwithin : WithinDelta bps t.core.vault.nav t'.core.vault.nav := by
        have hw := hwithin (by show 0 < t.core.vault.maxNavDeltaBps; omega) hpos'
        rwa [show (Transition.mk t a t').pre.core.vault.maxNavDeltaBps = bps from hm] at hw
      rw [if_pos hposted] at hcount
      rw [hcount, pow_succ, pow_succ, pow_succ]
      refine ⟨fun x hx hx' => ?_, hwithin.pos hbps, ?_, ?_⟩
      · rcases List.mem_append.1 hx with hx | hx
        · exact hsteps x hx hx'
        · rw [List.mem_singleton.1 hx]
          exact ⟨hpos', hwithin⟩
      · calc t₀.core.vault.nav * ((9999 - bps) ^ navUpdates tr * (9999 - bps))
            = t₀.core.vault.nav * (9999 - bps) ^ navUpdates tr * (9999 - bps) := by ring
          _ ≤ t.core.vault.nav * 10000 ^ navUpdates tr * (9999 - bps) :=
              Nat.mul_le_mul_right _ hlow
          _ = t.core.vault.nav * (9999 - bps) * 10000 ^ navUpdates tr := by ring
          _ ≤ t'.core.vault.nav * 10000 * 10000 ^ navUpdates tr :=
              Nat.mul_le_mul_right _ (hwithin.le_mul hbps)
          _ = t'.core.vault.nav * (10000 ^ navUpdates tr * 10000) := by ring
      · calc t'.core.vault.nav * (10000 ^ navUpdates tr * 10000)
            = t'.core.vault.nav * 10000 * 10000 ^ navUpdates tr := by ring
          _ ≤ t.core.vault.nav * (10001 + bps) * 10000 ^ navUpdates tr :=
              Nat.mul_le_mul_right _ hwithin.mul_le
          _ = t.core.vault.nav * 10000 ^ navUpdates tr * (10001 + bps) := by ring
          _ ≤ t₀.core.vault.nav * (10001 + bps) ^ navUpdates tr * (10001 + bps) :=
              Nat.mul_le_mul_right _ hhigh
          _ = t₀.core.vault.nav * ((10001 + bps) ^ navUpdates tr * (10001 + bps)) := by ring

/-- **The NAV guard holds over runs.**  With a limit below the whole, in force at every update of a
run from a positive NAV: no update sets the NAV to zero, each stays within the limit and one basis
point, the bounds compound, and an update beyond them is refused in every state. -/
theorem nav_delta_guard (hrun : ManagedRun verify t₀ tr t) (hpos : 0 < bps) (hbps : bps < maxBps)
    (hnav : 0 < t₀.core.vault.nav)
    (hlimit : ∀ x ∈ tr, (postedNav x).isSome → x.pre.core.vault.maxNavDeltaBps = bps) :
    (∀ x ∈ tr, (postedNav x).isSome → x.post.core.vault.nav ≠ 0 ∧
      |(x.post.core.vault.nav : ℤ) - x.pre.core.vault.nav| * 10000 <
        (bps + 1) * x.pre.core.vault.nav) ∧
    t₀.core.vault.nav * (9999 - bps) ^ navUpdates tr ≤
      t.core.vault.nav * 10000 ^ navUpdates tr ∧
    t.core.vault.nav * 10000 ^ navUpdates tr ≤
      t₀.core.vault.nav * (10001 + bps) ^ navUpdates tr ∧
    ∀ (s : VaultState) (authority : Pubkey) (n : ℕ) (remaining : List AccountInfo),
      s.vault.maxNavDeltaBps = bps → 0 < s.vault.nav →
      (bps + 1) * s.vault.nav ≤ |(n : ℤ) - s.vault.nav| * 10000 →
      ∃ e, updateVaultNav s authority n remaining = .error e := by
  obtain ⟨hsteps, -, hlow, hhigh⟩ := nav_of_run hrun hpos hbps hnav hlimit
  refine ⟨fun x hx hposted => ?_, hlow, hhigh, fun s authority n remaining hs hn hbeyond => ?_⟩
  · obtain ⟨-, hwithin⟩ := hsteps x hx hposted
    exact ⟨(hwithin.pos hbps).ne', hwithin⟩
  · obtain rfl := hs
    exact updateVaultNav_beyond hpos hn hbeyond

namespace Scenario

/-- Limit how far one update may move the NAV. -/
def limitDelta (bps : ℕ) : Action :=
  .config (.updateVault curator { maxNavDeltaBps := some bps })

end Scenario

open Scenario in
/-- **Non-vacuity.** Limited to 1%, up by 1.009% and down again by nearly as much. -/
theorem nav_delta_guard_at_work : ∃ (t₀ t : ManagedState)
    (tr : List (Transition ManagedState ManagedAction)), ManagedRun noCalls t₀ tr t ∧
      t₀.core.vault.nav = 1000000 ∧ navUpdates tr = 2 ∧
      1000000 * (9999 - 100) ^ 2 ≤ t.core.vault.nav * 10000 ^ 2 := by
  obtain ⟨t₀, tr, t, -, hrun, -, htest⟩ := exists_managed_run_from
    [.core (post 1000000), .core (limitDelta 100)]
    [.core (post 1010099), .core (wait 1), .core (post 1000000)]
    (fun t₀ tr _ => t₀.core.vault.nav = 1000000 && navUpdates tr = 2 &&
      tr.all fun x => x.pre.core.vault.maxNavDeltaBps = 100) (by decide +kernel)
  simp only [Bool.and_eq_true, decide_eq_true_eq, List.all_eq_true] at htest
  obtain ⟨⟨hnav, hcount⟩, hlimit⟩ := htest
  obtain ⟨-, hlow, -⟩ := nav_delta_guard hrun (by decide) (by decide) (by rw [hnav]; decide)
    fun x hx _ => hlimit x hx
  rw [hnav, hcount] at hlow
  exact ⟨t₀, t, tr, hrun, hnav, hcount, hlow⟩

end AsyncVault
