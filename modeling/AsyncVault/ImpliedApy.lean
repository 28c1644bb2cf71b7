/-
AsyncVault/ImpliedApy.lean

How fast a NAV may rise.

The guard compares the gain of an update, annualised, with the configured rate,
and rounds down twice on the way; so an accepted gain lies within the rate up to
one basis point each time (`WithinApy`).  It needs some time to have passed,
though.  An update in the second of the one before is not compared with
anything, and stays within the rate only by gaining next to nothing
(`within_apy_iff`).
-/
import AsyncVault.NavHistory

namespace AsyncVault

open Checked Machine

variable {t₀ t : ManagedState} {verify : MerkleCheck}
variable {p x : Transition ManagedState ManagedAction}
variable {tr₁ tr₂ tr₃ : List (Transition ManagedState ManagedAction)}

/-- From the NAV `n` at the time `at₀` to `n'` at `at₁`, no more is gained than the annual rate of
`bps` allows, a basis point more of the rate and one of the NAV apart. -/
def WithinApy (bps n n' : ℕ) (at₀ at₁ : ℤ) : Prop :=
  ((n' : ℤ) - n) * maxBps * secondsPerYear ≤ (bps + 1) * n * (at₁ - at₀) + n * secondsPerYear

instance (bps n n' : ℕ) (at₀ at₁ : ℤ) : Decidable (WithinApy bps n n' at₀ at₁) :=
  inferInstanceAs (Decidable (_ ≤ _))

/-! ### The guard -/

/-- What the guard establishes of a gain over `elapsed` seconds. -/
theorem validateImpliedApy_ok {v : Vault} {n' : ℕ} {now : ℤ} {u : Unit}
    (h : v.validateImpliedApy n' now = .ok u) (hbps : 0 < v.maxImpliedApyBps) (hnav : 0 < v.nav)
    (hgain : v.nav < n') (hstamp : v.lastNavUpdateTimestamp ≠ 0)
    (helapsed : v.lastNavUpdateTimestamp < now) :
    (n' - v.nav) * maxBps / v.nav * secondsPerYear / (now - v.lastNavUpdateTimestamp).toNat ≤
      v.maxImpliedApyBps := by
  unfold Vault.validateImpliedApy at h
  have hguard : ¬(v.maxImpliedApyBps = 0 ∨ v.nav = 0 ∨ n' ≤ v.nav ∨
    v.lastNavUpdateTimestamp = 0) := by
    omega
  simp only [hguard, if_false, bind_eq_ok, subInt_eq_ok] at h
  obtain ⟨_, ⟨-, rfl⟩, h⟩ := h
  rw [if_neg (by omega)] at h
  simp only [bind_eq_ok, sub_eq_ok, mul_eq_ok, div_eq_ok, ensure_eq_ok] at h
  obtain ⟨_, ⟨-, rfl⟩, _, ⟨-, rfl⟩, _, ⟨-, rfl⟩, _, ⟨-, rfl⟩, _, ⟨-, rfl⟩, hle⟩ := h
  exact hle

/-- Both roundings undone. -/
theorem within_of_floors {gain n bps seconds : ℕ} (hn : 0 < n) (hseconds : 0 < seconds)
    (h : gain * maxBps / n * secondsPerYear / seconds ≤ bps) :
    gain * maxBps * secondsPerYear ≤ (bps + 1) * n * seconds + n * secondsPerYear := by
  have hrate : gain * maxBps / n * secondsPerYear < (bps + 1) * seconds := by
    rw [← Nat.div_lt_iff_lt_mul hseconds]
    omega
  have hgain : gain * maxBps < (gain * maxBps / n + 1) * n := by
    rw [← Nat.div_lt_iff_lt_mul hn]
    omega
  calc gain * maxBps * secondsPerYear
      ≤ (gain * maxBps / n + 1) * n * secondsPerYear := Nat.mul_le_mul_right _ hgain.le
    _ = n * (gain * maxBps / n * secondsPerYear) + n * secondsPerYear := by ring
    _ ≤ n * ((bps + 1) * seconds) + n * secondsPerYear :=
        Nat.add_le_add_right (Nat.mul_le_mul_left _ hrate.le) _
    _ = (bps + 1) * n * seconds + n * secondsPerYear := by ring

/-! ### Updates in a row -/

/-- What a NAV update records, and that it passed the guard. -/
theorem posted_ok {n : ℕ} (hp : postedNav p = some n)
    (he : execManaged verify p.pre p.act = .ok p.post) :
    p.post.core.vault.nav = n ∧
      p.post.core.vault.lastNavUpdateTimestamp = p.pre.core.clock.unixTimestamp ∧
      p.pre.core.vault.validateImpliedApy n p.pre.core.clock.unixTimestamp = .ok () := by
  rcases execManaged_quote he with ⟨hnone, -⟩ | ⟨authority, u, remaining, -, hu, hupdate⟩
  · rw [hp] at hnone
    cases hnone
  · obtain rfl := Option.some.inj (hp.symm.trans hu)
    obtain ⟨hnav, -, -, htime, -⟩ := updateVaultNav_quote hupdate
    refine ⟨hnav, htime, ?_⟩
    obtain ⟨s₁, rest, s₂, hposting⟩ := updateVaultNav_iff.1 hupdate
    exact hposting.apy

/-- **How far the guard bounds a gain.**  Of two NAV updates in a row, the second one stays within
the annual rate exactly when it comes later, or gains no more than a basis point. -/
theorem within_apy_iff {n n' bps : ℕ}
    (hrun : ManagedRun verify t₀ (tr₁ ++ p :: tr₂ ++ x :: tr₃) t)
    (hp : postedNav p = some n) (hx : postedNav x = some n')
    (hbetween : ∀ y ∈ tr₂, postedNav y = none)
    (hbps : x.pre.core.vault.maxImpliedApyBps = bps) (hpos : 0 < bps)
    (hn : 0 < n) (hgain : n < n') (hstamp : 0 < p.pre.core.clock.unixTimestamp)
    (hle : p.pre.core.clock.unixTimestamp ≤ x.pre.core.clock.unixTimestamp) :
    WithinApy bps n n' p.pre.core.clock.unixTimestamp x.pre.core.clock.unixTimestamp ↔
      p.pre.core.clock.unixTimestamp < x.pre.core.clock.unixTimestamp ∨
        (n' - n) * maxBps ≤ n := by
  -- nothing between the two updates posts a NAV, so the second is measured from the first
  have hquote := quote_between hrun hbetween
  obtain ⟨hnav, htime, -⟩ := posted_ok hp (hrun.exec_of_mem (by simp))
  obtain ⟨-, -, hguard⟩ := posted_ok hx (hrun.exec_of_mem (by simp))
  have hnav' : x.pre.core.vault.nav = n := (congrArg Quote.nav hquote).trans hnav
  have htime' : x.pre.core.vault.lastNavUpdateTimestamp = p.pre.core.clock.unixTimestamp :=
    (congrArg Quote.timestamp hquote).trans htime
  generalize x.pre.core.clock.unixTimestamp = at₁ at hle hguard ⊢
  generalize p.pre.core.clock.unixTimestamp = at₀ at hle hstamp htime' ⊢
  rcases hle.lt_or_eq with hlt | rfl
  · -- time passed: the guard applies
    refine ⟨fun _ => .inl hlt, fun _ => ?_⟩
    have hfloors := validateImpliedApy_ok hguard (by omega) (by omega) (by omega) (by omega)
      (by omega)
    rw [hnav', htime', hbps] at hfloors
    have hwithin := within_of_floors hn (by omega) hfloors
    obtain ⟨seconds, hseconds⟩ := Int.eq_ofNat_of_zero_le (sub_nonneg.2 hlt.le)
    obtain ⟨gain, rfl⟩ := Nat.exists_eq_add_of_lt hgain
    rw [hseconds] at hwithin
    unfold WithinApy
    rw [hseconds]
    have hdiff : n + gain + 1 - n = gain + 1 := by omega
    rw [hdiff, Int.toNat_natCast] at hwithin
    have hcast : ((n + gain + 1 : ℕ) : ℤ) - n = ((gain + 1 : ℕ) : ℤ) := by
      push_cast
      ring
    rw [hcast]
    exact_mod_cast hwithin
  · -- no time passed: only a gain of a basis point fits
    obtain ⟨gain, rfl⟩ := Nat.exists_eq_add_of_lt hgain
    have hdiff : n + gain + 1 - n = gain + 1 := by omega
    have hcast : ((n + gain + 1 : ℕ) : ℤ) - n = ((gain + 1 : ℕ) : ℤ) := by
      push_cast
      ring
    unfold WithinApy
    rw [hdiff, hcast, sub_self, mul_zero, zero_add]
    have hyear : (0 : ℤ) < secondsPerYear := by decide
    rw [mul_le_mul_iff_left₀ hyear]
    constructor
    · intro h
      exact .inr (by exact_mod_cast h)
    · rintro (hlt | h)
      · exact absurd hlt (lt_irrefl _)
      · exact_mod_cast h

namespace Scenario

/-- Limit the annual rate at which the NAV may rise. -/
def limitApy (bps : ℕ) : Action :=
  .config (.updateVault curator { maxImpliedApyBps := some bps })

/-- A run in which the two last actions post, with one that does not between them. -/
theorem exists_posts (script : List Action) (a b c : Action) (hb : b.postedNav = none)
    (p : ManagedState → ManagedState → ManagedState → Bool)
    (h : managedPasses ((script ++ [a, b, c]).map .core) (fun tr _ =>
      match tr.reverse with
      | z :: y :: x :: _ => p x.pre y.pre z.pre
      | _ => false) = true) :
    ∃ s₀ tr₁ x y z s, ManagedState.Created s₀ ∧
      ManagedRun noCalls s₀ (tr₁ ++ x :: [y] ++ z :: []) s ∧ x.act = .core a ∧
      (∀ y' ∈ [y], postedNav y' = none) ∧ z.act = .core c ∧ p x.pre y.pre z.pre = true := by
  obtain ⟨s₀, tr, s, h₀, hrun, hacts, hp⟩ := exists_managed_run _ _ h
  obtain ⟨tr₁, l, rfl, hacts₁, hl⟩ := List.map_eq_append_iff.1 (by
    rw [List.map_append] at hacts
    exact hacts)
  obtain ⟨x, l, rfl, hx, hl⟩ := List.map_eq_cons_iff.1 hl
  obtain ⟨y, l, rfl, hy, hl⟩ := List.map_eq_cons_iff.1 hl
  obtain ⟨z, l, rfl, hz, hl⟩ := List.map_eq_cons_iff.1 hl
  obtain rfl := List.map_eq_nil_iff.1 hl
  refine ⟨s₀, tr₁, x, y, z, s, h₀, by simpa using hrun, hx, ?_, hz, by simpa using hp⟩
  intro y' hy'
  rw [List.mem_singleton.1 hy', postedNav, hy]
  exact hb

end Scenario

open Scenario in
/-- **Non-vacuity.** At 1% a year, a year apart: a gain of 1%. -/
theorem within_apy_of_a_year : ∃ p x : Transition ManagedState ManagedAction,
    p.pre.core.clock.unixTimestamp < x.pre.core.clock.unixTimestamp ∧
      WithinApy 100 10000 10100 p.pre.core.clock.unixTimestamp
        x.pre.core.clock.unixTimestamp := by
  obtain ⟨s₀, tr₁, p, y, x, s, h₀, hrun, hp, hy, hx, htest⟩ := exists_posts
    [limitApy 100, wait 1] (post 10000) (wait 31536001) (post 10100) rfl
    (fun s _ s' => s'.core.vault.maxImpliedApyBps = 100 && s.core.clock.unixTimestamp = 1 &&
      s'.core.clock.unixTimestamp = 31536001) (by decide +kernel)
  simp only [Bool.and_eq_true, decide_eq_true_eq] at htest
  obtain ⟨⟨hbps, hat₀⟩, hat₁⟩ := htest
  have hlt : p.pre.core.clock.unixTimestamp < x.pre.core.clock.unixTimestamp := by
    rw [hat₀, hat₁]
    decide
  have hposted : postedNav p = some 10000 := by rw [postedNav, hp]; rfl
  have hposted' : postedNav x = some 10100 := by rw [postedNav, hx]; rfl
  exact ⟨p, x, hlt, (within_apy_iff hrun hposted hposted' hy hbps (by decide) (by decide)
    (by decide) (by rw [hat₀]; decide) hlt.le).2 (.inl hlt)⟩

open Scenario in
/-- **A second update in the same second gains whatever it likes**: at 1% a year, tenfold. -/
theorem gain_within_a_second : ∃ s₀ tr₁ p tr₂ x tr₃ s, ManagedState.Created s₀ ∧
    ManagedRun noCalls s₀ (tr₁ ++ p :: tr₂ ++ x :: tr₃) s ∧ (∀ y ∈ tr₂, postedNav y = none) ∧
    (∀ y ∈ p :: tr₂ ++ x :: tr₃, y.pre.core.vault.maxImpliedApyBps = 100) ∧
    postedNav p = some 10 ∧ postedNav x = some 100 ∧
    0 < p.pre.core.clock.unixTimestamp ∧
    p.pre.core.clock.unixTimestamp ≤ x.pre.core.clock.unixTimestamp ∧
    ¬WithinApy 100 10 100 p.pre.core.clock.unixTimestamp x.pre.core.clock.unixTimestamp := by
  obtain ⟨s₀, tr₁, p, y, x, s, h₀, hrun, hp, hy, hx, htest⟩ := exists_posts
    [limitApy 100, wait 1] (post 10) (wait 1) (post 100) rfl
    (fun s t s' => s.core.vault.maxImpliedApyBps = 100 && t.core.vault.maxImpliedApyBps = 100 &&
      s'.core.vault.maxImpliedApyBps = 100 && s.core.clock.unixTimestamp = 1 &&
      s'.core.clock.unixTimestamp = 1) (by decide +kernel)
  simp only [Bool.and_eq_true, decide_eq_true_eq] at htest
  obtain ⟨⟨⟨⟨hbps, hbps'⟩, hbps''⟩, hat₀⟩, hat₁⟩ := htest
  -- the limit is 1% at every transition from the first update on
  refine ⟨s₀, tr₁, p, [y], x, [], s, h₀, hrun, hy, ?_, by rw [postedNav, hp]; rfl,
    by rw [postedNav, hx]; rfl, by rw [hat₀]; decide, by rw [hat₀, hat₁], ?_⟩
  · intro y' hy'
    simp only [List.cons_append, List.nil_append, List.mem_cons, List.not_mem_nil, or_false] at hy'
    rcases hy' with rfl | rfl | rfl
    · exact hbps
    · exact hbps'
    · exact hbps''
  · rw [hat₀, hat₁]
    decide

end AsyncVault
