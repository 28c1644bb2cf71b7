/-
AsyncVault/Conversion.lean

The laws of converting assets to shares and back at one NAV.

Both conversions floor, with different divisors, so neither undoes the other.
What matters to depositors and to the pool is the direction: a round trip never
gains (`worth_sharesFor_le`, `sharesFor_worth_le`), it loses less than the price
of one share and one unit, and an amount split over several requests never buys
or pays more than the whole.  Nothing is asked of the NAV or the decimals beyond
that the calls succeed.
-/
import AsyncVault.Fee

namespace AsyncVault

open Checked FixedPoint

variable {nav nav' decimals a b s t x y z : ℕ}

/-! ### One conversion -/

/-- Shares bought are the floored quotient, at a positive NAV. -/
theorem shares_eq (h : calculateShares nav decimals a = .ok x) :
    0 < nav ∧ x = sharesFor (10 ^ decimals) nav a :=
  ⟨(calculateShares_ok h).1, (calculateShares_ok h).2.1⟩

theorem assets_eq (h : calculateAssets nav decimals s = .ok x) :
    x = worth (10 ^ decimals) s nav :=
  (calculateAssets_eq_ok.1 h).2.2.2.2

/-! ### Several requests -/

/-- What is converted part by part is no more than what is converted at once. -/
theorem sum_le_of_superadditive {f : ℕ → Result ℕ} {g : ℕ → ℕ}
    (hf : ∀ {a x}, f a = .ok x → x = g a) (hg : ∀ a b, g a + g b ≤ g (a + b))
    {parts results : List ℕ} (h : List.Forall₂ (fun a x => f a = .ok x) parts results) :
    results.sum ≤ g parts.sum := by
  induction h with
  | nil => exact Nat.zero_le _
  | cons head _ ih =>
    rw [List.sum_cons, List.sum_cons, hf head]
    exact (Nat.add_le_add_left ih _).trans (hg _ _)

/-- **The conversion laws.**  At one NAV a deposit and its redemption, in either order, never
profit, and the first loses less than a share's price and one unit; an amount split over requests
never buys or pays more than the whole; both conversions are monotone in the amount, shares are
antitone and assets monotone in the NAV. -/
theorem conversion_laws (nav decimals : ℕ) :
    (∀ a s a', calculateShares nav decimals a = .ok s → calculateAssets nav decimals s = .ok a' →
      a' ≤ a ∧ (a - a') * 10 ^ decimals < nav + 10 ^ decimals) ∧
    (∀ s a s', calculateAssets nav decimals s = .ok a → calculateShares nav decimals a = .ok s' →
      s' ≤ s) ∧
    (∀ a b x y z, calculateShares nav decimals a = .ok x → calculateShares nav decimals b = .ok y →
      calculateShares nav decimals (a + b) = .ok z → x + y ≤ z) ∧
    (∀ s t x y z, calculateAssets nav decimals s = .ok x → calculateAssets nav decimals t = .ok y →
      calculateAssets nav decimals (s + t) = .ok z → x + y ≤ z) ∧
    (∀ amounts shares z, List.Forall₂ (fun a x => calculateShares nav decimals a = .ok x)
      amounts shares → calculateShares nav decimals amounts.sum = .ok z → shares.sum ≤ z) ∧
    (∀ shares amounts z, List.Forall₂ (fun s x => calculateAssets nav decimals s = .ok x)
      shares amounts → calculateAssets nav decimals shares.sum = .ok z → amounts.sum ≤ z) ∧
    (∀ a b x y, a ≤ b → calculateShares nav decimals a = .ok x →
      calculateShares nav decimals b = .ok y → x ≤ y) ∧
    (∀ s t x y, s ≤ t → calculateAssets nav decimals s = .ok x →
      calculateAssets nav decimals t = .ok y → x ≤ y) ∧
    (∀ nav' a x y, nav ≤ nav' → calculateShares nav decimals a = .ok x →
      calculateShares nav' decimals a = .ok y → y ≤ x) ∧
    (∀ nav' s x y, nav ≤ nav' → calculateAssets nav decimals s = .ok x →
      calculateAssets nav' decimals s = .ok y → x ≤ y) := by
  have hP : 0 < 10 ^ decimals := by positivity
  refine ⟨?_, ?_, ?_, ?_, ?_, ?_, ?_, ?_, ?_, ?_⟩
  · intro a s a' hs ha
    obtain ⟨hnav, rfl⟩ := shares_eq hs
    obtain rfl := assets_eq ha
    exact ⟨worth_sharesFor_le _ nav a, sub_worth_sharesFor_lt hP hnav a⟩
  · intro s a s' ha hs
    obtain ⟨-, rfl⟩ := shares_eq hs
    obtain rfl := assets_eq ha
    exact sharesFor_worth_le _ s nav
  · intro a b x y z hx hy hz
    rw [(shares_eq hx).2, (shares_eq hy).2, (shares_eq hz).2]
    exact sharesFor_add_le ..
  · intro s t x y z hx hy hz
    rw [assets_eq hx, assets_eq hy, assets_eq hz]
    exact worth_add_le ..
  · intro amounts shares z h hz
    rw [(shares_eq hz).2]
    exact sum_le_of_superadditive (fun h => (shares_eq h).2) (sharesFor_add_le _ nav) h
  · intro shares amounts z h hz
    rw [assets_eq hz]
    exact sum_le_of_superadditive assets_eq (fun s t => worth_add_le _ s t nav) h
  · intro a b x y hab hx hy
    rw [(shares_eq hx).2, (shares_eq hy).2]
    exact sharesFor_mono hab
  · intro s t x y hst hx hy
    rw [assets_eq hx, assets_eq hy]
    exact worth_mono_shares hst
  · intro nav' a x y hle hx hy
    rw [(shares_eq hx).2, (shares_eq hy).2]
    exact sharesFor_anti (shares_eq hx).1 hle
  · intro nav' s x y hle hx hy
    rw [assets_eq hx, assets_eq hy]
    exact worth_mono_price hle

/-- **Non-vacuity.** At a NAV of 3.5 per share a deposit of 1000 units buys 285 shares, which pay
997 units again; the units buy 284 shares. -/
theorem conversion_laws_at_work :
    (997 ≤ 1000 ∧ (1000 - 997) * 10 ^ 6 < 3500000 + 10 ^ 6) ∧ 284 ≤ 285 := by
  have hlaws := conversion_laws 3500000 6
  exact ⟨hlaws.1 1000 285 997 (by decide) (by decide),
    hlaws.2.1 285 997 284 (by decide) (by decide)⟩

end AsyncVault
