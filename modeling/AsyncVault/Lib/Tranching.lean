/-
AsyncVault/Lib/Tranching.lean

Allocation of a total between a senior and a junior claim.

`allocate A B T credit` divides a total `T` between a senior claim that stood at
`A` and a junior claim that stood at `B`.  A total that covers both claims pays
senior its claim and at most `credit` out of the surplus; the rest is junior's.
A total that does not is paid to senior first, up to its claim.

The properties are the ones a tranche waterfall is meant to have: the two parts
sum to the total (`allocate_add`), losses reach senior only after junior is
exhausted (`senior_lt_imp`), a surplus never takes from junior
(`le_junior_of_le`), and both parts are monotone in the total
(`allocate_mono`).  From which total on a claim is paid a given amount is read
off the claims and the credit (`le_senior_iff`, `le_junior_iff`).
-/
import Mathlib.Order.Lattice
import Mathlib.Algebra.Order.Monoid.Unbundled.MinMax
import Mathlib.Tactic.Common

namespace Tranching

variable {A B T T' credit : ℕ}

/-- The senior part of an allocation. -/
def senior (A B T credit : ℕ) : ℕ :=
  if A + B ≤ T then A + min (T - (A + B)) credit else min A T

/-- The junior part of an allocation: what senior leaves. -/
def junior (A B T credit : ℕ) : ℕ := T - senior A B T credit

theorem senior_le : senior A B T credit ≤ T := by
  unfold senior
  split <;> omega

/-- The two parts sum to the total. -/
theorem allocate_add : senior A B T credit + junior A B T credit = T :=
  Nat.add_sub_cancel' senior_le

theorem senior_of_le (h : A + B ≤ T) :
    senior A B T credit = A + min (T - (A + B)) credit := if_pos h

theorem senior_of_lt (h : T < A + B) : senior A B T credit = min A T := if_neg (by omega)

/-- Without a credit senior keeps its claim and no more. -/
theorem senior_no_credit (h : A + B ≤ T) : senior A B T 0 = A := by
  simp [senior_of_le h]

/-- Senior falls below its claim only when junior is exhausted. -/
theorem senior_lt_imp (h : senior A B T credit < A) : junior A B T credit = 0 := by
  unfold junior senior
  unfold senior at h
  split <;> split at h <;> omega

/-- A total that covers both claims leaves junior at least its own. -/
theorem le_junior_of_le (h : A + B ≤ T) : B ≤ junior A B T credit := by
  unfold junior
  rw [senior_of_le h]
  omega

/-- Senior is paid `k` out of any total that has it, as far as its claim goes; beyond its claim,
out of the credit, once the total covers junior's claim as well. -/
theorem le_senior_iff {k : ℕ} :
    k ≤ senior A B T credit ↔ if k ≤ A then k ≤ T else k ≤ A + credit ∧ B + k ≤ T := by
  unfold senior
  split <;> split <;> omega

/-- Junior is paid `k` once the total covers senior's claim and `k`; beyond its own claim, once it
covers senior's credit as well. -/
theorem le_junior_iff {k : ℕ} (hk : 0 < k) :
    k ≤ junior A B T credit ↔ (if k ≤ B then A + k else A + credit + k) ≤ T := by
  unfold junior senior
  split <;> split <;> omega

/-- Both parts are monotone in the total. -/
theorem allocate_mono (h : T ≤ T') :
    senior A B T credit ≤ senior A B T' credit ∧
      junior A B T credit ≤ junior A B T' credit := by
  unfold junior senior
  split <;> split <;> omega

end Tranching
