/-
AsyncVault/Lib/FixedPoint.lean

Fixed-point valuation of a number of shares.

A price is quoted per `P` shares (`P` is a power of ten in practice, any
positive number here).  Three floored conversions relate shares `S`, a price
`p` and a value `v`:

    worth P S p    = ⌊S·p / P⌋      the value of the shares at the price
    sharesFor P p v = ⌊v·P / p⌋     the shares a value buys at the price
    priceOf P S v   = ⌊v·P / S⌋     the price at which the shares have the value

None of them is the inverse of another: each floors.  The lemmas below say how
far a round trip can move a value.  `worth_priceOf_le` and `le_worth_priceOf`
bound the value recovered through a price, from above by the value itself and
from below up to one price unit on every share (`S ⌈/⌉ P`); `priceOf_worth_*`
give the price recovered through a value, which is the price itself exactly
when `P` divides `S·p`.  Read the other way, `costOf` is the least value whose
price makes the shares worth a given amount (`le_worth_priceOf_iff`).  And
`RoundsAlike` says of two quotients, by their terms, that they round down to the
same number.
-/
import Mathlib.Algebra.Order.Floor.Div
import Mathlib.Tactic.Linarith
import Mathlib.Tactic.Ring

namespace FixedPoint

variable {P S S' p p' v v' : ℕ}

/-- The value of `S` shares at price `p`. -/
def worth (P S p : ℕ) : ℕ := S * p / P

/-- The shares a value `v` buys at price `p`. -/
def sharesFor (P p v : ℕ) : ℕ := v * P / p

/-- The price at which `S` shares have the value `v`. -/
def priceOf (P S v : ℕ) : ℕ := v * P / S

/-! ### Single conversions -/

@[simp] theorem worth_zero_shares (P p : ℕ) : worth P 0 p = 0 := by simp [worth]

@[simp] theorem worth_zero_price (P S : ℕ) : worth P S 0 = 0 := by simp [worth]

@[simp] theorem priceOf_zero_shares (P v : ℕ) : priceOf P 0 v = 0 := by simp [priceOf]

@[simp] theorem priceOf_zero_value (P S : ℕ) : priceOf P S 0 = 0 := by simp [priceOf]

theorem worth_mono_price (h : p ≤ p') : worth P S p ≤ worth P S p' :=
  Nat.div_le_div_right (Nat.mul_le_mul_left S h)

theorem worth_mono_shares (h : S ≤ S') : worth P S p ≤ worth P S' p :=
  Nat.div_le_div_right (Nat.mul_le_mul_right p h)

/-- The value of shares, put back in share units, never exceeds what they are
worth exactly. -/
theorem worth_mul_le (P S p : ℕ) : worth P S p * P ≤ S * p :=
  Nat.div_mul_le_self _ _

/-- The shares bought never cost more than the value paid. -/
theorem sharesFor_mul_le (P p v : ℕ) : sharesFor P p v * p ≤ v * P :=
  Nat.div_mul_le_self _ _

theorem priceOf_mul_le (P S v : ℕ) : priceOf P S v * S ≤ v * P :=
  Nat.div_mul_le_self _ _

theorem lt_succ_priceOf_mul (hS : 0 < S) (P v : ℕ) : v * P < (priceOf P S v + 1) * S := by
  rw [Nat.mul_comm (priceOf P S v + 1)]
  exact Nat.lt_mul_div_succ _ hS

/-- A price is the recovered one exactly when the value lies between it and the
next. -/
theorem priceOf_eq_iff (hS : 0 < S) :
    priceOf P S v = p ↔ S * p ≤ v * P ∧ v * P < S * (p + 1) := by
  rw [priceOf, Nat.div_eq_iff hS]
  constructor
  · rintro ⟨h₁, h₂⟩
    refine ⟨by rwa [Nat.mul_comm], ?_⟩
    rw [Nat.mul_add, Nat.mul_one, Nat.mul_comm S p]
    omega
  · rintro ⟨h₁, h₂⟩
    refine ⟨by rwa [Nat.mul_comm], ?_⟩
    rw [Nat.mul_add, Nat.mul_one, Nat.mul_comm S p] at h₂
    omega

theorem lt_succ_worth_mul (hP : 0 < P) (S p : ℕ) : S * p < (worth P S p + 1) * P := by
  rw [Nat.mul_comm (worth P S p + 1)]
  exact Nat.lt_mul_div_succ _ hP

theorem lt_succ_sharesFor_mul (hp : 0 < p) (P v : ℕ) : v * P < (sharesFor P p v + 1) * p := by
  rw [Nat.mul_comm (sharesFor P p v + 1)]
  exact Nat.lt_mul_div_succ _ hp

theorem sharesFor_mono (h : v ≤ v') : sharesFor P p v ≤ sharesFor P p v' :=
  Nat.div_le_div_right (Nat.mul_le_mul_right P h)

/-- A higher price buys no more shares. -/
theorem sharesFor_anti (hp : 0 < p) (h : p ≤ p') : sharesFor P p' v ≤ sharesFor P p v :=
  Nat.div_le_div_left h hp

/-! ### Shares and their value -/

/-- Shares are worth at most what was paid for them. -/
theorem worth_sharesFor_le (P p v : ℕ) : worth P (sharesFor P p v) p ≤ v :=
  Nat.div_le_of_le_mul ((sharesFor_mul_le P p v).trans_eq (Nat.mul_comm v P))

/-- The value bought is short of what was paid by less than one share and one unit of value. -/
theorem sub_worth_sharesFor_lt (hP : 0 < P) (hp : 0 < p) (v : ℕ) :
    (v - worth P (sharesFor P p v) p) * P < p + P := by
  have hshares := lt_succ_sharesFor_mul hp P v
  have hworth := lt_succ_worth_mul hP (sharesFor P p v) p
  rw [Nat.sub_mul]
  rw [Nat.add_mul, Nat.one_mul] at hshares hworth
  omega

/-- The value of shares buys at most the shares. -/
theorem sharesFor_worth_le (P S p : ℕ) : sharesFor P p (worth P S p) ≤ S :=
  Nat.div_le_of_le_mul ((worth_mul_le P S p).trans_eq (Nat.mul_comm S p))

/-- A value bought in two parts buys no more shares than bought at once. -/
theorem sharesFor_add_le (P p v v' : ℕ) :
    sharesFor P p v + sharesFor P p v' ≤ sharesFor P p (v + v') := by
  rw [sharesFor, sharesFor, sharesFor, Nat.add_mul]
  exact Nat.div_add_div_le_add_div

/-- Shares sold in two parts are worth no more than sold at once. -/
theorem worth_add_le (P S S' p : ℕ) : worth P S p + worth P S' p ≤ worth P (S + S') p := by
  rw [worth, worth, worth, Nat.add_mul]
  exact Nat.div_add_div_le_add_div

/-! ### Value through a price -/

/-- **No value is created**: shares priced from a value are worth at most it. -/
theorem worth_priceOf_le (P S v : ℕ) : worth P S (priceOf P S v) ≤ v := by
  have h := priceOf_mul_le P S v
  rw [Nat.mul_comm] at h
  exact Nat.div_le_of_le_mul (by rwa [Nat.mul_comm P v])

/-- **Little value is lost**: shares priced from a value are worth the value up
to one price unit on every share. -/
theorem le_worth_priceOf (hP : 0 < P) (hS : 0 < S) (v : ℕ) :
    v ≤ worth P S (priceOf P S v) + S ⌈/⌉ P := by
  have hlt := lt_succ_priceOf_mul hS P v
  have hfloor : S * priceOf P S v < P * (worth P S (priceOf P S v) + 1) := by
    simpa [worth] using Nat.lt_mul_div_succ (S * priceOf P S v) hP
  have hceil : S ≤ P * (S ⌈/⌉ P) := by
    have := (ceilDiv_le_iff_le_mul hP).1 (le_refl (S ⌈/⌉ P))
    exact this
  refine Nat.lt_succ_iff.1 (Nat.lt_of_mul_lt_mul_right (a := P) ?_)
  calc v * P < (priceOf P S v + 1) * S := hlt
    _ = S * priceOf P S v + S := by ring
    _ ≤ P * (worth P S (priceOf P S v) + 1) + P * (S ⌈/⌉ P) := by omega
    _ = (worth P S (priceOf P S v) + S ⌈/⌉ P + 1) * P := by ring

/-! ### Price through a value -/

/-- The price recovered from the value of shares is at most the price. -/
theorem priceOf_worth_le (P S p : ℕ) : priceOf P S (worth P S p) ≤ p := by
  rcases Nat.eq_zero_or_pos S with rfl | hS
  · simp
  · have h := worth_mul_le P S p
    exact Nat.div_le_of_le_mul h

/-- The price survives the round trip exactly when no floor was taken. -/
theorem priceOf_worth_eq_iff (hS : 0 < S) :
    priceOf P S (worth P S p) = p ↔ P ∣ S * p := by
  rw [priceOf_eq_iff hS]
  have hle := worth_mul_le P S p
  constructor
  · rintro ⟨h, -⟩
    exact Dvd.intro_left _ (le_antisymm hle h)
  · intro hd
    have he : worth P S p * P = S * p := Nat.div_mul_cancel hd
    exact ⟨he.ge, by rw [he, Nat.mul_add]; omega⟩

/-! ### What a price takes -/

/-- The least value whose price makes the shares worth `k`: the price is rounded up to be worth
`k`, and the value to have the price. -/
def costOf (P S k : ℕ) : ℕ := (S * ((k * P) ⌈/⌉ S)) ⌈/⌉ P

theorem le_worth_iff (hP : 0 < P) {k : ℕ} : k ≤ worth P S p ↔ k * P ≤ S * p :=
  Nat.le_div_iff_mul_le hP

theorem le_priceOf_iff (hS : 0 < S) : p ≤ priceOf P S v ↔ S * p ≤ v * P := by
  rw [priceOf, Nat.le_div_iff_mul_le hS, Nat.mul_comm p S]

/-- Shares are priced at all from one price unit on every share. -/
theorem priceOf_pos_iff (hP : 0 < P) (hS : 0 < S) : 0 < priceOf P S v ↔ S ⌈/⌉ P ≤ v := by
  have hone := le_priceOf_iff (P := P) (v := v) (p := 1) hS
  rwa [Nat.mul_one, Nat.mul_comm v, ← ceilDiv_le_iff_le_mul hP] at hone

/-- **What it takes**: priced from a value, shares are worth `k` exactly when the value is at
least its cost. -/
theorem le_worth_priceOf_iff (hP : 0 < P) (hS : 0 < S) {k : ℕ} :
    k ≤ worth P S (priceOf P S v) ↔ costOf P S k ≤ v := by
  calc k ≤ worth P S (priceOf P S v)
      ↔ k * P ≤ S * priceOf P S v := le_worth_iff hP
    _ ↔ (k * P) ⌈/⌉ S ≤ priceOf P S v := (ceilDiv_le_iff_le_mul hS).symm
    _ ↔ S * ((k * P) ⌈/⌉ S) ≤ v * P := le_priceOf_iff hS
    _ ↔ costOf P S k ≤ v := by rw [costOf, ceilDiv_le_iff_le_mul hP, Nat.mul_comm P v]

/-! ### Rounding alike -/

/-- The quotient `c / d` is as near to `a / b` as rounding down allows: it is lower by no more than
the fraction of `a / b`, and higher by less than this fraction lacks to one.  All of it is
multiplied by `b * d`, which makes the fraction a remainder. -/
def RoundsAlike (a b c d : ℕ) : Prop :=
  a * d ≤ c * b + a % b * d ∧ c * b + a % b * d < (a + b) * d

instance (a b c d : ℕ) : Decidable (RoundsAlike a b c d) := inferInstanceAs (Decidable (_ ∧ _))

theorem div_eq_div_iff_roundsAlike {a b c d : ℕ} (hb : 0 < b) (hd : 0 < d) :
    c / d = a / b ↔ RoundsAlike a b c d := by
  have hsplit : a * d = b * (a / b * d) + a % b * d := by
    rw [← Nat.mul_assoc, ← Nat.add_mul, Nat.div_add_mod]
  -- without the remainder, either bound is one on the rounded quotients
  have hlow : a * d ≤ c * b + a % b * d ↔ a / b ≤ c / d := by
    rw [hsplit, Nat.add_le_add_iff_right, Nat.mul_comm c b, Nat.mul_le_mul_left_iff hb,
      Nat.le_div_iff_mul_le hd]
  have hhigh : c * b + a % b * d < (a + b) * d ↔ c / d < a / b + 1 := by
    rw [Nat.add_mul a b d, hsplit, Nat.add_right_comm, Nat.add_lt_add_iff_right, Nat.mul_comm c b,
      ← Nat.mul_add, Nat.mul_lt_mul_left hb, Nat.div_lt_iff_lt_mul hd, Nat.add_mul, Nat.one_mul]
  rw [RoundsAlike, hlow, hhigh]
  omega

end FixedPoint
