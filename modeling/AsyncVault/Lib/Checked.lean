/-
AsyncVault/Lib/Checked.lean

Checked machine arithmetic over an arbitrary error type.

A program that computes with `checked_add`, `checked_mul` and friends is a
chain of partial steps, each of which either fails with a chosen error or
returns the exact natural-number result.  Every operation here is therefore a
guard on an unbounded `Nat` computation: the width `w` of the type is an
argument (`w = 2 ^ 64` for a 64-bit counter), and the value returned is the
mathematical one.

Each operation comes with one lemma saying *exactly* when it succeeds and with
what (`…_eq_ok`).  Together with `bind_eq_ok` they turn "this `do` block
returned `b`" into the conjunction of the block's guards.  That a computation
does not fail in a given way (`Avoids`) is likewise taken apart step by step, and
that it succeeds only under a condition (`Guards`) is found at the step that
checks it, wherever in the sequence that step stands.
-/
import Mathlib.Algebra.Group.Nat.Defs
import Mathlib.Data.Nat.Basic
import Mathlib.Tactic.Common

namespace Checked

universe u

variable {ε : Type*} {α β : Type u}

/-! ### Sequencing -/

/-- Fail with `e` unless `c` holds. -/
def require (e : ε) (c : Prop) [Decidable c] : Except ε Unit :=
  if c then .ok () else .error e

/-- The value of an optional, or the error `e` when there is none. -/
def okOr (e : ε) : Option α → Except ε α
  | some a => .ok a
  | none => .error e

@[simp] theorem require_eq_ok {e : ε} {c : Prop} [Decidable c] {u : Unit} :
    require e c = .ok u ↔ c := by
  unfold require
  split <;> simp_all

@[simp] theorem okOr_eq_ok {e : ε} {o : Option α} {a : α} :
    okOr e o = .ok a ↔ o = some a := by
  cases o <;> simp [okOr]

/-- A sequence of two steps returns `b` exactly when the first returns some `a`
from which the second returns `b`. -/
@[simp] theorem bind_eq_ok {x : Except ε α} {f : α → Except ε β} {b : β} :
    (x >>= f) = .ok b ↔ ∃ a, x = .ok a ∧ f a = .ok b := by
  cases x <;> simp [bind, Except.bind]

@[simp] theorem pure_eq_ok {a b : α} :
    (pure a : Except ε α) = .ok b ↔ a = b := by
  simp [pure, Except.pure]

theorem isOk_iff {x : Except ε α} : x.isOk = true ↔ ∃ a, x = .ok a := by
  cases x <;> simp [Except.isOk, Except.toBool]

/-! ### Natural numbers below a width -/

/-- `checked_add`: the sum, when it is below the width `w`. -/
def add (e : ε) (w x y : ℕ) : Except ε ℕ :=
  if x + y < w then .ok (x + y) else .error e

/-- `checked_sub`: the difference, when it is not negative. -/
def sub (e : ε) (x y : ℕ) : Except ε ℕ :=
  if y ≤ x then .ok (x - y) else .error e

/-- `checked_mul`: the product, when it is below the width `w`. -/
def mul (e : ε) (w x y : ℕ) : Except ε ℕ :=
  if x * y < w then .ok (x * y) else .error e

/-- `checked_div`: the floored quotient, when the divisor is not zero. -/
def div (e : ε) (x y : ℕ) : Except ε ℕ :=
  if y = 0 then .error e else .ok (x / y)

/-- `checked_pow`: the power, when it is below the width `w`. -/
def pow (e : ε) (w x n : ℕ) : Except ε ℕ :=
  if x ^ n < w then .ok (x ^ n) else .error e

/-- `try_from`: the value itself, when the narrower width `w` holds it. -/
def narrow (e : ε) (w x : ℕ) : Except ε ℕ :=
  if x < w then .ok x else .error e

variable {e e' : ε} {w x y n z : ℕ}

@[simp] theorem add_eq_ok : add e w x y = .ok z ↔ x + y < w ∧ z = x + y := by
  unfold add
  split <;> grind

@[simp] theorem sub_eq_ok : sub e x y = .ok z ↔ y ≤ x ∧ z = x - y := by
  unfold sub
  split <;> grind

@[simp] theorem mul_eq_ok : mul e w x y = .ok z ↔ x * y < w ∧ z = x * y := by
  unfold mul
  split <;> grind

@[simp] theorem div_eq_ok : div e x y = .ok z ↔ 0 < y ∧ z = x / y := by
  unfold div
  split <;> simp_all [eq_comm, Nat.pos_iff_ne_zero]

@[simp] theorem pow_eq_ok : pow e w x n = .ok z ↔ x ^ n < w ∧ z = x ^ n := by
  unfold pow
  split <;> grind

@[simp] theorem narrow_eq_ok : narrow e w x = .ok z ↔ x < w ∧ z = x := by
  unfold narrow
  split <;> grind

/-! ### Signed integers -/

/-- `checked_sub` on a signed type of half-width `h` (values in `[-h, h)`). -/
def subInt (e : ε) (h x y : ℤ) : Except ε ℤ :=
  if -h ≤ x - y ∧ x - y < h then .ok (x - y) else .error e

@[simp] theorem subInt_eq_ok {h x y z : ℤ} :
    subInt e h x y = .ok z ↔ (-h ≤ x - y ∧ x - y < h) ∧ z = x - y := by
  unfold subInt
  split <;> grind

/-! ### Avoiding an error -/

/-- The computation does not fail with an error that satisfies `bad`. -/
def Avoids (bad : ε → Prop) (x : Except ε α) : Prop :=
  ∀ e, x = .error e → ¬bad e

variable {bad : ε → Prop}

/-- A sequence avoids an error when its first step does and its second does from
wherever the first leads. -/
@[simp] theorem avoids_bind {x : Except ε α} {f : α → Except ε β} :
    Avoids bad (x >>= f) ↔ Avoids bad x ∧ ∀ a, x = .ok a → Avoids bad (f a) := by
  cases x <;> simp [Avoids, bind, Except.bind]

@[simp] theorem avoids_pure {a : α} : Avoids bad (pure a : Except ε α) := by
  rintro e ⟨⟩

@[simp] theorem avoids_map {x : Except ε α} {f : α → β} : Avoids bad (f <$> x) ↔ Avoids bad x := by
  cases x <;> simp [Avoids, Functor.map, Except.map]

@[simp] theorem avoids_never {x : Except ε α} : Avoids (fun _ => False) x :=
  fun _ _ => not_false

theorem avoids_ite {c : Prop} [Decidable c] {x y : Except ε α} :
    Avoids bad (if c then x else y) ↔ (c → Avoids bad x) ∧ (¬c → Avoids bad y) := by
  split <;> simp_all

theorem avoids_ok {a : α} : Avoids bad (.ok a : Except ε α) := avoids_pure

theorem avoids_error : Avoids bad (.error e : Except ε α) ↔ ¬bad e := by
  simp [Avoids]

@[simp] theorem avoids_require {c : Prop} [Decidable c] :
    Avoids bad (require e c) ↔ (¬c → ¬bad e) := by
  unfold require
  split <;> simp_all [Avoids]

@[simp] theorem avoids_okOr {o : Option α} : Avoids bad (okOr e o) ↔ (o = none → ¬bad e) := by
  cases o <;> simp [okOr, Avoids]

@[simp] theorem avoids_add : Avoids bad (add e w x y) ↔ (w ≤ x + y → ¬bad e) := by
  simp only [add, avoids_ite, avoids_ok, avoids_error, implies_true, true_and, not_lt]

@[simp] theorem avoids_sub : Avoids bad (sub e x y) ↔ (x < y → ¬bad e) := by
  simp only [sub, avoids_ite, avoids_ok, avoids_error, implies_true, true_and, not_le]

@[simp] theorem avoids_mul : Avoids bad (mul e w x y) ↔ (w ≤ x * y → ¬bad e) := by
  simp only [mul, avoids_ite, avoids_ok, avoids_error, implies_true, true_and, not_lt]

@[simp] theorem avoids_div : Avoids bad (div e x y) ↔ (y = 0 → ¬bad e) := by
  unfold div
  split <;> simp_all [Avoids]

@[simp] theorem avoids_pow : Avoids bad (pow e w x n) ↔ (w ≤ x ^ n → ¬bad e) := by
  simp only [pow, avoids_ite, avoids_ok, avoids_error, implies_true, true_and, not_lt]

@[simp] theorem avoids_narrow : Avoids bad (narrow e w x) ↔ (w ≤ x → ¬bad e) := by
  simp only [narrow, avoids_ite, avoids_ok, avoids_error, implies_true, true_and, not_lt]

/-! ### Guarding by a condition -/

/-- The computation succeeds only where `P` holds. -/
def Guards (P : Prop) (x : Except ε α) : Prop :=
  ∀ a, x = .ok a → P

namespace Guards

variable {P : Prop} {x : Except ε α} {f : α → Except ε β}

/-- The first step of a sequence guards it. -/
theorem first (h : Guards P x) : Guards P (x >>= f) := by
  intro b hb
  obtain ⟨a, ha, -⟩ := bind_eq_ok.1 hb
  exact h a ha

/-- What comes after the first step guards the sequence. -/
theorem later (h : ∀ a, Guards P (f a)) : Guards P (x >>= f) := by
  intro b hb
  obtain ⟨a, -, ha⟩ := bind_eq_ok.1 hb
  exact h a b ha

end Guards

/-! ### Commuting with a change -/

/-- The step `f` succeeds or fails alike on `x` and on `u x`, and `v` is what the change `u` of the
input makes of the output. -/
def Commutes {α β : Type} (u : α → α) (v : β → β) (f : α → Except ε β) : Prop :=
  ∀ x, f (u x) = (f x).map v

namespace Commutes

variable {α β γ : Type} {u : α → α} {v : β → β} {w : γ → γ}

theorem pure {f : α → β} (h : ∀ x, f (u x) = v (f x)) :
    Commutes u v fun x => (Pure.pure (f x) : Except ε β) := by
  intro x
  exact congrArg Except.ok (h x)

theorem bind {f : α → Except ε β} {g : β → Except ε γ} (hf : Commutes u v f)
    (hg : Commutes v w g) : Commutes u w fun x => f x >>= g := by
  intro x
  simp only [hf x]
  cases f x with
  | error e => rfl
  | ok y => exact hg y

/-- A step that returns the same on both comes first. -/
theorem after {f : α → Except ε β} {g : β → α → Except ε γ} (hf : ∀ x, f (u x) = f x)
    (hg : ∀ y, Commutes u w (g y)) : Commutes u w fun x => f x >>= fun y => g y x := by
  intro x
  simp only [hf x]
  cases f x with
  | error e => rfl
  | ok y => exact hg y x

theorem ite {c : α → Prop} [∀ x, Decidable (c x)] {f g : α → Except ε β}
    (hc : ∀ x, c (u x) ↔ c x) (hf : Commutes u v f) (hg : Commutes u v g) :
    Commutes u v fun x => if c x then f x else g x := by
  intro x
  simp only [hc x]
  split
  · exact hf x
  · exact hg x

/-- The step is taken from a part of the input. -/
theorem comp {f : β → Except ε γ} {g : α → β} (hf : Commutes v w f) (hg : ∀ x, g (u x) = v (g x)) :
    Commutes u w fun x => f (g x) := by
  intro x
  simp only [hg x]
  exact hf (g x)

theorem eq_ok {f : α → Except ε β} (h : Commutes u v f) {x : α} {y : β} (hx : f x = .ok y) :
    f (u x) = .ok (v y) := by
  rw [h x, hx]
  rfl

end Commutes

end Checked
