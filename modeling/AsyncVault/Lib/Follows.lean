/-
AsyncVault/Lib/Follows.lean

Fallible computations that follow a specification.

`Follows name R x y` says that `x` does what `y` says: where `y` fails, `x` fails
with the same error under the name it has there, and where `y` returns, `x`
returns something related by `R`.  In particular `x` has no failures of its own.
The relation is built up along the steps of the two computations, and a machine
whose steps follow those of another follows it along every run (`Run.follows`).
-/
import AsyncVault.Lib.Checked
import AsyncVault.Lib.Machine

namespace Checked

universe u

variable {ε ε' : Type*} {α β γ δ : Type u} {name : ε → ε'} {R : α → β → Prop} {S : γ → δ → Prop}

def Follows (name : ε → ε') (R : α → β → Prop) (x : Except ε' α) (y : Except ε β) : Prop :=
  match y with
  | .ok b => ∃ a, x = .ok a ∧ R a b
  | .error e => x = .error (name e)

namespace Follows

theorem ok {a : α} {b : β} (h : R a b) : Follows name R (.ok a) (.ok b) := ⟨a, rfl, h⟩

theorem error (e : ε) : Follows name R (.error (name e)) (.error e) := rfl

/-- A check of both; what comes after it may use the condition. -/
theorem require (e : ε) {c d : Prop} [Decidable c] [Decidable d] (h : c ↔ d) :
    Follows name (fun _ _ => d) (require (name e) c) (require e d) := by
  by_cases hd : d
  · rw [Checked.require, Checked.require, if_pos (h.2 hd), if_pos hd]
    exact ok hd
  · rw [Checked.require, Checked.require, if_neg (mt h.1 hd), if_neg hd]
    exact error e

/-- A missing value is missed by both. -/
theorem okOr (e : ε) {a : Option α} {b : Option β} (h : Option.Rel R a b) :
    Follows name R (okOr (name e) a) (okOr e b) := by
  cases h with
  | some h => exact ok h
  | none => exact error e

theorem bind {x : Except ε' α} {y : Except ε β} {f : α → Except ε' γ} {g : β → Except ε δ}
    (h : Follows name R x y) (hfg : ∀ a b, R a b → Follows name S (f a) (g b)) :
    Follows name S (x >>= f) (y >>= g) := by
  cases y with
  | ok b =>
    obtain ⟨a, rfl, hab⟩ := h
    exact hfg a b hab
  | error e =>
    obtain rfl : x = .error (name e) := h
    exact error e

/-- A step only the first takes, and that it takes. -/
theorem after {x : Except ε' α} {a : α} {f : α → Except ε' γ} {y : Except ε δ} (hx : x = .ok a)
    (h : Follows name S (f a) y) : Follows name S (x >>= f) y := by
  rw [hx]
  exact h

theorem exists_ok {x : Except ε' α} {y : Except ε β} {a : α} (h : Follows name R x y)
    (hx : x = .ok a) : ∃ b, y = .ok b ∧ R a b := by
  cases y with
  | ok b =>
    obtain ⟨a', ha', hab⟩ := h
    rw [hx, Except.ok.injEq] at ha'
    exact ⟨b, rfl, ha' ▸ hab⟩
  | error e =>
    rw [hx] at h
    cases h

/-- It fails in no other way. -/
theorem ne_error {x : Except ε' α} {y : Except ε β} (h : Follows name R x y) {e' : ε'}
    (he : ∀ e, name e ≠ e') : x ≠ .error e' := by
  rintro rfl
  cases y with
  | ok b =>
    obtain ⟨a, ha, -⟩ := h
    cases ha
  | error e => exact he e (Except.error.inj h).symm

end Follows

end Checked

namespace Machine

open Checked

variable {σ τ : Type} {α ε ε' : Type*} {name : ε → ε'} {R : σ → τ → Prop}

/-- **Following along a run.** -/
theorem Run.follows {exec : σ → α → Except ε' σ} {spec : τ → α → Except ε τ} {s₀ s : σ} {t₀ : τ}
    {tr : List (Transition σ α)}
    (hstep : ∀ s t a, R s t → Follows name R (exec s a) (spec t a)) (hrun : Run exec s₀ tr s)
    (h₀ : R s₀ t₀) :
    ∃ tr' t, Run spec t₀ tr' t ∧ tr'.map Transition.act = tr.map Transition.act ∧ R s t := by
  induction hrun with
  | nil => exact ⟨[], t₀, .nil, rfl, h₀⟩
  | snoc _ he ih =>
    obtain ⟨tr', t, hrun', hacts, hR⟩ := ih
    obtain ⟨t', ht', hR'⟩ := (hstep _ _ _ hR).exists_ok he
    exact ⟨_, t', hrun'.snoc ht', by simp [hacts], hR'⟩

end Machine
