/-
AsyncVault/Lib/Confluence.lean

Actions whose order does not matter.

A script is a list of actions; `Plays exec s₀ as s` says that a machine takes
them in order and ends in `s`.  Two actions can be exchanged when the second
also succeeds first and the first after it, with the same state at the end
(`Exchanges`).  If any two actions of a script can be exchanged, every order of
the script succeeds and ends in the same state (`Plays.perm`).
-/
import AsyncVault.Lib.Machine
import Mathlib.Data.List.Perm.Basic

namespace Machine

variable {σ α ε : Type*} {exec : σ → α → Except ε σ} {I : σ → Prop}
variable {s₀ s₁ s s' : σ} {a b : α} {as bs : List α}

/-! ### Scripts as relations -/

/-- The actions of a script, taken in order from `s₀`, succeed and end in `s`. -/
inductive Plays (exec : σ → α → Except ε σ) : σ → List α → σ → Prop
  | nil {s : σ} : Plays exec s [] s
  | cons {s s₁ s' : σ} {a : α} {as : List α} (head : exec s a = .ok s₁)
      (rest : Plays exec s₁ as s') : Plays exec s (a :: as) s'

/-- A script that plays is a run. -/
theorem Plays.exists_run (h : Plays exec s₀ as s) :
    ∃ tr, Run exec s₀ tr s ∧ tr.map Transition.act = as := by
  induction h with
  | nil => exact ⟨[], .nil, rfl⟩
  | @cons s s₁ _ a _ head _ ih =>
    obtain ⟨tr, hrun, hacts⟩ := ih
    refine ⟨⟨s, a, s₁⟩ :: tr, ?_, by rw [List.map_cons, hacts]⟩
    simpa using (Run.nil.snoc head).append hrun

theorem Plays.append (h : Plays exec s₀ as s) (h' : Plays exec s bs s') :
    Plays exec s₀ (as ++ bs) s' := by
  induction h with
  | nil => exact h'
  | cons head _ ih => exact .cons head (ih h')

/-- The actions of a run play. -/
theorem Run.plays {tr : List (Transition σ α)} (h : Run exec s₀ tr s) :
    Plays exec s₀ (tr.map Transition.act) s := by
  induction h with
  | nil => exact .nil
  | snoc _ he ih =>
    rw [List.map_append]
    exact ih.append (.cons he .nil)

/-- A script plays to one state at most. -/
theorem Plays.unique (h : Plays exec s₀ as s) (h' : Plays exec s₀ as s') : s = s' := by
  induction h with
  | nil =>
    cases h'
    rfl
  | cons head _ ih =>
    cases h' with
    | cons head' rest' =>
      rw [head] at head'
      obtain rfl := Except.ok.inj head'
      exact ih rest'

/-! ### Exchanging two actions -/

/-- From a state with `I`, `b` can be moved in front of `a`. -/
def Exchanges (exec : σ → α → Except ε σ) (I : σ → Prop) (a b : α) : Prop :=
  ∀ s s₁ s₂, I s → exec s a = .ok s₁ → exec s₁ b = .ok s₂ →
    ∃ s', exec s b = .ok s' ∧ exec s' a = .ok s₂

/-- **Every order of a script ends in the same state** when any two of its actions can be
exchanged. -/
theorem Plays.perm (hperm : as.Perm bs) (hI : ∀ a ∈ as, ∀ s s', I s → exec s a = .ok s' → I s')
    (hex : ∀ a ∈ as, ∀ b ∈ as, Exchanges exec I a b) (h₀ : I s₀) (h : Plays exec s₀ as s) :
    Plays exec s₀ bs s := by
  induction hperm generalizing s₀ with
  | nil => exact h
  | cons a _ ih =>
    cases h with
    | cons head rest =>
      refine .cons head (ih ?_ ?_ (hI a List.mem_cons_self _ _ h₀ head) rest)
      · exact fun b hb => hI b (List.mem_cons_of_mem _ hb)
      · exact fun b hb c hc => hex b (List.mem_cons_of_mem _ hb) c (List.mem_cons_of_mem _ hc)
  | swap a b l =>
    cases h with
    | cons head rest =>
      cases rest with
      | cons head' rest =>
        obtain ⟨s', hfirst, hsecond⟩ := hex b List.mem_cons_self a
          (List.mem_cons_of_mem _ List.mem_cons_self) _ _ _ h₀ head head'
        exact .cons hfirst (.cons hsecond rest)
  | trans hperm _ ih ih' =>
    -- the script in between has the same actions
    have hmem : ∀ {a}, a ∈ _ → a ∈ _ := fun {a} ha => hperm.mem_iff.2 ha
    exact ih' (fun a ha => hI a (hmem ha)) (fun a ha b hb => hex a (hmem ha) b (hmem hb)) h₀
      (ih hI hex h₀ h)

end Machine
