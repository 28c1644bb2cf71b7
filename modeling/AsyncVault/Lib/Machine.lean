/-
AsyncVault/Lib/Machine.lean

Runs of a fallible machine.

A machine is a function `exec : σ → α → Except ε σ` that either refuses an
action or moves to the next state.  A *run* is recorded transition by
transition (state before, action, state after), so that a property can speak
about every step a run takes and not only about its end points.

Runs grow at the end (`Run.snoc`), which makes the two induction rules
immediate:

* `Run.invariant`: a property every step preserves holds along the run;
* `Run.invariant_of_forall`: the same when only the steps with a given
  property are known to preserve it, and the run takes no others.

Runs can be cut (`Run.split`, `Run.of_transition`), and what no step decreases
is compared across them (`Run.pairwise_monotone`).

For concrete scenarios `record` executes a script; `exists_of_plays` turns its
result, obtained by evaluation, into a run.
-/
import Mathlib.Tactic.Common
import Mathlib.Data.List.Infix
import Mathlib.Data.List.Induction
import Mathlib.Order.Basic

namespace Machine

variable {σ α ε : Type*}

/-- One step of a run: the state before, the action taken, the state after. -/
structure Transition (σ α : Type*) where
  pre : σ
  act : α
  post : σ

/-- `Run exec s₀ tr s`: starting in `s₀`, the machine takes the transitions
`tr` in order and ends in `s`. -/
inductive Run (exec : σ → α → Except ε σ) (s₀ : σ) :
    List (Transition σ α) → σ → Prop
  | nil : Run exec s₀ [] s₀
  | snoc {tr : List (Transition σ α)} {s s' : σ} {a : α} :
      Run exec s₀ tr s → exec s a = .ok s' → Run exec s₀ (tr ++ [⟨s, a, s'⟩]) s'

/-- A state some run from an initial state ends in. -/
def Reachable (exec : σ → α → Except ε σ) (init : σ → Prop) (s : σ) : Prop :=
  ∃ s₀ tr, init s₀ ∧ Run exec s₀ tr s

variable {exec : σ → α → Except ε σ} {init : σ → Prop}
variable {s₀ s s' : σ} {a : α} {tr : List (Transition σ α)}

/-! ### Induction along a run -/

/-- An invariant of the steps with property `Q` holds along every run that
takes only such steps. -/
theorem Run.invariant_of_forall {I : σ → Prop} {Q : Transition σ α → Prop}
    (hstep : ∀ s a s', I s → Q ⟨s, a, s'⟩ → exec s a = .ok s' → I s')
    (hrun : Run exec s₀ tr s) (hQ : ∀ t ∈ tr, Q t) (h₀ : I s₀) : I s := by
  induction hrun with
  | nil => exact h₀
  | snoc _ he ih =>
    refine hstep _ _ _ (ih fun t ht => hQ t (List.mem_append_left _ ht)) ?_ he
    exact hQ _ (by simp)

/-- An invariant of every step holds along every run. -/
theorem Run.invariant {I : σ → Prop}
    (hstep : ∀ s a s', I s → exec s a = .ok s' → I s')
    (hrun : Run exec s₀ tr s) (h₀ : I s₀) : I s :=
  hrun.invariant_of_forall (Q := fun _ => True)
    (fun s a s' hI _ he => hstep s a s' hI he) (fun _ _ => trivial) h₀

/-- An invariant that starts true and is preserved holds in every reachable
state. -/
theorem Reachable.invariant {I : σ → Prop} (h₀ : ∀ s₀, init s₀ → I s₀)
    (hstep : ∀ s a s', I s → exec s a = .ok s' → I s')
    (hs : Reachable exec init s) : I s := by
  obtain ⟨s₀, tr, hinit, hrun⟩ := hs
  exact hrun.invariant hstep (h₀ s₀ hinit)

/-! ### Parts of a run -/

/-- Every state a run passes through is reached by a prefix of the run. -/
theorem Run.exists_prefix (hrun : Run exec s₀ tr s) {t : Transition σ α}
    (ht : t ∈ tr) :
    ∃ tr₁ tr₂, tr = tr₁ ++ t :: tr₂ ∧ Run exec s₀ tr₁ t.pre ∧
      exec t.pre t.act = .ok t.post := by
  induction hrun with
  | nil => simp at ht
  | snoc hr he ih =>
    rcases List.mem_append.1 ht with ht | ht
    · obtain ⟨tr₁, tr₂, rfl, hpre, hex⟩ := ih ht
      exact ⟨tr₁, tr₂ ++ [_], by rw [List.append_assoc, List.cons_append], hpre, hex⟩
    · obtain rfl := List.mem_singleton.1 ht
      exact ⟨_, [], rfl, hr, he⟩

theorem Run.append {tr' : List (Transition σ α)}
    (h : Run exec s₀ tr s) (h' : Run exec s tr' s') : Run exec s₀ (tr ++ tr') s' := by
  induction h' with
  | nil => simpa using h
  | snoc _ he ih => simpa [List.append_assoc] using ih.snoc he

theorem Reachable.step (h : Reachable exec init s) (he : exec s a = .ok s') :
    Reachable exec init s' := by
  obtain ⟨s₀, tr, hinit, hrun⟩ := h
  exact ⟨s₀, _, hinit, hrun.snoc he⟩

theorem Reachable.trans_run (h : Reachable exec init s₀) (hrun : Run exec s₀ tr s) :
    Reachable exec init s := by
  obtain ⟨s₁, tr₁, hinit, hrun₁⟩ := h
  exact ⟨s₁, _, hinit, hrun₁.append hrun⟩

/-- A run splits where its transitions do. -/
theorem Run.split {tr₁ tr₂ : List (Transition σ α)} (h : Run exec s₀ (tr₁ ++ tr₂) s) :
    ∃ s₁, Run exec s₀ tr₁ s₁ ∧ Run exec s₁ tr₂ s := by
  induction tr₂ using List.reverseRecOn generalizing s with
  | nil => exact ⟨s, by simpa using h, .nil⟩
  | append_singleton tr₂ t ih =>
    rw [← List.append_assoc] at h
    generalize htr : tr₁ ++ tr₂ ++ [t] = tr at h
    cases h with
    | nil => simp at htr
    | snoc hr he =>
      obtain ⟨rfl, ht⟩ := List.append_inj' htr rfl
      obtain rfl := List.singleton_inj.1 ht
      obtain ⟨s₁, h₁, h₂⟩ := ih hr
      exact ⟨s₁, h₁, h₂.snoc he⟩

theorem Run.exec_of_mem (h : Run exec s₀ tr s) {t : Transition σ α} (ht : t ∈ tr) :
    exec t.pre t.act = .ok t.post := by
  obtain ⟨-, -, -, -, he⟩ := h.exists_prefix ht
  exact he

/-- A step after a transition starts in the state the transition ends in, or later. -/
theorem Run.of_transition {t : Transition σ α} {tr₁ tr₂ : List (Transition σ α)}
    (h : Run exec s₀ (tr₁ ++ t :: tr₂) s) :
    Run exec s₀ tr₁ t.pre ∧ exec t.pre t.act = .ok t.post ∧ Run exec t.post tr₂ s := by
  rw [← List.singleton_append, ← List.append_assoc] at h
  obtain ⟨s₁, h₁, h₂⟩ := h.split
  generalize htr : tr₁ ++ [t] = tr at h₁
  cases h₁ with
  | nil => simp at htr
  | snoc hr he =>
    obtain ⟨rfl, ht⟩ := List.append_inj' htr rfl
    obtain rfl := List.singleton_inj.1 ht
    exact ⟨hr, he, h₂⟩

/-! ### Quantities that never decrease -/

section Monotone

variable {β : Type*} [Preorder β] {f : σ → β}

/-- A quantity no step decreases has decreased at no later point of the run. -/
theorem Run.monotone (h : Run exec s₀ tr s) (hmono : ∀ t ∈ tr, f t.pre ≤ f t.post) :
    f s₀ ≤ f s ∧ ∀ t ∈ tr, f t.post ≤ f s := by
  induction h with
  | nil => exact ⟨le_rfl, by simp⟩
  | @snoc tr s s' a hr he ih =>
    have hlast : f s ≤ f s' := hmono ⟨s, a, s'⟩ (by simp)
    obtain ⟨h₀, hlater⟩ := ih fun t ht => hmono t (List.mem_append_left _ ht)
    refine ⟨h₀.trans hlast, fun t ht => ?_⟩
    rcases List.mem_append.1 ht with ht | ht
    · exact (hlater t ht).trans hlast
    · obtain rfl := List.mem_singleton.1 ht
      exact le_rfl

/-- Neither has it decreased from the end of a transition to the start of a later one. -/
theorem Run.pairwise_monotone (h : Run exec s₀ tr s) (hmono : ∀ t ∈ tr, f t.pre ≤ f t.post) :
    tr.Pairwise fun t t' => f t.post ≤ f t'.pre := by
  induction h with
  | nil => exact .nil
  | @snoc tr s s' a hr he ih =>
    have hmono' : ∀ t ∈ tr, f t.pre ≤ f t.post := fun t ht => hmono t (List.mem_append_left _ ht)
    refine List.pairwise_append.2 ⟨ih hmono', List.pairwise_singleton _ _, ?_⟩
    intro t ht t' ht'
    obtain rfl := List.mem_singleton.1 ht'
    exact (hr.monotone hmono').2 t ht

end Monotone

/-- A run that starts outside of `P` and ends inside has a step that enters. -/
theorem Run.exists_enter {P : σ → Prop} (h : Run exec s₀ tr s) (h₀ : ¬P s₀) (hs : P s) :
    ∃ tr₁ t tr₂, tr = tr₁ ++ t :: tr₂ ∧ ¬P t.pre ∧ P t.post := by
  induction h with
  | nil => exact absurd hs h₀
  | @snoc tr s s' a hr he ih =>
    by_cases hP : P s
    · obtain ⟨tr₁, t, tr₂, rfl, hpre, hpost⟩ := ih hP
      exact ⟨tr₁, t, tr₂ ++ [⟨s, a, s'⟩], by rw [List.append_assoc, List.cons_append], hpre, hpost⟩
    · exact ⟨tr, ⟨s, a, s'⟩, [], rfl, hP, hs⟩

/-- It has a last one, from which on the run stays inside. -/
theorem Run.exists_since {P : σ → Prop} (h : Run exec s₀ tr s) (h₀ : ¬P s₀) (hs : P s) :
    ∃ tr₁ t tr₂, tr = tr₁ ++ t :: tr₂ ∧ ¬P t.pre ∧ P t.post ∧ ∀ t' ∈ tr₂, P t'.post := by
  induction h with
  | nil => exact absurd hs h₀
  | @snoc tr s s' a hr he ih =>
    by_cases hP : P s
    · obtain ⟨tr₁, t, tr₂, rfl, hpre, hpost, hlater⟩ := ih hP
      refine ⟨tr₁, t, tr₂ ++ [⟨s, a, s'⟩], by rw [List.append_assoc, List.cons_append], hpre,
        hpost, fun t' ht' => ?_⟩
      rcases List.mem_append.1 ht' with ht' | ht'
      · exact hlater t' ht'
      · rw [List.mem_singleton.1 ht']
        exact hs
    · exact ⟨tr, ⟨s, a, s'⟩, [], rfl, hP, hs, by simp⟩

/-! ### Scripts -/

/-- Execute the actions of a script in order, recording the transitions and
stopping at the first failure. -/
def record (exec : σ → α → Except ε σ) (s : σ) :
    List α → Except ε (List (Transition σ α) × σ)
  | [] => .ok ([], s)
  | a :: as =>
    match exec s a with
    | .error e => .error e
    | .ok s' =>
      match record exec s' as with
      | .error e => .error e
      | .ok (tr, s'') => .ok (⟨s, a, s'⟩ :: tr, s'')

/-- Whether a script succeeds with a run and a last state that pass the test `p`. -/
def plays (exec : σ → α → Except ε σ) (s : σ) (as : List α)
    (p : List (Transition σ α) → σ → Bool) : Bool :=
  match record exec s as with
  | .ok (tr, s') => p tr s'
  | .error _ => false

/-- What a script records is a run. -/
theorem run_of_record {as : List α} (h : record exec s₀ as = .ok (tr, s)) :
    Run exec s₀ tr s := by
  induction as generalizing s₀ tr with
  | nil =>
    cases h
    exact .nil
  | cons a as ih =>
    cases he : exec s₀ a with
    | error e => simp [record, he] at h
    | ok s₁ =>
      cases hr : record exec s₁ as with
      | error e => simp [record, he, hr] at h
      | ok x =>
        simp only [record, he, hr, Except.ok.injEq, Prod.mk.injEq] at h
        obtain ⟨rfl, rfl⟩ := h
        simpa using (Run.nil.snoc he).append (ih hr)

/-- The run takes the actions of the script. -/
theorem acts_of_record {as : List α} (h : record exec s₀ as = .ok (tr, s)) :
    tr.map Transition.act = as := by
  induction as generalizing s₀ tr with
  | nil =>
    cases h
    rfl
  | cons a as ih =>
    cases he : exec s₀ a with
    | error e => simp [record, he] at h
    | ok s₁ =>
      cases hr : record exec s₁ as with
      | error e => simp [record, he, hr] at h
      | ok x =>
        simp only [record, he, hr, Except.ok.injEq, Prod.mk.injEq] at h
        obtain ⟨rfl, rfl⟩ := h
        rw [List.map_cons, ih hr]

/-- **Scenarios by evaluation.** A script that passes the test gives a run that
does. -/
theorem exists_of_plays {as : List α} {p : List (Transition σ α) → σ → Bool}
    (h : plays exec s₀ as p = true) :
    ∃ tr s, Run exec s₀ tr s ∧ tr.map Transition.act = as ∧ p tr s = true := by
  unfold plays at h
  split at h
  · next tr s hs => exact ⟨tr, s, run_of_record hs, acts_of_record hs, h⟩
  · cases h

end Machine
