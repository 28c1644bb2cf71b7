/-
AsyncVault/Lib/TicketLane.lean

A queue kept by tickets.

Nothing is moved when a queue is kept by tickets: whoever enters draws the next
number, whoever leaves must hold the number after the last one served, and two
counters remember the last number drawn and the last number served.  The queue
is in order when the numbers between the counters are held by those who wait,
each by exactly one (`Ordered`).

Who waits is given by a function that says, for every key, whether it waits and
with which ticket; so a lane is read off any store of records.
-/
import Mathlib.Logic.Function.Basic
import Mathlib.Data.Nat.Init

namespace TicketLane

open Function

variable {κ : Type*}

/-- The lane is in order: `w` waits with the numbers in `(last, total]`. -/
structure Ordered (w : κ → Option (Option ℕ)) (last total : ℕ) : Prop where
  le : last ≤ total
  ticketed : ∀ k x, w k = some x → ∃ id, x = some id ∧ last < id ∧ id ≤ total
  held : ∀ id, last < id → id ≤ total → ∃ k, w k = some (some id)
  inj : ∀ k k' id, w k = some (some id) → w k' = some (some id) → k = k'

variable {w : κ → Option (Option ℕ)} {last total : ℕ}

/-- A lane nobody waits in is in order when everyone has been served. -/
theorem ordered_empty (n : ℕ) : Ordered (fun _ : κ => none) n n where
  le := Nat.le_refl n
  ticketed _ _ h := by cases h
  held _ hlo hhi := absurd hlo (Nat.not_lt.2 hhi)
  inj _ _ _ h := by cases h

namespace Ordered

theorem existsUnique (h : Ordered w last total) {id : ℕ} (hlo : last < id) (hhi : id ≤ total) :
    ∃! k, w k = some (some id) := by
  obtain ⟨k, hk⟩ := h.held id hlo hhi
  exact ⟨k, hk, fun k' hk' => h.inj k' k id hk' hk⟩

theorem bounds (h : Ordered w last total) {k : κ} {id : ℕ} (hk : w k = some (some id)) :
    last < id ∧ id ≤ total := by
  obtain ⟨id', hid, hbounds⟩ := h.ticketed k _ hk
  obtain rfl := Option.some.inj hid
  exact hbounds

variable [DecidableEq κ]

/-- Entering a lane with the next ticket. -/
theorem enter (h : Ordered w last total) {k : κ} (hk : w k = none) :
    Ordered (update w k (some (some (total + 1)))) last (total + 1) where
  le := Nat.le_succ_of_le h.le
  ticketed k' x hx := by
    rw [update_apply] at hx
    split at hx
    · obtain rfl := Option.some.inj hx
      exact ⟨total + 1, rfl, Nat.lt_succ_of_le h.le, Nat.le_refl _⟩
    · obtain ⟨id, rfl, hlo, hhi⟩ := h.ticketed k' x hx
      exact ⟨id, rfl, hlo, Nat.le_succ_of_le hhi⟩
  held id hlo hhi := by
    rcases Nat.lt_or_ge total id with hnew | hold
    · obtain rfl : id = total + 1 := Nat.le_antisymm hhi hnew
      exact ⟨k, update_self _ _ _⟩
    · obtain ⟨k', hk'⟩ := h.held id hlo hold
      have hne : k' ≠ k := fun heq => by rw [heq, hk] at hk'; cases hk'
      exact ⟨k', by rw [update_of_ne hne, hk']⟩
  inj k₁ k₂ id h₁ h₂ := by
    -- the new ticket is above the old ones
    have hold : ∀ k', k' ≠ k → update w k (some (some (total + 1))) k' = some (some id) →
        w k' = some (some id) ∧ id ≤ total := by
      intro k' hne hk'
      rw [update_of_ne hne] at hk'
      exact ⟨hk', (h.bounds hk').2⟩
    have hnew : update w k (some (some (total + 1))) k = some (some id) → id = total + 1 := by
      intro hk'
      rw [update_self] at hk'
      exact (Option.some.inj (Option.some.inj hk')).symm
    by_cases e₁ : k₁ = k <;> by_cases e₂ : k₂ = k
    · rw [e₁, e₂]
    · have := (hold k₂ e₂ h₂).2
      have := hnew (e₁ ▸ h₁)
      omega
    · have := (hold k₁ e₁ h₁).2
      have := hnew (e₂ ▸ h₂)
      omega
    · exact h.inj k₁ k₂ id (hold k₁ e₁ h₁).1 (hold k₂ e₂ h₂).1

/-- Leaving a lane with the ticket that is next. -/
theorem leave (h : Ordered w last total) {k : κ} (hk : w k = some (some (last + 1))) :
    Ordered (update w k none) (last + 1) total where
  le := (h.bounds hk).2
  ticketed k' x hx := by
    rw [update_apply] at hx
    split at hx
    · cases hx
    · next hne =>
      obtain ⟨id, rfl, hlo, hhi⟩ := h.ticketed k' x hx
      have hid : id ≠ last + 1 := fun heq => hne (h.inj k' k id hx (heq ▸ hk))
      exact ⟨id, rfl, by omega, hhi⟩
  held id hlo hhi := by
    obtain ⟨k', hk'⟩ := h.held id (by omega) hhi
    have hne : k' ≠ k := by
      rintro rfl
      have := Option.some.inj (Option.some.inj (hk'.symm.trans hk))
      omega
    exact ⟨k', by rw [update_of_ne hne, hk']⟩
  inj k₁ k₂ id h₁ h₂ := by
    have hold : ∀ k', update w k none k' = some (some id) → w k' = some (some id) := by
      intro k' hk'
      rw [update_apply] at hk'
      split at hk'
      · cases hk'
      · exact hk'
    exact h.inj k₁ k₂ id (hold k₁ h₁) (hold k₂ h₂)

end Ordered

end TicketLane
