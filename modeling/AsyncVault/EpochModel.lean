/-
AsyncVault/EpochModel.lean

The rolling limit and the epoch model.

The program keeps an epoch as the slot it began at and the amount used in it,
and computes the slot it ends at in 64 bits.  Two things come between it and the
model, which counts in natural numbers.  The end may not fit: then every call is
refused, whatever the limit still allows.  And an epoch that began at slot zero
with nothing used looks like one that never began, so that the next call begins
another.  Calls that find neither (`Unobstructed`) are answered as the model
answers them, and these are the only ones (`epoch_model_iff`).
-/
import AsyncVault.Lib.RateLimit
import AsyncVault.Scenario

namespace AsyncVault

open Checked RateLimit

variable {limit width : ℕ} {epoch : Option Window} {c : Call} {cs : List Call}

/-- A call of `consume_rolling_limit` on a bucket, which is zeroed until a call is accepted. -/
def consume (limit width : ℕ) (epoch : Option Window) (c : Call) : Option Window :=
  let b := epoch.getD ⟨0, 0⟩
  (Vault.consumeRollingLimit c.amount c.slot limit width b.start b.used).toOption.map
    fun p => ⟨p.1, p.2⟩

/-- What a call must find: unless the limit refuses it, the end of an epoch under way fits 64
bits, and the epoch can be told from none. -/
def Unobstructed (limit width : ℕ) (epoch : Option Window) (c : Call) : Prop :=
  ∀ b ∈ epoch, c.slot < b.start + width → b.used + c.amount ≤ limit →
    b.start + width < u64 ∧ (b.start = 0 → b.used = 0 → c.slot = 0)

/-! ### One call -/

/-- The epoch the program takes a call to come in. -/
def bucket (width : ℕ) (b : Window) (c : Call) : Window :=
  if (b.start = 0 ∧ b.used = 0) ∨ b.start + width ≤ c.slot then ⟨c.slot, 0⟩ else b

theorem toOption_eq_some {α : Type} {x : Result α} {a : α} : x.toOption = some a ↔ x = .ok a := by
  cases x <;> simp [Except.toOption]

/-- When the program accepts a call, and what it keeps.  An amount that does not fit is beyond the
limit anyway. -/
theorem consume_eq_some (hlimit : 0 < limit) (hfits : limit < u64) (hwidth : 0 < width)
    {b b' : Window} (hb : epoch.getD ⟨0, 0⟩ = b) :
    consume limit width epoch c = some b' ↔ b.start + width < u64 ∧
      (bucket width b c).used + c.amount ≤ limit ∧
      b' = ⟨(bucket width b c).start, (bucket width b c).used + c.amount⟩ := by
  have hbucket : (if (b.start = 0 ∧ b.used = 0) ∨ b.start + width ≤ c.slot then (c.slot, 0)
      else (b.start, b.used)) = ((bucket width b c).start, (bucket width b c).used) := by
    unfold bucket
    split <;> rfl
  simp only [consume, hb, Option.map_eq_some_iff, toOption_eq_some, Prod.exists,
    Vault.consumeRollingLimit, if_neg hlimit.ne', bind_eq_ok, ensure_eq_ok, add_eq_ok,
    pure_eq_ok, Prod.mk.injEq]
  constructor
  · rintro ⟨_, _, ⟨_, -, _, ⟨hend, rfl⟩, _, ⟨-, rfl⟩, _, hle, rfl, rfl⟩, rfl⟩
    rw [hbucket] at hle ⊢
    exact ⟨hend, hle, rfl⟩
  · rintro ⟨hend, hle, rfl⟩
    refine ⟨_, _, ⟨(), hwidth, _, ⟨hend, rfl⟩, _, ⟨?_, rfl⟩, (), ?_, rfl, rfl⟩, ?_⟩
    · rw [hbucket]
      exact hle.trans_lt hfits
    · rw [hbucket]
      exact hle
    · rw [hbucket]

/-- **One call** is answered as in the model exactly when nothing is in its way. -/
theorem consume_eq_iff (hlimit : 0 < limit) (hfits : limit < u64) (hwidth : 0 < width)
    (hwidth' : width < u64) (hslot : c.slot < u64) :
    consume limit width epoch c = grant limit width epoch c ↔
      Unobstructed limit width epoch c := by
  -- where both take the call to come in the same epoch, and its end fits
  have hsame : ∀ b, epoch.getD ⟨0, 0⟩ = b → b.start + width < u64 →
      bucket width b c = current width epoch c →
      consume limit width epoch c = grant limit width epoch c := by
    intro b hb hend hbucket
    ext b'
    rw [consume_eq_some hlimit hfits hwidth hb, grant_eq_some, hbucket]
    exact and_iff_right hend
  cases epoch with
  | none =>
    refine iff_of_true (hsame ⟨0, 0⟩ rfl (by show 0 + width < u64; omega) ?_) fun b hb => nomatch hb
    simp [bucket, current]
  | some b =>
    have hb : (some b).getD ⟨0, 0⟩ = b := rfl
    by_cases hover : b.start + width ≤ c.slot
    · -- an epoch that has ended: its end has come, so it fits
      refine iff_of_true (hsame b rfl (by omega) ?_) ?_
      · simp [bucket, current, hover]
      · intro b' hb' hin
        obtain rfl := Option.some.inj hb'
        omega
    · have hcurrent : current width (some b) c = b := if_neg hover
      by_cases hle : b.used + c.amount ≤ limit
      · -- an epoch under way in which the limit allows the call
        have hgrant : grant limit width (some b) c = some ⟨b.start, b.used + c.amount⟩ :=
          grant_eq_some.2 (by rw [hcurrent]; exact ⟨hle, rfl⟩)
        have hfree : Unobstructed limit width (some b) c ↔
            b.start + width < u64 ∧ (b.start = 0 → b.used = 0 → c.slot = 0) :=
          ⟨fun h => h b rfl (by omega) hle, fun h b' hb' _ _ => Option.some.inj hb' ▸ h⟩
        rw [hgrant, hfree, consume_eq_some hlimit hfits hwidth hb]
        refine and_congr_right fun hend => ?_
        by_cases hzero : b.start = 0 ∧ b.used = 0
        · -- taken for none, so that another begins
          have hbucket : bucket width b c = ⟨c.slot, 0⟩ := if_pos (.inl hzero)
          obtain ⟨hstart, hused⟩ := hzero
          rw [hbucket, hstart, hused]
          simp only [Window.mk.injEq, and_true, forall_const]
          rw [hused] at hle
          exact ⟨fun h => h.2.symm, fun h => ⟨hle, h.symm⟩⟩
        · have hbucket : bucket width b c = b := if_neg (by tauto)
          rw [hbucket]
          exact iff_of_true ⟨hle, rfl⟩ fun h h' => absurd ⟨h, h'⟩ hzero
      · -- an epoch under way in which it does not
        refine iff_of_true ?_ fun b' hb' _ hle' => absurd (Option.some.inj hb' ▸ hle') hle
        have hrefused : grant limit width (some b) c = none := by
          unfold grant
          rw [hcurrent, if_neg hle]
        rw [hrefused, Option.eq_none_iff_forall_ne_some]
        intro b' hb'
        obtain ⟨-, hle', -⟩ := (consume_eq_some hlimit hfits hwidth hb).1 hb'
        refine hle (le_trans ?_ hle')
        show b.used + _ ≤ (bucket width b c).used + _
        unfold bucket
        split
        · omega
        · exact le_rfl

/-! ### Sequences of calls -/

/-- **The rolling limit is the epoch model, where nothing is in its way.**  Under an accepted
configuration, calls in turn from a zeroed bucket are all answered as in the model exactly when each
finds the end of its epoch to fit 64 bits and the epoch to differ from none, or is refused by the
limit anyway. -/
theorem epoch_model_iff {v : Vault} {u : Unit} (hconfig : v.validateConfig = .ok u)
    (hlimits : limit = v.managerRollingLimit ∨ limit = v.externalWithdrawRollingLimit ∨
      limit = v.redemptionRollingLimit)
    (hlimit : 0 < limit) (hfits : limit < u64) (hwidth : v.rollingLimitWindowSlots < u64)
    (hslots : ∀ c ∈ cs, c.slot < u64) :
    answers (consume limit v.rollingLimitWindowSlots) none cs =
        answers (grant limit v.rollingLimitWindowSlots) none cs ↔
      Throughout (grant limit v.rollingLimitWindowSlots)
        (Unobstructed limit v.rollingLimitWindowSlots) none cs := by
  -- a limit needs a window
  have hpos : 0 < v.rollingLimitWindowSlots := by
    rcases (Vault.validateConfig_eq_ok.1 hconfig).limits with hpos | ⟨hmanager, hexternal, hredeem⟩
    · exact hpos
    · omega
  rw [answers_eq_iff]
  exact throughout_congr fun e c hc => consume_eq_iff hlimit hfits hpos hwidth (hslots c hc)

/-- **Clocks that leave room for a window** see the epoch model. -/
theorem epoch_model_of_room (hlimit : 0 < limit) (hfits : limit < u64) (hwidth : 0 < width)
    (hroom : ∀ c ∈ cs, 0 < c.slot ∧ c.slot + width < u64) :
    answers (consume limit width) none cs = answers (grant limit width) none cs := by
  rw [answers_eq_iff]
  -- epochs begin with a call, so they have the room that calls have
  refine throughout_of_invariant (I := fun b => 0 < b.start ∧ b.start + width < u64) ?_ ?_ ?_
  · intro e c hc he b hb
    obtain ⟨-, rfl⟩ := grant_eq_some.1 hb
    show 0 < (current width e c).start ∧ (current width e c).start + width < u64
    unfold current
    split
    · exact hroom c hc
    · split
      · exact hroom c hc
      · next b _ => exact he b rfl
  · intro e c hc he
    have hslot := hroom c hc
    refine (consume_eq_iff hlimit hfits hwidth (by omega) (by omega)).2 fun b hb _ _ => ?_
    have hb := he b hb
    exact ⟨hb.2, fun hzero => by omega⟩
  · intro b hb
    cases hb

namespace Scenario

/-- Limit what is redeemed in a window of slots. -/
def limitRedemptions (limit width : ℕ) : Action :=
  .config (.updateVault curator
    { rollingLimitWindowSlots := some width, redemptionRollingLimit := some limit })

end Scenario

open Scenario in
/-- A vault whose redemptions are limited. -/
theorem exists_limited (limit width : ℕ)
    (h : passes 0 0 [limitRedemptions limit width] (fun _ s =>
      s.vault.validateConfig.isOk && s.vault.redemptionRollingLimit = limit &&
        s.vault.rollingLimitWindowSlots = width) = true) :
    ∃ v : Vault, v.validateConfig = .ok () ∧ v.redemptionRollingLimit = limit ∧
      v.rollingLimitWindowSlots = width := by
  obtain ⟨tr, s, -, htest⟩ := exists_reachable 0 0 _ _ h
  simp only [Bool.and_eq_true, decide_eq_true_eq, isOk_iff] at htest
  obtain ⟨⟨⟨u, hconfig⟩, hlimit⟩, hwidth⟩ := htest
  exact ⟨s.vault, hconfig, hlimit, hwidth⟩

/-- **Non-vacuity.** A limit of 50 in 10 slots: the third call is refused, the fourth begins an
epoch. -/
theorem epoch_model_at_work : ∃ v : Vault, v.redemptionRollingLimit = 50 ∧
    v.rollingLimitWindowSlots = 10 ∧
    answers (consume 50 v.rollingLimitWindowSlots) none [⟨1, 20⟩, ⟨5, 30⟩, ⟨10, 1⟩, ⟨11, 1⟩] =
      [some ⟨1, 20⟩, some ⟨1, 50⟩, none, some ⟨11, 1⟩] := by
  obtain ⟨v, hconfig, hlimit, hwidth⟩ := exists_limited 50 10 (by decide +kernel)
  have hfree : Throughout (grant 50 10) (Unobstructed 50 10) none
      [⟨1, 20⟩, ⟨5, 30⟩, ⟨10, 1⟩, ⟨11, 1⟩] := by
    simp [Throughout, Unobstructed, grant, current, u64]
  have hslots : ∀ c ∈ ([⟨1, 20⟩, ⟨5, 30⟩, ⟨10, 1⟩, ⟨11, 1⟩] : List Call), c.slot < u64 := by
    decide
  have hmodel := (epoch_model_iff hconfig (.inr (.inr hlimit.symm)) (by decide) (by decide)
    (by rw [hwidth]; decide) hslots).2 (by rw [hwidth]; exact hfree)
  refine ⟨v, hlimit, hwidth, hmodel.trans ?_⟩
  rw [hwidth]
  decide

/-- **Where the program and the model part**: in a window of all the slots there are, the second
call is refused however little was used; and an epoch that a call for nothing began at slot zero is
begun again. -/
theorem epoch_model_fails :
    (∃ v : Vault, v.validateConfig = .ok () ∧ v.redemptionRollingLimit = 10 ∧
      v.rollingLimitWindowSlots = 2 ^ 64 - 1 ∧
      answers (consume 10 v.rollingLimitWindowSlots) none [⟨1, 1⟩, ⟨1, 1⟩] = [some ⟨1, 1⟩, none] ∧
      answers (grant 10 v.rollingLimitWindowSlots) none [⟨1, 1⟩, ⟨1, 1⟩] =
        [some ⟨1, 1⟩, some ⟨1, 2⟩]) ∧
    answers (consume 10 10) none [⟨0, 0⟩, ⟨5, 10⟩, ⟨10, 10⟩] =
      [some ⟨0, 0⟩, some ⟨5, 10⟩, none] ∧
    answers (grant 10 10) none [⟨0, 0⟩, ⟨5, 10⟩, ⟨10, 10⟩] =
      [some ⟨0, 0⟩, some ⟨0, 10⟩, some ⟨10, 10⟩] := by
  obtain ⟨v, hconfig, hlimit, hwidth⟩ := exists_limited 10 (2 ^ 64 - 1) (by decide +kernel)
  refine ⟨⟨v, hconfig, hlimit, hwidth, ?_, ?_⟩, by decide, by decide⟩
  · rw [hwidth]
    decide
  · rw [hwidth]
    decide

end AsyncVault
