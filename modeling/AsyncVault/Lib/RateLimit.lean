/-
AsyncVault/Lib/RateLimit.lean

A limit per epoch, and what it allows in any window.

A limiter keeps the slot at which its epoch started and the amount used in it.
A call adds to the amount as long as the limit allows it; the first call that
comes at least `width` slots after the start opens a new epoch at its own slot.
Epochs therefore do not tile time: they start whenever a call arrives.  A start
of zero with nothing used stands for a limiter that was never called, so that
state also opens a new epoch at once, which is harmless since nothing was used.

Within one epoch no more than the limit is used (`Log.epoch_le`).  In `width`
consecutive slots no more than twice the limit is (`Log.window_le`): the second
epoch that begins there ends after them.  Nothing is asked of the limiter's
first state.

The epoch model itself, which knows whether an epoch ever began and computes
with unbounded numbers, is `grant`; two limiters are compared by what they answer
to the same calls (`answers_eq_iff`).
-/
import Mathlib.Data.List.Basic
import Mathlib.Algebra.BigOperators.Group.List.Basic
import Mathlib.Order.Lattice
import Mathlib.Algebra.GroupWithZero.Nat
import Mathlib.Algebra.Order.Group.Nat
import Mathlib.Tactic.Common

namespace RateLimit

/-! ### Epochs -/

/-- A limiter: when its epoch started and what was used in it. -/
structure Window where
  start : ℕ
  used : ℕ
  deriving DecidableEq

/-- A call, or a moment without one: when it came, what it was granted and in which epoch. -/
structure Event where
  slot : ℕ
  amount : ℕ
  epoch : ℕ

variable {limit width : ℕ}

/-- **What an event does to a limiter.** -/
inductive Step (limit width : ℕ) (b : Window) (ev : Event) : Window → Prop
  | idle (free : ev.amount = 0) (epoch : ev.epoch = b.start) : Step limit width b ev b
  | counted (epoch : ev.epoch = b.start) (within : b.used + ev.amount ≤ limit) :
      Step limit width b ev ⟨b.start, b.used + ev.amount⟩
  | restarted (ended : b.start = 0 ∧ b.used = 0 ∨ b.start + width ≤ ev.slot)
      (epoch : ev.epoch = ev.slot) (within : ev.amount ≤ limit) :
      Step limit width b ev ⟨ev.slot, ev.amount⟩

/-- Events in the order of their slots, from one state of the limiter to another. -/
inductive Log (limit width : ℕ) (b₀ : Window) : List Event → Window → Prop
  | nil : Log limit width b₀ [] b₀
  | snoc {evs : List Event} {ev : Event} {b b' : Window} (log : Log limit width b₀ evs b)
      (later : ∀ e ∈ evs, e.slot ≤ ev.slot) (step : Step limit width b ev b') :
      Log limit width b₀ (evs ++ [ev]) b'

/-! ### Amounts -/

/-- What the events with the property `p` were granted together. -/
def spent (p : Event → Prop) [DecidablePred p] (evs : List Event) : ℕ :=
  ((evs.filter p).map Event.amount).sum

section Spent

variable {p q : Event → Prop} [DecidablePred p] [DecidablePred q] {evs : List Event} {ev : Event}

theorem spent_snoc : spent p (evs ++ [ev]) = spent p evs + if p ev then ev.amount else 0 := by
  by_cases h : p ev <;> simp [spent, List.filter_append, h]

theorem spent_snoc_of_not (h : ¬p ev) : spent p (evs ++ [ev]) = spent p evs := by
  rw [spent_snoc, if_neg h, Nat.add_zero]

theorem spent_snoc_free (h : ev.amount = 0) : spent p (evs ++ [ev]) = spent p evs := by
  rw [spent_snoc, h, ite_self, Nat.add_zero]

theorem spent_eq_zero (h : ∀ ev ∈ evs, ¬p ev) : spent p evs = 0 := by
  rw [spent, List.filter_eq_nil_iff.2 fun ev hev => by simpa using h ev hev]
  rfl

theorem spent_le_of_imp (h : ∀ ev, p ev → q ev) : spent p evs ≤ spent q evs := by
  induction evs with
  | nil => exact le_rfl
  | cons ev evs ih =>
    unfold spent at ih ⊢
    by_cases hp : p ev
    · simpa [hp, h ev hp] using ih
    · by_cases hq : q ev
      · simp only [List.filter_cons, hp, hq, decide_true, decide_false, Bool.false_eq_true,
          if_true, if_false, List.map_cons, List.sum_cons]
        exact ih.trans (Nat.le_add_left _ _)
      · simpa [hp, hq] using ih

/-- What was spent is what was spent with a property and without it. -/
theorem spent_split (p q : Event → Prop) [DecidablePred p] [DecidablePred q] (evs : List Event) :
    spent p evs = spent (fun ev => p ev ∧ ¬q ev) evs + spent (fun ev => p ev ∧ q ev) evs := by
  induction evs with
  | nil => rfl
  | cons ev evs ih =>
    unfold spent at ih ⊢
    by_cases hp : p ev <;> by_cases hq : q ev <;> simp [hp, hq] at ih ⊢ <;> omega

end Spent

/-! ### One epoch -/

variable {b₀ b b' : Window} {evs : List Event} {ev : Event}

/-- What a log says of its epochs: none got more than the limit, the current one got at most
what the limiter has counted, and no later one was seen. -/
structure Epochs (limit : ℕ) (evs : List Event) (b : Window) : Prop where
  within : ∀ e, spent (·.epoch = e) evs ≤ limit
  counted : spent (·.epoch = b.start) evs ≤ b.used
  past : ∀ ev ∈ evs, ev.epoch ≤ b.start

/-- Nothing was granted before in the epoch that starts. -/
theorem Epochs.unspent (h : Epochs limit evs b) (hwidth : 0 < width)
    (hover : b.start = 0 ∧ b.used = 0 ∨ b.start + width ≤ ev.slot) :
    spent (·.epoch = ev.slot) evs = 0 := by
  rcases hover with ⟨hstart, hused⟩ | hover
  · by_cases hslot : ev.slot = b.start
    · rw [hslot]
      exact Nat.le_zero.1 (hused ▸ h.counted)
    · refine spent_eq_zero fun e he heq => hslot ?_
      have := h.past e he
      omega
  · refine spent_eq_zero fun e he heq => ?_
    have := h.past e he
    omega

theorem Epochs.step (h : Epochs limit evs b) (hwidth : 0 < width)
    (hstep : Step limit width b ev b') : Epochs limit (evs ++ [ev]) b' := by
  cases hstep with
  | idle free epoch =>
    refine ⟨fun e => ?_, ?_, ?_⟩
    · rw [spent_snoc_free free]
      exact h.within e
    · rw [spent_snoc_free free]
      exact h.counted
    · rintro e he
      rcases List.mem_append.1 he with he | he
      · exact h.past e he
      · rw [List.mem_singleton.1 he, epoch]
  | counted epoch within =>
    -- in the epoch under way the bucket counts what is spent
    have hcurrent : spent (·.epoch = b.start) (evs ++ [ev]) ≤ b.used + ev.amount := by
      rw [spent_snoc, if_pos epoch]
      exact Nat.add_le_add_right h.counted _
    refine ⟨fun e => ?_, hcurrent, ?_⟩
    · by_cases he : ev.epoch = e
      · rw [← he, epoch]
        exact hcurrent.trans within
      · rw [spent_snoc_of_not he]
        exact h.within e
    · rintro e he
      rcases List.mem_append.1 he with he | he
      · exact h.past e he
      · rw [List.mem_singleton.1 he, epoch]
  | restarted ended epoch within =>
    -- nothing was spent in an epoch that begins now
    have hcurrent : spent (·.epoch = ev.slot) (evs ++ [ev]) = ev.amount := by
      rw [spent_snoc, if_pos epoch, h.unspent hwidth ended, Nat.zero_add]
    have hlater : b.start ≤ ev.slot := by omega
    refine ⟨fun e => ?_, hcurrent.le, ?_⟩
    · by_cases he : ev.epoch = e
      · rw [← he, epoch, hcurrent]
        exact within
      · rw [spent_snoc_of_not he]
        exact h.within e
    · rintro e he
      rcases List.mem_append.1 he with he | he
      · exact (h.past e he).trans hlater
      · rw [List.mem_singleton.1 he, epoch]

theorem Log.epochs (h : Log limit width b₀ evs b) (hwidth : 0 < width) : Epochs limit evs b := by
  induction h with
  | nil => exact ⟨fun _ => Nat.zero_le _, Nat.zero_le _, fun _ hev => nomatch hev⟩
  | snoc log later step ih => exact ih.step hwidth step

/-- **One epoch** grants no more than the limit. -/
theorem Log.epoch_le (h : Log limit width b₀ evs b) (hwidth : 0 < width) (e : ℕ) :
    spent (·.epoch = e) evs ≤ limit :=
  (h.epochs hwidth).within e

/-! ### Any window -/

/-- What a log says of the slots from `w` on, as long as it has not passed the last of them:
there was at most one epoch before the current one, and if there was one then the current one
started in the window. -/
def InTime (limit width w : ℕ) (evs : List Event) (b : Window) : Prop :=
  (∀ ev ∈ evs, ev.slot < w + width) →
    spent (fun ev => (w ≤ ev.slot ∧ ev.slot < w + width) ∧ ¬ev.epoch = b.start) evs = 0 ∨
      w ≤ b.start ∧
        spent (fun ev => (w ≤ ev.slot ∧ ev.slot < w + width) ∧ ¬ev.epoch = b.start) evs ≤ limit

/-- **Any window** of `width` slots is granted no more than twice the limit. -/
theorem Log.window (h : Log limit width b₀ evs b) (hwidth : 0 < width) (w : ℕ) :
    spent (fun ev => w ≤ ev.slot ∧ ev.slot < w + width) evs ≤ 2 * limit ∧
      InTime limit width w evs b := by
  induction h with
  | nil => exact ⟨Nat.zero_le _, fun _ => .inl rfl⟩
  | @snoc evs ev b b' log later step ih =>
    obtain ⟨htotal, htime⟩ := ih
    have hepochs := log.epochs hwidth
    have hepochs' := hepochs.step hwidth step
    by_cases hlast : ev.slot < w + width
    · have htime := htime fun e he => (later e he).trans_lt hlast
      have hsplit := spent_split (fun ev => w ≤ ev.slot ∧ ev.slot < w + width)
        (fun ev => ev.epoch = b.start) evs
      have hcurrent : spent (fun ev => (w ≤ ev.slot ∧ ev.slot < w + width) ∧ ev.epoch = b.start)
          evs ≤ spent (·.epoch = b.start) evs := spent_le_of_imp fun _ h => h.2
      have hwithin := hepochs.within b.start
      have hcounted := hepochs.counted
      -- the earlier epochs of the window after the event
      have hold : spent (fun ev => (w ≤ ev.slot ∧ ev.slot < w + width) ∧ ¬ev.epoch = b'.start)
          (evs ++ [ev]) = 0 ∨ w ≤ b'.start ∧
          spent (fun ev => (w ≤ ev.slot ∧ ev.slot < w + width) ∧ ¬ev.epoch = b'.start)
            (evs ++ [ev]) ≤ limit := by
        cases step with
        | idle free epoch => rwa [spent_snoc_of_not fun h => h.2 epoch]
        | counted epoch within => rwa [spent_snoc_of_not fun h => h.2 epoch]
        | restarted ended epoch within =>
          rw [spent_snoc_of_not fun h => h.2 epoch]
          by_cases hw : w ≤ ev.slot
          · refine .inr ⟨hw, ?_⟩
            have hle : spent (fun e => (w ≤ e.slot ∧ e.slot < w + width) ∧ ¬e.epoch = ev.slot)
                evs ≤ spent (fun e => w ≤ e.slot ∧ e.slot < w + width) evs :=
              spent_le_of_imp fun _ h => h.1
            refine hle.trans ?_
            omega
          · refine .inl (spent_eq_zero fun e he h => hw ?_)
            exact h.1.1.trans (later e he)
      refine ⟨?_, fun _ => hold⟩
      have hsplit' := spent_split (fun ev => w ≤ ev.slot ∧ ev.slot < w + width)
        (fun ev => ev.epoch = b'.start) (evs ++ [ev])
      have hcurrent' : spent (fun ev => (w ≤ ev.slot ∧ ev.slot < w + width) ∧ ev.epoch = b'.start)
          (evs ++ [ev]) ≤ spent (·.epoch = b'.start) (evs ++ [ev]) :=
        spent_le_of_imp fun _ h => h.2
      have hwithin' := hepochs'.within b'.start
      omega
    · -- the window is over
      refine ⟨?_, fun hall => absurd (hall ev (by simp)) hlast⟩
      rwa [spent_snoc_of_not fun h => hlast h.2]

/-! ### Calls one after another -/

/-- A call for an amount. -/
structure Call where
  slot : ℕ
  amount : ℕ

/-- The epoch a call comes in: the one under way, or else one that begins with the call. -/
def current (width : ℕ) (epoch : Option Window) (c : Call) : Window :=
  match epoch with
  | none => ⟨c.slot, 0⟩
  | some b => if b.start + width ≤ c.slot then ⟨c.slot, 0⟩ else b

/-- **The epoch model**: a call is admitted when the limit allows what its epoch comes to. -/
def grant (limit width : ℕ) (epoch : Option Window) (c : Call) : Option Window :=
  if (current width epoch c).used + c.amount ≤ limit then
    some ⟨(current width epoch c).start, (current width epoch c).used + c.amount⟩
  else
    none

/-- What a limiter answers to calls in turn.  A refused call leaves it as it was. -/
def answers (step : Option Window → Call → Option Window) :
    Option Window → List Call → List (Option Window)
  | _, [] => []
  | epoch, c :: cs => step epoch c :: answers step ((step epoch c).or epoch) cs

/-- A condition on each call and the epoch it finds. -/
def Throughout (step : Option Window → Call → Option Window) (P : Option Window → Call → Prop) :
    Option Window → List Call → Prop
  | _, [] => True
  | epoch, c :: cs => P epoch c ∧ Throughout step P ((step epoch c).or epoch) cs

section Calls

variable {step step' : Option Window → Call → Option Window}
variable {P Q : Option Window → Call → Prop} {epoch : Option Window} {c : Call} {cs : List Call}

/-- Two limiters answer alike when they do so to each call, at the epoch it finds. -/
theorem answers_eq_iff : answers step' epoch cs = answers step epoch cs ↔
    Throughout step (fun e c => step' e c = step e c) epoch cs := by
  induction cs generalizing epoch with
  | nil => simp [answers, Throughout]
  | cons c cs ih =>
    simp only [answers, Throughout, List.cons.injEq]
    refine and_congr_right fun heq => ?_
    rw [heq]
    exact ih

theorem throughout_congr (h : ∀ e, ∀ c ∈ cs, (P e c ↔ Q e c)) :
    Throughout step P epoch cs ↔ Throughout step Q epoch cs := by
  induction cs generalizing epoch with
  | nil => exact Iff.rfl
  | cons c cs ih =>
    refine and_congr (h epoch c (List.mem_cons_self ..)) (ih fun e d hd => ?_)
    exact h e d (List.mem_cons_of_mem _ hd)

/-- A condition that follows from what the admitted calls preserve. -/
theorem throughout_of_invariant {I : Window → Prop}
    (hstep : ∀ e, ∀ c ∈ cs, (∀ b ∈ e, I b) → ∀ b ∈ step e c, I b)
    (hp : ∀ e, ∀ c ∈ cs, (∀ b ∈ e, I b) → P e c) (h : ∀ b ∈ epoch, I b) :
    Throughout step P epoch cs := by
  induction cs generalizing epoch with
  | nil => trivial
  | cons c cs ih =>
    refine ⟨hp epoch c (List.mem_cons_self ..) h, ih (fun e d hd => ?_) (fun e d hd => ?_) ?_⟩
    · exact hstep e d (List.mem_cons_of_mem _ hd)
    · exact hp e d (List.mem_cons_of_mem _ hd)
    · intro b hb
      rcases Option.or_eq_some_iff.1 hb with hb | ⟨-, hb⟩
      · exact hstep epoch c (List.mem_cons_self ..) h b hb
      · exact h b hb

theorem grant_eq_some {b : Window} : grant limit width epoch c = some b ↔
    (current width epoch c).used + c.amount ≤ limit ∧
      b = ⟨(current width epoch c).start, (current width epoch c).used + c.amount⟩ := by
  unfold grant
  split
  · next hle => simp [hle, eq_comm]
  · next hle => simp [hle]

end Calls

end RateLimit
