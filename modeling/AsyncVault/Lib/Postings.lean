/-
AsyncVault/Lib/Postings.lean

Bookings of a token ledger.

A posting is a signed amount on an account, and what an operation does to all
balances at once is a list of postings: `t.Posts t' p` says that every balance
changes by the sum of its postings.  An account may occur in a list several
times, so nothing has to be assumed about which of the accounts of an operation
are the same one, and a transfer from an account to itself is no special case.
Lists are appended where operations follow one another, and two ways of doing
something have the same effect on every balance if their lists have the same
sums.
-/
import AsyncVault.Lib.TokenLedger
import Mathlib.Algebra.BigOperators.Group.List.Basic

namespace TokenLedger

variable {ι : Type} [DecidableEq ι]

/-- Signed amounts on accounts. -/
abbrev Postings (ι : Type) := List (ι × ℤ)

/-- What the postings come to on an account. -/
def Postings.net (p : Postings ι) (a : ι) : ℤ :=
  (p.map fun x => if x.1 = a then x.2 else 0).sum

variable {p q : Postings ι} {t t' t'' : Ledger ι} {a b m src dst authority : ι} {n : ℕ}
variable {program : TokenProgram}

@[simp] theorem net_nil : Postings.net [] a = 0 := rfl

@[simp] theorem net_cons (x : ι × ℤ) :
    Postings.net (x :: p) a = (if x.1 = a then x.2 else 0) + p.net a := rfl

@[simp] theorem net_append : Postings.net (p ++ q) a = p.net a + q.net a := by
  simp [Postings.net]

/-- By how much a balance changes. -/
def Ledger.change (t t' : Ledger ι) (a : ι) : ℤ := t'.balance a - t.balance a

/-- Every balance changes by what its postings come to. -/
def Ledger.Posts (t t' : Ledger ι) (p : Postings ι) : Prop := ∀ a, t.change t' a = p.net a

omit [DecidableEq ι] in
theorem change_trans : t.change t'' a = t.change t' a + t'.change t'' a := by
  unfold Ledger.change
  omega

theorem Ledger.Posts.refl (t : Ledger ι) : t.Posts t [] := by
  intro a
  show (t.balance a : ℤ) - t.balance a = 0
  omega

theorem Ledger.Posts.trans (h : t.Posts t' p) (h' : t'.Posts t'' q) : t.Posts t'' (p ++ q) := by
  intro a
  rw [change_trans, h a, h' a, net_append]

/-- Postings with the same sums are the same effect. -/
theorem Ledger.Posts.congr (h : t.Posts t' p) (hpq : ∀ a, p.net a = q.net a) : t.Posts t' q :=
  fun a => (h a).trans (hpq a)

/-- Without a transfer fee, what one account pays another one gets. -/
theorem Transferred.posts (h : Transferred t t' program src m dst authority n)
    (hfee : ∀ y, t.mints m = some y → y.epochFeeBps = 0) :
    t.Posts t' [(src, -n), (dst, n)] := by
  intro a
  unfold Ledger.change
  simp only [net_cons, net_nil]
  by_cases hsd : src = dst
  · -- to itself: the two postings cancel
    obtain rfl := h.balance_self hsd
    subst hsd
    split <;> omega
  · have hsrc := h.balance_src hsd
    obtain ⟨y, hy, -, hdst⟩ := h.balance_dst hsd
    rw [Mint.transferFee_eq_zero (hfee y hy)] at hdst
    by_cases has : src = a
    · subst has
      rw [if_pos rfl, if_neg (Ne.symm hsd)]
      omega
    · by_cases had : dst = a
      · subst had
        rw [if_neg has, if_pos rfl]
        omega
      · have hother := h.balance_of_ne a (Ne.symm has) (Ne.symm had)
        rw [if_neg has, if_neg had]
        omega

theorem Minted.posts (h : Minted t t' m dst authority n) : t.Posts t' [(dst, n)] := by
  intro a
  unfold Ledger.change
  simp only [net_cons, net_nil]
  by_cases ha : dst = a
  · subst ha
    have hdst := h.balance_dst
    rw [if_pos rfl]
    omega
  · have hother := h.balance_of_ne a (Ne.symm ha)
    rw [if_neg ha]
    omega

theorem Burned.posts (h : Burned t t' src m authority n) : t.Posts t' [(src, -n)] := by
  intro a
  unfold Ledger.change
  simp only [net_cons, net_nil]
  by_cases ha : src = a
  · subst ha
    have hsrc := h.balance_src
    rw [if_pos rfl]
    omega
  · have hother := h.balance_of_ne a (Ne.symm ha)
    rw [if_neg ha]
    omega

/-! ### Payments out of one account -/

/-- An account pays each amount to the account named with it. -/
def payments (src : ι) (out : List (ι × ℕ)) : Postings ι :=
  out.flatMap fun x => [(src, -x.2), (x.1, x.2)]

omit [DecidableEq ι] in
@[simp] theorem payments_nil : payments src ([] : List (ι × ℕ)) = [] := rfl

omit [DecidableEq ι] in
@[simp] theorem payments_cons (x : ι × ℕ) (out : List (ι × ℕ)) :
    payments src (x :: out) = (src, -(x.2 : ℤ)) :: (x.1, (x.2 : ℤ)) :: payments src out := rfl

/-! ### What is never booked -/

omit [DecidableEq ι] in
theorem SameShape.epochFeeBps (h : SameShape t t') (m : ι) :
    (t'.mints m).map Mint.epochFeeBps = (t.mints m).map Mint.epochFeeBps := by
  have hrel := h.mints m
  cases hm : t.mints m <;> cases hm' : t'.mints m <;> rw [hm, hm'] at hrel <;> cases hrel
  next y y' hterms =>
    rw [show y' = { y with supply := y'.supply } from hterms]
    rfl

/-- What an account holds, and for whom. -/
def Ledger.custody (t : Ledger ι) (a : ι) : Option (ι × ι) :=
  (t.accounts a).map fun x => (x.mint, x.owner)

omit [DecidableEq ι] in
theorem SameShape.custody (h : SameShape t t') (a : ι) : t'.custody a = t.custody a := by
  have hrel := h.accounts a
  unfold Ledger.custody
  cases ha : t.accounts a <;> cases ha' : t'.accounts a <;> rw [ha, ha'] at hrel <;> cases hrel
  next x x' hsame =>
    show some (x'.mint, x'.owner) = some (x.mint, x.owner)
    rw [show x' = { x with amount := x'.amount, withheld := x'.withheld } from hsame]

omit [DecidableEq ι] in
theorem holds_iff_custody {o : ι} : t.Holds a m o ↔ t.custody a = some (m, o) := by
  unfold Ledger.Holds Ledger.custody
  rw [Option.map_eq_some_iff]
  constructor
  · rintro ⟨x, hx, rfl, rfl⟩
    exact ⟨x, hx, rfl⟩
  · rintro ⟨x, hx, he⟩
    obtain ⟨hm, ho⟩ := Prod.mk.inj he
    exact ⟨x, hx, hm, ho⟩

end TokenLedger
