/-
AsyncVault/Lib/Payouts.lean

Payments of one payer to others.

A payer hands out tokens in two ways: from an account of its own, or by creating
them where it is the mint authority.  A payment to somebody else never funds
another payment of the same payer, so payments succeed in one order exactly when
they succeed in any, with the same ledger at the end (`pay_exchange`).

A ledger is known by its shape, its amounts and its supplies
(`eq_of_sameShape`), which leaves arithmetic to show.

What stands between a payment and its success is kept apart: its accounts and
authority (`Sound`), whether the mint and the accounts let it through (`Open`),
and what there is to spend (`Funded`).
-/
import AsyncVault.Lib.TokenLedger
import Mathlib.Algebra.BigOperators.Group.List.Basic
import Mathlib.Algebra.GroupWithZero.Nat

namespace TokenLedger

open Checked

variable {ι : Type} {t t' t₁ t₂ : Ledger ι} {a m o key : ι}

/-! ### Ledgers of one shape -/

/-- Ledgers of one shape with the same amounts and supplies are the same. -/
theorem eq_of_sameShape (h : SameShape t t') (hb : ∀ a, t'.balance a = t.balance a)
    (hw : ∀ a, t'.withheld a = t.withheld a) (hs : ∀ m, t'.supply m = t.supply m) : t' = t := by
  show Ledger.mk t'.mints t'.accounts = Ledger.mk t.mints t.accounts
  refine congrArg₂ Ledger.mk (funext fun m => ?_) (funext fun a => ?_)
  · have hr := h.mints m
    have hsupply : ((t'.mints m).map Mint.supply).getD 0 = ((t.mints m).map Mint.supply).getD 0 :=
      hs m
    generalize t.mints m = y at hr hsupply ⊢
    generalize t'.mints m = y' at hr hsupply ⊢
    cases hr with
    | none => rfl
    | @some y y' hterms =>
      have hsupply : y'.supply = y.supply := hsupply
      rw [hterms, hsupply]
  · have hr := h.accounts a
    have hbalance : ((t'.accounts a).map TokenAccount.amount).getD 0
        = ((t.accounts a).map TokenAccount.amount).getD 0 := hb a
    have hwithheld : ((t'.accounts a).map TokenAccount.withheld).getD 0
        = ((t.accounts a).map TokenAccount.withheld).getD 0 := hw a
    generalize t.accounts a = x at hr hbalance hwithheld ⊢
    generalize t'.accounts a = x' at hr hbalance hwithheld ⊢
    cases hr with
    | none => rfl
    | @some x x' hterms =>
      have hbalance : x'.amount = x.amount := hbalance
      have hwithheld : x'.withheld = x.withheld := hwithheld
      rw [hterms, hbalance, hwithheld]

/-- What a mint withholds is part of its terms. -/
theorem Mint.SameTerms.transferFee {y y' : Mint ι} (h : y.SameTerms y') (n : ℕ) :
    y'.transferFee n = y.transferFee n := by
  rw [h]
  rfl

/-! ### Payments -/

/-- A payment: tokens of an account, or new tokens. -/
inductive Payout (ι : Type)
  | transfer (program : TokenProgram) (src m dst : ι) (n : ℕ)
  | mint (program : TokenProgram) (m dst : ι) (n : ℕ)

namespace Payout

def dst : Payout ι → ι
  | transfer _ _ _ dst _ => dst
  | mint _ _ dst _ => dst

variable [DecidableEq ι]

/-- What leaves the account `a`. -/
def out (a : ι) : Payout ι → ℕ
  | transfer _ src _ _ n => if src = a then n else 0
  | mint .. => 0

/-- What the mints let reach the account it is for. -/
def paid (t : Ledger ι) : Payout ι → ℕ
  | transfer _ _ m _ n => n - ((t.mints m).map (·.transferFee n)).getD 0
  | mint _ _ _ n => n

/-- What the mint withholds of it. -/
def fee (t : Ledger ι) : Payout ι → ℕ
  | transfer _ _ m _ n => ((t.mints m).map (·.transferFee n)).getD 0
  | mint .. => 0

/-- What is created of `m`. -/
def minted (m : ι) : Payout ι → ℕ
  | transfer .. => 0
  | mint _ m' _ n => if m' = m then n else 0

end Payout

variable [DecidableEq ι] {p q : Payout ι}

/-- A payment on the signature of `key`. -/
def Ledger.pay (t : Ledger ι) (key : ι) : Payout ι → Except TokenError (Ledger ι)
  | .transfer program src m dst n => t.transferChecked program src m dst key n
  | .mint program m dst n => t.mintTo program m dst key n

/-- The payment is for somebody else. -/
def Payout.Outward (p : Payout ι) (t : Ledger ι) (key : ι) : Prop :=
  ∃ m o, t.Holds p.dst m o ∧ o ≠ key

/-- A payment whose accounts and authority are in order. -/
def Payout.Sound (t : Ledger ι) (key : ι) : Payout ι → Prop
  | transfer program src m dst _ =>
    (∃ y, t.mints m = some y ∧ y.program = program) ∧ t.Holds src m key ∧ ∃ o, t.Holds dst m o
  | mint program m dst _ =>
    (∃ y, t.mints m = some y ∧ y.program = program ∧ y.confidentialMintBurn = false ∧
      y.mintAuthority = some key) ∧ ∃ o, t.Holds dst m o

/-- Its mint and its accounts let it through: nothing is paused or frozen, and a transfer needs
neither a hook nor a memo. -/
def Payout.Open (t : Ledger ι) : Payout ι → Prop
  | transfer _ src m dst _ => t.Transferable m ∧ t.Thawed src ∧ t.Receptive dst
  | mint _ m dst _ => t.Running m ∧ t.Thawed dst

instance (t : Ledger ι) (p : Payout ι) : Decidable (p.Open t) :=
  match p with
  | .transfer _ src m dst _ =>
    inferInstanceAs (Decidable (t.Transferable m ∧ t.Thawed src ∧ t.Receptive dst))
  | .mint _ m dst _ => inferInstanceAs (Decidable (t.Running m ∧ t.Thawed dst))

/-- There is enough to spend, or room in the supply. -/
def Payout.Funded (t : Ledger ι) : Payout ι → Prop
  | transfer _ src _ _ n => n ≤ t.balance src
  | mint _ m _ n => t.supply m + n < 2 ^ 64

/-- The effect of a payment to somebody else. -/
structure Paid (t t' : Ledger ι) (p : Payout ι) : Prop where
  shape : SameShape t t'
  balance : ∀ a, t'.balance a + p.out a = t.balance a + if p.dst = a then p.paid t else 0
  withheld : ∀ a, t'.withheld a = t.withheld a + if p.dst = a then p.fee t else 0
  supply : ∀ m, t'.supply m = t.supply m + p.minted m

theorem sound_of_pay (h : t.pay key p = .ok t') : p.Sound t key ∧ p.Open t ∧ p.Funded t := by
  cases p with
  | transfer program src m dst n =>
    obtain ⟨hopen, h⟩ := transferChecked_iff.1 h
    have hmove := transfer_ok h
    simp only [Ledger.transfer, bind_eq_ok, loadMint_eq_ok] at h
    obtain ⟨y, hy, -⟩ := h
    exact ⟨⟨⟨y, hy⟩, hmove.src_holds, hmove.dst_holds⟩, hopen, hmove.le_balance⟩
  | mint program m dst n =>
    simp only [Ledger.pay, Ledger.mintTo, bind_eq_ok, loadMint_eq_ok, loadAccount_eq_ok,
      require_eq_ok, add_eq_ok] at h
    obtain ⟨y, ⟨hy, hp⟩, x, ⟨hx, hxm⟩, -, hfrozen, -, hpaused, -, hconf, -, -, -, hauth, _,
      ⟨hlt, -⟩, -⟩ := h
    refine ⟨⟨⟨y, hy, hp, hconf, hauth⟩, ⟨_, x, hx, hxm, rfl⟩⟩,
      ⟨running_of_some hy hpaused, thawed_of_some hx hfrozen⟩, ?_⟩
    show t.supply m + n < 2 ^ 64
    rwa [supply_of_some hy]

/-- A payment moves amounts only. -/
theorem shape_of_pay (h : t.pay key p = .ok t') : SameShape t t' := by
  cases p with
  | transfer => exact (transferChecked_ok h).shape
  | mint => exact (mintTo_ok h).shape

/-- **When a payment succeeds.** -/
theorem exists_pay (hs : p.Sound t key) (hopen : p.Open t) (hf : p.Funded t) :
    ∃ t', t.pay key p = .ok t' := by
  cases p with
  | transfer program src m dst n =>
    obtain ⟨⟨y, hy, hp⟩, hsrc, ⟨o, hdst⟩⟩ := hs
    obtain ⟨hm, hts, htd⟩ := hopen
    exact exists_transferChecked hy hp hm hsrc hdst hts htd hf
  | mint program m dst n =>
    obtain ⟨⟨y, hy, hp, hconf, hauth⟩, ⟨o, hdst⟩⟩ := hs
    obtain ⟨hrun, htd⟩ := hopen
    have hlt : t.supply m + n < 2 ^ 64 := hf
    rw [supply_of_some hy] at hlt
    exact exists_mintTo hy hp hrun hdst htd hconf hauth hlt

omit [DecidableEq ι] in
/-- What an account of the payer holds is nothing it pays to others. -/
theorem Payout.Outward.ne (h : p.Outward t key) (ha : t.Holds a m key) : a ≠ p.dst := by
  obtain ⟨m', o, hdst, hne⟩ := h
  exact ha.ne_of_owner hdst hne.symm

theorem pay_ok (ho : p.Outward t key) (h : t.pay key p = .ok t') : Paid t t' p := by
  cases p with
  | transfer program src m dst n =>
    have hmove := transferChecked_ok
      (show t.transferChecked program src m dst key n = .ok t' from h)
    have hne : src ≠ dst := ho.ne hmove.src_holds
    -- source and destination are apart, as the payment leaves the custodian
    obtain ⟨y, hy, -, hdst⟩ := hmove.balance_dst hne
    refine ⟨hmove.shape, fun a => ?_, fun a => ?_, fun m' => ?_⟩
    · show t'.balance a + (if src = a then n else 0) = t.balance a + if dst = a then
        n - ((t.mints m).map (·.transferFee n)).getD 0 else 0
      rw [hy, Option.map_some, Option.getD_some]
      by_cases had : dst = a
      · rw [if_pos had, if_neg fun hsa => hne (hsa.trans had.symm), ← had, hdst, Nat.add_zero]
      · rw [if_neg had, Nat.add_zero]
        exact hmove.balance_paid (Ne.symm had)
    · show t'.withheld a = t.withheld a + if dst = a then
        ((t.mints m).map (·.transferFee n)).getD 0 else 0
      rw [hy, Option.map_some, Option.getD_some]
      by_cases had : dst = a
      · rw [if_pos had, ← had, hmove.withheld_dst hne y hy]
      · rw [if_neg had, hmove.withheld_of_ne a (Ne.symm had), Nat.add_zero]
    · show t'.supply m' = t.supply m' + 0
      rw [Ledger.supply, hmove.mints, Nat.add_zero, Ledger.supply]
  | mint program m dst n =>
    -- new shares come out of no account
    have hminted := mintTo_ok (show t.mintTo program m dst key n = .ok t' from h)
    refine ⟨hminted.shape, fun a => ?_, fun a => ?_, fun m' => ?_⟩
    · show t'.balance a + 0 = t.balance a + if dst = a then n else 0
      by_cases had : dst = a
      · rw [if_pos had, ← had, hminted.balance_dst, Nat.add_zero]
      · rw [if_neg had, hminted.balance_of_ne a (Ne.symm had)]
    · show t'.withheld a = t.withheld a + if dst = a then 0 else 0
      rw [ite_self, hminted.withheld, Nat.add_zero]
    · show t'.supply m' = t.supply m' + if m = m' then n else 0
      by_cases hm : m = m'
      · rw [if_pos hm, ← hm, hminted.supply]
      · rw [if_neg hm, hminted.supply_of_ne m' (Ne.symm hm), Nat.add_zero]

/-! ### Ledgers of one shape pay the same -/

omit [DecidableEq ι] in
theorem Payout.Outward.sameShape (h : p.Outward t key) (hs : SameShape t t') :
    p.Outward t' key := by
  obtain ⟨m, o, hdst, hne⟩ := h
  exact ⟨m, o, hs.holds hdst, hne⟩

omit [DecidableEq ι] in
theorem Payout.Open.sameShape (h : p.Open t) (hs : SameShape t t') : p.Open t' := by
  cases p with
  | transfer program src m dst n =>
    obtain ⟨hm, hts, htd⟩ := h
    exact ⟨hs.transferable hm, hs.thawed hts, hs.receptive htd⟩
  | mint program m dst n =>
    obtain ⟨hrun, htd⟩ := h
    exact ⟨hs.running hrun, hs.thawed htd⟩

omit [DecidableEq ι] in
theorem Payout.fee_sameShape (hs : SameShape t t') (p : Payout ι) : p.fee t' = p.fee t := by
  cases p with
  | transfer program src m dst n =>
    show ((t'.mints m).map (·.transferFee n)).getD 0 = ((t.mints m).map (·.transferFee n)).getD 0
    have hr := hs.mints m
    cases hy : t.mints m with
    | none =>
      rw [hy] at hr
      cases hy' : t'.mints m with
      | none => rfl
      | some y' => rw [hy'] at hr; cases hr
    | some y =>
      obtain ⟨y', hy', hterms⟩ := hs.mint hy
      rw [hy', Option.map_some, Option.map_some, Option.getD_some, Option.getD_some,
        hterms.transferFee]
  | mint program m dst n => rfl

omit [DecidableEq ι] in
theorem Payout.paid_sameShape (hs : SameShape t t') (p : Payout ι) : p.paid t' = p.paid t := by
  cases p with
  | transfer program src m dst n =>
    exact congrArg (n - ·) (fee_sameShape hs (transfer program src m dst n))
  | mint program m dst n => rfl

omit [DecidableEq ι] in
theorem Payout.Sound.sameShape (h : p.Sound t key) (hs : SameShape t t') : p.Sound t' key := by
  cases p with
  | transfer program src m dst n =>
    obtain ⟨⟨y, hy, hp⟩, hsrc, ⟨o, hdst⟩⟩ := h
    obtain ⟨y', hy', hterms⟩ := hs.mint hy
    exact ⟨⟨y', hy', by rw [hterms]; exact hp⟩, hs.holds hsrc, o, hs.holds hdst⟩
  | mint program m dst n =>
    obtain ⟨⟨y, hy, hp, hconf, hauth⟩, ⟨o, hdst⟩⟩ := h
    obtain ⟨y', hy', hterms⟩ := hs.mint hy
    refine ⟨⟨y', hy', ?_, ?_, ?_⟩, o, hs.holds hdst⟩ <;> rw [hterms] <;> assumption

/-! ### Exchanging two payments -/

/-- What is funded after a payment to somebody else was funded before. -/
theorem Paid.funded_before (h : Paid t t₁ p) (ho : p.Outward t key) (hs : q.Sound t key)
    (hf : q.Funded t₁) : q.Funded t := by
  cases q with
  | transfer program src m dst n =>
    have hbalance := h.balance src
    rw [if_neg (ho.ne hs.2.1).symm] at hbalance
    have hle : n ≤ t₁.balance src := hf
    show n ≤ t.balance src
    omega
  | mint program m dst n =>
    have hsupply := h.supply m
    have hlt : t₁.supply m + n < 2 ^ 64 := hf
    show t.supply m + n < 2 ^ 64
    omega

/-- A payment after which another was funded is funded after the other. -/
theorem Paid.funded_after (h : Paid t t₁ p) (h' : Paid t t' q) (ho : p.Outward t key)
    (ho' : q.Outward t key) (hs : p.Sound t key) (hf : p.Funded t) (hf' : q.Funded t₁) :
    p.Funded t' := by
  cases p with
  | transfer program src m dst n =>
    have hbalance := h.balance src
    have hbalance' := h'.balance src
    rw [if_neg (ho.ne hs.2.1).symm] at hbalance
    rw [if_neg (ho'.ne hs.2.1).symm] at hbalance'
    simp only [Payout.out, if_true] at hbalance
    -- the other payment left enough in the source
    have hle : n ≤ t.balance src := hf
    show n ≤ t'.balance src
    cases q with
    | transfer program' src' m' dst' n' =>
      have hle' : n' ≤ t₁.balance src' := hf'
      simp only [Payout.out] at hbalance'
      by_cases hsrc : src' = src
      · rw [if_pos hsrc] at hbalance'
        rw [hsrc] at hle'
        omega
      · rw [if_neg hsrc] at hbalance'
        omega
    | mint program' m' dst' n' =>
      simp only [Payout.out] at hbalance'
      omega
  | mint program m dst n =>
    have hsupply := h.supply m
    have hsupply' := h'.supply m
    simp only [Payout.minted, if_true] at hsupply
    -- the other payment left room under the mint
    have hlt : t.supply m + n < 2 ^ 64 := hf
    show t'.supply m + n < 2 ^ 64
    cases q with
    | transfer program' src' m' dst' n' =>
      simp only [Payout.minted] at hsupply'
      omega
    | mint program' m' dst' n' =>
      have hlt' : t₁.supply m' + n' < 2 ^ 64 := hf'
      simp only [Payout.minted] at hsupply'
      by_cases hm : m' = m
      · rw [if_pos hm] at hsupply'
        rw [hm] at hlt'
        omega
      · rw [if_neg hm] at hsupply'
        omega

/-- **Payments to others can be exchanged.** -/
theorem pay_exchange (ho : p.Outward t key) (ho' : q.Outward t key) (h : t.pay key p = .ok t₁)
    (h' : t₁.pay key q = .ok t₂) : ∃ t', t.pay key q = .ok t' ∧ t'.pay key p = .ok t₂ := by
  obtain ⟨hsound, hopen, hfunded⟩ := sound_of_pay h
  obtain ⟨hsound', hopen', hfunded'⟩ := sound_of_pay h'
  have hp := pay_ok ho h
  have hsound₀ := hsound'.sameShape hp.shape.symm
  obtain ⟨t', hfirst⟩ := exists_pay hsound₀ (hopen'.sameShape hp.shape.symm)
    (hp.funded_before ho hsound₀ hfunded')
  have hq := pay_ok ho' hfirst
  obtain ⟨t₂', hsecond⟩ := exists_pay (hsound.sameShape hq.shape) (hopen.sameShape hq.shape)
    (hp.funded_after hq ho ho' hsound hfunded hfunded')
  refine ⟨t', hfirst, ?_⟩
  -- both ledgers have the shape of the first and the same amounts
  have hq₁ := pay_ok (ho'.sameShape hp.shape) h'
  have hp₁ := pay_ok (ho.sameShape hq.shape) hsecond
  have hshape : SameShape t₂ t₂' :=
    ((hp.shape.trans hq₁.shape).symm).trans (hq.shape.trans hp₁.shape)
  rw [hsecond, eq_of_sameShape hshape (fun a => ?_) (fun a => ?_) fun m => ?_]
  · have e₁ := hp.balance a
    have e₂ := hq₁.balance a
    have e₃ := hq.balance a
    have e₄ := hp₁.balance a
    rw [Payout.paid_sameShape hp.shape] at e₂
    rw [Payout.paid_sameShape hq.shape] at e₄
    omega
  · have e₁ := hp.withheld a
    have e₂ := hq₁.withheld a
    have e₃ := hq.withheld a
    have e₄ := hp₁.withheld a
    rw [Payout.fee_sameShape hp.shape] at e₂
    rw [Payout.fee_sameShape hq.shape] at e₄
    omega
  · have e₁ := hp.supply m
    have e₂ := hq₁.supply m
    have e₃ := hq.supply m
    have e₄ := hp₁.supply m
    omega

/-! ### Batches -/

/-- Payments made one after the other. -/
def Ledger.payAll (t : Ledger ι) (key : ι) : List (Payout ι) → Except TokenError (Ledger ι)
  | [] => pure t
  | p :: ps => do
    let t ← t.pay key p
    t.payAll key ps

/-- What reaches the account `a`. -/
def Payout.credit (t : Ledger ι) (a : ι) (p : Payout ι) : ℕ :=
  if p.dst = a then p.paid t else 0

/-- The effect of a batch of payments to others. -/
structure PaidAll (t t' : Ledger ι) (ps : List (Payout ι)) : Prop where
  shape : SameShape t t'
  balance : ∀ a, t'.balance a + (ps.map (Payout.out a)).sum =
    t.balance a + (ps.map (Payout.credit t a)).sum
  supply : ∀ m, t'.supply m = t.supply m + (ps.map (Payout.minted m)).sum

/-- There is enough for all payments of a batch from the source of `p`. -/
def Payout.FundedAmong (t : Ledger ι) (ps : List (Payout ι)) : Payout ι → Prop
  | transfer _ src _ _ _ => (ps.map (out src)).sum ≤ t.balance src
  | mint _ m _ _ => t.supply m + (ps.map (minted m)).sum < 2 ^ 64

theorem Payout.FundedAmong.funded {ps : List (Payout ι)} (h : p.FundedAmong t (p :: ps)) :
    p.Funded t := by
  cases p with
  | transfer program src m dst n =>
    have h : n + (ps.map (Payout.out src)).sum ≤ t.balance src := by
      simpa [Payout.FundedAmong, Payout.out] using h
    exact (Nat.le_add_right _ _).trans h
  | mint program m dst n =>
    have h : t.supply m + (n + (ps.map (Payout.minted m)).sum) < 2 ^ 64 := by
      simpa [Payout.FundedAmong, Payout.minted] using h
    show t.supply m + n < 2 ^ 64
    omega

/-- After the first payment there is enough for the others. -/
theorem Payout.FundedAmong.rest {ps : List (Payout ι)} (hp : Paid t t₁ p) (ho : p.Outward t key)
    (hq : q.Sound t key) (h : q.FundedAmong t (p :: ps)) : q.FundedAmong t₁ ps := by
  cases q with
  | transfer program src m dst n =>
    have hbalance := hp.balance src
    rw [if_neg (ho.ne hq.2.1).symm] at hbalance
    have h : p.out src + (ps.map (Payout.out src)).sum ≤ t.balance src := by
      simpa [Payout.FundedAmong] using h
    show (ps.map (Payout.out src)).sum ≤ t₁.balance src
    omega
  | mint program m dst n =>
    have hsupply := hp.supply m
    have h : t.supply m + (p.minted m + (ps.map (Payout.minted m)).sum) < 2 ^ 64 := by
      simpa [Payout.FundedAmong] using h
    show t₁.supply m + (ps.map (Payout.minted m)).sum < 2 ^ 64
    omega

theorem PaidAll.nil (t : Ledger ι) : PaidAll t t [] := ⟨.refl t, by simp, by simp⟩

/-- A payment in front of a batch. -/
theorem PaidAll.cons {ps : List (Payout ι)} (hp : Paid t t₁ p) (hall : PaidAll t₁ t' ps) :
    PaidAll t t' (p :: ps) := by
  refine ⟨hp.shape.trans hall.shape, fun a => ?_, fun m => ?_⟩
  · have hfirst := hp.balance a
    have hothers := hall.balance a
    have hcredit : ps.map (Payout.credit t₁ a) = ps.map (Payout.credit t a) :=
      List.map_congr_left fun q _ => by
        rw [Payout.credit, Payout.credit, Payout.paid_sameShape hp.shape]
    rw [hcredit] at hothers
    simp only [List.map_cons, List.sum_cons]
    rw [show Payout.credit t a p = if p.dst = a then p.paid t else 0 from rfl]
    omega
  · have hfirst := hp.supply m
    have hothers := hall.supply m
    simp only [List.map_cons, List.sum_cons]
    omega

/-- The order of a batch does not show in its effect. -/
theorem PaidAll.perm {ps qs : List (Payout ι)} (h : PaidAll t t' ps) (hperm : ps.Perm qs) :
    PaidAll t t' qs where
  shape := h.shape
  balance a := by
    rw [← (hperm.map (Payout.out a)).sum_eq, ← (hperm.map (Payout.credit t a)).sum_eq]
    exact h.balance a
  supply m := by
    rw [← (hperm.map (Payout.minted m)).sum_eq]
    exact h.supply m

/-- **A batch of payments to others succeeds when there is enough for all of it.** -/
theorem exists_payAll {ps : List (Payout ι)} (hs : ∀ p ∈ ps, p.Sound t key)
    (hopen : ∀ p ∈ ps, p.Open t) (ho : ∀ p ∈ ps, p.Outward t key)
    (hf : ∀ p ∈ ps, p.FundedAmong t ps) :
    ∃ t', t.payAll key ps = .ok t' ∧ PaidAll t t' ps := by
  induction ps generalizing t with
  | nil => exact ⟨t, rfl, .nil t⟩
  | cons p ps ih =>
    have hp := ho p List.mem_cons_self
    obtain ⟨t₁, hpay⟩ := exists_pay (hs p List.mem_cons_self) (hopen p List.mem_cons_self)
      (hf p List.mem_cons_self).funded
    have hpaid := pay_ok hp hpay
    have hmem : ∀ {q}, q ∈ ps → q ∈ p :: ps := fun hq => List.mem_cons_of_mem _ hq
    obtain ⟨t', hrest, hall⟩ := ih (fun q hq => (hs q (hmem hq)).sameShape hpaid.shape)
      (fun q hq => (hopen q (hmem hq)).sameShape hpaid.shape)
      (fun q hq => (ho q (hmem hq)).sameShape hpaid.shape)
      fun q hq => (hf q (hmem hq)).rest hpaid hp (hs q (hmem hq))
    refine ⟨t', ?_, .cons hpaid hall⟩
    simp only [Ledger.payAll, bind_eq_ok]
    exact ⟨t₁, hpay, hrest⟩

end TokenLedger
