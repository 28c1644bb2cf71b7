/-
AsyncVault/Lib/TokenLedger.lean

A ledger of fungible-token mints and token accounts.

Mints and accounts live at addresses of an arbitrary type `ι`.  The operations
are the ones a token program offers to its callers (transfer, mint, burn, open,
close, approve a delegate, freeze, hand an account or a mint over); each checks
the token program, the mint, the authority and the balance, and fails with a
`TokenError` otherwise.

An account may be frozen by the freeze authority of its mint, and neither pays
nor receives until it is thawed.  Its owner may allow one delegate to spend from
it up to an amount, and may want a memo with every transfer into it.  A mint of
the newer program may withhold a proportional fee from every transfer, in the
account that receives; it may be paused, and its transfers may call a hook, which
wants accounts of its own; a confidential mint refuses public minting and
burning.  `transfer` comes with the memo and the accounts that are wanted,
`transferChecked` without.

What the callers rely on is of two kinds:

* *amounts*: `balance`, `withheld` and `supply` are total functions, and for
  each operation one lemma gives them after the operation in terms of before;
* *shape*: `SameShape t t'` says that every account keeps its data apart from
  its amounts and every mint its data apart from the supply.  Transfers by an
  owner, mints and burns keep the shape, so facts such as "the account at `a`
  holds tokens of `m` for `o`" (`Holds`) survive any sequence of them.

Permanent delegates, tokens that cannot be transferred, confidential balances and
the withdrawal of withheld fees from a mint are left out, a hook lets every
transfer through that has its accounts, and an owner does not approve itself.

A credit cannot overflow a 64-bit balance, because the balances of a mint sum
to at most its 64-bit supply; the ledger checks the width where the supply
grows, in `mintTo`.
-/
import AsyncVault.Lib.Checked
import Mathlib.Logic.Function.Basic
import Mathlib.Tactic.Positivity

namespace TokenLedger

open Checked Function

/-! ### Data -/

inductive TokenProgram
  | token
  | token2022
  deriving DecidableEq

inductive TokenError
  | uninitializedState
  | incorrectProgramId
  | insufficientFunds
  | mintMismatch
  | ownerMismatch
  | overflow
  | fixedSupply
  | illegalMintBurnConversion
  | alreadyInUse
  | nonNativeHasBalance
  | accountFrozen
  | invalidState
  | mintCannotFreeze
  | mintPaused
  | missingHookAccounts
  | noMemo
  | accountHasWithheldTransferFees
  deriving DecidableEq

structure Mint (ι : Type) where
  program : TokenProgram
  decimals : ℕ
  supply : ℕ
  mintAuthority : Option ι
  /-- Fee withheld from a transfer, in basis points of the amount. -/
  transferFeeBps : ℕ
  /-- Cap on the fee withheld from one transfer. -/
  maximumFee : ℕ
  confidentialMintBurn : Bool
  /-- Who may freeze the accounts of the mint. -/
  freezeAuthority : Option ι := none
  /-- Who may pause the mint. -/
  pauseAuthority : Option ι := none
  paused : Bool := false
  /-- Who may set the hook of the mint. -/
  hookAuthority : Option ι := none
  /-- Every transfer calls a hook. -/
  hooked : Bool := false
  deriving DecidableEq

structure TokenAccount (ι : Type) where
  mint : ι
  owner : ι
  amount : ℕ
  frozen : Bool := false
  /-- Transfers into the account need a memo. -/
  memoRequired : Bool := false
  /-- Who else may spend from the account, and how much. -/
  delegate : Option (ι × ℕ) := none
  /-- The fees withheld from what the account received. -/
  withheld : ℕ := 0

structure Ledger (ι : Type) where
  mints : ι → Option (Mint ι)
  accounts : ι → Option (TokenAccount ι)

/-- The instructions that move no tokens of an account. -/
inductive Setting (ι : Type)
  | approve (a delegate : ι) (amount : ℕ)
  | revoke (a : ι)
  | setAccountOwner (a next : ι)
  | setFrozen (a : ι) (frozen : Bool)
  | setMemoRequired (a : ι) (memoRequired : Bool)
  | harvestWithheld (a : ι)
  | setPaused (mint : ι) (paused : Bool)
  | setHooked (mint : ι) (hooked : Bool)

variable {ι : Type}

/-- The tokens in the account at `a`; nothing where there is no account. -/
def Ledger.balance (t : Ledger ι) (a : ι) : ℕ :=
  ((t.accounts a).map TokenAccount.amount).getD 0

/-- The fees withheld in the account at `a`. -/
def Ledger.withheld (t : Ledger ι) (a : ι) : ℕ :=
  ((t.accounts a).map TokenAccount.withheld).getD 0

/-- The live supply of the mint at `m`; nothing where there is no mint. -/
def Ledger.supply (t : Ledger ι) (m : ι) : ℕ :=
  ((t.mints m).map Mint.supply).getD 0

/-- The transfer fee in force for a mint; the older program has none. -/
def Mint.epochFeeBps (m : Mint ι) : ℕ :=
  match m.program with
  | .token => 0
  | .token2022 => m.transferFeeBps

/-- The fee withheld from a transfer of `amount`: the rate rounded up, at most
`maximumFee`. -/
def Mint.transferFee (m : Mint ι) (amount : ℕ) : ℕ :=
  min ((amount * m.epochFeeBps + 9999) / 10000) m.maximumFee

theorem Mint.transferFee_eq_zero {m : Mint ι} (h : m.epochFeeBps = 0) (amount : ℕ) :
    m.transferFee amount = 0 := by
  simp [Mint.transferFee, h]

@[simp] theorem Mint.transferFee_zero (m : Mint ι) : m.transferFee 0 = 0 := by
  simp [Mint.transferFee]

/-! ### Shape -/

/-- The account at `a` exists and holds tokens of `m` for `o`. -/
def Ledger.Holds (t : Ledger ι) (a m o : ι) : Prop :=
  ∃ x, t.accounts a = some x ∧ x.mint = m ∧ x.owner = o

/-- The account at `a` holds tokens of `m` for `o`, who has approved no delegate. -/
def Ledger.HoldsAlone (t : Ledger ι) (a m o : ι) : Prop :=
  ∃ x, t.accounts a = some x ∧ x.mint = m ∧ x.owner = o ∧ x.delegate = none

/-- The account at `a` is not frozen. -/
def Ledger.Thawed (t : Ledger ι) (a : ι) : Prop :=
  ∀ x, t.accounts a = some x → x.frozen = false

/-- The mint at `m` is not paused. -/
def Ledger.Running (t : Ledger ι) (m : ι) : Prop :=
  ∀ y, t.mints m = some y → y.paused = false

/-- The account at `a` takes transfers without a memo. -/
def Ledger.Receptive (t : Ledger ι) (a : ι) : Prop :=
  ∀ x, t.accounts a = some x → x.frozen = false ∧ x.memoRequired = false

/-- Tokens of the mint at `m` move without further accounts. -/
def Ledger.Transferable (t : Ledger ι) (m : ι) : Prop :=
  ∀ y, t.mints m = some y → y.paused = false ∧ y.hooked = false

instance (t : Ledger ι) (a : ι) : Decidable (t.Receptive a) :=
  inferInstanceAs (Decidable (∀ x ∈ t.accounts a, x.frozen = false ∧ x.memoRequired = false))

instance (t : Ledger ι) (m : ι) : Decidable (t.Transferable m) :=
  inferInstanceAs (Decidable (∀ y ∈ t.mints m, y.paused = false ∧ y.hooked = false))

instance (t : Ledger ι) (a : ι) : Decidable (t.Thawed a) :=
  inferInstanceAs (Decidable (∀ x ∈ t.accounts a, x.frozen = false))

instance (t : Ledger ι) (m : ι) : Decidable (t.Running m) :=
  inferInstanceAs (Decidable (∀ y ∈ t.mints m, y.paused = false))

/-- The mint `m'` has the terms of `m`: they differ in their supply only. -/
def Mint.SameTerms (m m' : Mint ι) : Prop :=
  m' = { m with supply := m'.supply }

/-- The account `y` is `x` with other amounts. -/
def TokenAccount.SameTerms (x y : TokenAccount ι) : Prop :=
  y = { x with amount := y.amount, withheld := y.withheld }

/-- Every account and every mint keeps its terms; no account or mint appears or
disappears. -/
structure SameShape (t t' : Ledger ι) : Prop where
  accounts : ∀ a, Option.Rel TokenAccount.SameTerms (t.accounts a) (t'.accounts a)
  mints : ∀ m, Option.Rel Mint.SameTerms (t.mints m) (t'.mints m)

variable {t t' t'' : Ledger ι} {a b m o : ι} {x : TokenAccount ι} {y : Mint ι}
variable {program : TokenProgram} {src dst authority : ι} {n : ℕ}

theorem Ledger.HoldsAlone.holds (h : t.HoldsAlone a m o) : t.Holds a m o :=
  let ⟨x, hx, hm, ho, _⟩ := h
  ⟨x, hx, hm, ho⟩

theorem Ledger.Holds.unique {m' o' : ι} (h : t.Holds a m o) (h' : t.Holds a m' o') :
    m = m' ∧ o = o' := by
  obtain ⟨x, hx, rfl, rfl⟩ := h
  obtain ⟨x', hx', rfl, rfl⟩ := h'
  rw [hx, Option.some.injEq] at hx'
  exact ⟨congrArg _ hx', congrArg _ hx'⟩

/-- Accounts of different mints are at different addresses. -/
theorem Ledger.Holds.ne_of_mint {m' o' : ι} (h : t.Holds a m o) (h' : t.Holds b m' o')
    (hm : m ≠ m') : a ≠ b := by
  rintro rfl
  exact hm (h.unique h').1

/-- Accounts of different owners are at different addresses. -/
theorem Ledger.Holds.ne_of_owner {m' o' : ι} (h : t.Holds a m o) (h' : t.Holds b m' o')
    (ho : o ≠ o') : a ≠ b := by
  rintro rfl
  exact ho (h.unique h').2

theorem SameShape.refl (t : Ledger ι) : SameShape t t where
  accounts a := by cases t.accounts a <;> constructor; rfl
  mints m := by cases t.mints m <;> constructor; rfl

theorem SameShape.trans (h : SameShape t t') (h' : SameShape t' t'') : SameShape t t'' where
  accounts a := by
    have h₁ := h.accounts a
    have h₂ := h'.accounts a
    revert h₁ h₂
    rcases t.accounts a with - | x <;> rcases t'.accounts a with - | y <;>
      rcases t''.accounts a with - | z <;> grind [Option.Rel, TokenAccount.SameTerms]
  mints m := by
    have h₁ := h.mints m
    have h₂ := h'.mints m
    revert h₁ h₂
    rcases t.mints m with - | x <;> rcases t'.mints m with - | y <;>
      rcases t''.mints m with - | z <;> grind [Option.Rel, Mint.SameTerms]

theorem TokenAccount.SameTerms.symm {x y : TokenAccount ι} (h : x.SameTerms y) : y.SameTerms x := by
  show x = { y with amount := x.amount, withheld := x.withheld }
  rw [h]

theorem Mint.SameTerms.symm {y y' : Mint ι} (h : y.SameTerms y') : y'.SameTerms y := by
  show y = { y' with supply := y.supply }
  rw [h]

theorem SameShape.symm (h : SameShape t t') : SameShape t' t where
  accounts a := by
    have hr := h.accounts a
    generalize t.accounts a = x at hr
    generalize t'.accounts a = x' at hr
    cases hr with
    | none => exact .none
    | some hx => exact .some hx.symm
  mints m := by
    have hr := h.mints m
    generalize t.mints m = y at hr
    generalize t'.mints m = y' at hr
    cases hr with
    | none => exact .none
    | some hy => exact .some hy.symm

theorem SameShape.account (h : SameShape t t') (hx : t.accounts a = some x) :
    ∃ x', t'.accounts a = some x' ∧ x.SameTerms x' := by
  have hr := h.accounts a
  rw [hx] at hr
  cases hx' : t'.accounts a with
  | none => rw [hx'] at hr; cases hr
  | some x' =>
    rw [hx'] at hr
    cases hr with
    | some hr => exact ⟨x', rfl, hr⟩

theorem SameShape.holds (h : SameShape t t') (hx : t.Holds a m o) : t'.Holds a m o := by
  obtain ⟨x, hx, rfl, rfl⟩ := hx
  obtain ⟨x', hx', hterms⟩ := h.account hx
  exact ⟨x', hx', by rw [hterms], by rw [hterms]⟩

theorem SameShape.holds_iff (h : SameShape t t') : t'.Holds a m o ↔ t.Holds a m o :=
  ⟨h.symm.holds, h.holds⟩

theorem SameShape.holdsAlone (h : SameShape t t') (hx : t.HoldsAlone a m o) :
    t'.HoldsAlone a m o := by
  obtain ⟨x, hx, rfl, rfl, hd⟩ := hx
  obtain ⟨x', hx', hterms⟩ := h.account hx
  exact ⟨x', hx', by rw [hterms], by rw [hterms], by rw [hterms]; exact hd⟩

theorem SameShape.thawed (h : SameShape t t') (ha : t.Thawed a) : t'.Thawed a := by
  intro x' hx'
  obtain ⟨x, hx, hterms⟩ := h.symm.account hx'
  rw [← ha x hx, hterms]

theorem SameShape.receptive (h : SameShape t t') (ha : t.Receptive a) : t'.Receptive a := by
  intro x' hx'
  obtain ⟨x, hx, hterms⟩ := h.symm.account hx'
  have hx := ha x hx
  rwa [hterms] at hx

theorem SameShape.mint (h : SameShape t t') (hy : t.mints m = some y) :
    ∃ y', t'.mints m = some y' ∧ y.SameTerms y' := by
  have hr := h.mints m
  rw [hy] at hr
  cases hy' : t'.mints m with
  | none => rw [hy'] at hr; cases hr
  | some y' =>
    rw [hy'] at hr
    cases hr with
    | some hr => exact ⟨y', rfl, hr⟩

theorem SameShape.running (h : SameShape t t') (hm : t.Running m) : t'.Running m := by
  intro y' hy'
  obtain ⟨y, hy, hterms⟩ := h.symm.mint hy'
  rw [← hm y hy, hterms]

theorem SameShape.transferable (h : SameShape t t') (hm : t.Transferable m) :
    t'.Transferable m := by
  intro y' hy'
  obtain ⟨y, hy, hterms⟩ := h.symm.mint hy'
  have hy := hm y hy
  rwa [hterms] at hy

theorem withheld_of_some (h : t.accounts a = some x) : t.withheld a = x.withheld := by
  simp [Ledger.withheld, h]

theorem balance_of_some (h : t.accounts a = some x) : t.balance a = x.amount := by
  simp [Ledger.balance, h]

theorem supply_of_some (h : t.mints m = some y) : t.supply m = y.supply := by
  simp [Ledger.supply, h]

theorem thawed_of_some (h : t.accounts a = some x) (hx : x.frozen = false) : t.Thawed a := by
  intro z hz
  rwa [← Option.some.inj (h.symm.trans hz)]

theorem running_of_some (h : t.mints m = some y) (hy : y.paused = false) : t.Running m := by
  intro z hz
  rwa [← Option.some.inj (h.symm.trans hz)]

/-! ### What one account may spend -/

/-- At most `n` tokens left the account at `src`; no other account lost any. -/
structure Spent (t t' : Ledger ι) (src : ι) (n : ℕ) : Prop where
  shape : SameShape t t'
  mints : t'.mints = t.mints
  balance_src : t.balance src ≤ t'.balance src + n
  balance_of_ne : ∀ a, a ≠ src → t.balance a ≤ t'.balance a

theorem Spent.refl (t : Ledger ι) (src : ι) (n : ℕ) : Spent t t src n :=
  ⟨.refl t, rfl, Nat.le_add_right _ _, fun _ _ => le_rfl⟩

theorem Spent.trans {k : ℕ} (h : Spent t t' src n) (h' : Spent t' t'' src k) :
    Spent t t'' src (n + k) where
  shape := h.shape.trans h'.shape
  mints := h'.mints.trans h.mints
  balance_src := by
    have := h.balance_src
    have := h'.balance_src
    omega
  balance_of_ne a ha := (h.balance_of_ne a ha).trans (h'.balance_of_ne a ha)

theorem Spent.supply (h : Spent t t' src n) (m : ι) : t'.supply m = t.supply m := by
  simp [Ledger.supply, h.mints]

/-! ### What a key controls -/

/-- The mint at `m` exists and `key` alone may mint it, publicly. -/
def Ledger.Mintable (t : Ledger ι) (m key : ι) : Prop :=
  ∃ y, t.mints m = some y ∧ y.mintAuthority = some key

/-- The price unit of the mint at `m`: ten to its decimals. -/
def Ledger.unit (t : Ledger ι) (m : ι) : ℕ :=
  10 ^ ((t.mints m).map Mint.decimals).getD 0

theorem unit_of_some (h : t.mints m = some y) : t.unit m = 10 ^ y.decimals := by
  simp [Ledger.unit, h]

theorem unit_pos (t : Ledger ι) (m : ι) : 0 < t.unit m := by
  unfold Ledger.unit
  positivity

theorem SameShape.unit (h : SameShape t t') (m : ι) : t'.unit m = t.unit m := by
  have hr := h.mints m
  cases hy : t.mints m with
  | none =>
    rw [hy] at hr
    cases hy' : t'.mints m with
    | none => rw [Ledger.unit, Ledger.unit, hy, hy']
    | some y' =>
      rw [hy'] at hr
      cases hr
  | some y =>
    obtain ⟨y', hy', he⟩ := h.mint hy
    rw [unit_of_some hy, unit_of_some hy', he]

/-- What `key` controls survives: the accounts it owns stay open with their
mint and get no delegate, the mints it may mint stay with their decimals. -/
structure Guarded (key : ι) (t t' : Ledger ι) : Prop where
  holds : ∀ a m, t.Holds a m key → t'.Holds a m key
  alone : ∀ a m, t.HoldsAlone a m key → t'.HoldsAlone a m key
  mintable : ∀ m, t.Mintable m key → t'.Mintable m key
  unit : ∀ m, t.Mintable m key → t'.unit m = t.unit m

theorem Guarded.refl (key : ι) (t : Ledger ι) : Guarded key t t :=
  ⟨fun _ _ h => h, fun _ _ h => h, fun _ h => h, fun _ _ => rfl⟩

theorem Guarded.trans {key : ι} (h : Guarded key t t') (h' : Guarded key t' t'') :
    Guarded key t t'' where
  holds a m hx := h'.holds a m (h.holds a m hx)
  alone a m hx := h'.alone a m (h.alone a m hx)
  mintable m hx := h'.mintable m (h.mintable m hx)
  unit m hx := by rw [h'.unit m (h.mintable m hx), h.unit m hx]

theorem SameShape.guarded (h : SameShape t t') (key : ι) : Guarded key t t' where
  holds _ _ := h.holds
  alone _ _ := h.holdsAlone
  mintable m := by
    rintro ⟨y, hy, ha⟩
    obtain ⟨y', hy', he⟩ := h.mint hy
    exact ⟨y', hy', by rw [he, ← ha]⟩
  unit m _ := h.unit m

/-- What others can do to what `key` controls: pay into the accounts it owns,
and burn tokens it may mint; a delegate aside, they take nothing. -/
structure Outside (key : ι) (t t' : Ledger ι) : Prop extends Guarded key t t' where
  balance : ∀ a m, t.HoldsAlone a m key → t.balance a ≤ t'.balance a
  supply : ∀ m, t.Mintable m key → t'.supply m ≤ t.supply m

/-- Nothing at all happens to the amounts that `key` controls. -/
structure Untouched (key : ι) (t t' : Ledger ι) : Prop extends Guarded key t t' where
  balance : ∀ a m, t.Holds a m key → t'.balance a = t.balance a
  supply : ∀ m, t.Mintable m key → t'.supply m = t.supply m

theorem Untouched.outside {key : ι} (h : Untouched key t t') : Outside key t t' :=
  ⟨h.toGuarded, fun a m ha => (h.balance a m ha.holds).ge, fun m hm => (h.supply m hm).le⟩

/-- The account `y` has the owner, the tokens and the delegate of `x`. -/
structure TokenAccount.Alike (x y : TokenAccount ι) : Prop where
  mint : y.mint = x.mint
  owner : y.owner = x.owner
  amount : y.amount = x.amount
  delegate : y.delegate = x.delegate

/-- The account `y` is `x` after others paid into it. -/
structure TokenAccount.Spared (x y : TokenAccount ι) : Prop where
  mint : y.mint = x.mint
  owner : y.owner = x.owner
  delegate : y.delegate = x.delegate
  amount_le : x.amount ≤ y.amount

theorem TokenAccount.Spared.refl (x : TokenAccount ι) : x.Spared x := ⟨rfl, rfl, rfl, le_rfl⟩

theorem TokenAccount.Spared.trans {x y z : TokenAccount ι} (h : x.Spared y) (h' : y.Spared z) :
    x.Spared z :=
  ⟨h'.mint.trans h.mint, h'.owner.trans h.owner, h'.delegate.trans h.delegate,
    h.amount_le.trans h'.amount_le⟩

theorem TokenAccount.Alike.spared {x y : TokenAccount ι} (h : x.Alike y) : x.Spared y :=
  ⟨h.mint, h.owner, h.delegate, h.amount.ge⟩

/-- An account that keeps its terms and loses nothing is spared. -/
theorem SameShape.spared (h : SameShape t t') (hx : t.accounts a = some x)
    (hle : t.balance a ≤ t'.balance a) : ∃ x', t'.accounts a = some x' ∧ x.Spared x' := by
  obtain ⟨x', hx', hterms⟩ := h.account hx
  rw [balance_of_some hx, balance_of_some hx'] at hle
  exact ⟨x', hx', by rw [hterms], by rw [hterms], by rw [hterms], hle⟩

theorem TokenAccount.Alike.refl (x : TokenAccount ι) : x.Alike x := ⟨rfl, rfl, rfl, rfl⟩

/-- An account opened, a mint opened, an account closed or frozen, a mint authority handed
over or a transfer fee changed without the signature of `key` touches nothing
that `key` controls. -/
theorem untouched_of_alike {key : ι}
    (hacc : ∀ a x, t.accounts a = some x → x.owner = key →
      ∃ x', t'.accounts a = some x' ∧ x.Alike x')
    (hmint : ∀ m y, t.mints m = some y → y.mintAuthority = some key →
      ∃ y', t'.mints m = some y' ∧ y'.mintAuthority = some key ∧ y'.supply = y.supply ∧
        y'.decimals = y.decimals) : Untouched key t t' where
  -- each account and mint of `key` is found again, alike
  holds a m := by
    rintro ⟨x, hx, rfl, ho⟩
    obtain ⟨x', hx', hlike⟩ := hacc a x hx ho
    exact ⟨x', hx', hlike.mint, hlike.owner.trans ho⟩
  alone a m := by
    rintro ⟨x, hx, rfl, ho, hd⟩
    obtain ⟨x', hx', hlike⟩ := hacc a x hx ho
    exact ⟨x', hx', hlike.mint, hlike.owner.trans ho, hlike.delegate.trans hd⟩
  mintable m := by
    rintro ⟨y, hy, ha⟩
    obtain ⟨y', hy', ha', -⟩ := hmint m y hy ha
    exact ⟨y', hy', ha'⟩
  unit m := by
    rintro ⟨y, hy, ha⟩
    obtain ⟨y', hy', -, -, hd⟩ := hmint m y hy ha
    rw [unit_of_some hy, unit_of_some hy', hd]
  balance a m := by
    rintro ⟨x, hx, -, ho⟩
    obtain ⟨x', hx', hlike⟩ := hacc a x hx ho
    rw [balance_of_some hx, balance_of_some hx', hlike.amount]
  supply m := by
    rintro ⟨y, hy, ha⟩
    obtain ⟨y', hy', -, hs, -⟩ := hmint m y hy ha
    rw [supply_of_some hy, supply_of_some hy', hs]

/-- The same where those accounts are left as they are. -/
theorem untouched_of_eq {key : ι} (hacc : ∀ a m, t.Holds a m key → t'.accounts a = t.accounts a)
    (hmint : ∀ m y, t.mints m = some y → y.mintAuthority = some key →
      ∃ y', t'.mints m = some y' ∧ y'.mintAuthority = some key ∧ y'.supply = y.supply ∧
        y'.decimals = y.decimals) : Untouched key t t' :=
  untouched_of_alike
    (fun a x hx ho => ⟨x, (hacc a x.mint ⟨x, hx, rfl, ho⟩).trans hx, .refl x⟩) hmint

/-- No mint disappears, and none becomes confidential or stops being so. -/
def Lasting (t t' : Ledger ι) : Prop :=
  ∀ m y, t.mints m = some y →
    ∃ y', t'.mints m = some y' ∧ y'.confidentialMintBurn = y.confidentialMintBurn

theorem Lasting.of_eq (h : t'.mints = t.mints) : Lasting t t' :=
  fun m y hy => ⟨y, by rw [h, hy], rfl⟩

theorem Lasting.trans (h : Lasting t t') (h' : Lasting t' t'') : Lasting t t'' := by
  intro m y hy
  obtain ⟨y', hy', he⟩ := h m y hy
  obtain ⟨y'', hy'', he'⟩ := h' m y' hy'
  exact ⟨y'', hy'', he'.trans he⟩

theorem SameShape.lasting (h : SameShape t t') : Lasting t t' := by
  intro m y hy
  obtain ⟨y', hy', he⟩ := h.mint hy
  exact ⟨y', hy', by rw [he]⟩

/-! ### Loading -/

/-- Load the mint at `m`, checking that it belongs to `program`. -/
def Ledger.loadMint (t : Ledger ι) (program : TokenProgram) (m : ι) :
    Except TokenError (Mint ι) := do
  let x ← okOr .uninitializedState (t.mints m)
  require .incorrectProgramId (x.program = program)
  pure x

/-- Load the account at `a`, checking that it holds tokens of `m`. -/
def Ledger.loadAccount [DecidableEq ι] (t : Ledger ι) (a m : ι) :
    Except TokenError (TokenAccount ι) := do
  let x ← okOr .uninitializedState (t.accounts a)
  require .mintMismatch (x.mint = m)
  pure x

@[simp] theorem loadMint_eq_ok :
    t.loadMint program m = .ok y ↔ t.mints m = some y ∧ y.program = program := by
  simp only [Ledger.loadMint, bind_eq_ok, okOr_eq_ok, require_eq_ok, pure_eq_ok]
  grind

@[simp] theorem loadAccount_eq_ok [DecidableEq ι] :
    t.loadAccount a m = .ok x ↔ t.accounts a = some x ∧ x.mint = m := by
  simp only [Ledger.loadAccount, bind_eq_ok, okOr_eq_ok, require_eq_ok, pure_eq_ok]
  grind

/-! ### Operations -/

variable [DecidableEq ι] {key : ι}

/-- Overwrite the account at `a`. -/
def Ledger.setAccount (t : Ledger ι) (a : ι) (x : TokenAccount ι) : Ledger ι :=
  { t with accounts := update t.accounts a (some x) }

/-- Overwrite the supply of the mint `x` at `m`. -/
def Ledger.setSupply (t : Ledger ι) (m : ι) (x : Mint ι) (supply : ℕ) : Ledger ι :=
  { t with mints := update t.mints m (some { x with supply := supply }) }

/-- Take `amount` out of the account. -/
def TokenAccount.debit (x : TokenAccount ι) (amount : ℕ) : TokenAccount ι :=
  { x with amount := x.amount - amount }

/-- Pay `amount` into the account, of which `fee` is withheld. -/
def TokenAccount.credit (x : TokenAccount ι) (amount fee : ℕ) : TokenAccount ι :=
  { x with amount := x.amount + (amount - fee), withheld := x.withheld + fee }

/-- Spend `amount` of what the delegate may. -/
def TokenAccount.spendAllowance (x : TokenAccount ι) (delegate : ι) (amount : ℕ) :
    Except TokenError (TokenAccount ι) := do
  let (k, allowance) ← okOr .ownerMismatch x.delegate
  require .ownerMismatch (k = delegate)
  require .insufficientFunds (amount ≤ allowance)
  pure { x with delegate := if amount < allowance then some (k, allowance - amount) else none }

/-- Move `amount` from `src` to `dst` on the signature of the owner `authority`.  The
destination is credited what the mint's transfer fee leaves; a transfer from an
account to itself changes nothing. -/
def Ledger.transfer (t : Ledger ι) (program : TokenProgram) (src mint dst authority : ι)
    (amount : ℕ) : Except TokenError (Ledger ι) := do
  let m ← t.loadMint program mint
  let x ← t.loadAccount src mint
  let y ← t.loadAccount dst mint
  require .accountFrozen (x.frozen = false ∧ y.frozen = false)
  require .mintPaused (m.paused = false)
  require .ownerMismatch (x.owner = authority)
  require .insufficientFunds (amount ≤ x.amount)
  if src = dst then
    pure t
  else do
    let t := t.setAccount src (x.debit amount)
    let y ← t.loadAccount dst mint
    pure (t.setAccount dst (y.credit amount (m.transferFee amount)))

/-- The same without a memo and without accounts for a hook. -/
def Ledger.transferChecked (t : Ledger ι) (program : TokenProgram) (src mint dst authority : ι)
    (amount : ℕ) : Except TokenError (Ledger ι) := do
  let m ← t.loadMint program mint
  let y ← t.loadAccount dst mint
  require .missingHookAccounts (m.hooked = false)
  require .noMemo (y.memoRequired = false)
  t.transfer program src mint dst authority amount

/-- Transfer on the signature of a delegate of the owner. -/
def Ledger.transferDelegated (t : Ledger ι) (program : TokenProgram) (src mint dst delegate : ι)
    (amount : ℕ) : Except TokenError (Ledger ι) := do
  let m ← t.loadMint program mint
  let x ← t.loadAccount src mint
  let y ← t.loadAccount dst mint
  require .accountFrozen (x.frozen = false ∧ y.frozen = false)
  require .mintPaused (m.paused = false)
  let x' ← x.spendAllowance delegate amount
  require .insufficientFunds (amount ≤ x.amount)
  if src = dst then
    pure t
  else do
    let t := t.setAccount src (x'.debit amount)
    let y ← t.loadAccount dst mint
    pure (t.setAccount dst (y.credit amount (m.transferFee amount)))

/-- Create `amount` new tokens of `mint` in the account `dst`. -/
def Ledger.mintTo (t : Ledger ι) (program : TokenProgram) (mint dst authority : ι)
    (amount : ℕ) : Except TokenError (Ledger ι) := do
  let m ← t.loadMint program mint
  let y ← t.loadAccount dst mint
  require .accountFrozen (y.frozen = false)
  require .mintPaused (m.paused = false)
  require .illegalMintBurnConversion (m.confidentialMintBurn = false)
  require .fixedSupply m.mintAuthority.isSome
  require .ownerMismatch (m.mintAuthority = some authority)
  let supply ← Checked.add .overflow (2 ^ 64) m.supply amount
  pure ((t.setSupply mint m supply).setAccount dst (y.credit amount 0))

/-- Destroy `amount` tokens of `mint` in the account `src`, on the signature of its owner. -/
def Ledger.burn (t : Ledger ι) (program : TokenProgram) (src mint authority : ι)
    (amount : ℕ) : Except TokenError (Ledger ι) := do
  let m ← t.loadMint program mint
  let x ← t.loadAccount src mint
  require .accountFrozen (x.frozen = false)
  require .mintPaused (m.paused = false)
  require .illegalMintBurnConversion (m.confidentialMintBurn = false)
  require .ownerMismatch (x.owner = authority)
  require .insufficientFunds (amount ≤ x.amount)
  let supply ← Checked.sub .overflow m.supply amount
  pure ((t.setSupply mint m supply).setAccount src (x.debit amount))

/-- Burn on the signature of a delegate of the owner. -/
def Ledger.burnDelegated (t : Ledger ι) (program : TokenProgram) (src mint delegate : ι)
    (amount : ℕ) : Except TokenError (Ledger ι) := do
  let m ← t.loadMint program mint
  let x ← t.loadAccount src mint
  require .accountFrozen (x.frozen = false)
  require .mintPaused (m.paused = false)
  require .illegalMintBurnConversion (m.confidentialMintBurn = false)
  let x ← x.spendAllowance delegate amount
  require .insufficientFunds (amount ≤ x.amount)
  let supply ← Checked.sub .overflow m.supply amount
  pure ((t.setSupply mint m supply).setAccount src (x.debit amount))

/-- Open an empty account for `mint` at the unused address `a`. -/
def Ledger.initializeAccount (t : Ledger ι) (program : TokenProgram) (a mint owner : ι) :
    Except TokenError (Ledger ι) := do
  require .alreadyInUse ((t.accounts a).isNone ∧ (t.mints a).isNone)
  let _ ← t.loadMint program mint
  pure (t.setAccount a { mint := mint, owner := owner, amount := 0 })

/-- Close the empty account at `a`, which no fees are withheld in. -/
def Ledger.closeAccount (t : Ledger ι) (a authority : ι) : Except TokenError (Ledger ι) := do
  let x ← okOr .uninitializedState (t.accounts a)
  require .nonNativeHasBalance (x.amount = 0)
  require .ownerMismatch (x.owner = authority)
  require .accountHasWithheldTransferFees (x.withheld = 0)
  pure { t with accounts := update t.accounts a none }

/-- Let `delegate` spend up to `amount` from the account at `a`. -/
def Ledger.approve (t : Ledger ι) (a authority delegate : ι) (amount : ℕ) :
    Except TokenError (Ledger ι) := do
  let x ← okOr .uninitializedState (t.accounts a)
  require .accountFrozen (x.frozen = false)
  require .ownerMismatch (x.owner = authority ∧ delegate ≠ authority)
  pure (t.setAccount a { x with delegate := some (delegate, amount) })

/-- Let nobody else spend from the account at `a`. -/
def Ledger.revoke (t : Ledger ι) (a authority : ι) : Except TokenError (Ledger ι) := do
  let x ← okOr .uninitializedState (t.accounts a)
  require .accountFrozen (x.frozen = false)
  require .ownerMismatch (x.owner = authority)
  pure (t.setAccount a { x with delegate := none })

/-- Hand the account at `a` over to `next`. -/
def Ledger.setAccountOwner (t : Ledger ι) (a authority next : ι) :
    Except TokenError (Ledger ι) := do
  let x ← okOr .uninitializedState (t.accounts a)
  require .accountFrozen (x.frozen = false)
  require .ownerMismatch (x.owner = authority)
  pure (t.setAccount a { x with owner := next, delegate := none })

/-- Freeze the account at `a`, or thaw it. -/
def Ledger.setFrozen (t : Ledger ι) (a authority : ι) (frozen : Bool) :
    Except TokenError (Ledger ι) := do
  let x ← okOr .uninitializedState (t.accounts a)
  let m ← okOr .uninitializedState (t.mints x.mint)
  require .invalidState (x.frozen ≠ frozen)
  require .mintCannotFreeze m.freezeAuthority.isSome
  require .ownerMismatch (m.freezeAuthority = some authority)
  pure (t.setAccount a { x with frozen := frozen })

/-- Want a memo with transfers into the account at `a`, or want none. -/
def Ledger.setMemoRequired (t : Ledger ι) (a authority : ι) (memoRequired : Bool) :
    Except TokenError (Ledger ι) := do
  let x ← okOr .uninitializedState (t.accounts a)
  require .ownerMismatch (x.owner = authority)
  pure (t.setAccount a { x with memoRequired := memoRequired })

/-- Move the fees withheld in the account at `a` to its mint, which anybody may. -/
def Ledger.harvestWithheld (t : Ledger ι) (a : ι) : Except TokenError (Ledger ι) := do
  let x ← okOr .uninitializedState (t.accounts a)
  pure (t.setAccount a { x with withheld := 0 })

/-- Open a mint with no supply at the unused address `a`. -/
def Ledger.initializeMint (t : Ledger ι) (a : ι) (m : Mint ι) : Except TokenError (Ledger ι) := do
  require .alreadyInUse ((t.accounts a).isNone ∧ (t.mints a).isNone)
  pure { t with mints := update t.mints a (some { m with supply := 0 }) }

/-- Hand the mint authority of `mint` from `current` over to `next`. -/
def Ledger.setMintAuthority (t : Ledger ι) (program : TokenProgram) (mint current : ι)
    (next : Option ι) : Except TokenError (Ledger ι) := do
  let m ← t.loadMint program mint
  require .fixedSupply m.mintAuthority.isSome
  require .ownerMismatch (m.mintAuthority = some current)
  pure { t with mints := update t.mints mint (some { m with mintAuthority := next }) }

/-- Change the transfer fee of a mint. -/
def Ledger.setTransferFee (t : Ledger ι) (mint : ι) (bps maximum : ℕ) :
    Except TokenError (Ledger ι) := do
  let m ← okOr .uninitializedState (t.mints mint)
  let m := { m with transferFeeBps := bps, maximumFee := maximum }
  pure { t with mints := update t.mints mint (some m) }

/-- Pause a mint, or resume it. -/
def Ledger.setPaused (t : Ledger ι) (mint authority : ι) (paused : Bool) :
    Except TokenError (Ledger ι) := do
  let m ← okOr .uninitializedState (t.mints mint)
  require .ownerMismatch (m.pauseAuthority = some authority)
  pure { t with mints := update t.mints mint (some { m with paused := paused }) }

/-- Let the transfers of a mint call a hook, or call none. -/
def Ledger.setHooked (t : Ledger ι) (mint authority : ι) (hooked : Bool) :
    Except TokenError (Ledger ι) := do
  let m ← okOr .uninitializedState (t.mints mint)
  require .ownerMismatch (m.hookAuthority = some authority)
  pure { t with mints := update t.mints mint (some { m with hooked := hooked }) }

/-- Carry out one of the instructions that move no tokens. -/
def Ledger.applySetting (t : Ledger ι) (authority : ι) : Setting ι → Except TokenError (Ledger ι)
  | .approve a delegate amount => t.approve a authority delegate amount
  | .revoke a => t.revoke a authority
  | .setAccountOwner a next => t.setAccountOwner a authority next
  | .setFrozen a frozen => t.setFrozen a authority frozen
  | .setMemoRequired a memoRequired => t.setMemoRequired a authority memoRequired
  | .harvestWithheld a => t.harvestWithheld a
  | .setPaused mint paused => t.setPaused mint authority paused
  | .setHooked mint hooked => t.setHooked mint authority hooked

/-! ### Overwriting one account or one supply -/

@[simp] theorem balance_setAccount (t : Ledger ι) (a : ι) (x : TokenAccount ι) (b : ι) :
    (t.setAccount a x).balance b = if b = a then x.amount else t.balance b := by
  unfold Ledger.balance Ledger.setAccount
  by_cases h : b = a <;> simp [h]

@[simp] theorem withheld_setAccount (t : Ledger ι) (a : ι) (x : TokenAccount ι) (b : ι) :
    (t.setAccount a x).withheld b = if b = a then x.withheld else t.withheld b := by
  unfold Ledger.withheld Ledger.setAccount
  by_cases h : b = a <;> simp [h]

@[simp] theorem mints_setAccount (t : Ledger ι) (a : ι) (x : TokenAccount ι) :
    (t.setAccount a x).mints = t.mints := rfl

@[simp] theorem balance_setSupply (t : Ledger ι) (m : ι) (y : Mint ι) (n : ℕ) (b : ι) :
    (t.setSupply m y n).balance b = t.balance b := rfl

@[simp] theorem withheld_setSupply (t : Ledger ι) (m : ι) (y : Mint ι) (n : ℕ) (b : ι) :
    (t.setSupply m y n).withheld b = t.withheld b := rfl

@[simp] theorem accounts_setSupply (t : Ledger ι) (m : ι) (y : Mint ι) (n : ℕ) :
    (t.setSupply m y n).accounts = t.accounts := rfl

@[simp] theorem supply_setAccount (t : Ledger ι) (a : ι) (x : TokenAccount ι) (m : ι) :
    (t.setAccount a x).supply m = t.supply m := rfl

@[simp] theorem supply_setSupply (t : Ledger ι) (m : ι) (y : Mint ι) (n : ℕ) (m' : ι) :
    (t.setSupply m y n).supply m' = if m' = m then n else t.supply m' := by
  unfold Ledger.supply Ledger.setSupply
  by_cases h : m' = m <;> simp [h]

/-- Fees are withheld where they were, as long as the account keeps its own. -/
theorem withheld_le_setAccount {x' : TokenAccount ι} (hx : t.accounts a = some x)
    (h : x.withheld ≤ x'.withheld) (b : ι) : t.withheld b ≤ (t.setAccount a x').withheld b := by
  rw [withheld_setAccount]
  split
  · next hb =>
    rw [hb, withheld_of_some hx]
    exact h
  · exact le_rfl

theorem accounts_setAccount_of_ne (t : Ledger ι) (x : TokenAccount ι) (h : b ≠ a) :
    (t.setAccount a x).accounts b = t.accounts b :=
  update_of_ne h _ _

omit [DecidableEq ι] in
theorem TokenAccount.sameTerms_debit (x : TokenAccount ι) (n : ℕ) : x.SameTerms (x.debit n) := rfl

omit [DecidableEq ι] in
theorem TokenAccount.sameTerms_credit (x : TokenAccount ι) (n fee : ℕ) :
    x.SameTerms (x.credit n fee) := rfl

theorem sameShape_setAccount {x' : TokenAccount ι} (h : t.accounts a = some x)
    (hx : x.SameTerms x') : SameShape t (t.setAccount a x') where
  accounts b := by
    by_cases hb : b = a
    · subst hb
      simp only [Ledger.setAccount, update_self, h]
      exact .some hx
    · rw [accounts_setAccount_of_ne t x' hb]
      exact (SameShape.refl t).accounts b
  mints := (SameShape.refl t).mints

theorem sameShape_setSupply (h : t.mints m = some y) (n : ℕ) :
    SameShape t (t.setSupply m y n) where
  accounts := (SameShape.refl t).accounts
  mints m' := by
    by_cases hb : m' = m
    · subst hb
      simp only [Ledger.setSupply, update_self, h]
      exact .some rfl
    · simp only [Ledger.setSupply, update_of_ne hb]
      exact (SameShape.refl t).mints m'

/-! ### What each operation does -/

/-- The effect of a successful transfer of `n` tokens of `m`. -/
structure Transferred (t t' : Ledger ι) (program : TokenProgram) (src m dst authority : ι)
    (n : ℕ) : Prop where
  shape : SameShape t t'
  mints : t'.mints = t.mints
  src_holds : t.Holds src m authority
  dst_holds : ∃ o, t.Holds dst m o
  le_balance : n ≤ t.balance src
  balance_self : src = dst → t' = t
  balance_src : src ≠ dst → t'.balance src + n = t.balance src
  balance_dst : src ≠ dst → ∃ y, t.mints m = some y ∧ y.program = program ∧
    t'.balance dst = t.balance dst + (n - y.transferFee n)
  balance_of_ne : ∀ a, a ≠ src → a ≠ dst → t'.balance a = t.balance a
  withheld_dst : src ≠ dst → ∀ y, t.mints m = some y →
    t'.withheld dst = t.withheld dst + y.transferFee n
  withheld_of_ne : ∀ a, a ≠ dst → t'.withheld a = t.withheld a

theorem transfer_ok (h : t.transfer program src m dst authority n = .ok t') :
    Transferred t t' program src m dst authority n := by
  simp only [Ledger.transfer, bind_eq_ok, loadMint_eq_ok, loadAccount_eq_ok,
    require_eq_ok] at h
  obtain ⟨y, ⟨hy, hp⟩, x, ⟨hx, hxm⟩, z, ⟨hz, hzm⟩, -, -, -, -, -, hown, -, hle, h⟩ := h
  have hbal := balance_of_some hx
  by_cases hsd : src = dst
  · obtain rfl : t = t' := by simpa [hsd] using h
    exact ⟨.refl t, rfl, ⟨x, hx, hxm, hown⟩, ⟨_, z, hz, hzm, rfl⟩, by omega, fun _ => rfl,
      fun hne => absurd hsd hne, fun hne => absurd hsd hne, fun _ _ _ => rfl,
      fun hne => absurd hsd hne, fun _ _ => rfl⟩
  · simp only [hsd, if_false, bind_eq_ok, loadAccount_eq_ok, pure_eq_ok] at h
    obtain ⟨w, ⟨hw, -⟩, rfl⟩ := h
    -- the destination is another account, so the debit left it as it was
    have hw' : t.accounts dst = some w := by
      rw [← hw]
      exact (accounts_setAccount_of_ne t _ (Ne.symm hsd)).symm
    have hwb := balance_of_some hw'
    refine ⟨(sameShape_setAccount hx (x.sameTerms_debit n)).trans
        (sameShape_setAccount hw (w.sameTerms_credit n _)), rfl,
      ⟨x, hx, hxm, hown⟩, ⟨_, z, hz, hzm, rfl⟩, by omega, fun he => absurd he hsd, fun _ => ?_,
      fun _ => ⟨y, hy, hp, ?_⟩, fun a ha ha' => ?_, fun _ y' hy' => ?_, fun a ha => ?_⟩
    · simp only [balance_setAccount, hsd, if_false, if_true, TokenAccount.debit]
      omega
    · simp [hwb, TokenAccount.credit]
    · simp [ha, ha']
    · rw [Option.some.inj (hy'.symm.trans hy)]
      simp [TokenAccount.credit, withheld_of_some hw']
    · by_cases hs : a = src
      · subst hs
        simp [ha, TokenAccount.debit, withheld_of_some hx]
      · simp [ha, hs]

omit [DecidableEq ι] in
theorem Transferred.withheld_le (h : Transferred t t' program src m dst authority n) (a : ι) :
    t.withheld a ≤ t'.withheld a := by
  by_cases ha : a = dst
  · by_cases hsd : src = dst
    · rw [h.balance_self hsd]
    · obtain ⟨y, hy, -⟩ := h.balance_dst hsd
      rw [ha, h.withheld_dst hsd y hy]
      exact Nat.le_add_right _ _
  · exact (h.withheld_of_ne a ha).ge

/-- What a transfer without a memo and without accounts for a hook comes to. -/
theorem transferChecked_iff : t.transferChecked program src m dst authority n = .ok t' ↔
    (t.Transferable m ∧ t.Thawed src ∧ t.Receptive dst) ∧
      t.transfer program src m dst authority n = .ok t' := by
  simp only [Ledger.transferChecked, bind_eq_ok, loadMint_eq_ok, loadAccount_eq_ok, require_eq_ok]
  constructor
  · rintro ⟨y, ⟨hy, -⟩, z, ⟨hz, -⟩, -, hhook, -, hmemo, h⟩
    refine ⟨?_, h⟩
    simp only [Ledger.transfer, bind_eq_ok, loadMint_eq_ok, loadAccount_eq_ok, require_eq_ok] at h
    obtain ⟨y', ⟨hy', -⟩, x, ⟨hx, -⟩, z', ⟨hz', -⟩, -, ⟨hxf, hzf⟩, -, hpaused, -⟩ := h
    obtain rfl := Option.some.inj (hy.symm.trans hy')
    obtain rfl := Option.some.inj (hz.symm.trans hz')
    refine ⟨fun y' hy' => ?_, thawed_of_some hx hxf, fun z' hz' => ?_⟩
    · rw [← Option.some.inj (hy.symm.trans hy')]
      exact ⟨hpaused, hhook⟩
    · rw [← Option.some.inj (hz.symm.trans hz')]
      exact ⟨hzf, hmemo⟩
  · rintro ⟨⟨hm, -, hdst⟩, h⟩
    have hloads := h
    simp only [Ledger.transfer, bind_eq_ok, loadMint_eq_ok, loadAccount_eq_ok] at hloads
    obtain ⟨y, hy, x, -, z, hz, -⟩ := hloads
    exact ⟨y, hy, z, hz, (), (hm y hy.1).2, (), (hdst z hz.1).2, h⟩

theorem transferChecked_ok (h : t.transferChecked program src m dst authority n = .ok t') :
    Transferred t t' program src m dst authority n :=
  transfer_ok (transferChecked_iff.1 h).2

/-- A transfer whose accounts, signature and balance are in order succeeds. -/
theorem exists_transferChecked (hy : t.mints m = some y) (hp : y.program = program)
    (hm : t.Transferable m) (hsrc : t.Holds src m authority) (hdst : t.Holds dst m o)
    (hts : t.Thawed src) (htd : t.Receptive dst) (hle : n ≤ t.balance src) :
    ∃ t', t.transferChecked program src m dst authority n = .ok t' := by
  simp only [transferChecked_iff]
  obtain ⟨x, hx, hxm, hxo⟩ := hsrc
  obtain ⟨z, hz, hzm, -⟩ := hdst
  have hthawed := And.intro (hts x hx) (htd z hz).1
  have hrunning := (hm y hy).1
  rw [balance_of_some hx] at hle
  suffices h : ∃ t', t.transfer program src m dst authority n = .ok t' by
    obtain ⟨t', h⟩ := h
    exact ⟨t', ⟨hm, hts, htd⟩, h⟩
  simp only [Ledger.transfer, bind_eq_ok, loadMint_eq_ok, loadAccount_eq_ok, require_eq_ok]
  by_cases hsd : src = dst
  · exact ⟨t, y, ⟨hy, hp⟩, x, ⟨hx, hxm⟩, z, ⟨hz, hzm⟩, (), hthawed, (), hrunning, (), hxo, (),
      hle, by simp [hsd]⟩
  · refine ⟨(t.setAccount src (x.debit n)).setAccount dst (z.credit n (y.transferFee n)), y,
      ⟨hy, hp⟩, x, ⟨hx, hxm⟩, z, ⟨hz, hzm⟩, (), hthawed, (), hrunning, (), hxo, (), hle, ?_⟩
    simp only [hsd, if_false, bind_eq_ok, loadAccount_eq_ok, pure_eq_ok]
    exact ⟨z, ⟨(accounts_setAccount_of_ne t _ (Ne.symm hsd)).trans hz, hzm⟩, rfl⟩

/-- A transfer the balance covers does not fail for want of funds. -/
theorem transferChecked_avoids (hle : n ≤ t.balance src) :
    Avoids (· = TokenError.insufficientFunds)
      (t.transferChecked program src m dst authority n) := by
  simp only [Ledger.transferChecked, Ledger.transfer, Ledger.loadMint, Ledger.loadAccount,
    avoids_bind, avoids_okOr, avoids_require, avoids_pure, okOr_eq_ok, bind_eq_ok, require_eq_ok,
    pure_eq_ok, reduceCtorEq, not_false_eq_true, implies_true, true_and]
  rintro - - - - - - - - y - x ⟨z, hz, -, -, rfl⟩ w - - - - - - -
  refine ⟨fun hlt => ?_, fun _ _ => ?_⟩
  · rw [balance_of_some hz] at hle
    exact absurd hle hlt
  · split
    · exact avoids_pure
    · simp only [avoids_bind, avoids_okOr, avoids_require, avoids_pure, reduceCtorEq,
        not_false_eq_true, implies_true, true_and]

theorem mintTo_avoids :
    Avoids (· = TokenError.insufficientFunds) (t.mintTo program m dst authority n) := by
  simp only [Ledger.mintTo, Ledger.loadMint, Ledger.loadAccount, avoids_bind, avoids_okOr,
    avoids_require, avoids_pure, avoids_add, reduceCtorEq, not_false_eq_true, implies_true,
    true_and]

/-- Whoever is not paid loses exactly what it pays. -/
theorem Transferred.balance_paid (h : Transferred t t' program src m dst authority n)
    (ha : a ≠ dst) : t'.balance a + (if src = a then n else 0) = t.balance a := by
  by_cases hsa : src = a
  · subst hsa
    simpa using h.balance_src ha
  · simpa [hsa] using h.balance_of_ne a (Ne.symm hsa) ha

theorem Transferred.spent (h : Transferred t t' program src m dst authority n) :
    Spent t t' src n := by
  by_cases hsd : src = dst
  · obtain rfl := h.balance_self hsd
    exact .refl _ _ _
  · have hdst := h.balance_dst hsd
    obtain ⟨_, -, -, hdst⟩ := hdst
    refine ⟨h.shape, h.mints, (h.balance_src hsd).ge, fun a ha => ?_⟩
    by_cases had : a = dst
    · subst had
      omega
    · exact (h.balance_of_ne a ha had).ge

/-- The effect of a successful creation of `n` tokens of `m`. -/
structure Minted (t t' : Ledger ι) (m dst authority : ι) (n : ℕ) : Prop where
  shape : SameShape t t'
  dst_holds : ∃ o, t.Holds dst m o
  authority : ∃ y, t.mints m = some y ∧ y.mintAuthority = some authority ∧
    y.confidentialMintBurn = false
  supply_lt : t.supply m + n < 2 ^ 64
  supply : t'.supply m = t.supply m + n
  supply_of_ne : ∀ m', m' ≠ m → t'.supply m' = t.supply m'
  balance_dst : t'.balance dst = t.balance dst + n
  balance_of_ne : ∀ a, a ≠ dst → t'.balance a = t.balance a
  withheld : ∀ a, t'.withheld a = t.withheld a

omit [DecidableEq ι] in
theorem Minted.balance_le (h : Minted t t' m dst authority n) (a : ι) :
    t.balance a ≤ t'.balance a := by
  by_cases ha : a = dst
  · rw [ha, h.balance_dst]
    exact Nat.le_add_right _ _
  · exact (h.balance_of_ne a ha).ge

theorem mintTo_ok (h : t.mintTo program m dst authority n = .ok t') :
    Minted t t' m dst authority n := by
  simp only [Ledger.mintTo, bind_eq_ok, loadMint_eq_ok, loadAccount_eq_ok, require_eq_ok,
    add_eq_ok, pure_eq_ok] at h
  obtain ⟨y, ⟨hy, -⟩, x, ⟨hx, hxm⟩, -, -, -, -, -, hconf, -, -, -, hauth, _, ⟨hlt, rfl⟩, rfl⟩ := h
  have hb := balance_of_some hx
  have hs := supply_of_some hy
  refine ⟨(sameShape_setSupply hy _).trans (sameShape_setAccount (t := t.setSupply m y _) hx
      (x.sameTerms_credit n 0)), ⟨_, x, hx, hxm, rfl⟩, ⟨y, hy, hauth, hconf⟩, by omega, ?_,
    fun m' hm => ?_, ?_, fun a ha => ?_, fun a => ?_⟩
  · simp [hs]
  · simp [hm]
  · simp [hb, TokenAccount.credit]
  · simp [ha]
  · by_cases ha : a = dst
    · subst ha
      simp [TokenAccount.credit, withheld_of_some hx]
    · simp [ha]

/-- A creation whose mint and account are in order succeeds. -/
theorem exists_mintTo (hy : t.mints m = some y) (hp : y.program = program) (hm : t.Running m)
    (hdst : t.Holds dst m o) (htd : t.Thawed dst) (hconf : y.confidentialMintBurn = false)
    (hauth : y.mintAuthority = some authority) (hlt : y.supply + n < 2 ^ 64) :
    ∃ t', t.mintTo program m dst authority n = .ok t' := by
  obtain ⟨x, hx, hxm, -⟩ := hdst
  simp only [Ledger.mintTo, bind_eq_ok, loadMint_eq_ok, loadAccount_eq_ok, require_eq_ok,
    add_eq_ok, pure_eq_ok]
  exact ⟨_, y, ⟨hy, hp⟩, x, ⟨hx, hxm⟩, (), htd x hx, (), hm y hy, (), hconf, (),
    by rw [hauth]; rfl, (), hauth, _, ⟨hlt, rfl⟩, rfl⟩

/-- `n` tokens of `m` were created, wherever they went. -/
structure Issued (t t' : Ledger ι) (m : ι) (n : ℕ) : Prop where
  shape : SameShape t t'
  supply : t'.supply m = t.supply m + n
  supply_of_ne : ∀ m', m' ≠ m → t'.supply m' = t.supply m'
  balance_le : ∀ a, t.balance a ≤ t'.balance a
  balance_of_mint : ∀ a m' o, t.Holds a m' o → m' ≠ m → t'.balance a = t.balance a

omit [DecidableEq ι] in
theorem Issued.refl (t : Ledger ι) (m : ι) : Issued t t m 0 :=
  ⟨.refl t, rfl, fun _ _ => rfl, fun _ => le_rfl, fun _ _ _ _ _ => rfl⟩

omit [DecidableEq ι] in
theorem Issued.trans {k : ℕ} (h : Issued t t' m n) (h' : Issued t' t'' m k) :
    Issued t t'' m (n + k) where
  shape := h.shape.trans h'.shape
  supply := by rw [h'.supply, h.supply, Nat.add_assoc]
  supply_of_ne m' hm := by rw [h'.supply_of_ne m' hm, h.supply_of_ne m' hm]
  balance_le a := (h.balance_le a).trans (h'.balance_le a)
  balance_of_mint a m' o ha hm :=
    (h'.balance_of_mint a m' o (h.shape.holds ha) hm).trans (h.balance_of_mint a m' o ha hm)

omit [DecidableEq ι] in
theorem Minted.issued (h : Minted t t' m dst authority n) : Issued t t' m n where
  shape := h.shape
  supply := h.supply
  supply_of_ne := h.supply_of_ne
  balance_le := h.balance_le
  balance_of_mint a m' o ha hm := by
    obtain ⟨o', hdst⟩ := h.dst_holds
    exact h.balance_of_ne a (ha.ne_of_mint hdst hm)

/-- The effect of a successful destruction of `n` tokens of `m`. -/
structure Burned (t t' : Ledger ι) (src m authority : ι) (n : ℕ) : Prop where
  shape : SameShape t t'
  mint : ∃ y, t.mints m = some y ∧ y.confidentialMintBurn = false
  src_holds : t.Holds src m authority
  le_balance : n ≤ t.balance src
  supply : t'.supply m + n = t.supply m
  supply_of_ne : ∀ m', m' ≠ m → t'.supply m' = t.supply m'
  balance_src : t'.balance src + n = t.balance src
  balance_of_ne : ∀ a, a ≠ src → t'.balance a = t.balance a
  withheld_le : ∀ a, t.withheld a ≤ t'.withheld a

theorem burn_ok (h : t.burn program src m authority n = .ok t') :
    Burned t t' src m authority n := by
  simp only [Ledger.burn, bind_eq_ok, loadMint_eq_ok, loadAccount_eq_ok, require_eq_ok,
    sub_eq_ok, pure_eq_ok] at h
  obtain ⟨y, ⟨hy, -⟩, x, ⟨hx, hxm⟩, -, -, -, -, -, hconf, -, hown, -, hle, _, ⟨hsup, rfl⟩, rfl⟩ := h
  have hb := balance_of_some hx
  have hs := supply_of_some hy
  refine ⟨(sameShape_setSupply hy _).trans (sameShape_setAccount (t := t.setSupply m y _) hx
      (x.sameTerms_debit n)), ⟨y, hy, hconf⟩, ⟨x, hx, hxm, hown⟩, by omega, ?_, fun m' hm => ?_,
    ?_, fun a ha => ?_, withheld_le_setAccount (t := t.setSupply m y _) hx le_rfl⟩
  · simp only [supply_setAccount, supply_setSupply, if_true]
    omega
  · simp [hm]
  · simp only [balance_setAccount, if_true, TokenAccount.debit]
    omega
  · simp [ha]

/-! ### What others can do to it -/

theorem Transferred.outside (h : Transferred t t' program src m dst authority n)
    (hkey : authority ≠ key) :
    Outside key t t' ∧ ∀ m', t'.supply m' = t.supply m' := by
  have hsup : ∀ m', t'.supply m' = t.supply m' := fun m' => by
    simp [Ledger.supply, h.mints]
  refine ⟨⟨h.shape.guarded key, fun a m' ha => ?_, fun m' _ => (hsup m').le⟩, hsup⟩
  have hsrc : a ≠ src := ha.holds.ne_of_owner h.src_holds hkey.symm
  by_cases hdst : a = dst
  · subst hdst
    obtain ⟨_, -, -, hb⟩ := h.balance_dst hsrc.symm
    omega
  · exact (h.balance_of_ne a hsrc hdst).ge

theorem Burned.outside (h : Burned t t' src m authority n) (hkey : authority ≠ key) :
    Outside key t t' := by
  refine ⟨h.shape.guarded key, fun a m' ha => ?_, fun m' _ => ?_⟩
  · exact (h.balance_of_ne a (ha.holds.ne_of_owner h.src_holds hkey.symm)).ge
  · by_cases hm : m' = m
    · subst hm
      have := h.supply
      omega
    · exact (h.supply_of_ne m' hm).le

theorem Minted.outside (h : Minted t t' m dst authority n) (hkey : authority ≠ key) :
    Outside key t t' ∧ ∀ m', t.Mintable m' key → t'.supply m' = t.supply m' := by
  have hsup : ∀ m', t.Mintable m' key → t'.supply m' = t.supply m' := by
    rintro m' ⟨y, hy, ha⟩
    refine h.supply_of_ne m' ?_
    rintro rfl
    obtain ⟨y', hy', ha', -⟩ := h.authority
    rw [hy, Option.some.injEq] at hy'
    rw [← hy', ha, Option.some.injEq] at ha'
    exact hkey ha'.symm
  refine ⟨⟨h.shape.guarded key, fun a m' _ => ?_, fun m' hm => (hsup m' hm).le⟩, hsup⟩
  by_cases ha : a = dst
  · subst ha
    have := h.balance_dst
    omega
  · exact (h.balance_of_ne a ha).ge

theorem initializeAccount_ok (h : t.initializeAccount program a m o = .ok t') :
    (t.accounts a = none ∧ t.mints a = none) ∧
      t' = t.setAccount a { mint := m, owner := o, amount := 0 } := by
  simp only [Ledger.initializeAccount, bind_eq_ok, require_eq_ok, pure_eq_ok,
    Option.isNone_iff_eq_none] at h
  obtain ⟨-, hnone, -, -, rfl⟩ := h
  exact ⟨hnone, rfl⟩

/-- A new account has no delegate. -/
theorem initializeAccount_alone (h : t.initializeAccount program a m o = .ok t') :
    t'.HoldsAlone a m o := by
  obtain ⟨-, rfl⟩ := initializeAccount_ok h
  exact ⟨_, update_self _ _ _, rfl, rfl, rfl⟩

/-- Nothing is withheld at an unused address, and nothing in a new account. -/
theorem initializeAccount_withheld (h : t.initializeAccount program a m o = .ok t') (b : ι) :
    t'.withheld b = t.withheld b := by
  obtain ⟨⟨hnone, -⟩, rfl⟩ := initializeAccount_ok h
  rw [withheld_setAccount]
  split
  · next hb => simp [Ledger.withheld, hb, hnone]
  · rfl

theorem initializeAccount_untouched (h : t.initializeAccount program a m o = .ok t') (key : ι) :
    Untouched key t t' := by
  obtain ⟨⟨hnone, -⟩, rfl⟩ := initializeAccount_ok h
  refine untouched_of_eq (fun b m' hb => ?_) fun m' y hy hk => ⟨y, hy, hk, rfl, rfl⟩
  refine update_of_ne ?_ _ _
  rintro rfl
  obtain ⟨x, hx, -⟩ := hb
  rw [hnone] at hx
  cases hx

theorem closeAccount_ok (h : t.closeAccount a authority = .ok t') :
    ∃ x, t.accounts a = some x ∧ x.owner = authority ∧
      t' = { t with accounts := update t.accounts a none } := by
  simp only [Ledger.closeAccount, bind_eq_ok, okOr_eq_ok, require_eq_ok, pure_eq_ok] at h
  obtain ⟨x, hx, -, -, -, hown, -, -, rfl⟩ := h
  exact ⟨x, hx, hown, rfl⟩

/-- Only an empty account is closed. -/
theorem closeAccount_empty (h : t.closeAccount a authority = .ok t') :
    t.balance a = 0 ∧ t.withheld a = 0 := by
  simp only [Ledger.closeAccount, bind_eq_ok, okOr_eq_ok, require_eq_ok] at h
  obtain ⟨x, hx, -, hempty, -, -, -, hwithheld, -⟩ := h
  exact ⟨by rw [balance_of_some hx, hempty], by rw [withheld_of_some hx, hwithheld]⟩

/-- No fees are withheld in what is closed, so none are lost. -/
theorem closeAccount_withheld_le {b : ι} (h : t.closeAccount b authority = .ok t') (a : ι) :
    t.withheld a ≤ t'.withheld a := by
  by_cases hab : a = b
  · rw [hab, (closeAccount_empty h).2]
    exact Nat.zero_le _
  · obtain ⟨x, -, -, rfl⟩ := closeAccount_ok h
    simp [Ledger.withheld, update_of_ne hab]

/-- An empty account of `authority` can be closed. -/
theorem closeAccount_of_empty (hx : t.accounts a = some x) (hempty : x.amount = 0)
    (hwithheld : x.withheld = 0) (hown : x.owner = authority) :
    t.closeAccount a authority = .ok { t with accounts := update t.accounts a none } := by
  simp only [Ledger.closeAccount, bind_eq_ok, okOr_eq_ok, require_eq_ok, pure_eq_ok]
  exact ⟨x, hx, (), hempty, (), hown, (), hwithheld, trivial⟩

theorem closeAccount_untouched (h : t.closeAccount a authority = .ok t')
    (hkey : authority ≠ key) : Untouched key t t' := by
  obtain ⟨x, hx, hown, rfl⟩ := closeAccount_ok h
  refine untouched_of_eq (fun b m' hb => ?_) fun m' y hy hk => ⟨y, hy, hk, rfl, rfl⟩
  refine update_of_ne (hb.ne_of_owner ⟨x, hx, rfl, hown⟩ hkey.symm) _ _

theorem initializeMint_accounts (h : t.initializeMint a y = .ok t') : t'.accounts = t.accounts := by
  simp only [Ledger.initializeMint, bind_eq_ok, require_eq_ok, pure_eq_ok] at h
  obtain ⟨-, -, rfl⟩ := h
  rfl

theorem initializeMint_untouched (h : t.initializeMint a y = .ok t') (key : ι) :
    Untouched key t t' := by
  simp only [Ledger.initializeMint, bind_eq_ok, require_eq_ok, pure_eq_ok,
    Option.isNone_iff_eq_none] at h
  obtain ⟨-, ⟨-, hnone⟩, rfl⟩ := h
  refine untouched_of_eq (fun _ _ _ => rfl) fun m' z hz hk => ⟨z, ?_, hk, rfl, rfl⟩
  rw [← hz]
  refine update_of_ne ?_ _ _
  rintro rfl
  rw [hnone] at hz
  cases hz

theorem setMintAuthority_ok {next : Option ι}
    (h : t.setMintAuthority program m authority next = .ok t') :
    ∃ y, t.mints m = some y ∧ y.mintAuthority = some authority ∧
      t' = { t with mints := update t.mints m (some { y with mintAuthority := next }) } := by
  simp only [Ledger.setMintAuthority, bind_eq_ok, loadMint_eq_ok, require_eq_ok, pure_eq_ok] at h
  obtain ⟨y, ⟨hy, -⟩, -, -, -, ha, rfl⟩ := h
  exact ⟨y, hy, ha, rfl⟩

theorem setMintAuthority_untouched {next : Option ι}
    (h : t.setMintAuthority program m authority next = .ok t') (hkey : authority ≠ key) :
    Untouched key t t' := by
  obtain ⟨y, hy, ha, rfl⟩ := setMintAuthority_ok h
  refine untouched_of_eq (fun _ _ _ => rfl) fun m' z hz hk => ⟨z, ?_, hk, rfl, rfl⟩
  rw [← hz]
  refine update_of_ne ?_ _ _
  rintro rfl
  rw [hy, Option.some.injEq] at hz
  rw [← hz, ha, Option.some.injEq] at hk
  exact hkey hk

/-- The mint authority of `m` passed to `key`. -/
structure HandedOver (t t' : Ledger ι) (m key : ι) : Prop extends Untouched key t t' where
  accounts : t'.accounts = t.accounts
  supply_eq : ∀ m', t'.supply m' = t.supply m'
  mintable_self : t'.Mintable m key

theorem setMintAuthority_handedOver
    (h : t.setMintAuthority program m authority (some key) = .ok t') (hkey : authority ≠ key) :
    HandedOver t t' m key := by
  have hu := setMintAuthority_untouched h hkey
  obtain ⟨y, hy, -, rfl⟩ := setMintAuthority_ok h
  refine ⟨hu, rfl, fun m' => ?_, ⟨_, update_self _ _ _, rfl⟩⟩
  by_cases hm : m' = m
  · subst hm
    simp [Ledger.supply, hy]
  · simp [Ledger.supply, update_of_ne hm]

theorem setTransferFee_accounts {bps maximum : ℕ}
    (h : t.setTransferFee m bps maximum = .ok t') : t'.accounts = t.accounts := by
  simp only [Ledger.setTransferFee, bind_eq_ok, okOr_eq_ok, pure_eq_ok] at h
  obtain ⟨y, -, rfl⟩ := h
  rfl

theorem setTransferFee_untouched {bps maximum : ℕ}
    (h : t.setTransferFee m bps maximum = .ok t') (key : ι) : Untouched key t t' := by
  simp only [Ledger.setTransferFee, bind_eq_ok, okOr_eq_ok, pure_eq_ok] at h
  obtain ⟨y, hy, rfl⟩ := h
  refine untouched_of_eq (fun _ _ _ => rfl) fun m' z hz hk => ?_
  by_cases hm : m' = m
  · subst hm
    rw [hy, Option.some.injEq] at hz
    subst hz
    exact ⟨_, update_self _ _ _, hk, rfl, rfl⟩
  · exact ⟨z, by rw [← hz]; exact update_of_ne hm _ _, hk, rfl, rfl⟩

theorem initializeMint_lasting (h : t.initializeMint a y = .ok t') : Lasting t t' := by
  simp only [Ledger.initializeMint, bind_eq_ok, require_eq_ok, pure_eq_ok,
    Option.isNone_iff_eq_none] at h
  obtain ⟨-, ⟨-, hnone⟩, rfl⟩ := h
  intro m z hz
  refine ⟨z, ?_, rfl⟩
  rw [← hz]
  refine update_of_ne ?_ _ _
  rintro rfl
  rw [hnone] at hz
  cases hz

/-- Overwriting a mint by one as confidential. -/
theorem lasting_update {y' : Mint ι} (hy : t.mints m = some y)
    (hconf : y'.confidentialMintBurn = y.confidentialMintBurn) :
    Lasting t { t with mints := update t.mints m (some y') } := by
  intro m' z hz
  by_cases hm : m' = m
  · subst hm
    obtain rfl := Option.some.inj (hy.symm.trans hz)
    exact ⟨y', update_self _ _ _, hconf⟩
  · exact ⟨z, by rw [← hz]; exact update_of_ne hm _ _, rfl⟩

theorem setMintAuthority_lasting {next : Option ι}
    (h : t.setMintAuthority program m authority next = .ok t') : Lasting t t' := by
  obtain ⟨y, hy, -, rfl⟩ := setMintAuthority_ok h
  exact lasting_update hy rfl

theorem setTransferFee_lasting {bps maximum : ℕ}
    (h : t.setTransferFee m bps maximum = .ok t') : Lasting t t' := by
  simp only [Ledger.setTransferFee, bind_eq_ok, okOr_eq_ok, pure_eq_ok] at h
  obtain ⟨y, hy, rfl⟩ := h
  exact lasting_update hy rfl

/-! ### Delegates -/

/-- An account overwritten by one of the same mint and owner, and no delegate added. -/
theorem guarded_setAccount {x' : TokenAccount ι} (hx : t.accounts a = some x)
    (hm : x'.mint = x.mint) (ho : x'.owner = x.owner)
    (hd : x.delegate = none → x'.delegate = none) (key : ι) :
    Guarded key t (t.setAccount a x') where
  holds b m := by
    rintro ⟨z, hz, rfl, rfl⟩
    by_cases hb : b = a
    · subst hb
      obtain rfl := Option.some.inj (hx.symm.trans hz)
      exact ⟨x', update_self _ _ _, hm, ho⟩
    · exact ⟨z, (accounts_setAccount_of_ne t x' hb).trans hz, rfl, rfl⟩
  alone b m := by
    rintro ⟨z, hz, rfl, rfl, hnone⟩
    by_cases hb : b = a
    · subst hb
      obtain rfl := Option.some.inj (hx.symm.trans hz)
      exact ⟨x', update_self _ _ _, hm, ho, hd hnone⟩
    · exact ⟨z, (accounts_setAccount_of_ne t x' hb).trans hz, rfl, rfl, hnone⟩
  mintable _ h := h
  unit _ _ := rfl

theorem spendAllowance_ok {delegate : ι} {x' : TokenAccount ι}
    (h : x.spendAllowance delegate n = .ok x') :
    ∃ k rest, x.delegate = some (delegate, k) ∧ x' = { x with delegate := rest } := by
  simp only [TokenAccount.spendAllowance, bind_eq_ok, okOr_eq_ok, require_eq_ok, pure_eq_ok] at h
  obtain ⟨⟨d, k⟩, hd, -, rfl, -, -, rfl⟩ := h
  exact ⟨k, _, hd, rfl⟩

/-- A delegate spent from the account at `src`. -/
structure Drawn (t t' : Ledger ι) (src delegate : ι) : Prop where
  allowed : ∃ x k, t.accounts src = some x ∧ x.delegate = some (delegate, k)
  guarded : ∀ key, Guarded key t t'
  supply_le : ∀ m, t'.supply m ≤ t.supply m
  withheld_le : ∀ a, t.withheld a ≤ t'.withheld a
  accounts_of_ne : ∀ a, a ≠ src → ∀ x, t.accounts a = some x →
    ∃ x', t'.accounts a = some x' ∧ x.Spared x'

omit [DecidableEq ι] in
theorem Drawn.balance_of_ne {delegate : ι} (h : Drawn t t' src delegate) (ha : a ≠ src) :
    t.balance a ≤ t'.balance a := by
  cases hx : t.accounts a with
  | none => simp [Ledger.balance, hx]
  | some x =>
    obtain ⟨x', hx', hspared⟩ := h.accounts_of_ne a ha x hx
    rw [balance_of_some hx, balance_of_some hx']
    exact hspared.amount_le

omit [DecidableEq ι] in
/-- Who has no delegate is elsewhere. -/
theorem Drawn.ne_src {delegate : ι} (h : Drawn t t' src delegate) (ha : t.HoldsAlone a m o) :
    a ≠ src := by
  rintro rfl
  obtain ⟨z, hz, -, -, hnone⟩ := ha
  obtain ⟨x, k, hx, hd⟩ := h.allowed
  obtain rfl := Option.some.inj (hx.symm.trans hz)
  rw [hd] at hnone
  cases hnone

omit [DecidableEq ι] in
/-- Whoever has no delegate loses nothing to one. -/
theorem Drawn.outside {delegate : ι} (h : Drawn t t' src delegate) (key : ι) :
    Outside key t t' where
  toGuarded := h.guarded key
  balance _ _ ha := h.balance_of_ne (h.ne_src ha)
  supply m _ := h.supply_le m

/-- The effect of a transfer of `n` tokens of `m` by a delegate. -/
structure TransferredBy (t t' : Ledger ι) (src m dst delegate : ι) (n : ℕ) : Prop extends
    Drawn t t' src delegate where
  mints : t'.mints = t.mints
  balance_dst : src ≠ dst → ∃ y, t.mints m = some y ∧
    t'.balance dst = t.balance dst + (n - y.transferFee n)
  balance_kept : ∀ a, a ≠ src → a ≠ dst → t'.balance a = t.balance a

theorem transferDelegated_ok {delegate : ι}
    (h : t.transferDelegated program src m dst delegate n = .ok t') :
    TransferredBy t t' src m dst delegate n := by
  simp only [Ledger.transferDelegated, bind_eq_ok, loadMint_eq_ok, loadAccount_eq_ok,
    require_eq_ok] at h
  obtain ⟨y, ⟨hy, -⟩, x, ⟨hx, -⟩, z, -, -, -, -, -, x', hspend, -, hle, h⟩ := h
  obtain ⟨k, rest, hd, rfl⟩ := spendAllowance_ok hspend
  by_cases hsd : src = dst
  · obtain rfl : t = t' := by simpa [hsd] using h
    exact ⟨⟨⟨x, k, hx, hd⟩, fun key => .refl key t, fun _ => le_rfl, fun _ => le_rfl,
      fun _ _ v hv => ⟨v, hv, .refl v⟩⟩, rfl, fun hne => absurd hsd hne, fun _ _ _ => rfl⟩
  · simp only [hsd, if_false, bind_eq_ok, loadAccount_eq_ok, pure_eq_ok] at h
    obtain ⟨w, ⟨hw, -⟩, rfl⟩ := h
    -- the destination is another account, so the debit left it as it was
    have hw' : t.accounts dst = some w := by
      rw [← hw]
      exact (accounts_setAccount_of_ne t _ (Ne.symm hsd)).symm
    refine ⟨⟨⟨x, k, hx, hd⟩, fun key => ?_, fun _ => le_rfl, fun a => ?_, fun a ha v hv => ?_⟩,
      rfl, fun _ => ⟨y, hy, ?_⟩, fun a ha ha' => ?_⟩
    · have hnone : x.delegate = none → rest = none := by
        rw [hd]
        intro hn
        cases hn
      refine (guarded_setAccount hx ?_ ?_ ?_ key).trans (guarded_setAccount hw ?_ ?_ ?_ key)
      exacts [rfl, rfl, hnone, rfl, rfl, id]
    · refine (withheld_le_setAccount hx ?_ a).trans (withheld_le_setAccount hw ?_ a)
      exacts [le_rfl, Nat.le_add_right _ _]
    · by_cases had : a = dst
      · subst had
        obtain rfl := Option.some.inj (hw'.symm.trans hv)
        exact ⟨_, update_self _ _ _, rfl, rfl, rfl, Nat.le_add_right _ _⟩
      · refine ⟨v, ?_, .refl v⟩
        rw [accounts_setAccount_of_ne _ _ had, accounts_setAccount_of_ne _ _ ha, hv]
    · simp [TokenAccount.credit, balance_of_some hw']
    · simp [ha, ha']

/-- The effect of a delegate's burning of `n` tokens of `m`. -/
structure BurnedBy (t t' : Ledger ι) (src m delegate : ι) (n : ℕ) : Prop extends
    Drawn t t' src delegate where
  lasting : Lasting t t'
  supply : t'.supply m + n = t.supply m
  supply_of_ne : ∀ m', m' ≠ m → t'.supply m' = t.supply m'
  balance_kept : ∀ a, a ≠ src → t'.balance a = t.balance a

theorem burnDelegated_ok {delegate : ι}
    (h : t.burnDelegated program src m delegate n = .ok t') :
    BurnedBy t t' src m delegate n := by
  simp only [Ledger.burnDelegated, bind_eq_ok, loadMint_eq_ok, loadAccount_eq_ok,
    require_eq_ok, sub_eq_ok, pure_eq_ok] at h
  obtain ⟨y, ⟨hy, -⟩, x, ⟨hx, -⟩, -, -, -, -, -, -, x', hspend, -, hle, _, ⟨hsup, rfl⟩, rfl⟩ := h
  obtain ⟨k, rest, hd, rfl⟩ := spendAllowance_ok hspend
  have hs := supply_of_some hy
  have hshape := sameShape_setSupply hy (y.supply - n)
  -- the supply of the mint falls by what is burned, and no other does
  have hlost : ∀ m', m' ≠ m → (t.setSupply m y (y.supply - n)).supply m' = t.supply m' :=
    fun m' hm => by simp [hm]
  have hself : (t.setSupply m y (y.supply - n)).supply m + n = t.supply m := by
    simp only [supply_setSupply, if_true]
    omega
  refine ⟨⟨⟨x, k, hx, hd⟩, fun key => ?_, fun m' => ?_,
      withheld_le_setAccount (t := t.setSupply m y _) hx le_rfl, fun a ha v hv => ?_⟩,
    hshape.lasting, hself, hlost, fun a ha => ?_⟩
  -- a delegate that is spent out is cleared, and none is set
  · have hnone : x.delegate = none → rest = none := by
      rw [hd]
      intro hn
      cases hn
    have hx' : (t.setSupply m y (y.supply - n)).accounts src = some x := hx
    refine (hshape.guarded key).trans (guarded_setAccount hx' ?_ ?_ ?_ key)
    exacts [rfl, rfl, hnone]
  · by_cases hm : m' = m
    · subst hm
      exact Nat.le.intro hself
    · exact (hlost m' hm).le
  · exact ⟨v, (accounts_setAccount_of_ne _ _ ha).trans hv, .refl v⟩
  · simp [ha]

/-! ### Settings -/

/-- No tokens move, appear or disappear, and no account changes hands but on the
signature of its owner `authority`. -/
structure Steady (t t' : Ledger ι) (authority : ι) : Prop where
  balance : ∀ a, t'.balance a = t.balance a
  supply : ∀ m, t'.supply m = t.supply m
  accounts : ∀ a x, t.accounts a = some x →
    ∃ x', t'.accounts a = some x' ∧ (x.owner = authority ∨ x.Alike x')
  mints : ∀ m y, t.mints m = some y →
    ∃ y', t'.mints m = some y' ∧ y' = { y with paused := y'.paused, hooked := y'.hooked }

omit [DecidableEq ι] in
theorem Steady.untouched (h : Steady t t' authority) (hkey : authority ≠ key) :
    Untouched key t t' := by
  refine untouched_of_alike (fun a x hx ho => ?_) fun m y hy hk => ?_
  · obtain ⟨x', hx', howner | hlike⟩ := h.accounts a x hx
    · exact absurd (howner.symm.trans ho) hkey
    · exact ⟨x', hx', hlike⟩
  · obtain ⟨y', hy', he⟩ := h.mints m y hy
    exact ⟨y', hy', by rw [he, hk], by rw [he], by rw [he]⟩

omit [DecidableEq ι] in
theorem Steady.lasting (h : Steady t t' authority) : Lasting t t' := by
  intro m y hy
  obtain ⟨y', hy', he⟩ := h.mints m y hy
  exact ⟨y', hy', by rw [he]⟩

theorem steady_setAccount {x' : TokenAccount ι} (hx : t.accounts a = some x)
    (hn : x'.amount = x.amount) (h : x.owner = authority ∨ x.Alike x') :
    Steady t (t.setAccount a x') authority where
  balance b := by
    by_cases hb : b = a
    · subst hb
      simp [hn, balance_of_some hx]
    · simp [hb]
  supply _ := rfl
  accounts b z hz := by
    by_cases hb : b = a
    · subst hb
      obtain rfl := Option.some.inj (hx.symm.trans hz)
      exact ⟨x', update_self _ _ _, h⟩
    · exact ⟨z, (accounts_setAccount_of_ne t x' hb).trans hz, .inr (.refl z)⟩
  mints _ y hy := ⟨y, hy, rfl⟩

theorem steady_update {y' : Mint ι} (hy : t.mints m = some y)
    (hterms : y' = { y with paused := y'.paused, hooked := y'.hooked }) :
    Steady t { t with mints := update t.mints m (some y') } authority where
  balance _ := rfl
  supply m' := by
    by_cases hm : m' = m
    · subst hm
      rw [hterms]
      simp [Ledger.supply, hy]
    · simp [Ledger.supply, update_of_ne hm]
  accounts _ x hx := ⟨x, hx, .inr (.refl x)⟩
  mints m' z hz := by
    by_cases hm : m' = m
    · subst hm
      obtain rfl := Option.some.inj (hy.symm.trans hz)
      exact ⟨y', update_self _ _ _, hterms⟩
    · exact ⟨z, (update_of_ne hm _ _).trans hz, rfl⟩

/-- No setting but a harvest of the account takes withheld fees out of it. -/
theorem applySetting_withheld_le {i : Setting ι} (h : t.applySetting authority i = .ok t')
    (hi : i ≠ .harvestWithheld a) : t.withheld a ≤ t'.withheld a := by
  cases i with
  | approve b delegate amount =>
    simp only [Ledger.applySetting, Ledger.approve, bind_eq_ok, okOr_eq_ok, require_eq_ok,
      pure_eq_ok] at h
    obtain ⟨x, hx, -, -, -, -, rfl⟩ := h
    refine withheld_le_setAccount hx ?_ a
    exact le_rfl
  | revoke b =>
    simp only [Ledger.applySetting, Ledger.revoke, bind_eq_ok, okOr_eq_ok, require_eq_ok,
      pure_eq_ok] at h
    obtain ⟨x, hx, -, -, -, -, rfl⟩ := h
    refine withheld_le_setAccount hx ?_ a
    exact le_rfl
  | setAccountOwner b next =>
    simp only [Ledger.applySetting, Ledger.setAccountOwner, bind_eq_ok, okOr_eq_ok, require_eq_ok,
      pure_eq_ok] at h
    obtain ⟨x, hx, -, -, -, -, rfl⟩ := h
    refine withheld_le_setAccount hx ?_ a
    exact le_rfl
  | setFrozen b frozen =>
    simp only [Ledger.applySetting, Ledger.setFrozen, bind_eq_ok, okOr_eq_ok, require_eq_ok,
      pure_eq_ok] at h
    obtain ⟨x, hx, y, -, -, -, -, -, -, -, rfl⟩ := h
    refine withheld_le_setAccount hx ?_ a
    exact le_rfl
  | setMemoRequired b memoRequired =>
    simp only [Ledger.applySetting, Ledger.setMemoRequired, bind_eq_ok, okOr_eq_ok, require_eq_ok,
      pure_eq_ok] at h
    obtain ⟨x, hx, -, -, rfl⟩ := h
    refine withheld_le_setAccount hx ?_ a
    exact le_rfl
  | harvestWithheld b =>
    simp only [Ledger.applySetting, Ledger.harvestWithheld, bind_eq_ok, okOr_eq_ok,
      pure_eq_ok] at h
    obtain ⟨x, hx, rfl⟩ := h
    -- a harvest empties the account it names
    have hab : a ≠ b := by
      rintro rfl
      exact hi rfl
    rw [withheld_setAccount, if_neg hab]
  -- settings of a mint touch no account
  | setPaused mint paused =>
    simp only [Ledger.applySetting, Ledger.setPaused, bind_eq_ok, pure_eq_ok] at h
    obtain ⟨y, -, -, -, rfl⟩ := h
    exact le_rfl
  | setHooked mint hooked =>
    simp only [Ledger.applySetting, Ledger.setHooked, bind_eq_ok, pure_eq_ok] at h
    obtain ⟨y, -, -, -, rfl⟩ := h
    exact le_rfl

/-- An account there is can be harvested. -/
theorem harvestWithheld_of_some (hx : t.accounts a = some x) (authority : ι) :
    t.applySetting authority (.harvestWithheld a) = .ok
      (t.setAccount a { x with withheld := 0 }) := by
  simp only [Ledger.applySetting, Ledger.harvestWithheld, bind_eq_ok, okOr_eq_ok, pure_eq_ok]
  exact ⟨x, hx, rfl⟩

theorem applySetting_ok {i : Setting ι} (h : t.applySetting authority i = .ok t') :
    Steady t t' authority := by
  cases i with
  -- what changes a delegate or an owner is signed by the owner
  | approve a delegate amount =>
    simp only [Ledger.applySetting, Ledger.approve, bind_eq_ok, okOr_eq_ok, require_eq_ok,
      pure_eq_ok] at h
    obtain ⟨x, hx, -, -, -, ⟨hown, -⟩, rfl⟩ := h
    exact steady_setAccount hx rfl (.inl hown)
  | revoke a =>
    simp only [Ledger.applySetting, Ledger.revoke, bind_eq_ok, okOr_eq_ok, require_eq_ok,
      pure_eq_ok] at h
    obtain ⟨x, hx, -, -, -, hown, rfl⟩ := h
    exact steady_setAccount hx rfl (.inl hown)
  | setAccountOwner a next =>
    simp only [Ledger.applySetting, Ledger.setAccountOwner, bind_eq_ok, okOr_eq_ok, require_eq_ok,
      pure_eq_ok] at h
    obtain ⟨x, hx, -, -, -, hown, rfl⟩ := h
    exact steady_setAccount hx rfl (.inl hown)
  -- what others may set leaves balance, owner and delegate
  | setFrozen a frozen =>
    simp only [Ledger.applySetting, Ledger.setFrozen, bind_eq_ok, okOr_eq_ok, require_eq_ok,
      pure_eq_ok] at h
    obtain ⟨x, hx, m, -, -, -, -, -, -, -, rfl⟩ := h
    exact steady_setAccount hx rfl (.inr ⟨rfl, rfl, rfl, rfl⟩)
  | harvestWithheld a =>
    simp only [Ledger.applySetting, Ledger.harvestWithheld, bind_eq_ok, okOr_eq_ok,
      pure_eq_ok] at h
    obtain ⟨x, hx, rfl⟩ := h
    exact steady_setAccount hx rfl (.inr ⟨rfl, rfl, rfl, rfl⟩)
  | setMemoRequired a memoRequired =>
    simp only [Ledger.applySetting, Ledger.setMemoRequired, bind_eq_ok, okOr_eq_ok, require_eq_ok,
      pure_eq_ok] at h
    obtain ⟨x, hx, -, -, rfl⟩ := h
    exact steady_setAccount hx rfl (.inr ⟨rfl, rfl, rfl, rfl⟩)
  -- and so do settings of the mint
  | setPaused m paused =>
    simp only [Ledger.applySetting, Ledger.setPaused, bind_eq_ok, okOr_eq_ok, require_eq_ok,
      pure_eq_ok] at h
    obtain ⟨y, hy, -, -, rfl⟩ := h
    exact steady_update hy rfl
  | setHooked m hooked =>
    simp only [Ledger.applySetting, Ledger.setHooked, bind_eq_ok, okOr_eq_ok, require_eq_ok,
      pure_eq_ok] at h
    obtain ⟨y, hy, -, -, rfl⟩ := h
    exact steady_update hy rfl

end TokenLedger
