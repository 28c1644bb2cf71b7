/-
AsyncVault/Lib/TokenAuthority.lean

Whose signatures a change of a ledger rests on.

A token program takes tokens from an account on the signature of its owner or
of the delegate the owner approved, closes it or hands it over on the owner's
alone, and creates tokens on the signature of the mint's authority.
`Call auth t t'` is one call of the token programs signed by a key that `auth`
admits, and `Calls auth` any number of them in a row; `Dealing auth` and
`Dealings auth` take in the settings, which move no tokens.  A program that is
shown to change a ledger by `Dealings auth` has therefore used no authority
outside `auth`: an account neither of whose debitors is in `auth` is safe
(`Dealings.spared`), and so is whatever a key outside of it controls alone
(`Dealings.outside`).  A program that only makes `Calls` leaves the withheld
fees of every account where they are (`Calls.withheld_le`).

Opening an account or a mint needs no authority over what exists.  The signature
behind a change of a transfer fee is not part of the ledger.
-/
import AsyncVault.Lib.TokenLedger
import Mathlib.Logic.Relation

namespace TokenLedger

open Relation

variable {ι : Type} {t t' t'' : Ledger ι} {key a : ι} {x : TokenAccount ι}

/-- Who may take tokens out of the account: its owner, and the delegate. -/
def TokenAccount.Debitor (x : TokenAccount ι) (k : ι) : Prop :=
  x.owner = k ∨ ∃ n, x.delegate = some (k, n)

/-- A spared account keeps its debitors. -/
theorem TokenAccount.Spared.debitor {x' : TokenAccount ι} (h : x.Spared x') (k : ι) :
    x'.Debitor k ↔ x.Debitor k := by
  rw [TokenAccount.Debitor, TokenAccount.Debitor, h.owner, h.delegate]

/-! ### What others do adds up -/

/-- Nothing happened. -/
theorem Outside.refl (key : ι) (t : Ledger ι) : Outside key t t :=
  ⟨.refl key t, fun _ _ _ => le_rfl, fun _ _ => le_rfl⟩

/-- What others do twice, they do. -/
theorem Outside.trans (h : Outside key t t') (h' : Outside key t' t'') : Outside key t t'' where
  toGuarded := h.toGuarded.trans h'.toGuarded
  balance a m ha := (h.balance a m ha).trans (h'.balance a m (h.alone a m ha))
  supply m hm := (h'.supply m (h.mintable m hm)).trans (h.supply m hm)

/-! ### Signed calls -/

variable [DecidableEq ι] {auth auth' : ι → Prop}

/-- One call of the token programs, on a signature that `auth` admits where it needs one. -/
inductive Call (auth : ι → Prop) (t t' : Ledger ι) : Prop
  | transfer {program : TokenProgram} {src m dst authority : ι} {n : ℕ}
      (signed : auth authority) (called : t.transfer program src m dst authority n = .ok t')
  | mintTo {program : TokenProgram} {m dst authority : ι} {n : ℕ} (signed : auth authority)
      (called : t.mintTo program m dst authority n = .ok t')
  | burn {program : TokenProgram} {src m authority : ι} {n : ℕ} (signed : auth authority)
      (called : t.burn program src m authority n = .ok t')
  | transferDelegated {program : TokenProgram} {src m dst delegate : ι} {n : ℕ}
      (signed : auth delegate)
      (called : t.transferDelegated program src m dst delegate n = .ok t')
  | burnDelegated {program : TokenProgram} {src m delegate : ι} {n : ℕ} (signed : auth delegate)
      (called : t.burnDelegated program src m delegate n = .ok t')
  | closeAccount {a authority : ι} (signed : auth authority)
      (called : t.closeAccount a authority = .ok t')
  | setMintAuthority {program : TokenProgram} {m authority : ι} {next : Option ι}
      (signed : auth authority) (called : t.setMintAuthority program m authority next = .ok t')
  | initializeAccount {program : TokenProgram} {a m o : ι}
      (called : t.initializeAccount program a m o = .ok t')
  | initializeMint {a : ι} {y : Mint ι} (called : t.initializeMint a y = .ok t')
  | setTransferFee {m : ι} {bps maximum : ℕ}
      (called : t.setTransferFee m bps maximum = .ok t')

/-- One such call, or a setting. -/
inductive Dealing (auth : ι → Prop) (t t' : Ledger ι) : Prop
  | call (h : Call auth t t')
  | applySetting {authority : ι} {i : Setting ι} (signed : auth authority)
      (called : t.applySetting authority i = .ok t')

/-- A call signed by others does to what `key` controls what others can do. -/
theorem Call.outside (h : Call auth t t') (hkey : ¬auth key) : Outside key t t' := by
  have hne : ∀ {authority}, auth authority → authority ≠ key := by
    rintro authority hsigned rfl
    exact hkey hsigned
  cases h with
  | transfer signed called => exact ((transfer_ok called).outside (hne signed)).1
  | mintTo signed called => exact ((mintTo_ok called).outside (hne signed)).1
  | burn signed called => exact (burn_ok called).outside (hne signed)
  | transferDelegated signed called => exact (transferDelegated_ok called).outside key
  | burnDelegated signed called => exact (burnDelegated_ok called).outside key
  | closeAccount signed called => exact (closeAccount_untouched called (hne signed)).outside
  | setMintAuthority signed called =>
    exact (setMintAuthority_untouched called (hne signed)).outside
  | initializeAccount called => exact (initializeAccount_untouched called key).outside
  | initializeMint called => exact (initializeMint_untouched called key).outside
  | setTransferFee called => exact (setTransferFee_untouched called key).outside

/-- A call signed by none of its debitors leaves an account open, to the same debitors, and takes
nothing out of it. -/
theorem Call.spared (h : Call auth t t') (hx : t.accounts a = some x)
    (hsafe : ∀ k, x.Debitor k → ¬auth k) : ∃ x', t'.accounts a = some x' ∧ x.Spared x' := by
  -- an account debited on its owner's signature is another one, the owner being a debitor
  have hne : ∀ {k b m}, auth k → t.Holds b m k → a ≠ b := by
    rintro k b m hsigned ⟨z, hz, -, rfl⟩ rfl
    obtain rfl := Option.some.inj (hx.symm.trans hz)
    exact hsafe _ (.inl rfl) hsigned
  -- so is one debited on a delegate's
  have hdelegate : ∀ {k b}, auth k → Drawn t t' b k → a ≠ b := by
    rintro k b hsigned hdrawn rfl
    obtain ⟨z, n, hz, hd⟩ := hdrawn.allowed
    obtain rfl := Option.some.inj (hx.symm.trans hz)
    exact hsafe _ (.inr ⟨n, hd⟩) hsigned
  cases h with
  | transfer signed called =>
    have hmove := transfer_ok called
    refine hmove.shape.spared hx (hmove.spent.balance_of_ne a ?_)
    exact hne signed hmove.src_holds
  | mintTo signed called =>
    have hminted := mintTo_ok called
    exact hminted.shape.spared hx (hminted.balance_le a)
  | burn signed called =>
    have hburned := burn_ok called
    exact hburned.shape.spared hx (hburned.balance_of_ne a (hne signed hburned.src_holds)).ge
  | transferDelegated signed called =>
    have hdrawn := (transferDelegated_ok called).toDrawn
    exact hdrawn.accounts_of_ne a (hdelegate signed hdrawn) x hx
  | burnDelegated signed called =>
    have hdrawn := (burnDelegated_ok called).toDrawn
    exact hdrawn.accounts_of_ne a (hdelegate signed hdrawn) x hx
  | closeAccount signed called =>
    obtain ⟨z, hz, rfl, rfl⟩ := closeAccount_ok called
    exact ⟨x, (Function.update_of_ne (hne signed ⟨z, hz, rfl, rfl⟩) _ _).trans hx, .refl x⟩
  | setMintAuthority signed called =>
    obtain ⟨y, -, -, rfl⟩ := setMintAuthority_ok called
    exact ⟨x, hx, .refl x⟩
  | initializeAccount called =>
    -- the opened account did not exist, and this one does
    obtain ⟨⟨hnone, -⟩, rfl⟩ := initializeAccount_ok called
    refine ⟨x, (accounts_setAccount_of_ne t _ ?_).trans hx, .refl x⟩
    rintro rfl
    rw [hnone] at hx
    cases hx
  | initializeMint called =>
    rw [initializeMint_accounts called]
    exact ⟨x, hx, .refl x⟩
  | setTransferFee called =>
    rw [setTransferFee_accounts called]
    exact ⟨x, hx, .refl x⟩

/-- More signatures admit every call fewer admit. -/
theorem Call.mono (h : Call auth t t') (hauth : ∀ k, auth k → auth' k) : Call auth' t t' := by
  cases h with
  | transfer signed called => exact .transfer (hauth _ signed) called
  | mintTo signed called => exact .mintTo (hauth _ signed) called
  | burn signed called => exact .burn (hauth _ signed) called
  | transferDelegated signed called => exact .transferDelegated (hauth _ signed) called
  | burnDelegated signed called => exact .burnDelegated (hauth _ signed) called
  | closeAccount signed called => exact .closeAccount (hauth _ signed) called
  | setMintAuthority signed called => exact .setMintAuthority (hauth _ signed) called
  | initializeAccount called => exact .initializeAccount called
  | initializeMint called => exact .initializeMint called
  | setTransferFee called => exact .setTransferFee called

/-- No call takes withheld fees out of an account: it is closed only when there are none. -/
theorem Call.withheld_le (h : Call auth t t') (a : ι) : t.withheld a ≤ t'.withheld a := by
  cases h with
  | transfer signed called => exact (transfer_ok called).withheld_le a
  | mintTo signed called => exact ((mintTo_ok called).withheld a).ge
  | burn signed called => exact (burn_ok called).withheld_le a
  | transferDelegated signed called => exact (transferDelegated_ok called).withheld_le a
  | burnDelegated signed called => exact (burnDelegated_ok called).withheld_le a
  | closeAccount signed called => exact closeAccount_withheld_le called a
  | setMintAuthority signed called =>
    obtain ⟨y, -, -, rfl⟩ := setMintAuthority_ok called
    exact le_rfl
  | initializeAccount called => exact (initializeAccount_withheld called a).ge
  | initializeMint called => rw [Ledger.withheld, Ledger.withheld, initializeMint_accounts called]
  | setTransferFee called => rw [Ledger.withheld, Ledger.withheld, setTransferFee_accounts called]

/-- A setting signed by others does no more. -/
theorem Dealing.outside (h : Dealing auth t t') (hkey : ¬auth key) : Outside key t t' := by
  cases h with
  | call h => exact h.outside hkey
  | applySetting signed called =>
    refine ((applySetting_ok called).untouched ?_).outside
    rintro rfl
    exact hkey signed

/-- Nor does a setting. -/
theorem Dealing.spared (h : Dealing auth t t') (hx : t.accounts a = some x)
    (hsafe : ∀ k, x.Debitor k → ¬auth k) : ∃ x', t'.accounts a = some x' ∧ x.Spared x' := by
  cases h with
  | call h => exact h.spared hx hsafe
  | applySetting signed called =>
    -- only the owner changes an account's settings
    obtain ⟨x', hx', howner | hlike⟩ := (applySetting_ok called).accounts a x hx
    · exact absurd (howner ▸ signed) (hsafe x.owner (.inl rfl))
    · exact ⟨x', hx', hlike.spared⟩

/-- More signatures admit every dealing fewer admit. -/
theorem Dealing.mono (h : Dealing auth t t') (hauth : ∀ k, auth k → auth' k) :
    Dealing auth' t t' := by
  cases h with
  | call h => exact .call (h.mono hauth)
  | applySetting signed called => exact .applySetting (hauth _ signed) called

/-- Any number of such calls. -/
def Calls (auth : ι → Prop) : Ledger ι → Ledger ι → Prop := ReflTransGen (Call auth)

/-- Any number of calls and settings. -/
def Dealings (auth : ι → Prop) : Ledger ι → Ledger ι → Prop := ReflTransGen (Dealing auth)

namespace Calls

/-- No call at all. -/
theorem refl (auth : ι → Prop) (t : Ledger ι) : Calls auth t t := ReflTransGen.refl

theorem of_eq (h : t' = t) : Calls auth t t' := by
  rw [h]
  exact .refl auth t

/-- Calls after calls. -/
theorem trans (h : Calls auth t t') (h' : Calls auth t' t'') : Calls auth t t'' :=
  ReflTransGen.trans h h'

theorem mono (h : Calls auth t t') (hauth : ∀ k, auth k → auth' k) : Calls auth' t t' := by
  induction h with
  | refl => exact .refl auth' t
  | tail _ hc ih => exact ReflTransGen.tail ih (hc.mono hauth)

variable {program : TokenProgram} {src m dst authority o : ι} {n : ℕ}

/-- A transfer is one call, signed by its authority. -/
theorem transferChecked (signed : auth authority)
    (h : t.transferChecked program src m dst authority n = .ok t') : Calls auth t t' :=
  ReflTransGen.single (.transfer signed (transferChecked_iff.1 h).2)

/-- Minting is one call, signed by the mint's authority. -/
theorem mintTo (signed : auth authority) (h : t.mintTo program m dst authority n = .ok t') :
    Calls auth t t' :=
  ReflTransGen.single (.mintTo signed h)

/-- Burning is one call, signed by the owner. -/
theorem burn (signed : auth authority) (h : t.burn program src m authority n = .ok t') :
    Calls auth t t' :=
  ReflTransGen.single (.burn signed h)

/-- Closing an account is one call, signed by its owner. -/
theorem closeAccount (signed : auth authority) (h : t.closeAccount a authority = .ok t') :
    Calls auth t t' :=
  ReflTransGen.single (.closeAccount signed h)

/-- Handing a mint over is one call, signed by its authority. -/
theorem setMintAuthority {next : Option ι} (signed : auth authority)
    (h : t.setMintAuthority program m authority next = .ok t') : Calls auth t t' :=
  ReflTransGen.single (.setMintAuthority signed h)

/-- Opening an account is a call that nobody needs to sign. -/
theorem initializeAccount (h : t.initializeAccount program a m o = .ok t') : Calls auth t t' :=
  ReflTransGen.single (.initializeAccount h)

/-- Calls take withheld fees out of no account. -/
theorem withheld_le (h : Calls auth t t') (a : ι) : t.withheld a ≤ t'.withheld a := by
  induction h with
  | refl => exact le_rfl
  | tail _ hc ih => exact ih.trans (hc.withheld_le a)

/-- Calls are dealings. -/
theorem dealings (h : Calls auth t t') : Dealings auth t t' := by
  induction h with
  | refl => exact ReflTransGen.refl
  | tail _ hc ih => exact ReflTransGen.tail ih (.call hc)

end Calls

namespace Dealings

theorem mono (h : Dealings auth t t') (hauth : ∀ k, auth k → auth' k) : Dealings auth' t t' := by
  induction h with
  | refl => exact ReflTransGen.refl
  | tail _ hc ih => exact ReflTransGen.tail ih (hc.mono hauth)

/-- **Nothing is taken without its owner or a delegate of its owner.** -/
theorem spared (h : Dealings auth t t') (hx : t.accounts a = some x)
    (hsafe : ∀ k, x.Debitor k → ¬auth k) : ∃ x', t'.accounts a = some x' ∧ x.Spared x' := by
  induction h with
  | refl => exact ⟨x, hx, .refl x⟩
  | tail _ hc ih =>
    obtain ⟨y, hy, hspared⟩ := ih
    obtain ⟨x', hx', hspared'⟩ := hc.spared hy fun k hk => hsafe k ((hspared.debitor k).mp hk)
    exact ⟨x', hx', hspared.trans hspared'⟩

/-- Dealings that `key` did not sign leave its accounts open, those it has no delegate for no
smaller, and create none of the tokens it may mint. -/
theorem outside (h : Dealings auth t t') (hkey : ¬auth key) : Outside key t t' := by
  induction h with
  | refl => exact .refl key t
  | tail _ hc ih => exact ih.trans (hc.outside hkey)

end Dealings

end TokenLedger
