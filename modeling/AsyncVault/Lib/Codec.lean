/-
AsyncVault/Lib/Codec.lean

Layouts of records.

A codec writes a value as bytes and reads a value from the front of a string,
returning what follows it.  It comes with its laws: a value that fits its layout
is read back in front of anything, and a value that is read fits, and its bytes
are the ones that were read.  So a codec is a bijection between values that fit
and accepted strings, and a value is at most `size` bytes long.

Layouts are made of numbers, flags and words by concatenation (`pair`), options
(`option`, one byte in front) and change of representation (`congr`), and their
laws are made along with them.
-/
import AsyncVault.Lib.Bytes
import Mathlib.Logic.Equiv.Defs
import Mathlib.Tactic.Linarith

namespace Bytes

/-- A layout, with its laws. -/
structure Codec (α : Type) where
  encode : α → List Byte
  decode : List Byte → Option (α × List Byte)
  /-- The values that have bytes. -/
  Fits : α → Prop
  /-- The most bytes a value takes. -/
  size : ℕ
  decode_encode : ∀ a rest, Fits a → decode (encode a ++ rest) = some (a, rest)
  encode_decode : ∀ bs a rest, decode bs = some (a, rest) → Fits a ∧ encode a ++ rest = bs
  length_encode : ∀ a, (encode a).length ≤ size

namespace Codec

variable {α β : Type}

/-! ### Numbers -/

/-- A natural number in `w` bytes. -/
def uint (w : ℕ) : Codec ℕ where
  encode := littleEndian w
  decode bs := if w ≤ bs.length then some (ofLittleEndian (bs.take w), bs.drop w) else none
  Fits n := n < 256 ^ w
  size := w
  decode_encode n rest h := by
    have hlen := length_littleEndian w n
    rw [if_pos (by simp), List.take_left' hlen, List.drop_left' hlen,
      ofLittleEndian_littleEndian_of_lt h]
  encode_decode bs n rest h := by
    split at h
    · next hw =>
      have hlen : (bs.take w).length = w := by simpa using hw
      obtain ⟨rfl, rfl⟩ := Prod.mk.inj (Option.some.inj h)
      have hlt := ofLittleEndian_lt (bs.take w)
      have hback := littleEndian_ofLittleEndian (bs.take w)
      rw [hlen] at hlt hback
      exact ⟨hlt, by rw [hback, List.take_append_drop]⟩
    · cases h
  length_encode n := (length_littleEndian w n).le

/-- The number that stands for an integer in `w` bytes, and back: two's complement. -/
def toUnsigned (w : ℕ) (z : ℤ) : ℕ := (z % 256 ^ w).toNat

def ofUnsigned (w n : ℕ) : ℤ := if 2 * n < 256 ^ w then n else n - 256 ^ w

theorem ofUnsigned_toUnsigned {w : ℕ} {z : ℤ} (h : -256 ^ w ≤ 2 * z ∧ 2 * z < 256 ^ w) :
    ofUnsigned w (toUnsigned w z) = z := by
  have hpos : (0 : ℤ) < 256 ^ w := by positivity
  rw [ofUnsigned, toUnsigned]
  by_cases hz : 0 ≤ z
  · have hmod : z % 256 ^ w = z := Int.emod_eq_of_lt hz (by linarith)
    rw [hmod, Int.toNat_of_nonneg hz, if_pos]
    zify
    rw [Int.toNat_of_nonneg hz]
    exact h.2
  · have hmod : z % 256 ^ w = z + 256 ^ w := by
      rw [← Int.add_emod_right z (256 ^ w)]
      exact Int.emod_eq_of_lt (by linarith) (by linarith)
    have hnonneg : 0 ≤ z + 256 ^ w := by linarith
    rw [hmod, Int.toNat_of_nonneg hnonneg, if_neg]
    · ring
    · zify
      rw [Int.toNat_of_nonneg hnonneg]
      linarith

theorem toUnsigned_lt (w : ℕ) (z : ℤ) : toUnsigned w z < 256 ^ w := by
  have hpos : (0 : ℤ) < 256 ^ w := by positivity
  zify [toUnsigned]
  rw [Int.toNat_of_nonneg (Int.emod_nonneg z hpos.ne')]
  exact Int.emod_lt_of_pos z hpos

theorem toUnsigned_ofUnsigned {w n : ℕ} (h : n < 256 ^ w) : toUnsigned w (ofUnsigned w n) = n := by
  have hn : (n : ℤ) < 256 ^ w := by exact_mod_cast h
  have hmod : (n : ℤ) % 256 ^ w = n := Int.emod_eq_of_lt (by positivity) hn
  rw [ofUnsigned, toUnsigned]
  split
  · rw [hmod, Int.toNat_natCast]
  · rw [Int.sub_emod_right, hmod, Int.toNat_natCast]

theorem ofUnsigned_fits {w n : ℕ} (h : n < 256 ^ w) :
    -256 ^ w ≤ 2 * ofUnsigned w n ∧ 2 * ofUnsigned w n < 256 ^ w := by
  have hn : (n : ℤ) < 256 ^ w := by exact_mod_cast h
  rw [ofUnsigned]
  split
  · next hlt =>
    have hlt' : 2 * (n : ℤ) < 256 ^ w := by exact_mod_cast hlt
    constructor <;> linarith [hlt', Int.natCast_nonneg n]
  · next hge =>
    have hge' : (256 : ℤ) ^ w ≤ 2 * (n : ℤ) := by exact_mod_cast not_lt.1 hge
    constructor <;> linarith

/-! ### Changes of representation -/

/-- The layout of a type in the representation of another. -/
def congr (c : Codec α) (e : α ≃ β) : Codec β where
  encode b := c.encode (e.symm b)
  decode bs := (c.decode bs).map fun p => (e p.1, p.2)
  Fits b := c.Fits (e.symm b)
  size := c.size
  decode_encode b rest h := by
    rw [c.decode_encode _ _ h, Option.map_some, e.apply_symm_apply]
  encode_decode bs b rest h := by
    obtain ⟨⟨a, rest⟩, ha, hp⟩ := Option.map_eq_some_iff.1 h
    obtain ⟨rfl, rfl⟩ := Prod.mk.inj hp
    rw [e.symm_apply_apply]
    exact c.encode_decode bs a rest ha
  length_encode b := c.length_encode _

/-- A layout of some of the values of another. -/
def restrict (c : Codec α) (f : α → Option β) (g : β → α) (hfg : ∀ b, f (g b) = some b)
    (hgf : ∀ a b, f a = some b → g b = a) : Codec β where
  encode b := c.encode (g b)
  decode bs := (c.decode bs).bind fun p => (f p.1).map fun b => (b, p.2)
  Fits b := c.Fits (g b)
  size := c.size
  decode_encode b rest h := by
    rw [c.decode_encode _ _ h, Option.bind_some, hfg]
    rfl
  encode_decode bs b rest h := by
    obtain ⟨⟨a, rest'⟩, ha, hp⟩ := Option.bind_eq_some_iff.1 h
    obtain ⟨b', hb, hp⟩ := Option.map_eq_some_iff.1 hp
    obtain ⟨rfl, rfl⟩ := Prod.mk.inj hp
    rw [hgf a b' hb]
    exact c.encode_decode bs a rest' ha
  length_encode b := c.length_encode _

/-- An integer in `w` bytes. -/
def int (w : ℕ) : Codec ℤ where
  encode z := littleEndian w (toUnsigned w z)
  decode bs := ((uint w).decode bs).map fun p => (ofUnsigned w p.1, p.2)
  Fits z := -256 ^ w ≤ 2 * z ∧ 2 * z < 256 ^ w
  size := w
  decode_encode z rest h := by
    have hdecode := (uint w).decode_encode _ rest (toUnsigned_lt w z)
    rw [show littleEndian w (toUnsigned w z) = (uint w).encode (toUnsigned w z) from rfl, hdecode,
      Option.map_some, ofUnsigned_toUnsigned h]
  encode_decode bs z rest h := by
    obtain ⟨⟨n, rest⟩, hn, hp⟩ := Option.map_eq_some_iff.1 h
    obtain ⟨rfl, rfl⟩ := Prod.mk.inj hp
    obtain ⟨hfits, hbytes⟩ := (uint w).encode_decode bs n rest hn
    rw [toUnsigned_ofUnsigned hfits]
    exact ⟨ofUnsigned_fits hfits, hbytes⟩
  length_encode z := (length_littleEndian w _).le

/-- A flag, zero or one. -/
def bool : Codec Bool :=
  (uint 1).restrict (fun n => if n = 0 then some false else if n = 1 then some true else none)
    (fun b => if b then 1 else 0) (by decide) (by
      intro a b h
      split at h
      · next ha => rw [← Option.some.inj h, ha]; rfl
      · split at h
        · next ha => rw [← Option.some.inj h, ha]; rfl
        · cases h)

/-- A word of `8 * w` bits, most significant byte first. -/
def word (w : ℕ) : Codec (BitVec (8 * w)) where
  encode x := ofWord w x
  decode bs := if w ≤ bs.length then some (.ofNat _ (ofBigEndian (bs.take w)), bs.drop w) else none
  Fits _ := True
  size := w
  decode_encode x rest _ := by
    have hlen := length_ofWord w x
    rw [if_pos (by simp), List.take_left' hlen, List.drop_left' hlen, ofWord,
      ofBigEndian_bigEndian_of_lt (toNat_lt_pow le_rfl x), BitVec.ofNat_toNat, BitVec.setWidth_eq]
  encode_decode bs x rest h := by
    split at h
    · next hw =>
      have hlen : (bs.take w).length = w := by simpa using hw
      obtain ⟨rfl, rfl⟩ := Prod.mk.inj (Option.some.inj h)
      have hlt := ofBigEndian_lt (bs.take w)
      have hback := bigEndian_ofBigEndian (bs.take w)
      rw [hlen] at hlt hback
      refine ⟨trivial, ?_⟩
      rw [ofWord, BitVec.toNat_ofNat, Nat.mod_eq_of_lt (by rwa [pow_mul]), hback,
        List.take_append_drop]
    · cases h
  length_encode x := (length_ofWord w x).le

/-! ### Composition -/

/-- One layout behind another. -/
def pair (c : Codec α) (d : Codec β) : Codec (α × β) where
  encode p := c.encode p.1 ++ d.encode p.2
  decode bs := (c.decode bs).bind fun p => (d.decode p.2).map fun q => ((p.1, q.1), q.2)
  Fits p := c.Fits p.1 ∧ d.Fits p.2
  size := c.size + d.size
  decode_encode p rest h := by
    rw [List.append_assoc, c.decode_encode _ _ h.1, Option.bind_some, d.decode_encode _ _ h.2]
    rfl
  encode_decode bs p rest h := by
    obtain ⟨⟨a, rest'⟩, ha, hp⟩ := Option.bind_eq_some_iff.1 h
    obtain ⟨⟨b, rest''⟩, hb, hq⟩ := Option.map_eq_some_iff.1 hp
    obtain ⟨rfl, rfl⟩ := Prod.mk.inj hq
    obtain ⟨ha, hbytes⟩ := c.encode_decode _ _ _ ha
    obtain ⟨hb, hbytes'⟩ := d.encode_decode _ _ _ hb
    refine ⟨⟨ha, hb⟩, ?_⟩
    rw [List.append_assoc, hbytes', hbytes]
  length_encode p := by
    have hc := c.length_encode p.1
    have hd := d.length_encode p.2
    rw [List.length_append]
    omega

def encodeOption (c : Codec α) : Option α → List Byte
  | none => [0]
  | some a => 1 :: c.encode a

def decodeOption (c : Codec α) : List Byte → Option (Option α × List Byte)
  | [] => none
  | b :: bs =>
    if b = 0 then some (none, bs)
    else if b = 1 then (c.decode bs).map fun p => (some p.1, p.2) else none

theorem decodeOption_encodeOption (c : Codec α) (o : Option α) (rest : List Byte)
    (h : ∀ a ∈ o, c.Fits a) : c.decodeOption (c.encodeOption o ++ rest) = some (o, rest) := by
  cases o with
  | none => rfl
  | some a =>
    show (c.decode (c.encode a ++ rest)).map _ = _
    rw [c.decode_encode _ _ (h a rfl)]
    rfl

theorem encodeOption_decodeOption (c : Codec α) (bs : List Byte) (o : Option α)
    (rest : List Byte) (h : c.decodeOption bs = some (o, rest)) :
    (∀ a ∈ o, c.Fits a) ∧ c.encodeOption o ++ rest = bs := by
  cases bs with
  | nil => cases h
  | cons b bs =>
    simp only [decodeOption] at h
    split at h
    · next hb =>
      obtain ⟨rfl, rfl⟩ := Prod.mk.inj (Option.some.inj h)
      exact ⟨by simp, by rw [hb]; rfl⟩
    · split at h
      · next hb =>
        obtain ⟨⟨a, rest'⟩, ha, hp⟩ := Option.map_eq_some_iff.1 h
        obtain ⟨rfl, rfl⟩ := Prod.mk.inj hp
        obtain ⟨hfits, hbytes⟩ := c.encode_decode _ _ _ ha
        exact ⟨by simpa using hfits, by rw [hb, ← hbytes]; rfl⟩
      · cases h

theorem length_encodeOption (c : Codec α) (o : Option α) :
    (c.encodeOption o).length ≤ 1 + c.size := by
  cases o with
  | none => exact Nat.le_add_right 1 _
  | some a =>
    have := c.length_encode a
    rw [encodeOption, List.length_cons]
    omega

/-- A value that may be missing: a zero byte, or a one byte and the value. -/
def option (c : Codec α) : Codec (Option α) where
  encode := c.encodeOption
  decode := c.decodeOption
  Fits o := ∀ a ∈ o, c.Fits a
  size := 1 + c.size
  decode_encode := c.decodeOption_encodeOption
  encode_decode := c.encodeOption_decodeOption
  length_encode := c.length_encodeOption

end Codec

end Bytes
