/-
AsyncVault/Lib/Bytes.lean

Byte strings: numbers of a fixed width, ranges, and the order on strings.

A fixed-width number is written least significant byte first (`littleEndian`)
or last (`bigEndian`).  Both are injective below `256 ^ w`, and a string of `w`
bytes is the encoding of the number it decodes to, so a layout made of such
fields can be taken apart again from the front: the field lemmas below peel one
field off an equation of two strings.

Strings of one length are ordered as the numbers they are the big-endian
encodings of (`compareBytes_le_iff`), which lets a digest be a number.
-/
import Mathlib.Data.BitVec
import Mathlib.Data.List.Basic
import Mathlib.Tactic.Common
import Mathlib.Tactic.Ring

namespace Bytes

abbrev Byte := BitVec 8

/-! ### Little-endian numbers -/

/-- The `w` lowest bytes of `n`, least significant first. -/
def littleEndian : ℕ → ℕ → List Byte
  | 0, _ => []
  | w + 1, n => .ofNat 8 n :: littleEndian w (n / 256)

/-- The number a string stands for, least significant byte first. -/
def ofLittleEndian : List Byte → ℕ
  | [] => 0
  | b :: bs => b.toNat + 256 * ofLittleEndian bs

variable {w m n : ℕ} {b : Byte} {bs cs r r' : List Byte}

/-- As many bytes as asked for, whatever the number. -/
@[simp] theorem length_littleEndian (w n : ℕ) : (littleEndian w n).length = w := by
  induction w generalizing n with
  | zero => rfl
  | succ w ih => simp [littleEndian, ih]

/-- What does not fit into `w` bytes is lost. -/
theorem ofLittleEndian_littleEndian (w n : ℕ) :
    ofLittleEndian (littleEndian w n) = n % 256 ^ w := by
  induction w generalizing n with
  | zero => simp [littleEndian, ofLittleEndian, Nat.mod_one]
  | succ w ih =>
    show (BitVec.ofNat 8 n).toNat + 256 * ofLittleEndian (littleEndian w (n / 256)) = _
    rw [ih, BitVec.toNat_ofNat, show (2 : ℕ) ^ 8 = 256 from rfl, pow_succ', Nat.mod_mul]

/-- A number that fits is read back. -/
@[simp] theorem ofLittleEndian_littleEndian_of_lt (h : n < 256 ^ w) :
    ofLittleEndian (littleEndian w n) = n := by
  rw [ofLittleEndian_littleEndian, Nat.mod_eq_of_lt h]

/-- A string stands for a number below `256` to its length. -/
theorem ofLittleEndian_lt (bs : List Byte) : ofLittleEndian bs < 256 ^ bs.length := by
  induction bs with
  | nil => simp [ofLittleEndian]
  | cons b bs ih =>
    have hb : b.toNat < 256 := b.isLt
    rw [List.length_cons, pow_succ]
    show b.toNat + 256 * ofLittleEndian bs < _
    omega

/-- A string is written back from the number it stands for. -/
theorem littleEndian_ofLittleEndian (bs : List Byte) :
    littleEndian bs.length (ofLittleEndian bs) = bs := by
  induction bs with
  | nil => rfl
  | cons b bs ih =>
    have hb : b.toNat < 256 := b.isLt
    show BitVec.ofNat 8 (b.toNat + 256 * ofLittleEndian bs)
      :: littleEndian bs.length ((b.toNat + 256 * ofLittleEndian bs) / 256) = _
    -- the first byte is the remainder by 256, the rest is the quotient
    congr 1
    · apply BitVec.eq_of_toNat_eq
      rw [BitVec.toNat_ofNat]
      omega
    · rw [show (b.toNat + 256 * ofLittleEndian bs) / 256 = ofLittleEndian bs by omega, ih]

/-- Numbers that fit are told apart by their bytes. -/
theorem littleEndian_inj (hm : m < 256 ^ w) (hn : n < 256 ^ w) :
    littleEndian w m = littleEndian w n ↔ m = n := by
  constructor
  · intro h
    have := congrArg ofLittleEndian h
    rwa [ofLittleEndian_littleEndian_of_lt hm, ofLittleEndian_littleEndian_of_lt hn] at this
  · rintro rfl
    rfl

/-! ### Big-endian numbers -/

/-- The `w` lowest bytes of `n`, most significant first. -/
def bigEndian (w n : ℕ) : List Byte := (littleEndian w n).reverse

/-- The number a string stands for, most significant byte first. -/
def ofBigEndian (bs : List Byte) : ℕ := ofLittleEndian bs.reverse

@[simp] theorem length_bigEndian (w n : ℕ) : (bigEndian w n).length = w := by
  simp [bigEndian]

theorem ofBigEndian_lt (bs : List Byte) : ofBigEndian bs < 256 ^ bs.length := by
  simpa [ofBigEndian] using ofLittleEndian_lt bs.reverse

@[simp] theorem ofBigEndian_bigEndian_of_lt (h : n < 256 ^ w) :
    ofBigEndian (bigEndian w n) = n := by
  simp [ofBigEndian, bigEndian, h]

theorem bigEndian_ofBigEndian (bs : List Byte) : bigEndian bs.length (ofBigEndian bs) = bs := by
  have h := littleEndian_ofLittleEndian bs.reverse
  rw [List.length_reverse] at h
  rw [bigEndian, ofBigEndian, h, List.reverse_reverse]

theorem bigEndian_inj (hm : m < 256 ^ w) (hn : n < 256 ^ w) :
    bigEndian w m = bigEndian w n ↔ m = n := by
  rw [bigEndian, bigEndian, List.reverse_inj, littleEndian_inj hm hn]

/-- The first string is the low part. -/
theorem ofLittleEndian_append (bs cs : List Byte) :
    ofLittleEndian (bs ++ cs) = ofLittleEndian bs + 256 ^ bs.length * ofLittleEndian cs := by
  induction bs with
  | nil => simp [ofLittleEndian]
  | cons b bs ih =>
    show b.toNat + 256 * ofLittleEndian (bs ++ cs)
      = b.toNat + 256 * ofLittleEndian bs + 256 ^ (bs.length + 1) * ofLittleEndian cs
    rw [ih, pow_succ]
    ring

/-- The first byte is the high part. -/
theorem ofBigEndian_cons (b : Byte) (bs : List Byte) :
    ofBigEndian (b :: bs) = b.toNat * 256 ^ bs.length + ofBigEndian bs := by
  rw [ofBigEndian, List.reverse_cons, ofLittleEndian_append]
  simp [ofLittleEndian, ofBigEndian]
  ring

/-! ### Words -/

variable {k : ℕ}

/-- A word of at most `8 * w` bits in `w` bytes, most significant first. -/
def ofWord (w : ℕ) (x : BitVec k) : List Byte := bigEndian w x.toNat

@[simp] theorem length_ofWord (w : ℕ) (x : BitVec k) : (ofWord w x).length = w := by
  simp [ofWord]

/-- A word fits into enough bytes. -/
theorem toNat_lt_pow (h : k ≤ 8 * w) (x : BitVec k) : x.toNat < 256 ^ w := by
  calc x.toNat < 2 ^ k := x.isLt
    _ ≤ 2 ^ (8 * w) := Nat.pow_le_pow_right (by omega) h
    _ = 256 ^ w := pow_mul 2 8 w

/-- Words that fit are told apart by their bytes. -/
theorem ofWord_inj (h : k ≤ 8 * w) {x y : BitVec k} : ofWord w x = ofWord w y ↔ x = y := by
  rw [ofWord, ofWord, bigEndian_inj (toNat_lt_pow h x) (toNat_lt_pow h y)]
  exact ⟨BitVec.eq_of_toNat_eq, fun e => e ▸ rfl⟩

/-! ### The order -/

/-- The sign of the first difference, byte by byte; a proper prefix comes first. -/
def compareBytes : List Byte → List Byte → ℤ
  | b :: bs, c :: cs => if b = c then compareBytes bs cs else (b.toNat : ℤ) - c.toNat
  | bs, cs => (bs.length : ℤ) - cs.length

/-- Strings of one length are ordered as the numbers they stand for. -/
theorem compareBytes_le_iff (h : bs.length = cs.length) :
    compareBytes bs cs ≤ 0 ↔ ofBigEndian bs ≤ ofBigEndian cs := by
  induction bs generalizing cs with
  | nil =>
    obtain rfl : cs = [] := by simpa using h.symm
    simp [compareBytes]
  | cons b bs ih =>
    obtain ⟨c, cs, rfl⟩ : ∃ c cs', cs = c :: cs' := by
      cases cs with
      | nil => simp at h
      | cons c cs => exact ⟨c, cs, rfl⟩
    have hlen : bs.length = cs.length := by simpa using h
    rw [ofBigEndian_cons, ofBigEndian_cons, compareBytes]
    by_cases hbc : b = c
    · subst hbc
      rw [if_pos rfl, ih hlen, hlen, Nat.add_le_add_iff_left]
    · rw [if_neg hbc, hlen]
      have hne : b.toNat ≠ c.toNat := fun e => hbc (BitVec.eq_of_toNat_eq e)
      have hb := hlen ▸ ofBigEndian_lt bs
      have hc := ofBigEndian_lt cs
      -- the leading bytes decide, since the rest stays below one unit of them
      rcases lt_or_gt_of_ne hne with hlt | hlt
      · have := Nat.mul_le_mul_right (256 ^ cs.length) (show b.toNat + 1 ≤ c.toNat from hlt)
        rw [Nat.add_mul, Nat.one_mul] at this
        omega
      · have := Nat.mul_le_mul_right (256 ^ cs.length) (show c.toNat + 1 ≤ b.toNat from hlt)
        rw [Nat.add_mul, Nat.one_mul] at this
        omega

/-- Words are ordered as their bytes are. -/
theorem compareBytes_ofWord (h : k ≤ 8 * w) (x y : BitVec k) :
    compareBytes (ofWord w x) (ofWord w y) ≤ 0 ↔ x ≤ y := by
  rw [compareBytes_le_iff (by simp), ofWord, ofWord,
    ofBigEndian_bigEndian_of_lt (toNat_lt_pow h x), ofBigEndian_bigEndian_of_lt (toNat_lt_pow h y),
    BitVec.le_def]

/-! ### Ranges -/

/-- The bytes from `start` to before `stop`. -/
def between (bs : List Byte) (start stop : ℕ) : List Byte := (bs.drop start).take (stop - start)

/-- The same, when the range lies in the string. -/
def slice (bs : List Byte) (start stop : ℕ) : Option (List Byte) :=
  if start ≤ stop ∧ stop ≤ bs.length then some (between bs start stop) else none

/-- A range is read exactly when it lies in the string. -/
theorem slice_eq_some {start stop : ℕ} :
    slice bs start stop = some r ↔
      (start ≤ stop ∧ stop ≤ bs.length) ∧ r = between bs start stop := by
  rw [slice]
  split <;> simp_all [eq_comm]

/-- A range that lies in the string is as long as it says. -/
theorem length_between {start k : ℕ} (h : start + k ≤ bs.length) :
    (between bs start (start + k)).length = k := by
  rw [between, List.length_take, List.length_drop]
  omega

/-! ### Text -/

/-- The bytes of a text of ASCII characters. -/
def ascii (s : String) : List Byte := s.toList.map fun c => .ofNat 8 c.toNat

end Bytes
