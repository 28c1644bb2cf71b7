/-
AsyncVault/Lib/Tlv.lean

Regions of type-length-value entries.

An entry is a two-byte type, a two-byte length and that many bytes of value,
numbers least significant byte first.  A region holds entries one after another,
and zeros after the last.  Whoever reads it walks by offsets: the header found at
an offset says where the entry ends (`endAt`), and the walk goes on there.

Two walks are enough.  `locate` finds the first entry of a type and passes over
anything else, unused space included; `entriesFrom` collects the entries up to
unused space, which starts with type zero, and `usedFrom` is where that is.
Both stop before a header or a value that does not fit, so they are total on any
byte string.

`encode` writes a region, and the laws say what the walks find in one
(`locate_encode`, `usedFrom_encode`, `entriesFrom_encode`) and how a region
changes when a value is written over another of its length or behind the last
entry (`splice_value`, `splice_end`).
-/
import AsyncVault.Lib.Bytes

namespace Tlv

open Bytes

/-! ### Entries -/

def headerSize : ℕ := 4

structure Entry where
  type : ℕ
  value : List Byte
  deriving DecidableEq

def Entry.bytes (e : Entry) : List Byte :=
  littleEndian 2 e.type ++ (littleEndian 2 e.value.length ++ e.value)

/-- The entry fits its header, and its type is not the one of unused space. -/
structure Entry.Fits (e : Entry) : Prop where
  type_ne : e.type ≠ 0
  type_lt : e.type < 256 ^ 2
  length_lt : e.value.length < 256 ^ 2

def encode (es : List Entry) : List Byte := es.flatMap Entry.bytes

/-- Unused space. -/
def zeros (n : ℕ) : List Byte := List.replicate n 0

/-- The value of the first entry of a type. -/
def lookup (es : List Entry) (type : ℕ) : Option (List Byte) :=
  (es.find? fun e => e.type = type).map Entry.value

/-- Give the first entry of a type another value. -/
def replace (type : ℕ) (value : List Byte) : List Entry → List Entry
  | [] => []
  | e :: es => if e.type = type then ⟨type, value⟩ :: es else e :: replace type value es

/-! ### Walks -/

def typeAt (bs : List Byte) (i : ℕ) : ℕ := ofLittleEndian (between bs i (i + 2))

def lengthAt (bs : List Byte) (i : ℕ) : ℕ := ofLittleEndian (between bs (i + 2) (i + 4))

/-- Where the entry at `i` ends. -/
def endAt (bs : List Byte) (i : ℕ) : ℕ := i + headerSize + lengthAt bs i

theorem lt_endAt (bs : List Byte) (i : ℕ) : i < endAt bs i := by
  rw [endAt, headerSize]
  omega

/-- The range of the value of the first entry of a type, from the offset `i` on. -/
def locate (bs : List Byte) (type i : ℕ) : Option (ℕ × ℕ) :=
  if i + headerSize ≤ bs.length then
    if bs.length < endAt bs i then none
    else if typeAt bs i = type then some (i + headerSize, endAt bs i)
    else locate bs type (endAt bs i)
  else none
termination_by bs.length - i
decreasing_by
  have := lt_endAt bs i
  simp only [headerSize] at *
  omega

/-- Where the entries from the offset `i` on end. -/
def usedFrom (bs : List Byte) (i : ℕ) : ℕ :=
  if i + headerSize ≤ bs.length then
    if typeAt bs i = 0 then i
    else if bs.length < endAt bs i then i
    else usedFrom bs (endAt bs i)
  else i
termination_by bs.length - i
decreasing_by
  have := lt_endAt bs i
  simp only [headerSize] at *
  omega

/-- The entries from the offset `i` on. -/
def entriesFrom (bs : List Byte) (i : ℕ) : List Entry :=
  if i + headerSize ≤ bs.length then
    if typeAt bs i = 0 ∨ bs.length < endAt bs i then []
    else ⟨typeAt bs i, between bs (i + headerSize) (endAt bs i)⟩ :: entriesFrom bs (endAt bs i)
  else []
termination_by bs.length - i
decreasing_by
  have := lt_endAt bs i
  simp only [headerSize] at *
  omega

variable {bs pre rest v w : List Byte} {e : Entry} {es l r : List Entry} {type i n : ℕ}

/-- A walk finds values inside the string. -/
theorem locate_bounds {p : ℕ × ℕ} (h : locate bs type i = some p) :
    p.1 ≤ p.2 ∧ p.2 ≤ bs.length := by
  induction i using locate.induct bs type with
  | case1 i hi hend =>
    rw [locate, if_pos hi, if_pos hend] at h
    cases h
  | case2 i hi hend htype =>
    rw [locate, if_pos hi, if_neg hend, if_pos htype] at h
    cases h
    rw [endAt] at *
    omega
  | case3 i hi hend htype ih =>
    rw [locate, if_pos hi, if_neg hend, if_neg htype] at h
    exact ih h
  | case4 i hi =>
    rw [locate, if_neg hi] at h
    cases h

/-! ### Regions -/

theorem Entry.length_bytes (e : Entry) : e.bytes.length = headerSize + e.value.length := by
  simp only [Entry.bytes, List.length_append, length_littleEndian, headerSize]
  omega

@[simp] theorem encode_nil : encode [] = [] := rfl

@[simp] theorem encode_cons (e : Entry) (es : List Entry) :
    encode (e :: es) = e.bytes ++ encode es := rfl

@[simp] theorem encode_append (l r : List Entry) : encode (l ++ r) = encode l ++ encode r := by
  simp [encode]

@[simp] theorem length_zeros (n : ℕ) : (zeros n).length = n := List.length_replicate

/-- A range that is one part of a string. -/
theorem between_append (pre v rest : List Byte) :
    between (pre ++ (v ++ rest)) pre.length (pre.length + v.length) = v := by
  simp [between]

theorem typeAt_entry (he : e.Fits) (pre rest : List Byte) :
    typeAt (pre ++ (e.bytes ++ rest)) pre.length = e.type := by
  have hpart := between_append pre (littleEndian 2 e.type)
    (littleEndian 2 e.value.length ++ e.value ++ rest)
  rw [length_littleEndian] at hpart
  rw [typeAt, Entry.bytes, List.append_assoc, hpart, ofLittleEndian_littleEndian_of_lt he.type_lt]

theorem lengthAt_entry (he : e.Fits) (pre rest : List Byte) :
    lengthAt (pre ++ (e.bytes ++ rest)) pre.length = e.value.length := by
  have hpart := between_append (pre ++ littleEndian 2 e.type) (littleEndian 2 e.value.length)
    (e.value ++ rest)
  rw [List.length_append, length_littleEndian, length_littleEndian] at hpart
  rw [lengthAt, Entry.bytes]
  simp only [List.append_assoc] at hpart ⊢
  rw [hpart, ofLittleEndian_littleEndian_of_lt he.length_lt]

theorem endAt_entry (he : e.Fits) (pre rest : List Byte) :
    endAt (pre ++ (e.bytes ++ rest)) pre.length = (pre ++ e.bytes).length := by
  rw [endAt, lengthAt_entry he, List.length_append, Entry.length_bytes, Nat.add_assoc]

theorem value_entry (e : Entry) (pre rest : List Byte) :
    between (pre ++ (e.bytes ++ rest)) (pre.length + headerSize) (pre ++ e.bytes).length
      = e.value := by
  have hpart := between_append (pre ++ littleEndian 2 e.type ++ littleEndian 2 e.value.length)
    e.value rest
  simp only [List.length_append, length_littleEndian, List.append_assoc] at hpart
  have hlen : (pre ++ e.bytes).length = pre.length + (2 + 2) + e.value.length := by
    rw [List.length_append, e.length_bytes, headerSize]
    omega
  rw [hlen, Entry.bytes, headerSize]
  simpa only [List.append_assoc, Nat.add_assoc] using hpart

/-- The header of an entry and the entry itself are there. -/
theorem entry_fits (he : e.Fits) (pre rest : List Byte) :
    pre.length + headerSize ≤ (pre ++ (e.bytes ++ rest)).length ∧
      ¬(pre ++ (e.bytes ++ rest)).length < endAt (pre ++ (e.bytes ++ rest)) pre.length := by
  rw [endAt_entry he]
  simp only [List.length_append, Entry.length_bytes]
  omega

/-! ### Unused space -/

theorem ofLittleEndian_zeros (n : ℕ) : ofLittleEndian (zeros n) = 0 := by
  induction n with
  | zero => rfl
  | succ n ih =>
    show (0 : Byte).toNat + 256 * ofLittleEndian (zeros n) = 0
    rw [ih]
    rfl

/-- Every range of unused space is unused space. -/
theorem between_zeros (pre : List Byte) (n i j : ℕ) :
    ∃ k, between (pre ++ zeros n) (pre.length + i) j = zeros k := by
  refine ⟨min (j - (pre.length + i)) (n - i), ?_⟩
  rw [between, List.drop_append, List.drop_eq_nil_of_le (by omega), List.nil_append]
  simp [zeros]

theorem typeAt_zeros (pre : List Byte) (n : ℕ) : typeAt (pre ++ zeros n) pre.length = 0 := by
  obtain ⟨k, hk⟩ := between_zeros pre n 0 (pre.length + 2)
  rw [typeAt, show between (pre ++ zeros n) pre.length (pre.length + 2) = zeros k from hk]
  exact ofLittleEndian_zeros k

theorem lengthAt_zeros (pre : List Byte) (n : ℕ) : lengthAt (pre ++ zeros n) pre.length = 0 := by
  obtain ⟨k, hk⟩ := between_zeros pre n 2 (pre.length + 4)
  rw [lengthAt, hk]
  exact ofLittleEndian_zeros k

/-- Nothing is found in unused space. -/
theorem locate_zeros (ht : type ≠ 0) (pre : List Byte) (n : ℕ) :
    locate (pre ++ zeros n) type pre.length = none := by
  induction n using Nat.strong_induction_on generalizing pre with
  | h n ih =>
    rw [locate, endAt, lengthAt_zeros, typeAt_zeros]
    by_cases hn : headerSize ≤ n
    · rw [if_pos (by simpa using hn), if_neg (by simpa using hn), if_neg ht.symm]
      -- one header of zeros further, the rest is unused space again
      have hsplit : pre ++ zeros n = (pre ++ zeros headerSize) ++ zeros (n - headerSize) := by
        rw [List.append_assoc, zeros, zeros, zeros, List.replicate_append_replicate,
          Nat.add_sub_cancel' hn]
      have hlen : pre.length + headerSize + 0 = (pre ++ zeros headerSize).length := by simp
      rw [hsplit, hlen]
      exact ih _ (by simp only [headerSize] at *; omega) _
    · rw [if_neg (by simpa using hn)]

/-! ### What the walks find -/

theorem locate_cons (he : e.Fits) (pre rest : List Byte) (type : ℕ) :
    locate (pre ++ (e.bytes ++ rest)) type pre.length =
      if e.type = type then some (pre.length + headerSize, (pre ++ e.bytes).length)
      else locate ((pre ++ e.bytes) ++ rest) type (pre ++ e.bytes).length := by
  obtain ⟨hheader, hvalue⟩ := entry_fits he pre rest
  rw [locate, if_pos hheader, if_neg hvalue, typeAt_entry he, endAt_entry he,
    List.append_assoc pre e.bytes rest]

/-- **The first entry of a type is found.** -/
theorem locate_of_split (hl : ∀ x ∈ l, x.Fits ∧ x.type ≠ e.type) (he : e.Fits)
    (pre rest : List Byte) :
    locate (pre ++ (encode (l ++ e :: r) ++ rest)) e.type pre.length =
      some ((pre ++ encode l).length + headerSize, (pre ++ encode l ++ e.bytes).length) := by
  induction l generalizing pre with
  | nil =>
    simp only [List.nil_append, encode_cons, List.append_assoc, encode_nil, List.append_nil]
    rw [locate_cons he, if_pos rfl]
  | cons x l ih =>
    obtain ⟨⟨hx, hne⟩, hl⟩ := List.forall_mem_cons.1 hl
    simp only [List.cons_append, encode_cons, List.append_assoc]
    rw [locate_cons hx, if_neg hne, ih hl]
    simp only [List.append_assoc]

/-- No other type is. -/
theorem locate_of_absent (hes : ∀ x ∈ es, x.Fits ∧ x.type ≠ type) (ht : type ≠ 0)
    (pre : List Byte) (n : ℕ) :
    locate (pre ++ (encode es ++ zeros n)) type pre.length = none := by
  induction es generalizing pre with
  | nil => exact locate_zeros ht pre n
  | cons x es ih =>
    obtain ⟨⟨hx, hne⟩, hes⟩ := List.forall_mem_cons.1 hes
    rw [encode_cons, List.append_assoc, locate_cons hx, if_neg hne]
    exact ih hes _

/-- The value of a type in a list with an entry of it, and where that entry stands. -/
theorem lookup_eq_some :
    lookup es type = some v ↔
      ∃ l r, es = l ++ ⟨type, v⟩ :: r ∧ ∀ x ∈ l, x.type ≠ type := by
  simp only [lookup, Option.map_eq_some_iff, List.find?_eq_some_iff_append]
  constructor
  · rintro ⟨e, ⟨he, l, r, rfl, hl⟩, rfl⟩
    obtain rfl : e.type = type := of_decide_eq_true he
    exact ⟨l, r, rfl, fun x hx => by simpa using hl x hx⟩
  · rintro ⟨l, r, rfl, hl⟩
    exact ⟨_, ⟨by simp, l, r, rfl, fun x hx => by simpa using hl x hx⟩, rfl⟩

theorem lookup_eq_none : lookup es type = none ↔ ∀ x ∈ es, x.type ≠ type := by
  simp [lookup]

/-- **Reading a region by type.** -/
theorem locate_encode (hes : ∀ e ∈ es, e.Fits) (ht : type ≠ 0) (n : ℕ) :
    (locate (encode es ++ zeros n) type 0).map
      (fun p => between (encode es ++ zeros n) p.1 p.2) = lookup es type := by
  cases hv : lookup es type with
  | none =>
    have hne := lookup_eq_none.1 hv
    have := locate_of_absent (fun x hx => ⟨hes x hx, hne x hx⟩) ht [] n
    rw [List.nil_append, List.length_nil] at this
    rw [this, Option.map_none]
  | some v =>
    obtain ⟨l, r, rfl, hl⟩ := lookup_eq_some.1 hv
    have hfits : ∀ x ∈ l, x.Fits ∧ x.type ≠ type := fun x hx => ⟨hes x (by simp [hx]), hl x hx⟩
    have := locate_of_split (r := r) hfits (hes ⟨type, v⟩ (by simp)) [] (zeros n)
    rw [List.nil_append, List.length_nil, List.nil_append] at this
    rw [this, Option.map_some, encode_append, encode_cons, List.append_assoc, List.append_assoc,
      value_entry]

/-- **The used part of a region.** -/
theorem usedFrom_encode (hes : ∀ e ∈ es, e.Fits) (pre : List Byte) (n : ℕ) :
    usedFrom (pre ++ (encode es ++ zeros n)) pre.length = (pre ++ encode es).length := by
  induction es generalizing pre with
  | nil =>
    rw [encode_nil, List.nil_append, List.append_nil, usedFrom, typeAt_zeros]
    simp
  | cons e es ih =>
    obtain ⟨he, hes⟩ := List.forall_mem_cons.1 hes
    obtain ⟨hheader, hvalue⟩ := entry_fits he pre (encode es ++ zeros n)
    rw [encode_cons, List.append_assoc, usedFrom, if_pos hheader, typeAt_entry he,
      if_neg he.type_ne, if_neg hvalue, endAt_entry he, ← List.append_assoc pre, ih hes]
    simp only [List.append_assoc]

/-- **Reading a region in order.** -/
theorem entriesFrom_encode (hes : ∀ e ∈ es, e.Fits) (pre : List Byte) (n : ℕ) :
    entriesFrom (pre ++ (encode es ++ zeros n)) pre.length = es := by
  induction es generalizing pre with
  | nil =>
    rw [encode_nil, List.nil_append, entriesFrom, typeAt_zeros]
    simp
  | cons e es ih =>
    obtain ⟨he, hes⟩ := List.forall_mem_cons.1 hes
    obtain ⟨hheader, hvalue⟩ := entry_fits he pre (encode es ++ zeros n)
    rw [encode_cons, List.append_assoc, entriesFrom, if_pos hheader, typeAt_entry he,
      if_neg (by simp only [he.type_ne, hvalue, or_self, not_false_eq_true]), endAt_entry he,
      value_entry, ← List.append_assoc pre, ih hes]

/-! ### Writing -/

/-- The string with `v` over the bytes from `i` on. -/
def splice (bs : List Byte) (i : ℕ) (v : List Byte) : List Byte :=
  bs.take i ++ (v ++ bs.drop (i + v.length))

theorem splice_part (h : v.length = w.length) (pre rest : List Byte) :
    splice (pre ++ (w ++ rest)) pre.length v = pre ++ (v ++ rest) := by
  simp [splice, h]

/-- Writing two parts, one behind the other. -/
theorem splice_splice (hi : i + v.length ≤ bs.length) :
    splice (splice bs i v) (i + v.length) w = splice bs i (v ++ w) := by
  have hlen : (bs.take i ++ v).length = i + v.length := by
    rw [List.length_append, List.length_take]
    omega
  rw [splice, splice, splice, ← List.append_assoc (bs.take i), List.take_left' hlen,
    List.drop_append, hlen, List.drop_eq_nil_of_le (by omega), Nat.add_sub_cancel_left,
      List.drop_drop]
  simp only [List.nil_append, List.append_assoc, List.length_append, Nat.add_assoc]

theorem length_splice (hi : i + v.length ≤ bs.length) : (splice bs i v).length = bs.length := by
  simp only [splice, List.length_append, List.length_take, List.length_drop]
  omega

theorem replace_of_split (hl : ∀ x ∈ l, x.type ≠ type) :
    replace type w (l ++ ⟨type, v⟩ :: r) = l ++ ⟨type, w⟩ :: r := by
  induction l with
  | nil => simp [replace]
  | cons x l ih =>
    obtain ⟨hx, hl⟩ := List.forall_mem_cons.1 hl
    simp [replace, hx, ih hl]

/-- **Writing over a value** of the same length replaces it. -/
theorem splice_value (hl : ∀ x ∈ l, x.type ≠ type) (hw : w.length = v.length)
    (rest : List Byte) :
    splice (encode (l ++ ⟨type, v⟩ :: r) ++ rest) ((encode l).length + headerSize) w
      = encode (replace type w (l ++ ⟨type, v⟩ :: r)) ++ rest := by
  have hpre : (encode l).length + headerSize
      = (encode l ++ (littleEndian 2 type ++ littleEndian 2 v.length)).length := by
    simp [headerSize]
  have := splice_part hw (encode l ++ (littleEndian 2 type ++ littleEndian 2 v.length))
    (encode r ++ rest)
  rw [replace_of_split hl, hpre]
  simpa only [encode_append, encode_cons, Entry.bytes, List.append_assoc, hw] using this

/-- **Writing an entry** behind the last one, over unused space. -/
theorem splice_end (hn : e.bytes.length ≤ n) :
    splice (encode es ++ zeros n) (encode es).length e.bytes
      = encode (es ++ [e]) ++ zeros (n - e.bytes.length) := by
  have hsplit : zeros n = zeros e.bytes.length ++ zeros (n - e.bytes.length) := by
    rw [zeros, zeros, zeros, List.replicate_append_replicate, Nat.add_sub_cancel' hn]
  rw [hsplit, splice_part (by simp)]
  simp

end Tlv
