/-
AsyncVault/ExtensionLaws.lean

What the functions on extension bytes do.

Each loop of the program and of the client is `.ok` of one of the two walks of a
region, on any bytes (`findEntry_eq`, `tlvUsedLen_eq`, `getTlvBytes_eq`): it ends,
and no index is out of range.  The value of every extension type is read back
from the bytes it is written as (`tryRead_bytesOf`).  And a region that holds some
entries holds the expected ones after an entry is written behind the last
(`writeExtensionRaw_encode`) or over another value (`updateExtension_encode`).
-/
import AsyncVault.ExtensionStore

namespace AsyncVault

open Checked Bytes Tlv

variable {bs v : List Byte} {i n : ℕ}

/-! ### Loops are walks -/

/-- A byte of the string is read. -/
theorem byteAt_eq (h : i < bs.length) : byteAt bs i = .ok bs[i] := by
  simp [byteAt, okOr, h]

/-- Two bytes are read as a number, the low byte first. -/
theorem u16At_eq (h : i + 2 ≤ bs.length) :
    u16At bs i = .ok (ofLittleEndian (between bs i (i + 2))) := by
  have hbetween : between bs i (i + 2) = [bs[i], bs[i + 1]] := by
    rw [between, List.drop_eq_getElem_cons (show i < bs.length by omega),
      List.drop_eq_getElem_cons (show i + 1 < bs.length by omega), Nat.add_sub_cancel_left]
    rfl
  rw [u16At, byteAt_eq (show i < bs.length by omega), byteAt_eq (show i + 1 < bs.length by omega),
    hbetween]
  rfl

/-- A range of the string is read. -/
theorem rangeOf_eq {start stop : ℕ} (h : start ≤ stop) (hstop : stop ≤ bs.length) :
    rangeOf bs start stop = .ok (between bs start stop) := by
  rw [rangeOf, slice, if_pos ⟨h, hstop⟩]
  rfl

/-- Bytes that fit behind `i` are written there. -/
theorem copyAt_eq (h : i + v.length ≤ bs.length) : copyAt bs i v = .ok (splice bs i v) := by
  rw [copyAt, require, if_pos h]
  rfl

/-- A header in the string is read as its type and its length. -/
theorem header_eq (h : i + headerSize ≤ bs.length) :
    u16At bs i = .ok (typeAt bs i) ∧ u16At bs (i + 2) = .ok (lengthAt bs i) := by
  rw [headerSize] at h
  exact ⟨u16At_eq (by omega), u16At_eq (by omega)⟩

/-- One turn of the reading loop. -/
theorem findEntry_of_header (h : i + headerSize ≤ bs.length) (type : ℕ) :
    findEntry bs type i =
      if bs.length < endAt bs i then .ok none
      else if typeAt bs i = type then .ok (some (i + headerSize, endAt bs i))
      else findEntry bs type (endAt bs i) := by
  obtain ⟨htype, hlength⟩ := header_eq h
  rw [findEntry, dif_pos (show i + tlvHeaderSize ≤ bs.length from h), htype, hlength]
  rfl

/-- **The reading loop ends and stays in range**, on any bytes. -/
theorem findEntry_eq (bs : List Byte) (type i : ℕ) :
    findEntry bs type i = .ok (locate bs type i) := by
  -- both take the same turns: past the end, found, next entry, no header left
  induction i using locate.induct bs type with
  | case1 i hi hend =>
    rw [findEntry_of_header hi, locate, if_pos hi, if_pos hend, if_pos hend]
  | case2 i hi hend htype =>
    rw [findEntry_of_header hi, locate, if_pos hi, if_neg hend, if_neg hend, if_pos htype,
      if_pos htype]
  | case3 i hi hend htype ih =>
    rw [findEntry_of_header hi, locate, if_pos hi, if_neg hend, if_neg hend, if_neg htype,
      if_neg htype, ih]
  | case4 i hi =>
    rw [findEntry, locate, dif_neg (show ¬i + tlvHeaderSize ≤ bs.length from hi), if_neg hi]
    rfl

/-- The value found by type, on any bytes. -/
def valueOf (bs : List Byte) (type : ℕ) : Option (List Byte) :=
  (locate bs type 0).map fun p => between bs p.1 p.2

/-- **The readers end and stay in range**, on any bytes. -/
theorem getExtensionBytesRaw_eq (bs : List Byte) (type : ℕ) :
    getExtensionBytesRaw bs type = .ok (valueOf bs type) := by
  rw [getExtensionBytesRaw, findEntry_eq, valueOf]
  cases hp : locate bs type 0 with
  | none => rfl
  | some p =>
    obtain ⟨hle, hstop⟩ := locate_bounds hp
    show (rangeOf bs p.1 p.2 >>= fun value => pure (some value)) = _
    rw [rangeOf_eq hle hstop]
    rfl

/-- For writing, the place of the value is found instead. -/
theorem getExtensionBytesRawMut_eq (bs : List Byte) (type : ℕ) :
    getExtensionBytesRawMut bs type = .ok (locate bs type 0) := by
  rw [getExtensionBytesRawMut, findEntry_eq]
  cases hp : locate bs type 0 with
  | none => rfl
  | some p =>
    obtain ⟨hle, hstop⟩ := locate_bounds hp
    show (rangeOf bs p.1 p.2 >>= fun _ => pure (some (p.1, p.2))) = _
    rw [rangeOf_eq hle hstop]
    rfl

/-- An extension is there exactly when its value is found. -/
theorem hasExtensionRaw_eq (bs : List Byte) (type : ℕ) :
    hasExtensionRaw bs type = .ok (valueOf bs type).isSome := by
  rw [hasExtensionRaw, getExtensionBytesRaw_eq]
  rfl

/-- One turn of the loop that looks for the end. -/
theorem tlvUsedLenFrom_of_header (h : i + headerSize ≤ bs.length) :
    tlvUsedLenFrom bs i =
      if typeAt bs i = 0 then .ok i
      else if bs.length < endAt bs i then .ok i
      else tlvUsedLenFrom bs (endAt bs i) := by
  obtain ⟨htype, hlength⟩ := header_eq h
  rw [tlvUsedLenFrom, dif_pos (show i + tlvHeaderSize ≤ bs.length from h), htype, hlength]
  rfl

/-- **So does the loop that looks for the end of the entries.** -/
theorem tlvUsedLenFrom_eq (bs : List Byte) (i : ℕ) :
    tlvUsedLenFrom bs i = .ok (usedFrom bs i) := by
  induction i using usedFrom.induct bs with
  | case1 i hi htype =>
    rw [tlvUsedLenFrom_of_header hi, usedFrom, if_pos hi, if_pos htype, if_pos htype]
  | case2 i hi htype hend =>
    rw [tlvUsedLenFrom_of_header hi, usedFrom, if_pos hi, if_neg htype, if_neg htype, if_pos hend,
      if_pos hend]
  | case3 i hi htype hend ih =>
    rw [tlvUsedLenFrom_of_header hi, usedFrom, if_pos hi, if_neg htype, if_neg htype, if_neg hend,
      if_neg hend, ih]
  | case4 i hi =>
    rw [tlvUsedLenFrom, usedFrom, dif_neg (show ¬i + tlvHeaderSize ≤ bs.length from hi), if_neg hi]
    rfl

/-- The used length is where that loop ends from the start. -/
theorem tlvUsedLen_eq (bs : List Byte) : tlvUsedLen bs = .ok (usedFrom bs 0) :=
  tlvUsedLenFrom_eq bs 0

namespace RustClient

/-- One turn of the client's loop. -/
theorem getTlvBytesFrom_of_header (h : i + headerSize ≤ bs.length) (type : ℕ) :
    getTlvBytesFrom bs type i =
      if bs.length < endAt bs i then .ok none
      else if typeAt bs i = type then
        rangeOf bs (i + headerSize) (endAt bs i) >>= fun value => pure (some value)
      else getTlvBytesFrom bs type (endAt bs i) := by
  obtain ⟨htype, hlength⟩ := header_eq h
  rw [getTlvBytesFrom, dif_pos (show i + 4 ≤ bs.length from h), htype, hlength]
  rfl

/-- The client's loop reads the value at the place the walk finds. -/
theorem getTlvBytesFrom_eq (bs : List Byte) (type i : ℕ) :
    getTlvBytesFrom bs type i = .ok ((locate bs type i).map fun p => between bs p.1 p.2) := by
  induction i using locate.induct bs type with
  | case1 i hi hend =>
    rw [getTlvBytesFrom_of_header hi, locate, if_pos hi, if_pos hend, if_pos hend]
    rfl
  | case2 i hi hend htype =>
    rw [getTlvBytesFrom_of_header hi, locate, if_pos hi, if_neg hend, if_neg hend, if_pos htype,
      if_pos htype, rangeOf_eq (by rw [endAt]; omega) (not_lt.1 hend)]
    rfl
  | case3 i hi hend htype ih =>
    rw [getTlvBytesFrom_of_header hi, locate, if_pos hi, if_neg hend, if_neg hend, if_neg htype,
      if_neg htype, ih]
  | case4 i hi =>
    rw [getTlvBytesFrom, locate, dif_neg (show ¬i + 4 ≤ bs.length from hi), if_neg hi]
    rfl

/-- **The client's loop finds what the program's does**, on any bytes. -/
theorem getTlvBytes_eq (bs : List Byte) (type : ℕ) :
    getTlvBytes bs type = .ok (valueOf bs type) :=
  getTlvBytesFrom_eq bs type 0

end RustClient

/-! ### Values -/

theorem length_word (x : BitVec 64) : (word x).length = 8 := length_littleEndian 8 _

/-- A word is read back from among other bytes. -/
theorem wordAt_part (x : BitVec 64) (pre rest : List Byte) :
    wordAt (pre ++ (word x ++ rest)) pre.length = x := by
  have hpart := between_append pre (word x) rest
  rw [length_word] at hpart
  rw [wordAt, hpart, word, ofLittleEndian_littleEndian_of_lt (toNat_lt_pow (by decide) x)]
  exact BitVec.ofNat_toNat _ x

/-- A word is read back from the end of the bytes. -/
theorem wordAt_last (x : BitVec 64) (pre : List Byte) : wordAt (pre ++ word x) pre.length = x := by
  simpa using wordAt_part x pre []

/-- A fee is read back from its bytes. -/
theorem FeeData.ofBytes_bytesOf (f : FeeData) : ofBytes f.bytesOf = f := by
  obtain ⟨discriminant, data⟩ := f
  show FeeData.mk discriminant (wordAt ([discriminant] ++ word data) 1) = _
  rw [show wordAt ([discriminant] ++ word data) 1 = data from wordAt_last data [discriminant]]

theorem QueueData.length_bytesOf (q : QueueData) : q.bytesOf.length = 16 := by
  rw [bytesOf, List.length_append, length_word, length_word]

/-- Both counters of a queue are read back. -/
theorem QueueData.ofBytes_bytesOf (q : QueueData) : ofBytes q.bytesOf = q := by
  obtain ⟨total, lastProcessed⟩ := q
  -- the first counter stands before the second and the second behind the first
  have htotal := wordAt_part total [] (word lastProcessed)
  have hlast := wordAt_last lastProcessed (word total)
  rw [length_word] at hlast
  show QueueData.mk (wordAt (word total ++ word lastProcessed) 0)
    (wordAt (word total ++ word lastProcessed) 8) = _
  rw [hlast]
  exact congrArg (QueueData.mk · lastProcessed) htotal

/-- The reader takes them, their length being right. -/
theorem QueueData.tryRead_bytesOf (q : QueueData) : tryRead q.bytesOf = some q := by
  rw [tryRead, if_pos q.length_bytesOf, q.ofBytes_bytesOf]

/-- All limits and the switch are read back, and so is the reserved space. -/
theorem InstantSettlementData.ofBytes_bytesOf (s : InstantSettlementData) :
    ofBytes s.bytesOf = s := by
  obtain ⟨a, b, c, d, e, f, enabled, reserved⟩ := s
  set tail := enabled :: littleEndian 7 reserved.toNat with htail
  have hbytes : bytesOf ⟨a, b, c, d, e, f, enabled, reserved⟩ = word a ++ (word b ++ (word c
    ++ (word d ++ (word e ++ (word f ++ tail))))) := rfl
  -- field by field, each word behind those before it
  have ha := wordAt_part a [] (word b ++ (word c ++ (word d ++ (word e ++ (word f ++ tail)))))
  have hb := wordAt_part b (word a) (word c ++ (word d ++ (word e ++ (word f ++ tail))))
  have hc := wordAt_part c (word a ++ word b) (word d ++ (word e ++ (word f ++ tail)))
  have hd := wordAt_part d (word a ++ word b ++ word c) (word e ++ (word f ++ tail))
  have he := wordAt_part e (word a ++ word b ++ word c ++ word d) (word f ++ tail)
  have hf := wordAt_part f (word a ++ word b ++ word c ++ word d ++ word e) tail
  have hlen : (word a ++ word b ++ word c ++ word d ++ word e ++ word f).length = 48 := by
    simp [length_word]
  have hdrop : (word a ++ word b ++ word c ++ word d ++ word e ++ word f ++ tail).drop 48 = tail :=
    List.drop_left' hlen
  have hdrop' : (tail : List Byte).drop 1 = littleEndian 7 reserved.toNat := rfl
  simp only [List.length_append, length_word, List.length_nil, List.append_assoc, List.nil_append,
    Nat.reduceAdd] at ha hb hc hd he hf hdrop
  rw [ofBytes, hbytes, ha, hb, hc, hd, he, hf, hdrop, show 49 = 48 + 1 from rfl,
    ← List.drop_drop, hdrop, hdrop', ofLittleEndian_littleEndian_of_lt
      (toNat_lt_pow (by decide) reserved)]
  simp [htail]

namespace Extension

/-- A value takes the room its type declares. -/
theorem length_bytesOf (e : Extension) : e.bytesOf.length = e.type.dataLen := by
  cases e with
  | depositFee fee => exact congrArg Nat.succ (length_word fee.data)
  | withdrawalFee fee => exact congrArg Nat.succ (length_word fee.data)
  | subscriptionQueue queue => exact queue.length_bytesOf
  | redemptionQueue queue => exact queue.length_bytesOf
  | minSubscription threshold => exact length_word threshold
  | minRedemption threshold => exact length_word threshold
  | instantSettlement s => simp [bytesOf, InstantSettlementData.bytesOf, length_word, type,
      ExtensionType.dataLen]
  | _ => rfl

/-- Every value is read back from its bytes. -/
theorem ofBytes_bytesOf (e : Extension) : ofBytes e.bytesOf e.type = e := by
  cases e with
  | depositFee fee => exact congrArg depositFee fee.ofBytes_bytesOf
  | withdrawalFee fee => exact congrArg withdrawalFee fee.ofBytes_bytesOf
  | subscriptionQueue queue => exact congrArg subscriptionQueue queue.ofBytes_bytesOf
  | redemptionQueue queue => exact congrArg redemptionQueue queue.ofBytes_bytesOf
  | minSubscription threshold => exact congrArg minSubscription (wordAt_last threshold [])
  | minRedemption threshold => exact congrArg minRedemption (wordAt_last threshold [])
  | instantSettlement s => exact congrArg instantSettlement s.ofBytes_bytesOf
  | _ => rfl

/-- **A value is read back from its bytes.** -/
theorem tryRead_bytesOf (e : Extension) : tryRead e.type e.bytesOf = some e := by
  rw [tryRead, if_pos e.length_bytesOf, e.ofBytes_bytesOf]

end Extension

/-- A type is found from its number. -/
theorem ExtensionType.tryFromU16_id (t : ExtensionType) : tryFromU16 t.id = some t := by
  cases t <;> rfl

/-- Types are told apart by their numbers. -/
theorem ExtensionType.id_inj {t u : ExtensionType} : t.id = u.id ↔ t = u := by
  constructor
  · intro h
    have := congrArg tryFromU16 h
    rwa [tryFromU16_id, tryFromU16_id, Option.some.injEq] at this
  · rintro rfl
    rfl

/-- No type has the number of unused space. -/
theorem ExtensionType.id_ne_zero (t : ExtensionType) : t.id ≠ 0 := by
  cases t <;> decide

/-- Numbers and lengths of types fit into the two bytes a header has for each. -/
theorem ExtensionType.fits (t : ExtensionType) : t.id < 256 ^ 2 ∧ t.dataLen < 256 ^ 2 := by
  cases t <;> decide

/-- The entry of an extension. -/
def Extension.entry (e : Extension) : Entry := ⟨e.type.id, e.bytesOf⟩

/-- So the entry of an extension can be written. -/
theorem Extension.entry_fits (e : Extension) : e.entry.Fits where
  type_ne := e.type.id_ne_zero
  type_lt := e.type.fits.1
  length_lt := by
    show e.bytesOf.length < 256 ^ 2
    rw [e.length_bytesOf]
    exact e.type.fits.2

/-- It takes its header and its value. -/
theorem Extension.length_entry (e : Extension) : e.entry.bytes.length = e.type.tlvLen := by
  rw [Entry.length_bytes]
  exact congrArg (headerSize + ·) e.length_bytesOf

/-! ### Regions -/

/-- From `start` on the account holds these entries, and then `n` bytes of unused space. -/
def HoldsEntries (data : List Byte) (start : ℕ) (entries : List Entry) (n : ℕ) : Prop :=
  ∃ fields, fields.length = start ∧ data = fields ++ (encode entries ++ zeros n)

section Regions

variable {data region : List Byte} {start k : ℕ} {entries : List Entry} {e : Entry}

/-- The region is what the program slices off behind the fields. -/
theorem HoldsEntries.range (h : HoldsEntries data start entries n) :
    rangeOf data start data.length = .ok (encode entries ++ zeros n) := by
  obtain ⟨fields, rfl, rfl⟩ := h
  rw [rangeOf_eq (by simp) le_rfl, between, List.drop_left]
  simp

/-- It is the rest of the account. -/
theorem HoldsEntries.drop (h : HoldsEntries data start entries n) :
    data.drop start = encode entries ++ zeros n := by
  obtain ⟨fields, rfl, rfl⟩ := h
  exact List.drop_left

/-- Writing the region leaves the fields. -/
theorem HoldsEntries.write (h : HoldsEntries data start entries n) {entries' : List Entry} :
    HoldsEntries (data.take start ++ (encode entries' ++ zeros k)) start entries' k := by
  obtain ⟨fields, rfl, rfl⟩ := h
  exact ⟨fields, rfl, by rw [List.take_left]⟩

/-- Writing the fields leaves the region. -/
theorem HoldsEntries.exit (h : HoldsEntries data start entries n) {fields : List Byte}
    (hfits : fields.length ≤ start) :
    ∃ data', copyAt data 0 fields = .ok data' ∧ HoldsEntries data' start entries n := by
  obtain ⟨old, rfl, rfl⟩ := h
  refine ⟨_, copyAt_eq (by simp only [List.length_append]; omega),
    fields ++ old.drop fields.length, by simp; omega, ?_⟩
  rw [splice, Nat.zero_add, List.take_zero, List.nil_append, List.drop_append_of_le_length hfits,
    List.append_assoc]

/-- Growing the account adds unused space. -/
theorem HoldsEntries.grow (h : HoldsEntries data start entries n) (k : ℕ) :
    HoldsEntries (data ++ zeros k) start entries (n + k) := by
  obtain ⟨fields, hfields, rfl⟩ := h
  refine ⟨fields, hfields, ?_⟩
  simp only [List.append_assoc, zeros, List.replicate_append_replicate]

/-- Fields, entries and unused space are the whole account. -/
theorem HoldsEntries.length (h : HoldsEntries data start entries n) :
    data.length = start + (encode entries).length + n := by
  obtain ⟨fields, rfl, rfl⟩ := h
  simp only [List.length_append, length_zeros, Nat.add_assoc]

/-- The value found in a region of entries is that of the first entry of the type. -/
theorem valueOf_encode (hfits : ∀ x ∈ entries, x.Fits) {type : ℕ} (ht : type ≠ 0) (n : ℕ) :
    valueOf (encode entries ++ zeros n) type = lookup entries type :=
  locate_encode hfits ht n

/-- The used length of a region is that of its entries. -/
theorem tlvUsedLen_encode (hfits : ∀ x ∈ entries, x.Fits) (n : ℕ) :
    tlvUsedLen (encode entries ++ zeros n) = .ok (encode entries).length := by
  rw [tlvUsedLen_eq]
  exact congrArg Except.ok (usedFrom_encode hfits [] n)

/-- **Writing behind the last entry** adds an entry. -/
theorem writeExtensionRaw_encode (entries : List Entry) (e : Entry) (hn : e.bytes.length ≤ n) :
    writeExtensionRaw (encode entries ++ zeros n) (encode entries).length e.type e.value.length
      e.value = .ok (encode (entries ++ [e]) ++ zeros (n - e.bytes.length)) := by
  have hlen := e.length_bytes
  set bs := encode entries ++ zeros n with hbs
  have hbslen : bs.length = (encode entries).length + n := by simp [hbs]
  -- type, length, value and padding are written one after the other, each behind the last
  set o := (encode entries).length
  rw [headerSize] at hlen
  have hroom : o + 4 + e.value.length ≤ bs.length := by omega
  have h₁ : copyAt bs o (littleEndian 2 e.type) = .ok (splice bs o (littleEndian 2 e.type)) :=
    copyAt_eq (by rw [length_littleEndian]; omega)
  have hl₁ : (splice bs o (littleEndian 2 e.type)).length = bs.length :=
    length_splice (by rw [length_littleEndian]; omega)
  have h₂ : copyAt (splice bs o (littleEndian 2 e.type)) (o + 2) (littleEndian 2 e.value.length)
      = .ok (splice bs o (littleEndian 2 e.type ++ littleEndian 2 e.value.length)) := by
    rw [copyAt_eq (by rw [length_littleEndian, hl₁]; omega)]
    exact congrArg Except.ok (splice_splice (v := littleEndian 2 e.type)
      (by rw [length_littleEndian]; omega))
  have hl₂ : (splice bs o (littleEndian 2 e.type ++ littleEndian 2 e.value.length)).length
      = bs.length := length_splice (by simp; omega)
  have h₃ : copyAt (splice bs o (littleEndian 2 e.type ++ littleEndian 2 e.value.length)) (o + 4)
      e.value = .ok (splice bs o e.bytes) := by
    rw [copyAt_eq (by rw [hl₂]; omega), Entry.bytes, ← List.append_assoc]
    exact congrArg Except.ok (splice_splice
      (v := littleEndian 2 e.type ++ littleEndian 2 e.value.length) (by simp; omega))
  have hl₃ : (splice bs o e.bytes).length = bs.length := length_splice (by omega)
  -- the value fills the entry, so there is nothing to pad
  have h₄ : copyAt (splice bs o e.bytes) (o + 4 + e.value.length) (zeros 0)
      = .ok (splice bs o e.bytes) := by
    rw [copyAt_eq (by rw [hl₃]; simpa [zeros] using hroom)]
    simp [splice, zeros]
  simp only [writeExtensionRaw, check, require, tlvHeaderSize, headerSize, le_refl, if_true, hroom,
    Nat.sub_self]
  show (copyAt bs o (littleEndian 2 e.type) >>= _) = _
  rw [h₁]
  show (copyAt (splice bs o (littleEndian 2 e.type)) (o + 2) _ >>= _) = _
  rw [h₂]
  show (copyAt (splice bs o (littleEndian 2 e.type ++ littleEndian 2 e.value.length)) (o + 4) _
    >>= _) = _
  rw [h₃]
  show copyAt (splice bs o e.bytes) (o + 4 + e.value.length) (zeros 0) = _
  rw [h₄, hbs, splice_end hn]

/-- Without an entry of the type nothing is found. -/
theorem locate_eq_none_of_lookup (hfits : ∀ x ∈ entries, x.Fits) {type : ℕ} (ht : type ≠ 0)
    (h : lookup entries type = none) : locate (encode entries ++ zeros n) type 0 = none := by
  have hvalue := valueOf_encode hfits ht n
  rw [h] at hvalue
  exact Option.map_eq_none_iff.1 hvalue

/-- Where the value of a type is, and that writing over it replaces it. -/
theorem locate_of_lookup (hfits : ∀ x ∈ entries, x.Fits) {type : ℕ} {w : List Byte}
    (hw : lookup entries type = some w) (n : ℕ) :
    ∃ start, locate (encode entries ++ zeros n) type 0 = some (start, start + w.length) ∧
      start + w.length ≤ (encode entries ++ zeros n).length ∧
      ∀ v : List Byte, v.length = w.length →
        splice (encode entries ++ zeros n) start v
          = encode (replace type v entries) ++ zeros n := by
  -- the entry found is the first of its type: the walk passes those before it
  obtain ⟨l, r, rfl, hl⟩ := lookup_eq_some.1 hw
  have hfitsl : ∀ x ∈ l, x.Fits ∧ x.type ≠ type := fun x hx => ⟨hfits x (by simp [hx]), hl x hx⟩
  have hlocate := locate_of_split (r := r) hfitsl (hfits ⟨type, w⟩ (by simp)) [] (zeros n)
  have hend : (encode l ++ (⟨type, w⟩ : Entry).bytes).length
      = (encode l).length + headerSize + w.length := by
    rw [List.length_append, Entry.length_bytes, Nat.add_assoc]
  rw [List.nil_append, List.nil_append, List.length_nil, hend] at hlocate
  refine ⟨_, hlocate, ?_, fun v hv => splice_value hl hv (zeros n)⟩
  simp only [encode_append, encode_cons, List.length_append, Entry.length_bytes]
  omega

/-- **Writing over a value** replaces it; without an entry of the type nothing is written. -/
theorem updateExtension_encode (hfits : ∀ x ∈ entries, x.Fits) (v : Extension)
    (hlen : ∀ w, lookup entries v.type.id = some w → w.length = v.type.dataLen) (n : ℕ) :
    AccountData.updateExtension (encode entries ++ zeros n) v.type v.bytesOf =
      match lookup entries v.type.id with
      | none => .error (.error (.async .uninitializedExtension))
      | some _ => .ok (encode (replace v.type.id v.bytesOf entries) ++ zeros n) := by
  rw [AccountData.updateExtension, check, require, if_pos v.length_bytesOf.le]
  show (findEntry (encode entries ++ zeros n) v.type.id 0 >>= _) = _
  rw [findEntry_eq]
  cases hw : lookup entries v.type.id with
  | none =>
    rw [locate_eq_none_of_lookup hfits v.type.id_ne_zero hw]
    rfl
  | some w =>
    have hwlen : v.bytesOf.length = w.length := by rw [v.length_bytesOf, hlen w hw]
    obtain ⟨start, hlocate, hroom, hsplice⟩ := locate_of_lookup hfits hw n
    rw [hlocate]
    rw [← hwlen] at hroom ⊢
    show (copyAt (encode entries ++ zeros n) start v.bytesOf >>= _) = _
    rw [copyAt_eq hroom]
    have hlen' : (splice (encode entries ++ zeros n) start v.bytesOf).length
        = (encode entries ++ zeros n).length := length_splice hroom
    -- the new value is as long as the old one, so there is nothing to pad
    have hrest : rangeOf (splice (encode entries ++ zeros n) start v.bytesOf)
        (start + v.bytesOf.length) (start + v.bytesOf.length) = .ok [] := by
      rw [rangeOf_eq le_rfl (by rw [hlen']; exact hroom), between, Nat.sub_self, List.take_zero]
    show (rangeOf (splice (encode entries ++ zeros n) start v.bytesOf)
      (start + v.bytesOf.length) (start + v.bytesOf.length) >>= _) = _
    rw [hrest]
    show copyAt (splice (encode entries ++ zeros n) start v.bytesOf) (start + v.bytesOf.length)
      (zeros 0) = _
    rw [copyAt_eq (by rw [length_zeros, hlen']; exact hroom), ← hsplice v.bytesOf hwlen]
    simp [splice, zeros]

end Regions

end AsyncVault
