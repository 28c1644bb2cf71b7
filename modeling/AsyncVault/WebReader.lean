/-
AsyncVault/WebReader.lean

The web application's reading of a vault account.

`parseExtensions` walks entries as the program does, but from byte 272, the end
of an earlier layout of the fields, while the entries begin at byte 672
(`tlvStart`).  What it meets first are fields: the last 25 bytes of the breaker
and whatever follows.  It recovers the extensions only when this walk over the
fields happens to land where the entries begin (`parse_recovers_when`); on an
ordinary vault with a deposit fee it shows none (`parse_misses_fee`).
-/
import AsyncVault.AccountLayout
import AsyncVault.ExtensionHistory
import AsyncVault.Scenario

namespace AsyncVault

open Checked Bytes Tlv Machine

namespace WebReader

/-! ### The reader -/

/-- What reading past the end of a view throws. -/
inductive Thrown
  | rangeError
  deriving DecidableEq

abbrev Js := Except Thrown

def getUint8 (view : List Byte) (i : ℕ) : Js Byte := okOr .rangeError view[i]?

/-- A number of `w` bytes, least significant first. -/
def getUint (w : ℕ) (view : List Byte) (i : ℕ) : Js ℕ := do
  require .rangeError (i + w ≤ view.length)
  pure (ofLittleEndian (between view i (i + w)))

def getUint16 : List Byte → ℕ → Js ℕ := getUint 2

def getBigUint64 : List Byte → ℕ → Js ℕ := getUint 8

inductive ParsedFee
  | percentage (bps : ℕ)
  | fixed (amount : ℕ)
  deriving DecidableEq

inductive ParsedExtension
  | depositFee (fee : ParsedFee)
  | withdrawalFee (fee : ParsedFee)
  | pausableSubscriptions (paused : Bool)
  | pausableRedemptions (paused : Bool)
  | subscriptionQueue (head tail : ℕ)
  | redemptionQueue (head tail : ℕ)
  | minSubscription (threshold : ℕ)
  | minRedemption (threshold : ℕ)
  deriving DecidableEq

def tlvHeaderSize : ℕ := 4

def vaultBaseLen : ℕ := 272

def parseFee (view : List Byte) : Js ParsedFee := do
  let discriminant ← getUint8 view 0
  if discriminant = 1 then do
    let bps ← getUint16 view 1
    pure (.percentage bps)
  else do
    let amount ← getBigUint64 view 1
    pure (.fixed amount)

def parsePaused (view : List Byte) : Js Bool := do
  let paused ← getUint8 view 0
  pure (paused = 1)

def parseQueue (view : List Byte) : Js (ℕ × ℕ) := do
  let head ← getBigUint64 view 0
  let tail ← getBigUint64 view 8
  pure (head, tail)

/-- The switch on the type of an entry; nothing for other types. -/
def parseValue (type : ℕ) (view : List Byte) : Js (Option ParsedExtension) :=
  match type with
  | 1 => do let fee ← parseFee view; pure (some (.depositFee fee))
  | 2 => do let fee ← parseFee view; pure (some (.withdrawalFee fee))
  | 3 => do let paused ← parsePaused view; pure (some (.pausableSubscriptions paused))
  | 4 => do let paused ← parsePaused view; pure (some (.pausableRedemptions paused))
  | 5 => do let (head, tail) ← parseQueue view; pure (some (.subscriptionQueue head tail))
  | 6 => do let (head, tail) ← parseQueue view; pure (some (.redemptionQueue head tail))
  | 7 => do let threshold ← getBigUint64 view 0; pure (some (.minSubscription threshold))
  | 8 => do let threshold ← getBigUint64 view 0; pure (some (.minRedemption threshold))
  | _ => pure none

/-- The loop, from an offset on. -/
def parseFrom (tlv : List Byte) (offset : ℕ) : Js (List ParsedExtension) :=
  if _h : offset + tlvHeaderSize ≤ tlv.length then do
    let rawType ← getUint16 tlv offset
    let len ← getUint16 tlv (offset + 2)
    let valueStart := offset + tlvHeaderSize
    let valueEnd := valueStart + len
    if rawType = 0 ∨ tlv.length < valueEnd then
      pure []
    else do
      let parsed ← parseValue rawType (between tlv valueStart valueEnd)
      let out ← parseFrom tlv valueEnd
      pure (parsed.toList ++ out)
  else
    pure []
termination_by tlv.length - offset
decreasing_by
  simp only [tlvHeaderSize] at *
  omega

def parseExtensions (data : List Byte) : Js (List ParsedExtension) :=
  if data.length ≤ vaultBaseLen then pure [] else parseFrom (data.drop vaultBaseLen) 0

/-! ### What should be shown -/

def ParsedFee.ofFeeType : FeeType → ParsedFee
  | .percentage bps => .percentage bps
  | .fixedAmount amount => .fixed amount

/-- An extension as the application shows it; the last two types are not shown. -/
def shown : Extension → Option ParsedExtension
  | .depositFee fee => fee.feeType.toOption.map fun f => .depositFee (.ofFeeType f)
  | .withdrawalFee fee => fee.feeType.toOption.map fun f => .withdrawalFee (.ofFeeType f)
  | .pausableSubscriptions b => some (.pausableSubscriptions (b ≠ 0))
  | .pausableRedemptions b => some (.pausableRedemptions (b ≠ 0))
  | .subscriptionQueue q => some (.subscriptionQueue q.total.toNat q.lastProcessed.toNat)
  | .redemptionQueue q => some (.redemptionQueue q.total.toNat q.lastProcessed.toNat)
  | .minSubscription threshold => some (.minSubscription threshold.toNat)
  | .minRedemption threshold => some (.minRedemption threshold.toNat)
  | .externallyManagedWithdrawals _ | .instantSettlement _ => none

/-- The types of the application. -/
def IsShown (type : ℕ) : Prop := 1 ≤ type ∧ type ≤ 8

instance (type : ℕ) : Decidable (IsShown type) := inferInstanceAs (Decidable (_ ∧ _))

/-- What a vault with this history should show: its extensions in the order they were added, each
with its current value. -/
def expected (tr : History) : List ParsedExtension :=
  (initTypes tr).filterMap fun t => (lastWritten tr t).bind shown

/-! ### The loop is a walk -/

/-- Parse entries in order. -/
def parseEntries : List Entry → Js (List ParsedExtension)
  | [] => pure []
  | e :: es => do
    let parsed ← parseValue e.type e.value
    let out ← parseEntries es
    pure (parsed.toList ++ out)

theorem getUint_eq {w i : ℕ} {view : List Byte} (h : i + w ≤ view.length) :
    getUint w view i = .ok (ofLittleEndian (between view i (i + w))) := by
  rw [getUint, require, if_pos h]
  rfl

theorem parseFrom_of_header {tlv : List Byte} {i : ℕ} (h : i + headerSize ≤ tlv.length) :
    parseFrom tlv i =
      if typeAt tlv i = 0 ∨ tlv.length < endAt tlv i then .ok []
      else
        parseValue (typeAt tlv i) (between tlv (i + headerSize) (endAt tlv i)) >>= fun parsed =>
          parseFrom tlv (endAt tlv i) >>= fun out => pure (parsed.toList ++ out) := by
  rw [headerSize] at h
  have htype : getUint16 tlv i = .ok (typeAt tlv i) := getUint_eq (by omega)
  have hlength : getUint16 tlv (i + 2) = .ok (lengthAt tlv i) := getUint_eq (by omega)
  rw [parseFrom, dif_pos (show i + tlvHeaderSize ≤ tlv.length from h), htype, hlength]
  rfl

/-- **The loop parses the entries of the region**, on any bytes. -/
theorem parseFrom_eq (tlv : List Byte) (i : ℕ) :
    parseFrom tlv i = parseEntries (entriesFrom tlv i) := by
  induction i using entriesFrom.induct tlv with
  | case1 i hi hend =>
    rw [parseFrom_of_header hi, entriesFrom, if_pos hi, if_pos hend, if_pos hend]
    rfl
  | case2 i hi hend ih =>
    rw [parseFrom_of_header hi, entriesFrom, if_pos hi, if_neg hend, if_neg hend, ih]
    rfl
  | case3 i hi =>
    rw [parseFrom, entriesFrom, dif_neg (show ¬i + tlvHeaderSize ≤ tlv.length from hi), if_neg hi]
    rfl

/-! ### Values -/

theorem getUint_part {w n : ℕ} (hn : n < 256 ^ w) (pre rest : List Byte) :
    getUint w (pre ++ (littleEndian w n ++ rest)) pre.length = .ok n := by
  have hpart := between_append pre (littleEndian w n) rest
  rw [length_littleEndian] at hpart
  rw [getUint_eq (by simp), hpart, ofLittleEndian_littleEndian_of_lt hn]

theorem getBigUint64_word (x : BitVec 64) (pre rest : List Byte) :
    getBigUint64 (pre ++ (word x ++ rest)) pre.length = .ok x.toNat :=
  getUint_part (toNat_lt_pow (by decide) x) pre rest

/-- The two lowest bytes of a word. -/
theorem getUint16_word (x : BitVec 64) (pre : List Byte) :
    getUint16 (pre ++ word x) pre.length = .ok (x.toNat % 2 ^ 16) := by
  have hword : word x = littleEndian 2 (x.toNat % 2 ^ 16) ++ littleEndian 6 (x.toNat / 2 ^ 16) := by
    simp only [word, littleEndian, List.cons_append, List.nil_append, Nat.div_div_eq_div_mul]
    congr 1
    · apply BitVec.eq_of_toNat_eq
      simp only [BitVec.toNat_ofNat]
      omega
    · congr 1
      apply BitVec.eq_of_toNat_eq
      simp only [BitVec.toNat_ofNat]
      omega
  rw [hword]
  exact getUint_part (Nat.mod_lt _ (by decide)) pre _

theorem parseFee_bytesOf {fee : FeeData} (h : fee.discriminant = 0 ∨ fee.discriminant = 1) :
    ∃ f, fee.feeType = .ok f ∧ parseFee fee.bytesOf = .ok (.ofFeeType f) := by
  obtain ⟨discriminant, data⟩ := fee
  obtain rfl | rfl := h
  · refine ⟨_, rfl, ?_⟩
    have := getBigUint64_word data [0] []
    rw [List.append_nil] at this
    exact bind_eq_ok.2 ⟨0, rfl, bind_eq_ok.2 ⟨_, this, rfl⟩⟩
  · refine ⟨_, rfl, ?_⟩
    exact bind_eq_ok.2 ⟨1, rfl, bind_eq_ok.2 ⟨_, getUint16_word data [1], rfl⟩⟩

theorem parsePaused_flag {b : Byte} (h : b = 0 ∨ b = 1) :
    parsePaused [b] = .ok (decide (b ≠ 0)) := by
  obtain rfl | rfl := h <;> rfl

theorem parseQueue_bytesOf (q : QueueData) :
    parseQueue q.bytesOf = .ok (q.total.toNat, q.lastProcessed.toNat) := by
  have htotal := getBigUint64_word q.total [] (word q.lastProcessed)
  have hlast := getBigUint64_word q.lastProcessed (word q.total) []
  rw [length_word, List.append_nil] at hlast
  exact bind_eq_ok.2 ⟨_, htotal, bind_eq_ok.2 ⟨_, hlast, rfl⟩⟩

theorem getBigUint64_threshold (x : BitVec 64) : getBigUint64 (word x) 0 = .ok x.toNat := by
  have := getBigUint64_word x [] []
  rwa [List.append_nil] at this

/-- **An entry is shown as its extension is.** -/
theorem parseValue_entry {e : Extension} (h : e.Written) :
    parseValue e.type.id e.bytesOf = .ok (shown e) := by
  cases e with
  | depositFee fee | withdrawalFee fee =>
    obtain ⟨f, hf, hparse⟩ := parseFee_bytesOf h
    simp only [shown, hf]
    exact bind_eq_ok.2 ⟨_, hparse, rfl⟩
  | pausableSubscriptions b | pausableRedemptions b =>
    exact bind_eq_ok.2 ⟨_, parsePaused_flag h, rfl⟩
  | subscriptionQueue q | redemptionQueue q => exact bind_eq_ok.2 ⟨_, parseQueue_bytesOf q, rfl⟩
  | minSubscription x | minRedemption x =>
    exact bind_eq_ok.2 ⟨_, getBigUint64_threshold x, rfl⟩
  | externallyManagedWithdrawals | instantSettlement => rfl

/-! ### Lists of entries -/

theorem parseEntries_append (l r : List Entry) :
    parseEntries (l ++ r) =
      parseEntries l >>= fun a => parseEntries r >>= fun b => pure (a ++ b) := by
  induction l with
  | nil => simp [parseEntries]
  | cons e l ih =>
    simp only [List.cons_append, parseEntries, ih, bind_assoc, pure_bind, List.append_assoc]

theorem parseEntries_hidden {l : List Entry} (h : ∀ e ∈ l, ¬IsShown e.type) :
    parseEntries l = .ok [] := by
  induction l with
  | nil => rfl
  | cons e l ih =>
    obtain ⟨he, hl⟩ := List.forall_mem_cons.1 h
    have hvalue : parseValue e.type e.value = .ok none := by
      unfold parseValue
      split <;> first | rfl | (next ht => exact absurd (by rw [ht]; decide) he)
    exact bind_eq_ok.2 ⟨_, hvalue, bind_eq_ok.2 ⟨_, ih hl, rfl⟩⟩

theorem parseEntries_extensions {es : List Extension} (h : ∀ e ∈ es, e.Written) :
    parseEntries (es.map Extension.entry) = .ok (es.filterMap shown) := by
  induction es with
  | nil => rfl
  | cons e es ih =>
    obtain ⟨he, hes⟩ := List.forall_mem_cons.1 h
    have htail := ih hes
    refine bind_eq_ok.2 ⟨_, parseValue_entry he, bind_eq_ok.2 ⟨_, htail, ?_⟩⟩
    rw [List.filterMap_cons]
    cases shown e <;> rfl

/-- The extensions in order, each looked up by its type. -/
theorem filterMap_types {es : List Extension} (h : (es.map Extension.type).Nodup)
    (f : Extension → Option ParsedExtension) :
    (es.map Extension.type).filterMap (fun t => (findExtension es t).bind f) = es.filterMap f := by
  induction es with
  | nil => rfl
  | cons e es ih =>
    obtain ⟨hnotin, hes⟩ := List.nodup_cons.1 h
    have hhead : findExtension (e :: es) e.type = some e := by simp [findExtension]
    have htail : (es.map Extension.type).filterMap
          (fun t => (findExtension (e :: es) t).bind f)
        = (es.map Extension.type).filterMap fun t => (findExtension es t).bind f := by
      refine List.filterMap_congr fun t ht => ?_
      have hne : e.type ≠ t := fun he => hnotin (he ▸ ht)
      rw [findExtension, List.find?_cons_of_neg (by simpa using hne)]
      rfl
    rw [List.map_cons, List.filterMap_cons, List.filterMap_cons, htail, ih hes, hhead,
      Option.bind_some]

theorem expected_eq {tr : History} {st : TlvStore} (hrun : Run TlvStore.exec .new tr st)
    (hdistinct : (st.extensions.map Extension.type).Nodup) :
    expected tr = st.extensions.filterMap shown := by
  have hvalue := lastWritten_eq hrun
  rw [expected, ← initTypes_eq hrun, ← filterMap_types hdistinct]
  simp only [hvalue]

/-! ### When the extensions are recovered -/

/-- The fields from byte 272 on are, as entries, whole entries of other types. -/
def InStep (data : List Byte) : Prop :=
  ∃ skipped : List Entry, (∀ e ∈ skipped, e.Fits ∧ ¬IsShown e.type) ∧
    between data vaultBaseLen tlvStart = encode skipped

/-- The walk from byte 272 meets no entry of a shown type. -/
def MeetsNone (data : List Byte) : Prop :=
  ∀ e ∈ entriesFrom (data.drop vaultBaseLen) 0, ¬IsShown e.type

theorem parseExtensions_eq {data : List Byte} (h : tlvStart ≤ data.length) :
    parseExtensions data = parseEntries (entriesFrom (data.drop vaultBaseLen) 0) := by
  have hlong : ¬data.length ≤ vaultBaseLen := by
    have : vaultBaseLen < tlvStart := by decide
    omega
  rw [parseExtensions, if_neg hlong, parseFrom_eq]

/-- In step, the walk arrives at the first entry. -/
theorem entriesFrom_inStep {data : List Byte} {entries : List Entry} {n : ℕ}
    (h : HoldsEntries data tlvStart entries n) (hfits : ∀ e ∈ entries, e.Fits)
    {skipped : List Entry} (hskipped : ∀ e ∈ skipped, e.Fits)
    (hbase : between data vaultBaseLen tlvStart = encode skipped) :
    entriesFrom (data.drop vaultBaseLen) 0 = skipped ++ entries := by
  have hsplit : data.drop vaultBaseLen = encode (skipped ++ entries) ++ zeros n := by
    rw [← List.take_append_drop (tlvStart - vaultBaseLen) (data.drop vaultBaseLen), List.drop_drop,
      show vaultBaseLen + (tlvStart - vaultBaseLen) = tlvStart from rfl, h.drop, encode_append,
      List.append_assoc, ← hbase]
    rfl
  have hall : ∀ e ∈ skipped ++ entries, e.Fits := fun e he =>
    (List.mem_append.1 he).elim (hskipped e) (hfits e)
  have := entriesFrom_encode hall [] n
  rwa [List.nil_append, List.length_nil, ← hsplit] at this

theorem isShown_id (t : ExtensionType) :
    IsShown t.id ↔ ¬(t = .externallyManagedWithdrawals ∨ t = .instantSettlement) := by
  cases t <;> decide

/-- No extension of a shown type was added when nothing is to be shown. -/
theorem filterMap_shown_eq_nil {es : List Extension} (h : ∀ e ∈ es, e.Written) :
    es.filterMap shown = [] ↔ ∀ t ∈ es.map Extension.type, ¬IsShown t.id := by
  have hnone : ∀ e ∈ es, shown e = none ↔ ¬IsShown e.type.id := by
    intro e he
    rw [isShown_id, not_not]
    cases e with
    | depositFee fee | withdrawalFee fee =>
      obtain ⟨f, hf, -⟩ := parseFee_bytesOf (h _ he)
      simp only [shown, hf]
      exact iff_of_false nofun nofun
    | externallyManagedWithdrawals => exact iff_of_true rfl (.inl rfl)
    | instantSettlement => exact iff_of_true rfl (.inr rfl)
    | _ => exact iff_of_false nofun nofun
  rw [List.filterMap_eq_nil_iff, List.forall_mem_map]
  exact forall₂_congr hnone

/-- **When the application shows what was written.**  After any run of the steps, it does if the
fields it walks over are in step; and if it meets no entry of a shown type, it does exactly when
none was added. -/
theorem parse_recovers_when {tr : List (Transition Accounts AccountStep)} {s : Accounts}
    (hrun : Run Accounts.exec .new tr s) :
    ∃ tr' st, Run TlvStore.exec .new tr' st ∧ tr'.map Transition.act = tr.map Transition.act ∧
      (InStep s.vault → parseExtensions s.vault = .ok (expected tr')) ∧
      (MeetsNone s.vault → (parseExtensions s.vault = .ok (expected tr') ↔
        ∀ t ∈ initTypes tr', ¬IsShown t.id)) := by
  obtain ⟨tr', st, hrun', hacts, h⟩ :=
    hrun.follows (R := Represents) (fun _ _ op h => exec_follows h op) represents_new
  have hlong : tlvStart ≤ s.vault.length := by
    rw [h.vault.length, Nat.add_assoc]
    exact Nat.le_add_right _ _
  refine ⟨tr', st, hrun', hacts, fun ⟨skipped, hskipped, hbase⟩ => ?_, fun hnone => ?_⟩
  · rw [parseExtensions_eq hlong, entriesFrom_inStep h.vault (entries_fit _)
      (fun e he => (hskipped e he).1) hbase, parseEntries_append,
      parseEntries_hidden fun e he => (hskipped e he).2, parseEntries_extensions h.written,
      expected_eq hrun' h.distinct]
    rfl
  · rw [parseExtensions_eq hlong, parseEntries_hidden hnone, expected_eq hrun' h.distinct,
      ← initTypes_eq hrun', ← filterMap_shown_eq_nil h.written, Except.ok.injEq]
    exact eq_comm

/-! ### A vault with a deposit fee -/

/-- One percent of every deposit. -/
def feeScript : List Action :=
  [.config (.initDepositFee Scenario.curator (.percentage 100)), Scenario.start]

theorem fee_written : (Extension.depositFee (.fromFeeType (.percentage 100))).Written :=
  Extension.written_fromFeeType _

/-- What the instructions do to the account of a vault that ends up as `vault`. -/
def feeAccountScript (vault : Vault) : List AccountStep :=
  [.initExtension (.depositFee (.fromFeeType (.percentage 100))) fee_written, .initializeVault,
    .saveVault ⟨vault, ⟨255, 254, 253⟩⟩]

def showsFee : List ParsedExtension := [.depositFee (.percentage 100)]

/-- The application shows no extension of a vault that charges a fee: what it takes for the first
header are four zero bytes of the breaker. -/
theorem parse_misses_fee :
    ∃ v : VaultState, v.IsReachable ∧ v.extensions.depositFee = some (.percentage 100) ∧
      ∃ tr s tr' st, Run Accounts.exec .new tr s ∧
        tr.map Transition.act = feeAccountScript v.vault ∧
        Run TlvStore.exec .new tr' st ∧ tr'.map Transition.act = tr.map Transition.act ∧
        expected tr' = showsFee ∧ parseExtensions s.vault = .ok [] := by
  obtain ⟨-, v, hv, hp⟩ := Scenario.exists_reachable 0 0 feeScript
    (fun _ v => decide (v.extensions.depositFee = some (.percentage 100))
      && plays Accounts.exec .new (feeAccountScript v.vault)
        (fun _ s => decide (parseExtensions s.vault = .ok []))
      && plays TlvStore.exec .new (feeAccountScript v.vault)
        (fun tr' _ => decide (expected tr' = showsFee))) (by decide +kernel)
  obtain ⟨hp, hstore⟩ := Bool.and_eq_true_iff.1 hp
  obtain ⟨hfee, haccounts⟩ := Bool.and_eq_true_iff.1 hp
  obtain ⟨tr, s, hrun, hacts, hparse⟩ := exists_of_plays haccounts
  obtain ⟨tr', st, hrun', hacts', hexpected⟩ := exists_of_plays hstore
  exact ⟨v, hv, of_decide_eq_true hfee, tr, s, tr', st, hrun, hacts, hrun', hacts'.trans hacts.symm,
    of_decide_eq_true hexpected, of_decide_eq_true hparse⟩

/-- A breaker whose bytes 7 to 10 read as the header of an entry of type 9 up to byte 672. -/
def inStepBreaker : Pubkey := ⟨0x09 <<< 192 ||| 0x8c <<< 176 ||| 0x01 <<< 168⟩

/-- **Non-vacuity.** With this breaker the fields are in step, and the fee is shown. -/
theorem parse_recovers_when_of_breaker :
    ∃ v : VaultState, v.IsReachable ∧ v.extensions.depositFee = some (.percentage 100) ∧
      ∃ tr s tr', Run Accounts.exec .new tr s ∧ tr.map Transition.act = feeAccountScript v.vault ∧
        tr'.map Transition.act = tr.map Transition.act ∧
        parseExtensions s.vault = .ok (expected tr') := by
  obtain ⟨-, v, hv, hp⟩ := Scenario.exists_reachable 0 0
    (.config (.updateVault Scenario.curator { breaker := some inStepBreaker }) :: feeScript)
    (fun _ v => decide (v.extensions.depositFee = some (.percentage 100))
      && plays Accounts.exec .new (feeAccountScript v.vault)
        (fun _ s => decide (between s.vault vaultBaseLen tlvStart
            = (⟨9, between s.vault 276 tlvStart⟩ : Entry).bytes)
          && decide ((between s.vault 276 tlvStart).length < 256 ^ 2))) (by decide +kernel)
  obtain ⟨hfee, haccounts⟩ := Bool.and_eq_true_iff.1 hp
  obtain ⟨tr, s, hrun, hacts, hbase⟩ := exists_of_plays haccounts
  obtain ⟨hbase, hlen⟩ := Bool.and_eq_true_iff.1 hbase
  obtain ⟨tr', -, -, hacts', hparse, -⟩ := parse_recovers_when hrun
  refine ⟨v, hv, of_decide_eq_true hfee, tr, s, tr', hrun, hacts, hacts', hparse
    ⟨[⟨9, between s.vault 276 tlvStart⟩], ?_, ?_⟩⟩
  · rintro e he
    obtain rfl := List.mem_singleton.1 he
    have htype : (9 : ℕ) ≠ 0 ∧ 9 < 256 ^ 2 ∧ ¬IsShown 9 := by decide
    exact ⟨⟨htype.1, htype.2.1, of_decide_eq_true hlen⟩, htype.2.2⟩
  · rw [of_decide_eq_true hbase, encode_cons, encode_nil, List.append_nil]

end WebReader

end AsyncVault
