/-
AsyncVault/ExtensionHistory.lean

The laws of the extension store.

A run is a history of what was written: the value of each extension is the last
one written under its type (`lastWritten`), the extensions stand in the order
they were added (`initTypes`), and a request has the id it got when its account
was created (`lastRequest`).  `TlvLaws` says that the bytes of the accounts tell
this history, whoever reads them, and what each further step does to it.
-/
import AsyncVault.ExtensionRuns

namespace AsyncVault

open Checked Bytes Tlv Function Machine

/-! ### What steps write -/

/-- The type that a step adds. -/
def AccountStep.initType : AccountStep → Option ExtensionType
  | initExtension value _ => some value.type
  | _ => none

namespace TlvStore

/-- The value that a step writes to the vault account. -/
def written (st : TlvStore) : AccountStep → Option Extension
  | .initExtension value _ | .updateExtension value _ => some value
  | .createRequest _ type none =>
    (st.queue type).map fun q => type.queueExtension { q with total := q.total + 1 }
  | .advanceQueue type key => do
    let q ← st.queue type
    let request ← st.requests key
    let id ← idOf type request
    some (type.queueExtension { q with lastProcessed := id })
  | _ => none

/-- The request account that a step creates or closes, and what it holds then. -/
def requestWritten (st : TlvStore) :
    AccountStep → Option (Pubkey × Option (Option (RequestType × BitVec 64)))
  | .createRequest key type tranche =>
    some (key, some ((st.queue type).map fun q => (type, tranche.getD (q.total + 1))))
  | .closeRequest key => some (key, none)
  | _ => none

variable {st st' : TlvStore} {op : AccountStep} {t : ExtensionType}

/-- A step leaves the extensions, replaces one, or adds one. -/
theorem exec_extensions (h : st.exec op = .ok st') :
    (st.written op = none ∧ op.initType = none ∧ st'.extensions = st.extensions) ∨
    (∃ v, st.written op = some v ∧ op.initType = none ∧
      (findExtension st.extensions v.type).isSome ∧
      st'.extensions = putExtension v st.extensions) ∨
    (∃ v, st.written op = some v ∧ op.initType = some v.type ∧
      findExtension st.extensions v.type = none ∧ st'.extensions = st.extensions ++ [v]) := by
  cases op with
  | initExtension v hv =>
    simp only [exec, bind_eq_ok, require_eq_ok, pure_eq_ok, exists_const] at h
    obtain ⟨-, hnone, rfl⟩ := h
    exact .inr (.inr ⟨v, rfl, rfl, Option.isNone_iff_eq_none.1 hnone, rfl⟩)
  | updateExtension v hv =>
    simp only [exec, bind_eq_ok, require_eq_ok, pure_eq_ok, exists_const] at h
    obtain ⟨hsome, rfl⟩ := h
    exact .inr (.inl ⟨v, rfl, rfl, hsome, rfl⟩)
  | initializeVault =>
    simp only [exec, bind_eq_ok, pure_eq_ok] at h
    obtain ⟨-, -, rfl⟩ := h
    exact .inl ⟨rfl, rfl, rfl⟩
  | exitVault =>
    obtain rfl := pure_eq_ok.1 h
    exact .inl ⟨rfl, rfl, rfl⟩
  | createRequest key type tranche =>
    simp only [exec, bind_eq_ok] at h
    obtain ⟨-, -, h⟩ := h
    -- only a request of the plain vault takes an id from the queue extension
    cases hq : st.queue type with
    | none =>
      rw [hq] at h
      obtain rfl := pure_eq_ok.1 h
      refine .inl ⟨?_, rfl, rfl⟩
      cases tranche with
      | none => exact congrArg (Option.map _) hq
      | some => rfl
    | some q =>
      rw [hq] at h
      cases tranche with
      | none =>
        obtain rfl := pure_eq_ok.1 h
        refine .inr (.inl ⟨_, congrArg (Option.map _) hq, rfl, ?_, rfl⟩)
        rw [type_queueExtension, queue_eq_some hq]
        rfl
      | some id =>
        obtain rfl := pure_eq_ok.1 h
        exact .inl ⟨rfl, rfl, rfl⟩
  | exitRequest =>
    simp only [exec, bind_eq_ok, pure_eq_ok] at h
    obtain ⟨-, -, rfl⟩ := h
    exact .inl ⟨rfl, rfl, rfl⟩
  -- the queue records the id it lets go
  | advanceQueue type key =>
    simp only [exec, bind_eq_ok, okOr_eq_ok] at h
    obtain ⟨request, hrequest, h⟩ := h
    cases hq : st.queue type with
    | none =>
      rw [hq] at h
      obtain rfl := pure_eq_ok.1 h
      exact .inl ⟨by simp only [written, hq]; rfl, rfl, rfl⟩
    | some q =>
      rw [hq] at h
      simp only [bind_eq_ok, okOr_eq_ok, pure_eq_ok] at h
      obtain ⟨id, hid, -, -, rfl⟩ := h
      refine .inr (.inl ⟨type.queueExtension { q with lastProcessed := id }, ?_, rfl, ?_, rfl⟩)
      · simp only [written, hq, hrequest, Option.bind_eq_bind, Option.bind_some, hid]
      · rw [type_queueExtension, queue_eq_some hq]
        rfl
  | closeRequest key =>
    simp only [exec, bind_eq_ok, pure_eq_ok] at h
    obtain ⟨-, -, rfl⟩ := h
    exact .inl ⟨rfl, rfl, rfl⟩

/-- **What a step does to the value of a type.** -/
theorem findExtension_exec (h : st.exec op = .ok st') (t : ExtensionType) :
    findExtension st'.extensions t =
      ((st.written op).filter fun v => v.type = t).or (findExtension st.extensions t) := by
  obtain ⟨hw, -, he⟩ | ⟨v, hw, -, hsome, he⟩ | ⟨v, hw, -, hnone, he⟩ := exec_extensions h
  · rw [hw, he]
    rfl
  · rw [hw, he, findExtension_put]
    by_cases hv : v.type = t
    · obtain ⟨e, he⟩ := Option.isSome_iff_exists.1 hsome
      rw [hv] at he
      simp [hv, he, Option.filter]
    · simp [hv, Option.filter]
  · rw [hw, he, findExtension_append]
    by_cases hv : v.type = t
    · rw [hv] at hnone
      simp [hv, hnone, Option.filter]
    · simp [hv, Option.filter]

/-- A step that adds a type adds it behind the others. -/
theorem types_exec (h : st.exec op = .ok st') :
    st'.extensions.map Extension.type
      = st.extensions.map Extension.type ++ op.initType.toList := by
  obtain ⟨-, ht, he⟩ | ⟨v, -, ht, -, he⟩ | ⟨v, -, ht, -, he⟩ := exec_extensions h
  · simp [ht, he]
  · simp [ht, he, putExtension_types]
  · simp [ht, he]

theorem requests_exec (h : st.exec op = .ok st') :
    st'.requests = match st.requestWritten op with
      | some (key, request) => update st.requests key request
      | none => st.requests := by
  cases op with
  | initExtension v hv =>
    simp only [exec, bind_eq_ok, pure_eq_ok] at h
    obtain ⟨-, -, -, -, rfl⟩ := h
    rfl
  | updateExtension v hv =>
    simp only [exec, bind_eq_ok, pure_eq_ok] at h
    obtain ⟨-, -, rfl⟩ := h
    rfl
  | initializeVault =>
    simp only [exec, bind_eq_ok, pure_eq_ok] at h
    obtain ⟨-, -, rfl⟩ := h
    rfl
  | exitVault =>
    obtain rfl := pure_eq_ok.1 h
    rfl
  -- a request gets the id of the queue, when there is one
  | createRequest key type tranche =>
    simp only [exec, bind_eq_ok] at h
    obtain ⟨-, -, h⟩ := h
    cases hq : st.queue type with
    | none =>
      rw [hq] at h
      obtain rfl := pure_eq_ok.1 h
      simp only [requestWritten, hq, Option.map_none]
    | some q =>
      rw [hq] at h
      cases tranche <;>
      · obtain rfl := pure_eq_ok.1 h
        simp only [requestWritten, hq, Option.map_some, Option.getD_none, Option.getD_some]
  | exitRequest =>
    simp only [exec, bind_eq_ok, pure_eq_ok] at h
    obtain ⟨-, -, rfl⟩ := h
    rfl
  | advanceQueue type key =>
    simp only [exec, bind_eq_ok, okOr_eq_ok] at h
    obtain ⟨request, -, h⟩ := h
    cases hq : st.queue type with
    | none =>
      rw [hq] at h
      obtain rfl := pure_eq_ok.1 h
      rfl
    | some q =>
      rw [hq] at h
      simp only [bind_eq_ok, pure_eq_ok] at h
      obtain ⟨-, -, -, -, rfl⟩ := h
      rfl
  | closeRequest key =>
    simp only [exec, bind_eq_ok, pure_eq_ok] at h
    obtain ⟨-, -, rfl⟩ := h
    rfl

end TlvStore

/-! ### Histories -/

/-- What happened to a store, step by step. -/
abbrev History := List (Transition TlvStore AccountStep)

/-- The types added, in order. -/
def initTypes (tr : History) : List ExtensionType := tr.filterMap fun x => x.act.initType

/-- The last value written under a type. -/
def lastWritten (tr : History) (t : ExtensionType) : Option Extension :=
  (tr.reverse.filterMap fun x => x.pre.written x.act).find? fun v => v.type = t

/-- What the request account of a key has held since it was last created, if it is open. -/
def lastRequest (tr : History) (key : Pubkey) : Option (Option (RequestType × BitVec 64)) :=
  ((tr.reverse.filterMap fun x => x.pre.requestWritten x.act).find? fun w => w.1 = key).bind
    Prod.snd

section Histories

variable {tr : History} {st : TlvStore}

theorem initTypes_eq (hrun : Run TlvStore.exec .new tr st) :
    st.extensions.map Extension.type = initTypes tr := by
  induction hrun with
  | nil => rfl
  | snoc _ he ih =>
    rw [TlvStore.types_exec he, ih, initTypes, initTypes, List.filterMap_append]
    congr 1

theorem lastWritten_eq (hrun : Run TlvStore.exec .new tr st) (t : ExtensionType) :
    findExtension st.extensions t = lastWritten tr t := by
  induction hrun with
  | nil => rfl
  | @snoc tr st st' op _ he ih =>
    rw [TlvStore.findExtension_exec he, ih, lastWritten, lastWritten, List.reverse_append,
      List.reverse_singleton, List.singleton_append, List.filterMap_cons]
    cases hw : st.written op with
    | none => rfl
    | some v =>
      by_cases hv : v.type = t <;> simp [Option.filter, hv]

theorem lastRequest_eq (hrun : Run TlvStore.exec .new tr st) (key : Pubkey) :
    st.requests key = lastRequest tr key := by
  induction hrun with
  | nil => rfl
  | @snoc tr st st' op _ he ih =>
    rw [TlvStore.requests_exec he, lastRequest, List.reverse_append, List.reverse_singleton,
      List.singleton_append, List.filterMap_cons]
    cases hw : st.requestWritten op with
    | none => exact ih
    | some w =>
      obtain ⟨key', request⟩ := w
      by_cases hkey : key' = key
      · subst hkey
        simp
      · rw [List.find?_cons_of_neg (by simpa using hkey)]
        exact (update_of_ne (Ne.symm hkey) _ _).trans ih

end Histories

/-! ### Laws -/

/-- **The laws of the store**, for the accounts `s` of a store `st` with the history `tr`. -/
structure TlvLaws (tr : History) (s : Accounts) (st : TlvStore) : Prop where
  /-- Every extension reads back as the value last written, and one never added as absent. -/
  reads : ∀ t, AccountData.readExtension s.vault t = .ok (lastWritten tr t)
  absent : ∀ t, lastWritten tr t = none ↔ t ∉ initTypes tr
  /-- All of the region is in use, and the client reads in it what the program reads. -/
  region : ∃ tlvData, rangeOf s.vault tlvStart s.vault.length = .ok tlvData ∧
    tlvUsedLen tlvData = .ok ((initTypes tr).map ExtensionType.tlvLen).sum ∧
    tlvData.length = ((initTypes tr).map ExtensionType.tlvLen).sum ∧
    ∀ t, getExtensionBytesRaw tlvData t.id = .ok ((lastWritten tr t).map Extension.bytesOf) ∧
      RustClient.getExtensionBytes tlvData t = .ok ((lastWritten tr t).map Extension.bytesOf)
  /-- A step writes the value of one extension at most and leaves the others. -/
  step : ∀ op s', s.exec op = .ok s' → ∀ t, AccountData.readExtension s'.vault t =
    .ok (((st.written op).filter fun v => v.type = t).or (lastWritten tr t))
  /-- Only an initialisation moves the end of the entries. -/
  length : ∀ op s', s.exec op = .ok s' → op.initType = none →
    ∃ tlvData, rangeOf s'.vault tlvStart s'.vault.length = .ok tlvData ∧
      tlvUsedLen tlvData = .ok ((initTypes tr).map ExtensionType.tlvLen).sum
  twice : ∀ v hv, v.type ∈ initTypes tr → s.exec (.initExtension v hv) =
    .error (.error (.async (if s.initialized then .vaultAlreadyInitialized
      else .extensionAlreadyInitialized)))
  /-- Every open request reads back as the id it got, under its type only. -/
  requests : ∀ key data, s.requests key = some data → ∃ request,
    lastRequest tr key = some request ∧
    ∀ type, AccountData.readRequestExtension data type = .ok (TlvStore.idOf type request) ∧
      AccountData.hasRequestExtension data type = .ok (TlvStore.idOf type request).isSome ∧
      RustClient.getRequestExtensionBytes data type = .ok ((TlvStore.idOf type request).map word)
  requestsOpen : ∀ key, (s.requests key).isSome = (lastRequest tr key).isSome
  createdTwice : ∀ key type tranche, (s.requests key).isSome →
    s.exec (.createRequest key type tranche) = .error (.error (.account .accountInUse))
  /-- No step indexes out of range. -/
  inRange : ∀ op, s.exec op ≠ .error .outOfRange

theorem length_encode_entries (es : List Extension) :
    (encode (es.map Extension.entry)).length
      = ((es.map Extension.type).map ExtensionType.tlvLen).sum := by
  induction es with
  | nil => rfl
  | cons e es ih =>
    rw [List.map_cons, encode_cons, List.length_append, ih, e.length_entry]
    rfl

theorem mem_types_iff (es : List Extension) (t : ExtensionType) :
    findExtension es t = none ↔ t ∉ es.map Extension.type := by
  simp [findExtension]

theorem represents_new : Represents .new .new where
  initialized := rfl
  vault := ⟨zeros tlvStart, length_zeros tlvStart, by simp [zeros, Accounts.new, TlvStore.new]⟩
  requests _ := .none
  distinct := List.nodup_nil
  written := by simp [TlvStore.new]

section Laws

variable {tr : History} {s : Accounts} {st : TlvStore}

/-- What the program and the client find in the region of a vault account. -/
theorem Represents.region (h : Represents s st) :
    ∃ tlvData, rangeOf s.vault tlvStart s.vault.length = .ok tlvData ∧
      tlvUsedLen tlvData
        = .ok ((st.extensions.map Extension.type).map ExtensionType.tlvLen).sum ∧
      tlvData.length = ((st.extensions.map Extension.type).map ExtensionType.tlvLen).sum ∧
      ∀ t, getExtensionBytesRaw tlvData t.id
          = .ok ((findExtension st.extensions t).map Extension.bytesOf) ∧
        RustClient.getExtensionBytes tlvData t
          = .ok ((findExtension st.extensions t).map Extension.bytesOf) := by
  refine ⟨_, h.vault.range, ?_, ?_, fun t => ?_⟩
  · rw [tlvUsedLen_encode (entries_fit _), length_encode_entries]
  · rw [List.length_append, length_encode_entries, length_zeros, Nat.add_zero]
  · rw [RustClient.getExtensionBytes, RustClient.getTlvBytes_eq, getExtensionBytesRaw_eq,
      valueOf_encode (entries_fit _) t.id_ne_zero, lookup_entries]
    exact ⟨rfl, rfl⟩

/-- What they find in a request account. -/
theorem readers_request {data : List Byte} {request : Option (RequestType × BitVec 64)} {n : ℕ}
    (h : HoldsEntries data requestTlvStart (requestEntries request) n) (type : RequestType) :
    AccountData.hasRequestExtension data type = .ok (TlvStore.idOf type request).isSome ∧
      RustClient.getRequestExtensionBytes data type
        = .ok ((TlvStore.idOf type request).map word) := by
  have hlookup : lookup (requestEntries request) type.requestExtensionId
      = (TlvStore.idOf type request).map word := by
    obtain - | ⟨u, id⟩ := request
    · rfl
    · cases u <;> cases type <;> rfl
  have hvalue := valueOf_encode (requestEntries_fit request) (requestExtensionId_ne_zero type) n
  rw [hlookup] at hvalue
  unfold AccountData.hasRequestExtension RustClient.getRequestExtensionBytes
  by_cases hle : data.length ≤ requestTlvStart
  · rw [h.eq_nil hle] at hlookup
    rw [if_pos hle, if_pos (show data.length ≤ RustClient.clientRequestTlvStart from hle),
      ← Option.isSome_map (f := word), ← hlookup]
    exact ⟨rfl, rfl⟩
  · rw [if_neg hle, if_neg (show ¬data.length ≤ RustClient.clientRequestTlvStart from hle)]
    refine ⟨bind_eq_ok.2 ⟨_, h.range, ?_⟩, bind_eq_ok.2 ⟨_, h.range, ?_⟩⟩
    · rw [hasExtensionRaw_eq, hvalue, Option.isSome_map]
    · rw [RustClient.getTlvBytes_eq, hvalue]

/-- Adding a type that is there is refused. -/
theorem initExtension_twice (h : Represents s st) (v : Extension) (hv : v.Written)
    (hmem : v.type ∈ st.extensions.map Extension.type) :
    s.exec (.initExtension v hv) = .error (.error (.async (if s.initialized then
      .vaultAlreadyInitialized else .extensionAlreadyInitialized))) := by
  have hfollows := exec_follows h (.initExtension v hv)
  have hsome : ¬(findExtension st.extensions v.type).isNone := by
    rw [Option.isNone_iff_eq_none, mem_types_iff]
    exact not_not_intro hmem
  rw [h.initialized]
  simp only [TlvStore.exec, require, if_neg hsome] at hfollows
  cases hinit : st.initialized <;> rw [hinit] at hfollows <;> exact hfollows

theorem Represents.laws (h : Represents s st) (hrun : Run TlvStore.exec .new tr st) :
    TlvLaws tr s st := by
  have htypes := initTypes_eq hrun
  have hvalue := lastWritten_eq hrun
  have hafter : ∀ op s', s.exec op = .ok s' → ∃ st', st.exec op = .ok st' ∧ Represents s' st' :=
    fun op s' he => (exec_follows h op).exists_ok he
  -- each law holds of the store, and the bytes represent the store
  refine ⟨fun t => ?_, fun t => ?_, ?_, fun op s' he t => ?_, fun op s' he hop => ?_,
    fun v hv hmem => ?_, fun key data hdata => ?_, fun key => ?_, fun key type tranche hopen => ?_,
    fun op => ?_⟩
  · rw [readExtension_eq h.vault, hvalue]
  · rw [← hvalue, mem_types_iff, htypes]
  · simpa only [htypes, hvalue] using h.region
  · obtain ⟨st', he', h'⟩ := hafter op s' he
    rw [readExtension_eq h'.vault, TlvStore.findExtension_exec he', hvalue]
  · obtain ⟨st', he', h'⟩ := hafter op s' he
    obtain ⟨tlvData, hrange, hused, -⟩ := h'.region
    rw [TlvStore.types_exec he', htypes, hop] at hused
    exact ⟨tlvData, hrange, by simpa using hused⟩
  · exact initExtension_twice h v hv (htypes ▸ hmem)
  -- the readers of a request see the one record it holds
  · have hrel := h.requests key
    rw [hdata] at hrel
    rw [← lastRequest_eq hrun]
    generalize st.requests key = request at hrel
    cases hrel with
    | some hdata =>
      obtain ⟨n, hdata⟩ := hdata
      exact ⟨_, rfl, fun type => ⟨readRequestExtension_eq hdata type, readers_request hdata type⟩⟩
  · have hrel := h.requests key
    rw [← lastRequest_eq hrun]
    generalize s.requests key = data, st.requests key = request at hrel
    cases hrel <;> rfl
  · show (require _ _ >>= _) = _
    rw [require, if_neg (by simpa using Option.isSome_iff_ne_none.1 hopen)]
    rfl
  · exact (exec_follows h op).ne_error fun e he => by cases he

end Laws

/-! ### Any bytes -/

section AnyBytes

variable (bs : List Byte)

theorem rangeOf_tail {start : ℕ} (h : ¬bs.length ≤ start) :
    rangeOf bs start bs.length = .ok (between bs start bs.length) :=
  rangeOf_eq (by omega) le_rfl

theorem readExtension_inRange (t : ExtensionType) :
    AccountData.readExtension bs t ≠ .error .outOfRange := by
  unfold AccountData.readExtension AccountData.readVaultExtension
  split
  · exact nofun
  · next hlt =>
    rw [rangeOf_tail bs hlt]
    show (getExtensionBytesRaw (between bs tlvStart bs.length) t.id >>= _) ≠ _
    rw [getExtensionBytesRaw_eq]
    cases valueOf (between bs tlvStart bs.length) t.id with
    | none => exact nofun
    | some bytes =>
      show (okOr _ (Extension.tryRead t bytes) >>= _) ≠ _
      cases Extension.tryRead t bytes <;> exact nofun

theorem readRequestExtension_inRange (type : RequestType) :
    AccountData.readRequestExtension bs type ≠ .error .outOfRange := by
  unfold AccountData.readRequestExtension
  split
  · exact nofun
  · next hlt =>
    rw [rangeOf_tail bs hlt]
    show (getExtensionBytesRaw (between bs requestTlvStart bs.length) type.requestExtensionId
      >>= _) ≠ _
    rw [getExtensionBytesRaw_eq]
    cases valueOf (between bs requestTlvStart bs.length) type.requestExtensionId with
    | none => exact nofun
    | some bytes =>
      show (okOr _ (if bytes.length = requestDataLen then _ else _) >>= _) ≠ _
      split <;> exact nofun

theorem getRequestExtensionBytes_ok (type : RequestType) :
    ∃ value, RustClient.getRequestExtensionBytes bs type = .ok value := by
  unfold RustClient.getRequestExtensionBytes
  split
  · exact ⟨_, rfl⟩
  · next hlt =>
    exact ⟨_, bind_eq_ok.2 ⟨_, rangeOf_tail bs hlt, RustClient.getTlvBytes_eq _ _⟩⟩

end AnyBytes

/-- **Laws of the extension store.**  The accounts after any run of the steps tell its history; and
on any bytes the readers end without an index out of range, the client's as the program's. -/
theorem tlv_store_laws :
    (∀ tr s, Run Accounts.exec .new tr s → ∃ tr' st, Run TlvStore.exec .new tr' st ∧
      tr'.map Transition.act = tr.map Transition.act ∧ TlvLaws tr' s st) ∧
    (∀ (bs : List Byte) (id : ℕ),
      (∃ value, getExtensionBytesRaw bs id = .ok value ∧
        RustClient.getTlvBytes bs id = .ok value ∧ hasExtensionRaw bs id = .ok value.isSome) ∧
      (∃ range, getExtensionBytesRawMut bs id = .ok range) ∧ (∃ n, tlvUsedLen bs = .ok n)) ∧
    (∀ (bs : List Byte) (t : ExtensionType) (type : RequestType),
      AccountData.readExtension bs t ≠ .error .outOfRange ∧
      AccountData.readRequestExtension bs type ≠ .error .outOfRange ∧
      ∃ value, RustClient.getRequestExtensionBytes bs type = .ok value) := by
  refine ⟨fun tr s hrun => ?_, fun bs id => ⟨?_, ?_, ?_⟩, fun bs t type => ?_⟩
  · obtain ⟨tr', st, hrun', hacts, h⟩ :=
      hrun.follows (R := Represents) (fun _ _ op h => exec_follows h op) represents_new
    exact ⟨tr', st, hrun', hacts, h.laws hrun'⟩
  · exact ⟨_, getExtensionBytesRaw_eq bs id, RustClient.getTlvBytes_eq bs id,
      hasExtensionRaw_eq bs id⟩
  · exact ⟨_, getExtensionBytesRawMut_eq bs id⟩
  · exact ⟨_, tlvUsedLen_eq bs⟩
  · exact ⟨readExtension_inRange bs t, readRequestExtension_inRange bs type,
      getRequestExtensionBytes_ok bs type⟩

/-- A fee, two queues, a deposit request, a threshold that is changed, and the request's turn. -/
def storeScript : List AccountStep :=
  [.initExtension (.depositFee (.fromFeeType (.percentage 100)))
      (Extension.written_fromFeeType _),
    .initExtension (.subscriptionQueue ⟨0, 0⟩) trivial,
    .initExtension (.redemptionQueue ⟨0, 0⟩) trivial,
    .initExtension (.minSubscription 5) trivial,
    .initializeVault,
    .createRequest ⟨1⟩ .deposit none,
    .updateExtension (.minSubscription 7) trivial,
    .advanceQueue .deposit ⟨1⟩]

/-- **Non-vacuity.** A history with entries of three sizes. -/
theorem tlv_store_laws_of_script :
    ∃ tr s, Run Accounts.exec .new tr s ∧ tr.map Transition.act = storeScript ∧
      (∃ tr' st, TlvLaws tr' s st) ∧
      AccountData.readExtension s.vault .subscriptionQueue
        = .ok (some (.subscriptionQueue ⟨1, 1⟩)) ∧
      AccountData.readExtension s.vault .minSubscription = .ok (some (.minSubscription 7)) := by
  have hplays : plays Accounts.exec .new storeScript (fun _ s =>
      decide (AccountData.readExtension s.vault .subscriptionQueue
        = .ok (some (.subscriptionQueue ⟨1, 1⟩)))
      && decide (AccountData.readExtension s.vault .minSubscription
        = .ok (some (.minSubscription 7)))) = true := by decide +kernel
  obtain ⟨tr, s, hrun, hacts, hread⟩ := exists_of_plays hplays
  obtain ⟨hqueue, hmin⟩ := Bool.and_eq_true_iff.1 hread
  obtain ⟨tr', st, -, -, hlaws⟩ := tlv_store_laws.1 tr s hrun
  exact ⟨tr, s, hrun, hacts, ⟨tr', st, hlaws⟩, of_decide_eq_true hqueue, of_decide_eq_true hmin⟩

end AsyncVault
