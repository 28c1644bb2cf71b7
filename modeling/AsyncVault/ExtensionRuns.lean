/-
AsyncVault/ExtensionRuns.lean

The extension store over whole runs.

`TlvStore` says what the accounts are for, without bytes: the extensions of the
vault in the order they were added, and the id each open request got from its
queue.  `Represents` relates it to the bytes.  Every step on the accounts follows
the step on the store, errors included (`exec_follows`), so any run of
initialisations, updates and queue steps in any order does.

From there the laws of the store are laws of a list.
-/
import AsyncVault.ExtensionLaws
import AsyncVault.Lib.Follows

namespace AsyncVault

open Checked Bytes Tlv Function Machine

/-! ### The store -/

/-- A store without bytes: the extensions in the order they were added, and for each open request
the id it got, if it got one. -/
structure TlvStore where
  initialized : Bool
  extensions : List Extension
  requests : Pubkey → Option (Option (RequestType × BitVec 64))

/-- The extension of a type. -/
def findExtension (es : List Extension) (t : ExtensionType) : Option Extension :=
  es.find? fun e => e.type = t

/-- Replace the extension of the type of `v`. -/
def putExtension (v : Extension) : List Extension → List Extension
  | [] => []
  | e :: es => if e.type = v.type then v :: es else e :: putExtension v es

def Extension.queueData : Extension → Option QueueData
  | subscriptionQueue queue | redemptionQueue queue => some queue
  | _ => none

namespace TlvStore

def new : TlvStore where
  initialized := false
  extensions := []
  requests _ := none

def queue (st : TlvStore) (type : RequestType) : Option QueueData :=
  (findExtension st.extensions type.queue).bind Extension.queueData

def setQueue (st : TlvStore) (type : RequestType) (q : QueueData) : TlvStore :=
  { st with extensions := putExtension (type.queueExtension q) st.extensions }

/-- The id that a request got in the queue of a type. -/
def idOf (type : RequestType) (request : Option (RequestType × BitVec 64)) : Option (BitVec 64) :=
  request.bind fun p => if p.1 = type then some p.2 else none

/-- **What a step means**: an initialisation adds a value where there is none, an update replaces
one, and queues count. -/
def exec (st : TlvStore) : AccountStep → Result TlvStore
  | .initExtension value _ => do
    require (.async .vaultAlreadyInitialized) (st.initialized = false)
    require (.async .extensionAlreadyInitialized) (findExtension st.extensions value.type).isNone
    pure { st with extensions := st.extensions ++ [value] }
  | .updateExtension value _ => do
    require (.async .uninitializedExtension) (findExtension st.extensions value.type).isSome
    pure { st with extensions := putExtension value st.extensions }
  | .initializeVault => do
    require (.async .vaultAlreadyInitialized) (st.initialized = false)
    pure { st with initialized := true }
  | .exitVault _ _ => pure st
  | .createRequest key type tranche => do
    require (.account .accountInUse) (st.requests key).isNone
    match st.queue type, tranche with
    | none, _ => pure { st with requests := update st.requests key (some none) }
    | some _, some id =>
      pure { st with requests := update st.requests key (some (some (type, id))) }
    | some q, none =>
      let id := q.total + 1
      pure { st.setQueue type { q with total := id } with
        requests := update st.requests key (some (some (type, id))) }
  | .exitRequest key _ _ => do
    let _ ← okOr (.account .accountNotInitialized) (st.requests key)
    pure st
  | .advanceQueue type key => do
    let request ← okOr (.account .accountNotInitialized) (st.requests key)
    match st.queue type with
    | none => pure st
    | some q => do
      let id ← okOr (.async .uninitializedExtension) (idOf type request)
      require (.async type.outOfOrderError) (id = q.lastProcessed + 1)
      pure (st.setQueue type { q with lastProcessed := id })
  | .closeRequest key => do
    let _ ← okOr (.account .accountNotInitialized) (st.requests key)
    pure { st with requests := update st.requests key none }

end TlvStore

/-! ### Lists of extensions and their entries -/

section Lists

variable {es : List Extension} {t : ExtensionType} {e : Extension}

theorem findExtension_type (h : findExtension es t = some e) : e.type = t :=
  of_decide_eq_true (List.find?_some (p := fun e : Extension => decide (e.type = t)) h)

theorem lookup_entries (es : List Extension) (t : ExtensionType) :
    lookup (es.map Extension.entry) t.id = (findExtension es t).map Extension.bytesOf := by
  induction es with
  | nil => rfl
  | cons e es ih =>
    by_cases he : e.type = t
    · simp [lookup, findExtension, Extension.entry, he]
    · have hid : e.type.id ≠ t.id := fun h => he (ExtensionType.id_inj.1 h)
      simpa [lookup, findExtension, Extension.entry, he, hid] using ih

theorem replace_entries (v : Extension) (es : List Extension) :
    replace v.type.id v.bytesOf (es.map Extension.entry)
      = (putExtension v es).map Extension.entry := by
  induction es with
  | nil => rfl
  | cons e es ih =>
    by_cases he : e.type = v.type
    · simp [replace, putExtension, Extension.entry, he]
    · have hid : e.type.id ≠ v.type.id := fun h => he (ExtensionType.id_inj.1 h)
      simp only [List.map_cons, replace, putExtension, if_neg he]
      rw [if_neg (show e.entry.type ≠ v.type.id from hid), ih]

theorem putExtension_types (v : Extension) (es : List Extension) :
    (putExtension v es).map Extension.type = es.map Extension.type := by
  induction es with
  | nil => rfl
  | cons e es ih =>
    rw [putExtension]
    split
    · next he => simp [he]
    · simp [ih]

/-- Replacing one extension leaves the others. -/
theorem findExtension_put (v : Extension) (es : List Extension) (t : ExtensionType) :
    findExtension (putExtension v es) t =
      if v.type = t then (findExtension es t).map fun _ => v else findExtension es t := by
  induction es with
  | nil => simp [findExtension, putExtension]
  | cons e es ih =>
    rw [putExtension]
    by_cases he : e.type = v.type
    · rw [if_pos he]
      by_cases hv : v.type = t <;> simp [findExtension, hv, he]
    · rw [if_neg he]
      simp only [findExtension] at ih
      by_cases hv : v.type = t
      · have het : e.type ≠ t := fun h => he (h.trans hv.symm)
        simpa [findExtension, hv, het] using ih
      · simp only [if_neg hv] at ih ⊢
        simp [findExtension, List.find?_cons, ih]

theorem findExtension_append (es : List Extension) (v : Extension) (t : ExtensionType) :
    findExtension (es ++ [v]) t =
      (findExtension es t).or (if v.type = t then some v else none) := by
  rw [findExtension, List.find?_append]
  by_cases hv : v.type = t <;> simp [findExtension, hv]

end Lists

/-! ### Bytes for a store -/

/-- The entry of a request that got an id. -/
def requestEntries : Option (RequestType × BitVec 64) → List Entry
  | none => []
  | some (type, id) => [⟨type.requestExtensionId, word id⟩]

/-- **The bytes of a store.** -/
structure Represents (s : Accounts) (st : TlvStore) : Prop where
  initialized : s.initialized = st.initialized
  vault : HoldsEntries s.vault tlvStart (st.extensions.map Extension.entry) 0
  requests : ∀ key, Option.Rel
    (fun data request => ∃ n, HoldsEntries data requestTlvStart (requestEntries request) n)
    (s.requests key) (st.requests key)
  distinct : (st.extensions.map Extension.type).Nodup
  written : ∀ e ∈ st.extensions, e.Written

section Reading

variable {data : List Byte} {es : List Extension} {n : ℕ} {t : ExtensionType}
  {request : Option (RequestType × BitVec 64)}

theorem entries_fit (es : List Extension) : ∀ x ∈ es.map Extension.entry, x.Fits := by
  intro x hx
  obtain ⟨e, -, rfl⟩ := List.mem_map.1 hx
  exact e.entry_fits

theorem requestEntries_fit (request : Option (RequestType × BitVec 64)) :
    ∀ x ∈ requestEntries request, x.Fits := by
  intro x hx
  obtain - | ⟨type, id⟩ := request
  · cases hx
  · obtain rfl := List.mem_singleton.1 hx
    refine ⟨?_, ?_, ?_⟩
    · show type.requestExtensionId ≠ 0
      cases type <;> decide
    · show type.requestExtensionId < 256 ^ 2
      cases type <;> decide
    · show (word id).length < 256 ^ 2
      rw [length_word]
      decide

/-- An account as long as its fields holds no entry. -/
theorem HoldsEntries.eq_nil {start : ℕ} {entries : List Entry}
    (h : HoldsEntries data start entries n) (hle : data.length ≤ start) : entries = [] := by
  have hlen := h.length
  cases entries with
  | nil => rfl
  | cons e es =>
    rw [encode_cons, List.length_append, e.length_bytes, headerSize] at hlen
    omega

/-- **Reading a vault account.** -/
theorem readVaultExtension_eq (h : HoldsEntries data tlvStart (es.map Extension.entry) n)
    {E : Type} (t : ExtensionType) (tryRead : List Byte → Option E) :
    AccountData.readVaultExtension t tryRead data =
      match findExtension es t with
      | none => .ok none
      | some e => okOr (.error (.async .invalidExtensionData)) (tryRead e.bytesOf)
          >>= fun x => pure (some x) := by
  unfold AccountData.readVaultExtension
  by_cases hle : data.length ≤ tlvStart
  · rw [if_pos hle, List.map_eq_nil_iff.1 (h.eq_nil hle)]
    rfl
  · rw [if_neg hle, h.range]
    show (getExtensionBytesRaw (encode (es.map Extension.entry) ++ zeros n) t.id >>= _) = _
    rw [getExtensionBytesRaw_eq, valueOf_encode (entries_fit es) t.id_ne_zero, lookup_entries]
    cases findExtension es t <;> rfl

theorem readExtension_eq (h : HoldsEntries data tlvStart (es.map Extension.entry) n)
    (t : ExtensionType) : AccountData.readExtension data t = .ok (findExtension es t) := by
  rw [AccountData.readExtension, readVaultExtension_eq h]
  cases he : findExtension es t with
  | none => rfl
  | some e =>
    obtain rfl := findExtension_type he
    show (okOr _ (Extension.tryRead e.type e.bytesOf) >>= _) = _
    rw [e.tryRead_bytesOf]
    rfl

/-- The extension of a queue's type is a queue. -/
theorem queueExtension_of_find {type : RequestType} {e : Extension}
    (he : findExtension es type.queue = some e) :
    ∃ q, e = type.queueExtension q ∧ e.queueData = some q ∧ e.bytesOf = q.bytesOf := by
  have htype := findExtension_type he
  cases type with
  | deposit =>
    cases e with
    | subscriptionQueue q => exact ⟨q, rfl, rfl, rfl⟩
    | _ => cases htype
  | redeem =>
    cases e with
    | redemptionQueue q => exact ⟨q, rfl, rfl, rfl⟩
    | _ => cases htype

theorem readQueue_eq {st : TlvStore}
    (h : HoldsEntries data tlvStart (st.extensions.map Extension.entry) n) (type : RequestType) :
    AccountData.readVaultExtension type.queue QueueData.tryRead data = .ok (st.queue type) := by
  rw [readVaultExtension_eq h, TlvStore.queue]
  cases he : findExtension st.extensions type.queue with
  | none => rfl
  | some e =>
    obtain ⟨q, -, hq, hbytes⟩ := queueExtension_of_find he
    show (okOr _ (QueueData.tryRead e.bytesOf) >>= _) = _
    rw [hbytes, q.tryRead_bytesOf]
    exact congrArg Except.ok hq.symm

/-- **Reading a request account.** -/
theorem readRequestExtension_eq
    (h : HoldsEntries data requestTlvStart (requestEntries request) n) (type : RequestType) :
    AccountData.readRequestExtension data type = .ok (TlvStore.idOf type request) := by
  unfold AccountData.readRequestExtension
  by_cases hle : data.length ≤ requestTlvStart
  -- no room for an entry, so the request has none
  · rw [if_pos hle]
    have hnil := h.eq_nil hle
    obtain - | ⟨u, id⟩ := request
    · rfl
    · cases hnil
  · have ht : type.requestExtensionId ≠ 0 := by cases type <;> decide
    -- the raw reader finds what was encoded
    rw [if_neg hle, h.range]
    show (getExtensionBytesRaw _ type.requestExtensionId >>= _) = _
    rw [getExtensionBytesRaw_eq, valueOf_encode (requestEntries_fit request) ht]
    obtain - | ⟨u, id⟩ := request
    · rfl
    · have hword : wordAt (word id) 0 = id := wordAt_last id []
      have hlen : (word id).length = requestDataLen := length_word id
      by_cases hu : u = type
      · subst hu
        have hlookup : lookup (requestEntries (some (u, id))) u.requestExtensionId
            = some (word id) := by simp [lookup, requestEntries]
        rw [hlookup]
        simp only [bind, Except.bind, if_pos hlen, hword, okOr, TlvStore.idOf, Option.bind_some]
        rfl
      -- the id of the other queue is another type, which is not found
      · have hid : u.requestExtensionId ≠ type.requestExtensionId := by
          revert hu
          cases u <;> cases type <;> decide
        have hlookup : lookup (requestEntries (some (u, id))) type.requestExtensionId = none := by
          simp [lookup, requestEntries, hid]
        rw [hlookup]
        simp only [bind, Except.bind, TlvStore.idOf, Option.bind_some, if_neg hu]
        rfl

end Reading

/-! ### Steps -/

section Steps

variable {s : Accounts} {st : TlvStore} {n : ℕ}

/-- The program fails as the store does. -/
abbrev FollowsStore (s : Access Accounts) (st : Result TlvStore) : Prop :=
  Follows Fault.error Represents s st

theorem Represents.withVault (h : Represents s st) {data : List Byte} {es : List Extension}
    (hdata : HoldsEntries data tlvStart (es.map Extension.entry) 0)
    (hdistinct : (es.map Extension.type).Nodup) (hwritten : ∀ e ∈ es, e.Written) :
    Represents { s with vault := data } { st with extensions := es } :=
  ⟨h.initialized, hdata, h.requests, hdistinct, hwritten⟩

/-- Writing or closing one request account. -/
theorem Represents.withRequest (h : Represents s st) {key : Pubkey} {data : Option (List Byte)}
    {request : Option (Option (RequestType × BitVec 64))}
    (hrel : Option.Rel
      (fun data request => ∃ n, HoldsEntries data requestTlvStart (requestEntries request) n)
      data request) :
    Represents { s with requests := update s.requests key data }
      { st with requests := update st.requests key request } where
  initialized := h.initialized
  vault := h.vault
  requests k := by
    by_cases hk : k = key
    · subst hk
      simpa only [update_self] using hrel
    · simpa only [update_of_ne hk] using h.requests k
  distinct := h.distinct
  written := h.written

theorem putExtension_written {v : Extension} (hv : v.Written) {es : List Extension}
    (hes : ∀ e ∈ es, e.Written) : ∀ e ∈ putExtension v es, e.Written := by
  induction es with
  | nil => exact hes
  | cons x es ih =>
    obtain ⟨hx, hes⟩ := List.forall_mem_cons.1 hes
    rw [putExtension]
    split
    · exact List.forall_mem_cons.2 ⟨hv, hes⟩
    · exact List.forall_mem_cons.2 ⟨hx, ih hes⟩

theorem initExtension_follows (h : Represents s st) (v : Extension) (hv : v.Written) :
    FollowsStore (s.exec (.initExtension v hv)) (st.exec (.initExtension v hv)) := by
  have hgrown := h.vault.grow v.type.tlvLen
  have hfits := entries_fit st.extensions
  simp only [Accounts.exec, AccountData.initVaultExtension, TlvStore.exec, bind_assoc]
  -- one check of the program after the other, each matched by the store
  refine Follows.bind (Follows.require _ (by rw [h.initialized])) fun _ _ _ => ?_
  refine Follows.after hgrown.range ?_
  refine Follows.after (hasExtensionRaw_eq _ _) ?_
  rw [valueOf_encode hfits v.type.id_ne_zero, lookup_entries]
  refine Follows.bind (Follows.require _ (by simp)) fun _ _ hnone => ?_
  refine Follows.after (tlvUsedLen_encode hfits _) ?_
  -- the entry goes where the used part ends
  have hwrite := writeExtensionRaw_encode (st.extensions.map Extension.entry) v.entry
    (n := 0 + v.type.tlvLen) (by rw [v.length_entry, Nat.zero_add])
  rw [v.length_entry, Nat.zero_add, Nat.sub_self,
    show v.entry.value.length = v.type.dataLen from v.length_bytesOf] at hwrite
  refine Follows.after (by rw [Nat.zero_add]; exact hwrite) (Follows.ok ?_)
  have hentries : st.extensions.map Extension.entry ++ [v.entry]
      = (st.extensions ++ [v]).map Extension.entry := by simp
  refine h.withVault ?_ ?_ ?_
  · rw [hentries]
    exact hgrown.write
  -- the check that the type is new keeps the types distinct
  · rw [List.map_append, List.nodup_append]
    refine ⟨h.distinct, by simp, ?_⟩
    intro t ht u hu
    obtain ⟨e, he, rfl⟩ := List.mem_map.1 ht
    obtain rfl : u = v.type := by simpa using hu
    have := List.find?_eq_none.1 (Option.isNone_iff_eq_none.1 hnone) e he
    simpa using this
  · intro e he
    rcases List.mem_append.1 he with he | he
    · exact h.written e he
    · obtain rfl := List.mem_singleton.1 he
      exact hv

/-- Writing an extension that is there. -/
theorem updateVaultExtension_follows (h : Represents s st) {v : Extension} (hv : v.Written) :
    Follows Fault.error (fun data st' => Represents { s with vault := data } st')
      (AccountData.updateVaultExtension s.vault v)
      (do
        require (.async .uninitializedExtension) (findExtension st.extensions v.type).isSome
        pure { st with extensions := putExtension v st.extensions }) := by
  have hfits := entries_fit st.extensions
  have hlookup := lookup_entries st.extensions v.type
  refine Follows.after h.vault.range ?_
  rw [updateExtension_encode hfits v ?_ 0, hlookup]
  · cases he : findExtension st.extensions v.type with
    | none => exact Follows.error _
    | some e =>
      refine Follows.ok ?_
      rw [replace_entries]
      refine h.withVault h.vault.write ?_ (putExtension_written hv h.written)
      rw [putExtension_types]
      exact h.distinct
  · intro w hw
    rw [hlookup] at hw
    obtain ⟨e, he, rfl⟩ := Option.map_eq_some_iff.1 hw
    rw [e.length_bytesOf, findExtension_type he]

theorem updateExtension_follows (h : Represents s st) (v : Extension) (hv : v.Written) :
    FollowsStore (s.exec (.updateExtension v hv)) (st.exec (.updateExtension v hv)) := by
  have hupdate := updateVaultExtension_follows h hv
  have := Follows.bind (S := Represents) (f := fun data => pure { s with vault := data })
    (g := fun st' => pure st') hupdate fun _ _ hR => Follows.ok hR
  simpa only [Accounts.exec, TlvStore.exec, bind_pure] using this

/-! ### Requests -/

theorem requestExtensionId_ne_zero (type : RequestType) : type.requestExtensionId ≠ 0 := by
  cases type <;> decide

/-- The room that a new request account leaves for its id. -/
theorem computeRequestExtensionSpace_eq {data : List Byte} {es : List Extension}
    (h : HoldsEntries data tlvStart (es.map Extension.entry) n) :
    AccountData.computeRequestExtensionSpace data = .ok
      ((if (findExtension es .subscriptionQueue).isSome then tlvHeaderSize + requestDataLen else 0)
        + if (findExtension es .redemptionQueue).isSome then tlvHeaderSize + requestDataLen
          else 0) := by
  have hread : ∀ t : ExtensionType,
    hasExtensionRaw (encode (es.map Extension.entry) ++ zeros n) t.id
      = .ok (findExtension es t).isSome := by
    intro t
    rw [hasExtensionRaw_eq, valueOf_encode (entries_fit es) t.id_ne_zero, lookup_entries,
      Option.isSome_map]
  unfold AccountData.computeRequestExtensionSpace
  by_cases hle : data.length ≤ tlvStart
  · rw [if_pos hle, List.map_eq_nil_iff.1 (h.eq_nil hle)]
    rfl
  · rw [if_neg hle, h.range]
    show (hasExtensionRaw _ ExtensionType.subscriptionQueue.id >>= _) = _
    rw [hread]
    show (hasExtensionRaw _ ExtensionType.redemptionQueue.id >>= _) = _
    rw [hread]
    rfl

/-- With a queue there is room for an id. -/
theorem exists_space_of_queue {data : List Byte}
    (h : HoldsEntries data tlvStart (st.extensions.map Extension.entry) n) {type : RequestType}
    {q : QueueData} (hq : st.queue type = some q) :
    ∃ space, AccountData.computeRequestExtensionSpace data = .ok space ∧
      tlvHeaderSize + requestDataLen ≤ space := by
  refine ⟨_, computeRequestExtensionSpace_eq h, ?_⟩
  obtain ⟨e, he, -⟩ := Option.bind_eq_some_iff.1 hq
  cases type with
  | deposit =>
    rw [show findExtension st.extensions .subscriptionQueue = some e from he]
    exact Nat.le_add_right _ _
  | redeem =>
    rw [show findExtension st.extensions .redemptionQueue = some e from he]
    exact Nat.le_add_left _ _

/-- **Writing the id** of a new request. -/
theorem initRequestExtension_eq {data : List Byte}
    (h : HoldsEntries data requestTlvStart (requestEntries none) n)
    (hn : tlvHeaderSize + requestDataLen ≤ n) (type : RequestType) (id : BitVec 64) :
    ∃ data', AccountData.initRequestExtension data type id = .ok data' ∧
      ∃ k, HoldsEntries data' requestTlvStart (requestEntries (some (type, id))) k := by
  have hused := tlvUsedLen_encode (requestEntries_fit none) n
  have hlen : (⟨type.requestExtensionId, word id⟩ : Entry).bytes.length
      = tlvHeaderSize + requestDataLen := by
    rw [Entry.length_bytes, length_word]
    rfl
  have hwrite := writeExtensionRaw_encode [] ⟨type.requestExtensionId, word id⟩
    (n := n) (by rw [hlen]; exact hn)
  rw [show (⟨type.requestExtensionId, word id⟩ : Entry).value.length = requestDataLen from
    length_word id, hlen] at hwrite
  refine ⟨data.take requestTlvStart ++ (encode (requestEntries (some (type, id)))
    ++ zeros (n - (tlvHeaderSize + requestDataLen))), ?_, _, h.write (n := n)⟩
  unfold AccountData.initRequestExtension
  rw [h.range]
  show (tlvUsedLen (encode (requestEntries none) ++ zeros n) >>= _) = _
  rw [hused]
  show (writeExtensionRaw (encode (requestEntries none) ++ zeros n)
    (encode (requestEntries none)).length type.requestExtensionId requestDataLen (word id)
    >>= _) = _
  rw [show writeExtensionRaw (encode (requestEntries none) ++ zeros n)
    (encode (requestEntries none)).length type.requestExtensionId requestDataLen (word id) = _
    from hwrite]
  rfl

theorem TlvStore.queue_eq_some {type : RequestType} {q : QueueData} (hq : st.queue type = some q) :
    findExtension st.extensions type.queue = some (type.queueExtension q) := by
  obtain ⟨e, he, heq⟩ := Option.bind_eq_some_iff.1 hq
  obtain ⟨q', rfl, hq', -⟩ := queueExtension_of_find he
  rw [hq', Option.some.injEq] at heq
  rw [he, heq]

theorem type_queueExtension (type : RequestType) (q : QueueData) :
    (type.queueExtension q).type = type.queue := by
  cases type <;> rfl

theorem bytesOf_queueExtension (type : RequestType) (q : QueueData) :
    (type.queueExtension q).bytesOf = q.bytesOf := by
  cases type <;> rfl

theorem written_queueExtension (type : RequestType) (q : QueueData) :
    (type.queueExtension q).Written := by
  cases type <;> trivial

/-- **Counting a request in**, in place. -/
theorem nextQueueRequestId_eq (h : Represents s st) {type : RequestType} {q : QueueData}
    (hq : st.queue type = some q) :
    ∃ data, AccountData.nextQueueRequestId s.vault type = .ok (data, some (q.total + 1)) ∧
      Represents { s with vault := data } (st.setQueue type { q with total := q.total + 1 }) := by
  set v := type.queueExtension { q with total := q.total + 1 } with hv
  have hfind := TlvStore.queue_eq_some hq
  have hfits := entries_fit st.extensions
  have hlookup : lookup (st.extensions.map Extension.entry) type.queue.id = some q.bytesOf := by
    rw [lookup_entries, hfind, Option.map_some, bytesOf_queueExtension]
  obtain ⟨start, hlocate, hroom, hsplice⟩ := locate_of_lookup hfits hlookup 0
  have hvalue := valueOf_encode hfits type.queue.id_ne_zero 0
  rw [valueOf, hlocate, hlookup, Option.map_some, Option.some.injEq] at hvalue
  -- the counters keep their length, so the entry is rewritten in place
  have hlen : v.bytesOf.length = q.bytesOf.length := by
    rw [hv, bytesOf_queueExtension, QueueData.length_bytesOf, QueueData.length_bytesOf]
  -- an account without room for entries holds no queue
  have hlong : ¬s.vault.length ≤ tlvStart := by
    intro hle
    have hnil := List.map_eq_nil_iff.1 (h.vault.eq_nil hle)
    rw [hnil] at hfind
    cases hfind
  refine ⟨s.vault.take tlvStart ++ (encode ((putExtension v st.extensions).map Extension.entry)
    ++ zeros 0), ?_, ?_⟩
  · unfold AccountData.nextQueueRequestId
    rw [if_neg hlong]
    have hread : okOr (Fault.error (.async .invalidExtensionData)) (QueueData.tryRead q.bytesOf)
        = .ok q := by
      rw [q.tryRead_bytesOf]
      rfl
    have hcopy : copyAt (encode (st.extensions.map Extension.entry) ++ zeros 0) start v.bytesOf
        = .ok (encode ((putExtension v st.extensions).map Extension.entry) ++ zeros 0) := by
      rw [copyAt_eq (by rw [hlen]; exact hroom), hsplice _ hlen, ← replace_entries, hv,
        type_queueExtension]
    rw [hv, bytesOf_queueExtension] at hcopy
    refine bind_eq_ok.2 ⟨_, h.vault.range, ?_⟩
    refine bind_eq_ok.2 ⟨_, (getExtensionBytesRawMut_eq _ _).trans (congrArg _ hlocate), ?_⟩
    refine bind_eq_ok.2 ⟨_, rangeOf_eq (Nat.le_add_right _ _) hroom, ?_⟩
    rw [hvalue]
    exact bind_eq_ok.2 ⟨_, hread, bind_eq_ok.2 ⟨_, hcopy, rfl⟩⟩
  · refine h.withVault h.vault.write ?_ (putExtension_written ?_ h.written)
    · rw [putExtension_types]
      exact h.distinct
    · exact written_queueExtension _ _

theorem nextQueueRequestId_of_none (h : Represents s st) {type : RequestType}
    (hq : st.queue type = none) :
    AccountData.nextQueueRequestId s.vault type = .ok (s.vault, none) := by
  have hfind : findExtension st.extensions type.queue = none := by
    cases he : findExtension st.extensions type.queue with
    | none => rfl
    | some e =>
      obtain ⟨q, -, hq', -⟩ := queueExtension_of_find he
      rw [TlvStore.queue, he, Option.bind_some, hq'] at hq
      cases hq
  unfold AccountData.nextQueueRequestId
  by_cases hle : s.vault.length ≤ tlvStart
  · rw [if_pos hle]
    rfl
  · rw [if_neg hle, h.vault.range]
    show (getExtensionBytesRawMut (encode (st.extensions.map Extension.entry) ++ zeros 0)
      type.queue.id >>= _) = _
    rw [getExtensionBytesRawMut_eq, locate_eq_none_of_lookup (entries_fit _) type.queue.id_ne_zero
      (by rw [lookup_entries, hfind]; rfl)]
    rfl

theorem holds_zeros (start space : ℕ) : HoldsEntries (zeros (start + space)) start [] space :=
  ⟨zeros start, length_zeros start, by simp [zeros, List.replicate_append_replicate]⟩

theorem hasFifoQueue_eq (h : Represents s st) (type : RequestType) :
    AccountData.hasFifoQueue s.vault type = .ok (st.queue type).isSome :=
  bind_eq_ok.2 ⟨_, readQueue_eq h.vault type, rfl⟩

theorem createRequest_follows (h : Represents s st) (key : Pubkey) (type : RequestType)
    (tranche : Option (BitVec 64)) :
    FollowsStore (s.exec (.createRequest key type tranche))
      (st.exec (.createRequest key type tranche)) := by
  have hfifo := hasFifoQueue_eq h type
  refine Follows.bind (Follows.require _ ?_) fun _ _ _ => ?_
  · have hrel := h.requests key
    generalize s.requests key = data, st.requests key = request at hrel
    cases hrel <;> simp
  cases hq : st.queue type with
  | none =>
    -- no id is given out, whether the vault has tranches or not
    refine Follows.after (computeRequestExtensionSpace_eq h.vault) ?_
    rw [hq] at hfifo
    cases tranche with
    | none =>
      refine Follows.after (nextQueueRequestId_of_none h hq) (Follows.ok ?_)
      exact h.withRequest (.some ⟨_, holds_zeros requestTlvStart _⟩)
    | some id =>
      refine Follows.after (bind_eq_ok.2 ⟨_, hfifo, rfl⟩) (Follows.ok ?_)
      exact h.withRequest (.some ⟨_, holds_zeros requestTlvStart _⟩)
  | some q =>
    obtain ⟨space, hspace, hroom⟩ := exists_space_of_queue h.vault hq
    have hnew := holds_zeros requestTlvStart space
    refine Follows.after hspace ?_
    rw [hq] at hfifo
    cases tranche with
    | none =>
      obtain ⟨data, hnext, hdata⟩ := nextQueueRequestId_eq h hq
      obtain ⟨data', hinit, hdata'⟩ := initRequestExtension_eq hnew hroom type (q.total + 1)
      refine Follows.after hnext (Follows.after hinit (Follows.ok ?_))
      exact hdata.withRequest (.some hdata')
    | some id =>
      obtain ⟨data', hinit, hdata'⟩ := initRequestExtension_eq hnew hroom type id
      refine Follows.after (bind_eq_ok.2 ⟨_, hfifo, rfl⟩) (Follows.after hinit (Follows.ok ?_))
      exact h.withRequest (.some hdata')

/-- The account of an open request. -/
theorem request_follows (h : Represents s st) (key : Pubkey) :
    Follows Fault.error
      (fun data request => (∃ n, HoldsEntries data requestTlvStart (requestEntries request) n)
        ∧ st.requests key = some request)
      (s.request key) (okOr (.account .accountNotInitialized) (st.requests key)) := by
  have hrel := h.requests key
  rw [Accounts.request]
  generalize s.requests key = data, st.requests key = request at hrel ⊢
  cases hrel with
  | some hdata => exact Follows.ok ⟨hdata, rfl⟩
  | none => exact Follows.error _

theorem exitVault_follows (h : Represents s st) {fields : List Byte}
    (hfits : fields.length ≤ tlvStart) :
    FollowsStore (s.exec (.exitVault fields hfits)) (st.exec (.exitVault fields hfits)) := by
  obtain ⟨data, hcopy, hdata⟩ := h.vault.exit hfits
  exact Follows.after hcopy (Follows.ok (h.withVault hdata h.distinct h.written))

theorem exitRequest_follows (h : Represents s st) (key : Pubkey) {fields : List Byte}
    (hfits : fields.length ≤ requestTlvStart) :
    FollowsStore (s.exec (.exitRequest key fields hfits))
      (st.exec (.exitRequest key fields hfits)) := by
  refine Follows.bind (request_follows h key) fun data request ⟨⟨n, hdata⟩, hst⟩ => ?_
  obtain ⟨data', hcopy, hdata'⟩ := hdata.exit hfits
  refine Follows.after hcopy (Follows.ok ?_)
  have hsame : Represents { s with requests := update s.requests key (some data') }
      { st with requests := update st.requests key (some request) } :=
    h.withRequest (.some ⟨n, hdata'⟩)
  rwa [← hst, update_eq_self] at hsame

theorem closeRequest_follows (h : Represents s st) (key : Pubkey) :
    FollowsStore (s.exec (.closeRequest key)) (st.exec (.closeRequest key)) :=
  Follows.bind (request_follows h key) fun _ _ _ => Follows.ok (h.withRequest .none)

theorem initializeVault_follows (h : Represents s st) :
    FollowsStore (s.exec .initializeVault) (st.exec .initializeVault) :=
  Follows.bind (Follows.require _ (by rw [h.initialized])) fun _ _ _ =>
    Follows.ok ⟨rfl, h.vault, h.requests, h.distinct, h.written⟩

theorem advanceQueue_follows (h : Represents s st) (type : RequestType) (key : Pubkey) :
    FollowsStore (s.exec (.advanceQueue type key)) (st.exec (.advanceQueue type key)) := by
  refine Follows.bind (request_follows h key) fun data request ⟨⟨n, hdata⟩, _⟩ => ?_
  have hread := readQueue_eq h.vault type
  rw [AccountData.checkAndAdvanceQueue, bind_assoc]
  refine Follows.after hread ?_
  cases hq : st.queue type with
  | none => exact Follows.ok h
  | some q =>
    simp only [bind_assoc]
    refine Follows.after (readRequestExtension_eq hdata type) ?_
    refine Follows.bind (Follows.okOr (R := Eq) _ ?_) fun id id' hid => ?_
    · cases TlvStore.idOf type request <;> constructor
      rfl
    obtain rfl := hid
    refine Follows.bind (Follows.require _ Iff.rfl) fun _ _ _ => ?_
    have hupdate := updateVaultExtension_follows h (written_queueExtension type
      { q with lastProcessed := id })
    rw [type_queueExtension, TlvStore.queue_eq_some hq] at hupdate
    obtain ⟨data', hdata', hR⟩ := hupdate
    exact Follows.after hdata' (Follows.ok hR)

/-- **Every step on the accounts follows the step on the store.** -/
theorem exec_follows (h : Represents s st) (op : AccountStep) :
    FollowsStore (s.exec op) (st.exec op) := by
  cases op with
  | initExtension v hv => exact initExtension_follows h v hv
  | updateExtension v hv => exact updateExtension_follows h v hv
  | initializeVault => exact initializeVault_follows h
  | exitVault fields hfits => exact exitVault_follows h hfits
  | createRequest key type tranche => exact createRequest_follows h key type tranche
  | exitRequest key fields hfits => exact exitRequest_follows h key hfits
  | advanceQueue type key => exact advanceQueue_follows h type key
  | closeRequest key => exact closeRequest_follows h key

end Steps

end AsyncVault
