/-
AsyncVault/ExtensionStore.lean

Extensions as the bytes of an account.

A vault account holds the fields of the vault and, from `tlvStart` on, one entry
for each extension; a request account holds the fields of the request and, from
`requestTlvStart` on, the id it got from its queue.  This file translates the
functions that walk and write these regions, for the program and for the Rust
client.

Every index is checked.  A transaction that indexes a slice out of range aborts
(`Fault.outOfRange`), which is not an error the program returns, so that "no
index is out of range" is a statement about these functions.

An account is created with zeros behind its fields, and grows by zeros when an
extension is added.  The fields themselves are written by the framework when an
instruction ends; here they are any bytes that fit in front of the region.
-/
import AsyncVault.Lib.Checked
import AsyncVault.Lib.Tlv
import AsyncVault.VaultRules

namespace AsyncVault

open Checked Bytes Tlv Function

/-! ### Slices -/

/-- How an instruction on account data fails. -/
inductive Fault
  | error (e : VaultError)
  | outOfRange
  deriving DecidableEq

abbrev Access := Except Fault

/-- Fail with an error of the program. -/
def check (e : AsyncVaultError) (c : Prop) [Decidable c] : Access Unit :=
  require (.error (.async e)) c

def byteAt (bs : List Byte) (i : ℕ) : Access Byte := okOr .outOfRange bs[i]?

def rangeOf (bs : List Byte) (start stop : ℕ) : Access (List Byte) :=
  okOr .outOfRange (slice bs start stop)

/-- Write `v` over the bytes from `start` on. -/
def copyAt (bs : List Byte) (start : ℕ) (v : List Byte) : Access (List Byte) := do
  require .outOfRange (start + v.length ≤ bs.length)
  pure (splice bs start v)

def u16At (bs : List Byte) (i : ℕ) : Access ℕ := do
  let lo ← byteAt bs i
  let hi ← byteAt bs (i + 1)
  pure (ofLittleEndian [lo, hi])

/-! ### Entries -/

def tlvHeaderSize : ℕ := headerSize

/-- The loop shared by the readers and by `update_extension`: the range of the value of the first
entry of a type, from an offset on. -/
def findEntry (tlvData : List Byte) (extTypeId offset : ℕ) : Access (Option (ℕ × ℕ)) :=
  if _h : offset + tlvHeaderSize ≤ tlvData.length then do
    let entryType ← u16At tlvData offset
    let entryLen ← u16At tlvData (offset + 2)
    let valueEnd := offset + tlvHeaderSize + entryLen
    if tlvData.length < valueEnd then
      pure none
    else if entryType = extTypeId then
      pure (some (offset + tlvHeaderSize, valueEnd))
    else
      findEntry tlvData extTypeId valueEnd
  else
    pure none
termination_by tlvData.length - offset
decreasing_by
  simp only [tlvHeaderSize, headerSize] at *
  omega

def getExtensionBytesRaw (tlvData : List Byte) (extTypeId : ℕ) : Access (Option (List Byte)) := do
  match ← findEntry tlvData extTypeId 0 with
  | none => pure none
  | some (start, stop) => do
    let value ← rangeOf tlvData start stop
    pure (some value)

/-- The mutable slice is given by its range. -/
def getExtensionBytesRawMut (tlvData : List Byte) (extTypeId : ℕ) : Access (Option (ℕ × ℕ)) := do
  match ← findEntry tlvData extTypeId 0 with
  | none => pure none
  | some (start, stop) => do
    let _ ← rangeOf tlvData start stop
    pure (some (start, stop))

def hasExtensionRaw (tlvData : List Byte) (extTypeId : ℕ) : Access Bool := do
  let value ← getExtensionBytesRaw tlvData extTypeId
  pure value.isSome

def writeExtensionRaw (tlvData : List Byte) (writeOffset extTypeId dataLen : ℕ)
    (value : List Byte) : Access (List Byte) := do
  check .invalidExtensionData (value.length ≤ dataLen)
  check .invalidExtensionData (writeOffset + tlvHeaderSize + dataLen ≤ tlvData.length)
  let tlvData ← copyAt tlvData writeOffset (littleEndian 2 extTypeId)
  let tlvData ← copyAt tlvData (writeOffset + 2) (littleEndian 2 dataLen)
  let valueStart := writeOffset + tlvHeaderSize
  let tlvData ← copyAt tlvData valueStart value
  copyAt tlvData (valueStart + value.length) (zeros (dataLen - value.length))

/-- Where the entries end.  Unlike the readers, this loop stops at type zero, and it does so before
it looks at the length. -/
def tlvUsedLenFrom (tlvData : List Byte) (offset : ℕ) : Access ℕ :=
  if _h : offset + tlvHeaderSize ≤ tlvData.length then do
    let entryType ← u16At tlvData offset
    if entryType = 0 then
      pure offset
    else do
      let entryLen ← u16At tlvData (offset + 2)
      let next := offset + tlvHeaderSize + entryLen
      if tlvData.length < next then
        pure offset
      else
        tlvUsedLenFrom tlvData next
  else
    pure offset
termination_by tlvData.length - offset
decreasing_by
  simp only [tlvHeaderSize, headerSize] at *
  omega

def tlvUsedLen (tlvData : List Byte) : Access ℕ := tlvUsedLenFrom tlvData 0

/-! ### Vault extensions -/

inductive ExtensionType
  | depositFee
  | withdrawalFee
  | pausableSubscriptions
  | pausableRedemptions
  | subscriptionQueue
  | redemptionQueue
  | minSubscription
  | minRedemption
  | externallyManagedWithdrawals
  | instantSettlement
  deriving DecidableEq

namespace ExtensionType

def id : ExtensionType → ℕ
  | depositFee => 1
  | withdrawalFee => 2
  | pausableSubscriptions => 3
  | pausableRedemptions => 4
  | subscriptionQueue => 5
  | redemptionQueue => 6
  | minSubscription => 7
  | minRedemption => 8
  | externallyManagedWithdrawals => 9
  | instantSettlement => 10

def tryFromU16 : ℕ → Option ExtensionType
  | 1 => some depositFee
  | 2 => some withdrawalFee
  | 3 => some pausableSubscriptions
  | 4 => some pausableRedemptions
  | 5 => some subscriptionQueue
  | 6 => some redemptionQueue
  | 7 => some minSubscription
  | 8 => some minRedemption
  | 9 => some externallyManagedWithdrawals
  | 10 => some instantSettlement
  | _ => none

def dataLen : ExtensionType → ℕ
  | depositFee | withdrawalFee => 9
  | pausableSubscriptions | pausableRedemptions | externallyManagedWithdrawals => 1
  | instantSettlement => 56
  | subscriptionQueue | redemptionQueue => 16
  | minSubscription | minRedemption => 8

def tlvLen (t : ExtensionType) : ℕ := tlvHeaderSize + t.dataLen

end ExtensionType

/-- A fee as it is stored; `data` are its eight bytes as a number. -/
structure FeeData where
  discriminant : Byte
  data : BitVec 64
  deriving DecidableEq

/-- The counters of a queue as they are stored. -/
structure QueueData where
  total : BitVec 64
  lastProcessed : BitVec 64
  deriving DecidableEq

structure InstantSettlementData where
  minDepositAmount : BitVec 64
  maxDepositAmount : BitVec 64
  minRedeemShares : BitVec 64
  maxRedeemShares : BitVec 64
  maxUserDepositAmount : BitVec 64
  maxUserRedeemShares : BitVec 64
  enabled : Byte
  reserved : BitVec 56
  deriving DecidableEq

/-- The value of an extension, of whichever type. -/
inductive Extension
  | depositFee (fee : FeeData)
  | withdrawalFee (fee : FeeData)
  | pausableSubscriptions (paused : Byte)
  | pausableRedemptions (paused : Byte)
  | subscriptionQueue (queue : QueueData)
  | redemptionQueue (queue : QueueData)
  | minSubscription (threshold : BitVec 64)
  | minRedemption (threshold : BitVec 64)
  | externallyManagedWithdrawals (enabled : Byte)
  | instantSettlement (settlement : InstantSettlementData)
  deriving DecidableEq

def FeeData.fromFeeType : FeeType → FeeData
  | .fixedAmount amount => ⟨0, .ofNat 64 amount⟩
  | .percentage bps => ⟨1, .ofNat 64 (bps % 2 ^ 16)⟩

def FeeData.feeType (f : FeeData) : Access FeeType :=
  if f.discriminant = 0 then pure (.fixedAmount f.data.toNat)
  else if f.discriminant = 1 then pure (.percentage (f.data.toNat % 2 ^ 16))
  else .error (.error (.async .invalidExtensionData))

/-- A word in eight bytes. -/
def word (x : BitVec 64) : List Byte := littleEndian 8 x.toNat

/-- The word in the eight bytes from `i` on. -/
def wordAt (bs : List Byte) (i : ℕ) : BitVec 64 := .ofNat 64 (ofLittleEndian (between bs i (i + 8)))

namespace FeeData

def bytesOf (f : FeeData) : List Byte := f.discriminant :: word f.data

def ofBytes (bs : List Byte) : FeeData := ⟨bs.headD 0, wordAt bs 1⟩

end FeeData

namespace QueueData

def bytesOf (q : QueueData) : List Byte := word q.total ++ word q.lastProcessed

def ofBytes (bs : List Byte) : QueueData := ⟨wordAt bs 0, wordAt bs 8⟩

/-- Read the bytes of a queue without regard to alignment. -/
def tryRead (bs : List Byte) : Option QueueData :=
  if bs.length = 16 then some (ofBytes bs) else none

end QueueData

namespace InstantSettlementData

def bytesOf (s : InstantSettlementData) : List Byte :=
  word s.minDepositAmount ++ (word s.maxDepositAmount ++ (word s.minRedeemShares
    ++ (word s.maxRedeemShares ++ (word s.maxUserDepositAmount ++ (word s.maxUserRedeemShares
    ++ s.enabled :: littleEndian 7 s.reserved.toNat)))))

def ofBytes (bs : List Byte) : InstantSettlementData where
  minDepositAmount := wordAt bs 0
  maxDepositAmount := wordAt bs 8
  minRedeemShares := wordAt bs 16
  maxRedeemShares := wordAt bs 24
  maxUserDepositAmount := wordAt bs 32
  maxUserRedeemShares := wordAt bs 40
  enabled := (bs.drop 48).headD 0
  reserved := .ofNat 56 (ofLittleEndian (bs.drop 49))

end InstantSettlementData

namespace Extension

def type : Extension → ExtensionType
  | depositFee _ => .depositFee
  | withdrawalFee _ => .withdrawalFee
  | pausableSubscriptions _ => .pausableSubscriptions
  | pausableRedemptions _ => .pausableRedemptions
  | subscriptionQueue _ => .subscriptionQueue
  | redemptionQueue _ => .redemptionQueue
  | minSubscription _ => .minSubscription
  | minRedemption _ => .minRedemption
  | externallyManagedWithdrawals _ => .externallyManagedWithdrawals
  | instantSettlement _ => .instantSettlement

def bytesOf : Extension → List Byte
  | depositFee fee | withdrawalFee fee => fee.bytesOf
  | pausableSubscriptions b | pausableRedemptions b | externallyManagedWithdrawals b => [b]
  | subscriptionQueue queue | redemptionQueue queue => queue.bytesOf
  | minSubscription threshold | minRedemption threshold => word threshold
  | instantSettlement settlement => settlement.bytesOf

def ofBytes (bs : List Byte) : ExtensionType → Extension
  | .depositFee => depositFee (.ofBytes bs)
  | .withdrawalFee => withdrawalFee (.ofBytes bs)
  | .pausableSubscriptions => pausableSubscriptions (bs.headD 0)
  | .pausableRedemptions => pausableRedemptions (bs.headD 0)
  | .subscriptionQueue => subscriptionQueue (.ofBytes bs)
  | .redemptionQueue => redemptionQueue (.ofBytes bs)
  | .minSubscription => minSubscription (wordAt bs 0)
  | .minRedemption => minRedemption (wordAt bs 0)
  | .externallyManagedWithdrawals => externallyManagedWithdrawals (bs.headD 0)
  | .instantSettlement => instantSettlement (.ofBytes bs)

/-- Read the bytes of an extension without regard to alignment. -/
def tryRead (t : ExtensionType) (bs : List Byte) : Option Extension :=
  if bs.length = t.dataLen then some (ofBytes bs t) else none

/-- What the instructions write: fees made from a fee type, and flags. -/
def Written : Extension → Prop
  | depositFee fee | withdrawalFee fee => fee.discriminant = 0 ∨ fee.discriminant = 1
  | pausableSubscriptions b | pausableRedemptions b | externallyManagedWithdrawals b =>
    b = 0 ∨ b = 1
  | _ => True

/-- A fee made from a fee type is one of its two kinds. -/
theorem written_fromFeeType (fee : FeeType) : (depositFee (.fromFeeType fee)).Written := by
  cases fee with
  | fixedAmount amount => exact .inl rfl
  | percentage bps => exact .inr rfl

end Extension

/-- The queue of the vault that the requests of a type wait in. -/
def RequestType.queue : RequestType → ExtensionType
  | .deposit => .subscriptionQueue
  | .redeem => .redemptionQueue

def RequestType.queueExtension (q : QueueData) : RequestType → Extension
  | .deposit => .subscriptionQueue q
  | .redeem => .redemptionQueue q

/-- The type of the entry in which a request keeps its id. -/
def RequestType.requestExtensionId : RequestType → ℕ
  | .deposit => 1
  | .redeem => 2

def tlvStart : ℕ := 8 + 664

def requestTlvStart : ℕ := 8 + 203

/-- The length of the id a request keeps. -/
def requestDataLen : ℕ := 8

namespace AccountData

def updateExtension (tlvData : List Byte) (extType : ExtensionType) (newValue : List Byte) :
    Access (List Byte) := do
  check .invalidExtensionData (newValue.length ≤ extType.dataLen)
  match ← findEntry tlvData extType.id 0 with
  | none => .error (.error (.async .uninitializedExtension))
  | some (valueStart, valueEnd) => do
    let tlvData ← copyAt tlvData valueStart newValue
    -- the rest of the old value is zeroed; a new value that is longer leaves no range
    let rest ← rangeOf tlvData (valueStart + newValue.length) valueEnd
    copyAt tlvData (valueStart + newValue.length) (zeros rest.length)

def initVaultExtension (initialized : Bool) (data : List Byte) (value : Extension) :
    Access (List Byte) := do
  check .vaultAlreadyInitialized (initialized = false)
  let tlvData ← rangeOf data tlvStart data.length
  let present ← hasExtensionRaw tlvData value.type.id
  check .extensionAlreadyInitialized (present = false)
  let writeOffset ← tlvUsedLen tlvData
  let tlvData ← writeExtensionRaw tlvData writeOffset value.type.id value.type.dataLen value.bytesOf
  pure (data.take tlvStart ++ tlvData)

def updateVaultExtension (data : List Byte) (value : Extension) : Access (List Byte) := do
  let tlvData ← rangeOf data tlvStart data.length
  let tlvData ← updateExtension tlvData value.type value.bytesOf
  pure (data.take tlvStart ++ tlvData)

/-- `tryRead` says how the bytes of the extension type become a value. -/
def readVaultExtension {E : Type} (extType : ExtensionType) (tryRead : List Byte → Option E)
    (accountData : List Byte) : Access (Option E) :=
  if accountData.length ≤ tlvStart then pure none
  else do
    let tlvData ← rangeOf accountData tlvStart accountData.length
    match ← getExtensionBytesRaw tlvData extType.id with
    | none => pure none
    | some bytes => do
      let value ← okOr (.error (.async .invalidExtensionData)) (tryRead bytes)
      pure (some value)

/-- The extension of a type in a vault account. -/
def readExtension (accountData : List Byte) (t : ExtensionType) : Access (Option Extension) :=
  readVaultExtension t (Extension.tryRead t) accountData

/-! ### Request extensions -/

def initRequestExtension (data : List Byte) (type : RequestType) (id : BitVec 64) :
    Access (List Byte) := do
  let tlvData ← rangeOf data requestTlvStart data.length
  let writeOffset ← tlvUsedLen tlvData
  let tlvData ← writeExtensionRaw tlvData writeOffset type.requestExtensionId requestDataLen
    (word id)
  pure (data.take requestTlvStart ++ tlvData)

def hasRequestExtension (accountData : List Byte) (type : RequestType) : Access Bool :=
  if accountData.length ≤ requestTlvStart then pure false
  else do
    let tlvData ← rangeOf accountData requestTlvStart accountData.length
    hasExtensionRaw tlvData type.requestExtensionId

/-- The id a request got from its queue. -/
def readRequestExtension (accountData : List Byte) (type : RequestType) :
    Access (Option (BitVec 64)) :=
  if accountData.length ≤ requestTlvStart then pure none
  else do
    let tlvData ← rangeOf accountData requestTlvStart accountData.length
    match ← getExtensionBytesRaw tlvData type.requestExtensionId with
    | none => pure none
    | some bytes => do
      let id ← okOr (.error (.async .invalidExtensionData))
        (if bytes.length = requestDataLen then some (wordAt bytes 0) else none)
      pure (some id)

def computeRequestExtensionSpace (vaultData : List Byte) : Access ℕ :=
  if vaultData.length ≤ tlvStart then pure 0
  else do
    let tlvData ← rangeOf vaultData tlvStart vaultData.length
    let subscription ← hasExtensionRaw tlvData ExtensionType.subscriptionQueue.id
    let redemption ← hasExtensionRaw tlvData ExtensionType.redemptionQueue.id
    pure ((if subscription then tlvHeaderSize + requestDataLen else 0)
      + if redemption then tlvHeaderSize + requestDataLen else 0)

/-! ### Queues -/

/-- Count a request in and give it an id, in place; nothing without the queue. -/
def nextQueueRequestId (data : List Byte) (type : RequestType) :
    Access (List Byte × Option (BitVec 64)) :=
  if data.length ≤ tlvStart then pure (data, none)
  else do
    let tlvData ← rangeOf data tlvStart data.length
    match ← getExtensionBytesRawMut tlvData type.queue.id with
    | none => pure (data, none)
    | some (start, stop) => do
      let valueBytes ← rangeOf tlvData start stop
      let queue ← okOr (.error (.async .invalidExtensionData)) (QueueData.tryRead valueBytes)
      let id := queue.total + 1
      let tlvData ← copyAt tlvData start (QueueData.bytesOf { queue with total := id })
      pure (data.take tlvStart ++ tlvData, some id)

def hasFifoQueue (data : List Byte) (type : RequestType) : Access Bool := do
  let queue ← readVaultExtension type.queue QueueData.tryRead data
  pure queue.isSome

/-- Advance the queue to a request, whose turn it must be; nothing without the queue. -/
def checkAndAdvanceQueue (vaultData requestData : List Byte) (type : RequestType) :
    Access (List Byte) := do
  match ← readVaultExtension type.queue QueueData.tryRead vaultData with
  | none => pure vaultData
  | some queue => do
    let id ← readRequestExtension requestData type
    let id ← okOr (.error (.async .uninitializedExtension)) id
    check type.outOfOrderError (id = queue.lastProcessed + 1)
    updateVaultExtension vaultData (type.queueExtension { queue with lastProcessed := id })

end AccountData

/-! ### Accounts -/

/-- A vault account and its request accounts, as bytes; `initialized` is the field of the vault that
closes it for new extensions. -/
structure Accounts where
  initialized : Bool
  vault : List Byte
  requests : Pubkey → Option (List Byte)

/-- What instructions do to the regions.  `tranche` is the id a tranche vault gives out in place of
the vault's own queue. -/
inductive AccountStep
  | initExtension (value : Extension) (written : value.Written)
  | updateExtension (value : Extension) (written : value.Written)
  | initializeVault
  | exitVault (fields : List Byte) (fits : fields.length ≤ tlvStart)
  | createRequest (key : Pubkey) (type : RequestType) (tranche : Option (BitVec 64))
  | exitRequest (key : Pubkey) (fields : List Byte) (fits : fields.length ≤ requestTlvStart)
  | advanceQueue (type : RequestType) (key : Pubkey)
  | closeRequest (key : Pubkey)

namespace Accounts

/-- A vault account just created. -/
def new : Accounts where
  initialized := false
  vault := zeros tlvStart
  requests _ := none

def request (s : Accounts) (key : Pubkey) : Access (List Byte) :=
  okOr (.error (.account .accountNotInitialized)) (s.requests key)

def exec (s : Accounts) : AccountStep → Access Accounts
  | .initExtension value _ => do
    -- the account has grown before the handler runs
    let data := s.vault ++ zeros value.type.tlvLen
    let data ← AccountData.initVaultExtension s.initialized data value
    pure { s with vault := data }
  | .updateExtension value _ => do
    let data ← AccountData.updateVaultExtension s.vault value
    pure { s with vault := data }
  | .initializeVault => do
    check .vaultAlreadyInitialized (s.initialized = false)
    pure { s with initialized := true }
  | .exitVault fields _ => do
    let data ← copyAt s.vault 0 fields
    pure { s with vault := data }
  | .createRequest key type tranche => do
    require (.error (.account .accountInUse)) (s.requests key).isNone
    let space ← AccountData.computeRequestExtensionSpace s.vault
    let data := zeros (requestTlvStart + space)
    let (vault, id) ←
      (match tranche with
      | some id => do
        let queued ← AccountData.hasFifoQueue s.vault type
        pure (s.vault, if queued then some id else none)
      | none => AccountData.nextQueueRequestId s.vault type)
    let data ←
      (match id with
      | some id => AccountData.initRequestExtension data type id
      | none => pure data)
    pure { s with vault := vault, requests := update s.requests key (some data) }
  | .exitRequest key fields _ => do
    let data ← s.request key
    let data ← copyAt data 0 fields
    pure { s with requests := update s.requests key (some data) }
  | .advanceQueue type key => do
    let data ← s.request key
    let vault ← AccountData.checkAndAdvanceQueue s.vault data type
    pure { s with vault := vault }
  | .closeRequest key => do
    let _ ← s.request key
    pure { s with requests := update s.requests key none }

end Accounts

/-! ### The Rust client -/

namespace RustClient

def clientRequestTlvStart : ℕ := 211

/-- The client's own loop. -/
def getTlvBytesFrom (tlvData : List Byte) (extType offset : ℕ) : Access (Option (List Byte)) :=
  if h : offset + 4 ≤ tlvData.length then do
    let entryType ← u16At tlvData offset
    let entryLen ← u16At tlvData (offset + 2)
    let valueEnd := offset + 4 + entryLen
    if tlvData.length < valueEnd then
      pure none
    else if entryType = extType then do
      let value ← rangeOf tlvData (offset + 4) valueEnd
      pure (some value)
    else
      getTlvBytesFrom tlvData extType valueEnd
  else
    pure none
termination_by tlvData.length - offset

def getTlvBytes (tlvData : List Byte) (extType : ℕ) : Access (Option (List Byte)) :=
  getTlvBytesFrom tlvData extType 0

def getExtensionBytes (tlvData : List Byte) (t : ExtensionType) : Access (Option (List Byte)) :=
  getTlvBytes tlvData t.id

def getRequestExtensionBytes (requestData : List Byte) (type : RequestType) :
    Access (Option (List Byte)) :=
  if requestData.length ≤ clientRequestTlvStart then pure none
  else do
    let tlvData ← rangeOf requestData clientRequestTlvStart requestData.length
    getTlvBytes tlvData type.requestExtensionId

end RustClient

end AsyncVault
