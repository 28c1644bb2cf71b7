/-
AsyncVault/PolicyTreeScript.lean

The TypeScript helper's side of a policy, and that it agrees with the Rust
client.

Digests are byte strings here, compared byte by byte, and numbers are signed.
Numbers that are not integers, which the helper refuses, are left out.  On what
the Rust client can be given (32-byte digests, fields of their widths) both give
the same leaves, trees and proofs.
-/
import AsyncVault.PolicyTree

namespace AsyncVault

open Checked Bytes

namespace TypescriptClient

def maxCpiAccounts : ℕ := 64
def maxInstructionDataLength : ℕ := 1024
def maxOperators : ℕ := 32
def maxIngestedInstructionBytes : ℤ := 2048
/-- `1 << 12` -/
def maxPolicyLeaves : ℕ := 2 ^ 12
def maxU64 : ℤ := 2 ^ 64 - 1
def maxSafeInteger : ℤ := 2 ^ 53 - 1

/-- What the helper throws: a `RangeError` of its own, or the engine's error at a missing value. -/
inductive Thrown
  | rangeError (message : String)
  | typeError
  deriving DecidableEq

/-- An account of the managed call, with the flags it is passed with. -/
structure StrategyPolicyAccountMeta where
  address : Pubkey
  isSigner : Bool
  isWritable : Bool
  deriving DecidableEq

/-- What a leaf commits to beside its fixed fields; offsets and indices are plain numbers. -/
inductive PolicyOperatorArgs
  | ingestInstruction (offset length : ℤ)
  | ingestAccount (index : ℤ)
  | managerLimitAmount (offset : ℤ)
  deriving DecidableEq

/-- `number | bigint` -/
inductive PolicyVersion
  | number (n : ℤ)
  | bigint (n : ℤ)
  deriving DecidableEq

/-- The input of a leaf; `programAddress` is the deployed program unless given. -/
structure StrategyPolicyLeafInput where
  vault : Pubkey
  strategist : Pubkey
  policyVersion : PolicyVersion
  targetProgram : Pubkey
  instructionData : List Byte
  accounts : List StrategyPolicyAccountMeta
  operators : List PolicyOperatorArgs
  programAddress : Option Pubkey
  deriving DecidableEq

/-- A tree as the helper returns it: sorted leaves, every level from them up, and the root. -/
structure StrategyPolicyMerkleTree where
  leaves : List (List Byte)
  levels : List (List (List Byte))
  root : List Byte
  deriving DecidableEq

/-- Throws a `RangeError` unless the condition holds. -/
def assertRange (condition : Prop) [Decidable condition] (message : String) :
    Except Thrown Unit :=
  require (.rangeError message) condition

@[simp] theorem assertRange_eq_ok {c : Prop} [Decidable c] {message : String} {u : Unit} :
    assertRange c message = .ok u ↔ c := require_eq_ok

/-- The flags as the program sees them: the vault signs for itself and is never writable. -/
def normalizeStrategyPolicyAccounts (vault : Pubkey)
    (accounts : List StrategyPolicyAccountMeta) : List StrategyPolicyAccountMeta :=
  accounts.map fun account => { account with
    isSigner := account.isSigner || account.address = vault
    isWritable := if account.address = vault then false else account.isWritable }

/-- `DataView.setUint16`, little-endian; a number out of range wraps. -/
def encodeU16 (value : ℤ) : List Byte := littleEndian 2 (value % 2 ^ 16).toNat
/-- `DataView.setUint32`. -/
def encodeU32 (value : ℤ) : List Byte := littleEndian 4 (value % 2 ^ 32).toNat
/-- `DataView.setBigUint64`. -/
def encodeU64 (value : ℤ) : List Byte := littleEndian 8 (value % 2 ^ 64).toNat

variable (hash : List Byte → Digest)

/-- The digest as bytes. -/
def sha256 (bytes : List Byte) : List Byte := (hash bytes).toBytes

/-! ### The leaf -/

/-- What hashing a leaf has gathered while it goes through the operators. -/
structure LeafBuffer where
  bytes : List Byte
  hasManagerLimitAmount : Bool
  ingestedInstructionBytes : ℤ

/-- One turn of the loop over the operators. -/
def StrategyPolicyLeafInput.ingest (input : StrategyPolicyLeafInput) (buf : LeafBuffer) :
    PolicyOperatorArgs → Except Thrown LeafBuffer
  | .ingestInstruction offset length => do
    assertRange (length > 0) "instruction ingestion length must be nonzero"
    let stop := offset + length
    assertRange (offset ≥ 0 ∧ offset ≤ 0xffff ∧ length ≤ 0xffff
        ∧ stop ≤ input.instructionData.length)
      "instruction ingestion range is out of bounds"
    let ingested := buf.ingestedInstructionBytes + length
    assertRange (ingested ≤ maxIngestedInstructionBytes)
      "policy instruction ingestion exceeds the 2048-byte limit"
    pure { buf with
      bytes := buf.bytes ++ [0] ++ encodeU16 offset ++ encodeU16 length
        ++ between input.instructionData offset.toNat stop.toNat
      ingestedInstructionBytes := ingested }
  | .ingestAccount index => do
    assertRange (index ≥ 0 ∧ index ≤ 0xff ∧ index < input.accounts.length)
      "account ingestion index is out of bounds"
    let account ← okOr .typeError input.accounts[index.toNat]?
    pure { buf with
      bytes := buf.bytes ++ [1, .ofInt 8 index] ++ account.address.toBytes
        ++ [boolByte account.isSigner, boolByte account.isWritable] }
  | .managerLimitAmount offset => do
    assertRange (buf.hasManagerLimitAmount = false) "only one manager-limit amount is allowed"
    assertRange (offset ≥ 0 ∧ offset ≤ 0xffff ∧ offset + 8 ≤ input.instructionData.length)
      "manager-limit amount range is out of bounds"
    pure { buf with
      bytes := buf.bytes ++ [2] ++ encodeU16 offset
      hasManagerLimitAmount := true }

/-- `BigInt(input.policyVersion)`, of a safe integer where it is a number. -/
def PolicyVersion.toBigInt : PolicyVersion → Except Thrown ℤ
  | .number n => do
    assertRange (-maxSafeInteger ≤ n ∧ n ≤ maxSafeInteger)
      "numeric policyVersion must be a safe integer; use bigint for larger values"
    pure n
  | .bigint n => pure n

/-- The digest of a leaf: its fixed fields and then its operators, behind the leaf domain. -/
def hashStrategyPolicyLeaf (input : StrategyPolicyLeafInput) : Except Thrown (List Byte) := do
  assertRange (input.instructionData.length ≥ 8
      ∧ input.instructionData.length ≤ maxInstructionDataLength)
    "instructionData must contain at least an 8-byte discriminator and at most 1024 bytes"
  assertRange (input.accounts.length ≤ maxCpiAccounts) "managed CPI has too many accounts"
  assertRange (input.operators.length ≤ maxOperators) "policy has too many operators"
  let version ← input.policyVersion.toBigInt
  assertRange (version ≥ 0 ∧ version ≤ maxU64) "policyVersion must fit in a u64"
  let bytes := strategyLeafDomain ++ (input.programAddress.getD asyncVaultV2Id).toBytes
    ++ input.vault.toBytes ++ input.strategist.toBytes ++ encodeU64 version
    ++ input.targetProgram.toBytes ++ between input.instructionData 0 8
    ++ encodeU32 input.instructionData.length ++ encodeU16 input.accounts.length
    ++ [.ofNat 8 input.operators.length]
  let buf ← input.operators.foldlM input.ingest ⟨bytes, false, 0⟩
  pure (sha256 hash buf.bytes)

/-! ### The tree -/

/-- Passes a digest on, if it has the length of one. -/
def assertHash (value : List Byte) : Except Thrown (List Byte) := do
  assertRange (value.length = 32) "Merkle hashes must contain exactly 32 bytes"
  pure value

/-- The parent of two digests, the lower one first. -/
def hashStrategyPolicyNode (first second : List Byte) : Except Thrown (List Byte) := do
  let left ← assertHash first
  let right ← assertHash second
  let (lower, upper) := if compareBytes left right ≤ 0 then (left, right) else (right, left)
  pure (sha256 hash (strategyNodeDomain ++ lower ++ upper))

/-- The loop over `current`, with the levels it pushes. -/
def buildLevels : ℕ → List (List Byte) → Except Thrown (List (List (List Byte)))
  | 0, current => pure [current]
  | fuel + 1, current =>
    if current.length > 1 then do
      let next ← (MerkleTree.pairs current).mapM fun pair =>
        hashStrategyPolicyNode hash pair.1 pair.2
      let levels ← buildLevels fuel next
      pure (current :: levels)
    else pure [current]

/-- The tree over the leaves in ascending order. -/
def buildStrategyPolicyMerkleTree (leafHashes : List (List Byte)) :
    Except Thrown StrategyPolicyMerkleTree := do
  assertRange (leafHashes.length > 0) "at least one policy leaf is required"
  assertRange (leafHashes.length ≤ maxPolicyLeaves)
    "policy tree exceeds the 4096-leaf proof-depth limit"
  let leafHashes ← leafHashes.mapM assertHash
  let current := leafHashes.insertionSort fun a b => compareBytes a b ≤ 0
  let levels ← buildLevels hash current.length current
  let root ← okOr .typeError (MerkleTree.rootOf levels)
  pure { leaves := current, levels := levels, root := root }

/-- The loop over the levels below the root; a node without a sibling is its own. -/
def siblings : List (List (List Byte)) → ℕ → Option (List (List Byte))
  | [], _ => some []
  | level :: rest, index => do
    let siblingIndex := if index % 2 = 0 then index + 1 else index - 1
    let sibling ← level[siblingIndex]?.or level[index]?
    let proof ← siblings rest (index / 2)
    pure (sibling :: proof)

/-- The siblings on the way from a leaf to the root. -/
def getStrategyPolicyProof (tree : StrategyPolicyMerkleTree) (sortedLeafIndex : ℤ) :
    Except Thrown (List (List Byte)) := do
  assertRange (sortedLeafIndex ≥ 0 ∧ sortedLeafIndex < tree.leaves.length)
    "sorted leaf index is out of bounds"
  okOr .typeError
    (siblings (tree.levels.take (tree.levels.length - 1)) sortedLeafIndex.toNat)

/-! ### The Rust client's inputs as the helper's -/

/-- An account of the Rust client. -/
def accountOf (a : RustClient.StrategyPolicyAccountMeta) : StrategyPolicyAccountMeta :=
  { address := a.address, isSigner := a.isSigner, isWritable := a.isWritable }

/-- An operator of the Rust client. -/
def operatorOf : PolicyOperator → PolicyOperatorArgs
  | .ingestInstruction offset length => .ingestInstruction offset.toNat length.toNat
  | .ingestAccount index => .ingestAccount index.toNat
  | .managerLimitAmount offset => .managerLimitAmount offset.toNat

/-- The version is the given one, as a number only where it is a safe integer. -/
inductive PolicyVersion.Stands (n : BitVec 64) : PolicyVersion → Prop
  | number : (n.toNat : ℤ) ≤ maxSafeInteger → Stands n (.number n.toNat)
  | bigint : Stands n (.bigint n.toNat)

/-- The helper's input for a leaf of the Rust client. -/
structure Renders (l : RustClient.StrategyPolicyLeaf) (input : StrategyPolicyLeafInput) : Prop where
  programAddress : input.programAddress.getD asyncVaultV2Id = l.programAddress
  vault : input.vault = l.vault
  strategist : input.strategist = l.strategist
  policyVersion : input.policyVersion.Stands l.policyVersion
  targetProgram : input.targetProgram = l.targetProgram
  instructionData : input.instructionData = l.instructionData
  accounts : input.accounts = l.accounts.map accountOf
  operators : input.operators = l.operators.map operatorOf

/-- A tree of the Rust client. -/
def treeOf (tree : RustClient.StrategyPolicyMerkleTree) : StrategyPolicyMerkleTree :=
  { leaves := tree.leaves.map Digest.toBytes
    levels := tree.levels.map (List.map Digest.toBytes)
    root := tree.root.toBytes }

/-- Both clients set the same flags. -/
theorem normalizeStrategyPolicyAccounts_accountOf (vault : Pubkey)
    (metas : List RustClient.StrategyPolicyAccountMeta) :
    normalizeStrategyPolicyAccounts vault (metas.map accountOf)
      = (RustClient.normalizePolicyAccounts vault metas).map accountOf := by
  rw [normalizeStrategyPolicyAccounts, RustClient.normalizePolicyAccounts, List.map_map,
    List.map_map]
  apply List.map_congr_left
  intro a _
  by_cases ha : a.address = vault
  · simp [accountOf, ha]
  · simp [accountOf, ha]

/-! ### The same leaves -/

variable {hash} {l : RustClient.StrategyPolicyLeaf} {input : StrategyPolicyLeafInput}

/-- In range nothing wraps. -/
theorem encodeU16_natCast {n : ℕ} (h : n < 2 ^ 16) : encodeU16 n = littleEndian 2 n := by
  have hn : ((n : ℤ) % 2 ^ 16).toNat = n := by omega
  rw [encodeU16, hn]

theorem encodeU32_natCast {n : ℕ} (h : n < 2 ^ 32) : encodeU32 n = littleEndian 4 n := by
  have hn : ((n : ℤ) % 2 ^ 32).toNat = n := by omega
  rw [encodeU32, hn]

theorem encodeU64_natCast {n : ℕ} (h : n < 2 ^ 64) : encodeU64 n = littleEndian 8 n := by
  have hn : ((n : ℤ) % 2 ^ 64).toNat = n := by omega
  rw [encodeU64, hn]

/-- The Rust client's buffer as the helper's. -/
def scriptBuffer (buf : RustClient.LeafBuffer) : LeafBuffer :=
  ⟨buf.bytes, buf.hasManagerLimitAmount, buf.ingestedInstructionBytes⟩

/-- One operator is taken in by both clients or by neither, with the same bytes. -/
theorem ingest_eq_ok (hin : Renders l input) {buf : RustClient.LeafBuffer} {op : PolicyOperator}
    {buf' : LeafBuffer} :
    input.ingest (scriptBuffer buf) (operatorOf op) = .ok buf' ↔
      ∃ b, l.ingest buf op = .ok b ∧ buf' = scriptBuffer b := by
  -- one operator kind at a time; the helper's range checks are the Rust client's conversions
  cases op with
  | ingestInstruction offset length =>
    have ho : offset.toNat < 2 ^ 16 := offset.isLt
    have hl : length.toNat < 2 ^ 16 := length.isLt
    have hto : ((offset.toNat : ℤ) + length.toNat).toNat = offset.toNat + length.toNat := by omega
    simp only [operatorOf, StrategyPolicyLeafInput.ingest, RustClient.StrategyPolicyLeaf.ingest,
      bind_eq_ok, require_eq_ok, assertRange_eq_ok, add_eq_ok, okOr_eq_ok, pure_eq_ok,
      slice_eq_some, hin.instructionData, encodeU16_natCast ho, encodeU16_natCast hl, hto,
      Int.toNat_natCast]
    simp only [scriptBuffer, maxIngestedInstructionBytes, RustClient.maxIngestedInstructionBytes,
      u64]
    constructor
    · rintro ⟨_, hpos, _, ⟨-, -, -, hstop⟩, _, hle, rfl⟩
      have hin : offset.toNat + length.toNat ≤ l.instructionData.length := by exact_mod_cast hstop
      have hsel := length_between hin
      refine ⟨_, ⟨(), by omega, _, ⟨by omega, rfl⟩, _, ⟨⟨by omega, hin⟩, rfl⟩, _, ⟨by omega, rfl⟩,
        (), by omega, rfl⟩, ?_⟩
      simp [hsel]
    · rintro ⟨_, ⟨_, hpos, stop, ⟨-, rfl⟩, selected, ⟨⟨-, hstop⟩, rfl⟩, ingested, ⟨-, rfl⟩, _, hle,
        rfl⟩, rfl⟩
      have hsel := length_between hstop
      refine ⟨(), by omega, (), ⟨by omega, by omega, by omega, by omega⟩, (), by omega, ?_⟩
      simp [hsel]
  | ingestAccount index =>
    have hi : index.toNat < 2 ^ 8 := index.isLt
    simp only [operatorOf, StrategyPolicyLeafInput.ingest, RustClient.StrategyPolicyLeaf.ingest,
      bind_eq_ok, assertRange_eq_ok, okOr_eq_ok, pure_eq_ok, hin.accounts, List.getElem?_map,
      Option.map_eq_some_iff, Int.toNat_natCast]
    constructor
    · rintro ⟨_, -, _, ⟨account, haccount, rfl⟩, rfl⟩
      exact ⟨_, ⟨account, haccount, rfl⟩, by simp [scriptBuffer, accountOf]⟩
    · rintro ⟨_, ⟨account, haccount, rfl⟩, rfl⟩
      have hlt := (List.getElem?_eq_some_iff.1 haccount).1
      refine ⟨(), ⟨by omega, by omega, ?_⟩, _, ⟨account, haccount, rfl⟩, ?_⟩
      · rw [List.length_map]
        exact_mod_cast hlt
      · simp [scriptBuffer, accountOf]
  | managerLimitAmount offset =>
    have ho : offset.toNat < 2 ^ 16 := offset.isLt
    simp only [operatorOf, StrategyPolicyLeafInput.ingest, RustClient.StrategyPolicyLeaf.ingest,
      bind_eq_ok, require_eq_ok, assertRange_eq_ok, add_eq_ok, okOr_eq_ok, pure_eq_ok,
      slice_eq_some, hin.instructionData, encodeU16_natCast ho]
    simp only [scriptBuffer, u64]
    constructor
    · rintro ⟨_, hnone, _, ⟨-, -, hstop⟩, rfl⟩
      have hstop : offset.toNat + 8 ≤ l.instructionData.length := by exact_mod_cast hstop
      exact ⟨_, ⟨(), hnone, _, ⟨by omega, rfl⟩, _, ⟨⟨by omega, hstop⟩, rfl⟩, rfl⟩, rfl⟩
    · rintro ⟨_, ⟨_, hnone, stop, ⟨-, rfl⟩, raw, ⟨⟨-, hstop⟩, rfl⟩, rfl⟩, rfl⟩
      exact ⟨(), hnone, (), ⟨by omega, by omega, by exact_mod_cast hstop⟩, rfl⟩

/-- So are all operators in turn. -/
theorem foldlM_ingest_eq_ok (hin : Renders l input) {buf : RustClient.LeafBuffer}
    {ops : List PolicyOperator} {buf' : LeafBuffer} :
    (ops.map operatorOf).foldlM input.ingest (scriptBuffer buf) = .ok buf' ↔
      ∃ b, ops.foldlM l.ingest buf = .ok b ∧ buf' = scriptBuffer b := by
  induction ops generalizing buf with
  | nil =>
    simp only [List.map_nil, List.foldlM_nil, pure_eq_ok]
    constructor
    · rintro rfl
      exact ⟨buf, rfl, rfl⟩
    · rintro ⟨b, rfl, rfl⟩
      rfl
  | cons op ops ih =>
    simp only [List.map_cons, List.foldlM_cons, bind_eq_ok]
    constructor
    · rintro ⟨mid, hop, hops⟩
      obtain ⟨b, hb, rfl⟩ := (ingest_eq_ok hin).1 hop
      obtain ⟨c, hc, rfl⟩ := ih.1 hops
      exact ⟨c, ⟨b, hb, hc⟩, rfl⟩
    · rintro ⟨c, ⟨b, hb, hc⟩, rfl⟩
      exact ⟨scriptBuffer b, (ingest_eq_ok hin).2 ⟨b, hb, rfl⟩, ih.2 ⟨c, hc, rfl⟩⟩

/-- A version that stands for a 64-bit number is converted to it. -/
theorem toBigInt_eq_ok {n : BitVec 64} {v : PolicyVersion} (h : v.Stands n) {z : ℤ} :
    v.toBigInt = .ok z ↔ z = n.toNat := by
  cases h with
  | number hsafe =>
    -- a stored version is never negative, so only the upper bound can be missed
    have hneg : -maxSafeInteger ≤ n.toNat := by
      simp only [maxSafeInteger]
      omega
    simp only [PolicyVersion.toBigInt, bind_eq_ok, assertRange_eq_ok, pure_eq_ok]
    constructor
    · rintro ⟨-, -, rfl⟩
      rfl
    · rintro rfl
      exact ⟨(), ⟨hneg, hsafe⟩, rfl⟩
  | bigint => exact pure_eq_ok.trans eq_comm

/-- **The helper hashes a leaf exactly when the Rust client does, to the same digest.** -/
theorem hashStrategyPolicyLeaf_eq_ok (hin : Renders l input) {bytes : List Byte} :
    hashStrategyPolicyLeaf hash input = .ok bytes ↔
      ∃ leaf, RustClient.hashStrategyPolicyLeaf hash l = .ok leaf ∧ bytes = leaf.toBytes := by
  have hversion := l.policyVersion.isLt
  simp only [hashStrategyPolicyLeaf, RustClient.hashStrategyPolicyLeaf, bind_eq_ok, require_eq_ok,
    assertRange_eq_ok, pure_eq_ok, toBigInt_eq_ok hin.policyVersion, hin.programAddress, hin.vault,
    hin.strategist, hin.targetProgram, hin.instructionData, hin.accounts, hin.operators,
    List.length_map]
  -- within the bounds the fixed fields are encoded alike
  have hsame : l.instructionData.length ≤ maxInstructionDataLength →
      l.accounts.length ≤ maxCpiAccounts → l.operators.length ≤ maxOperators →
      encodeU32 l.instructionData.length = littleEndian 4 (l.instructionData.length % u32) ∧
      encodeU16 l.accounts.length = littleEndian 2 (l.accounts.length % u16) ∧
      l.operators.length % u8 = l.operators.length := by
    intro hdata haccounts hops
    simp only [maxInstructionDataLength, maxCpiAccounts, maxOperators, u32, u16, u8] at *
    refine ⟨?_, ?_, Nat.mod_eq_of_lt (by omega)⟩
    · rw [encodeU32_natCast (by omega), Nat.mod_eq_of_lt (by omega)]
    · rw [encodeU16_natCast (by omega), Nat.mod_eq_of_lt (by omega)]
  have htake : between l.instructionData 0 8 = l.instructionData.take 8 := rfl
  constructor
  · rintro ⟨_, ⟨hge, hle⟩, _, haccounts, _, hops, version, rfl, _, -, buf, hfold, rfl⟩
    obtain ⟨e₁, e₂, e₃⟩ := hsame hle haccounts hops
    rw [e₁, e₂, htake, encodeU64_natCast hversion] at hfold
    have hfold : (l.operators.map operatorOf).foldlM input.ingest
        (scriptBuffer ⟨_, false, 0⟩) = .ok buf := hfold
    obtain ⟨b, hb, rfl⟩ := (foldlM_ingest_eq_ok hin).1 hfold
    refine ⟨hash b.bytes, ⟨(), ⟨hge, hle⟩, (), haccounts, (), hops, b, ?_, rfl⟩, rfl⟩
    rw [e₃]
    exact hb
  · rintro ⟨_, ⟨_, ⟨hge, hle⟩, _, haccounts, _, hops, b, hb, rfl⟩, rfl⟩
    obtain ⟨e₁, e₂, e₃⟩ := hsame hle haccounts hops
    rw [e₃] at hb
    refine ⟨(), ⟨hge, hle⟩, (), haccounts, (), hops, _, rfl, (), ?_, scriptBuffer b, ?_, rfl⟩
    · simp only [maxU64]
      omega
    · rw [e₁, e₂, htake, encodeU64_natCast hversion]
      exact (foldlM_ingest_eq_ok hin).2 ⟨b, hb, rfl⟩

/-! ### The same trees and proofs -/

/-- A digest has the length of one. -/
theorem assertHash_toBytes (d : Digest) : assertHash d.toBytes = .ok d.toBytes := by
  rw [assertHash, assertRange, require, if_pos d.length_toBytes]
  rfl

/-- Byte strings of digests are ordered as the digests are. -/
theorem compareBytes_toBytes (a b : Digest) : compareBytes a.toBytes b.toBytes ≤ 0 ↔ a ≤ b :=
  compareBytes_ofWord (by decide) a b

/-- Both clients put the same parent over two digests. -/
theorem hashStrategyPolicyNode_toBytes (a b : Digest) :
    hashStrategyPolicyNode hash a.toBytes b.toBytes = .ok (hashStrategyNode hash a b).toBytes := by
  rw [hashStrategyPolicyNode, assertHash_toBytes, assertHash_toBytes, hashStrategyNode,
    nodeMessage]
  show (match (if compareBytes a.toBytes b.toBytes ≤ 0 then (a.toBytes, b.toBytes)
      else (b.toBytes, a.toBytes)) with
    | (lower, upper) =>
      (Except.ok (sha256 hash (strategyNodeDomain ++ lower ++ upper)) : Except Thrown _)) = _
  by_cases hab : a ≤ b
  · rw [if_pos hab, if_pos ((compareBytes_toBytes a b).2 hab)]
    rfl
  · rw [if_neg hab, if_neg fun h => hab ((compareBytes_toBytes a b).1 h)]
    rfl

/-- A map whose steps all succeed is a map of the values. -/
theorem mapM_eq_ok_map {α β γ : Type} {f : α → Except Thrown β} {g : γ → α} {k : γ → β}
    (h : ∀ c, f (g c) = .ok (k c)) (cs : List γ) : (cs.map g).mapM f = .ok (cs.map k) := by
  induction cs with
  | nil => rfl
  | cons c cs ih =>
    rw [List.map_cons, List.mapM_cons, h, ih]
    rfl

/-- And so the same levels over a level. -/
theorem buildLevels_map (fuel : ℕ) (level : List Digest) :
    buildLevels hash fuel (level.map Digest.toBytes)
      = .ok ((MerkleTree.levels (hashStrategyNode hash) fuel level).map
        (List.map Digest.toBytes)) := by
  induction fuel generalizing level with
  | zero => rfl
  | succ fuel ih =>
    rw [buildLevels, List.length_map]
    by_cases hone : 1 < level.length
    · -- every pair of the level hashes, since all of its nodes are digests
      have hnodes : ((MerkleTree.pairs (level.map Digest.toBytes)).mapM fun pair =>
          hashStrategyPolicyNode hash pair.1 pair.2)
          = .ok ((MerkleTree.nextLevel (hashStrategyNode hash) level).map Digest.toBytes) := by
        rw [MerkleTree.pairs_map, MerkleTree.nextLevel, List.map_map]
        apply mapM_eq_ok_map
        intro p
        exact hashStrategyPolicyNode_toBytes p.1 p.2
      rw [if_pos hone, hnodes, MerkleTree.levels_of_one_lt hone, List.map_cons]
      show (buildLevels hash fuel _ >>= fun levels => pure (_ :: levels)) = _
      rw [ih]
      rfl
    · rw [if_neg hone, MerkleTree.levels_of_le_one (by omega)]
      rfl

/-- **The helper builds the Rust client's tree, of any list of leaves.** -/
theorem buildStrategyPolicyMerkleTree_eq_ok {leaves : List Digest}
    {tree : StrategyPolicyMerkleTree} :
    buildStrategyPolicyMerkleTree hash (leaves.map Digest.toBytes) = .ok tree ↔
      ∃ t, RustClient.buildStrategyPolicyMerkleTree hash leaves = .ok t ∧ tree = treeOf t := by
  have hassert : (leaves.map Digest.toBytes).mapM assertHash = .ok (leaves.map Digest.toBytes) :=
    mapM_eq_ok_map assertHash_toBytes leaves
  have hsort : (leaves.map Digest.toBytes).insertionSort (fun a b => compareBytes a b ≤ 0)
      = (leaves.insertionSort (· ≤ ·)).map Digest.toBytes := by
    apply Eq.symm
    apply List.map_insertionSort
    intro a _ b _
    exact (compareBytes_toBytes a b).symm
  simp only [buildStrategyPolicyMerkleTree, RustClient.buildStrategyPolicyMerkleTree_eq_ok,
    bind_eq_ok, assertRange_eq_ok, okOr_eq_ok, pure_eq_ok, List.length_map, hassert,
    Except.ok.injEq]
  constructor
  -- sorting, building and the root commute with writing digests as bytes
  · rintro ⟨_, hpos, _, hle, _, rfl, levels, hlevels, root, hroot, rfl⟩
    rw [hsort, List.length_map, buildLevels_map, List.length_insertionSort] at hlevels
    obtain rfl := Except.ok.inj hlevels
    rw [MerkleTree.rootOf_map] at hroot
    obtain ⟨r, hr, rfl⟩ := Option.map_eq_some_iff.1 hroot
    refine ⟨⟨leaves.insertionSort (· ≤ ·), _, r⟩,
      ⟨⟨List.length_pos_iff.1 hpos, hle⟩, rfl, rfl, hr⟩, ?_⟩
    rw [hsort]
    rfl
  · rintro ⟨⟨treeLeaves, levels, root⟩, ⟨⟨hne, hle⟩, hleaves, hlevels, hroot⟩, rfl⟩
    dsimp only at hleaves hlevels hroot
    subst hleaves hlevels
    refine ⟨(), List.length_pos_iff.2 hne, (), hle, _, rfl,
      (MerkleTree.levels (hashStrategyNode hash) leaves.length
        (leaves.insertionSort (· ≤ ·))).map (List.map Digest.toBytes), ?_, root.toBytes, ?_, ?_⟩
    · rw [hsort, List.length_map, buildLevels_map, List.length_insertionSort]
    · rw [MerkleTree.rootOf_map, hroot]
      rfl
    · rw [hsort]
      rfl

/-- The two loops take the same siblings, missing ones included. -/
theorem siblings_eq_path (levels : List (List (List Byte))) (i : ℕ) :
    siblings levels i = MerkleTree.path levels i := by
  induction levels generalizing i with
  | nil => rfl
  | cons level rest ih =>
    have hsibling : (level[if i % 2 = 0 then i + 1 else i - 1]?.or level[i]?)
        = MerkleTree.sibling level i := by
      rw [MerkleTree.sibling]
      by_cases hi : i % 2 = 0
      · rw [if_pos hi, if_pos hi]
        -- an even node without a right neighbour is the last of its level
        cases hnext : level[i + 1]? with
        | none => cases level[i]? <;> rfl
        | some next =>
          have := (List.getElem?_eq_some_iff.1 hnext).1
          rw [List.getElem?_eq_getElem (by omega : i < level.length)]
          rfl
      · rw [if_neg hi, if_neg hi]
        cases hprev : level[i - 1]? with
        | none =>
          rw [List.getElem?_eq_none_iff] at hprev
          exact List.getElem?_eq_none_iff.2 (by omega)
        | some prev => rfl
    rw [siblings, MerkleTree.path]
    show ((level[if i % 2 = 0 then i + 1 else i - 1]?.or level[i]?) >>= _) = _
    rw [hsibling, ih]

/-- **The helper gives the Rust client's proof**, at every index of every tree. -/
theorem getStrategyPolicyProof_eq_ok {t : RustClient.StrategyPolicyMerkleTree} {i : ℕ}
    {proof : List (List Byte)} :
    getStrategyPolicyProof (treeOf t) i = .ok proof ↔
      ∃ p, RustClient.strategyPolicyProof t i = .ok p ∧ proof = p.map Digest.toBytes := by
  simp only [getStrategyPolicyProof, RustClient.strategyPolicyProof, treeOf, bind_eq_ok,
    assertRange_eq_ok, require_eq_ok, okOr_eq_ok, List.length_map, Int.toNat_natCast,
    siblings_eq_path, ← List.map_take, MerkleTree.path_map, Option.map_eq_some_iff]
  constructor
  · rintro ⟨_, ⟨-, hlt⟩, p, hp, rfl⟩
    exact ⟨p, ⟨(), by omega, hp⟩, rfl⟩
  · rintro ⟨p, ⟨_, hlt, hp⟩, rfl⟩
    exact ⟨(), ⟨by omega, by omega⟩, p, hp, rfl⟩

end TypescriptClient

end AsyncVault
