/-
AsyncVault/PolicyTree.lean

The Rust client's side of a policy: leaves, the tree over them, and proofs.

The client rebuilds the leaf the program will hash, from the same account metas,
sorts the leaves of a policy and builds the tree whose root the policy commits.
It shares no code with the program; its checks stand in another order and have
errors of their own.  An index out of range is a panic, kept apart from the
errors the client returns.
-/
import Mathlib.Data.List.Sort
import AsyncVault.StrategyLeaf

namespace AsyncVault

open Checked Bytes

namespace RustClient

def maxCpiAccounts : ℕ := 64
def maxInstructionDataLen : ℕ := 1024
def maxPolicyOperators : ℕ := 32
def maxIngestedInstructionBytes : ℕ := 2048
/-- `1 << 12` -/
def maxPolicyLeaves : ℕ := 2 ^ 12

structure StrategyPolicyAccountMeta where
  address : Pubkey
  isSigner : Bool
  isWritable : Bool
  deriving DecidableEq

structure StrategyPolicyLeaf where
  programAddress : Pubkey
  vault : Pubkey
  strategist : Pubkey
  policyVersion : BitVec 64
  targetProgram : Pubkey
  instructionData : List Byte
  accounts : List StrategyPolicyAccountMeta
  operators : List PolicyOperator
  deriving DecidableEq

def StrategyPolicyLeaf.forAsyncVault (vault strategist : Pubkey) (policyVersion : BitVec 64)
    (targetProgram : Pubkey) (instructionData : List Byte)
    (accounts : List StrategyPolicyAccountMeta) (operators : List PolicyOperator) :
    StrategyPolicyLeaf :=
  { programAddress := asyncVaultV2Id
    vault := vault
    strategist := strategist
    policyVersion := policyVersion
    targetProgram := targetProgram
    instructionData := instructionData
    accounts := accounts
    operators := operators }

structure StrategyPolicyMerkleTree where
  leaves : List Digest
  levels : List (List Digest)
  root : Digest
  deriving DecidableEq

inductive StrategyPolicyHashError
  | invalidInstructionData
  | tooManyAccounts
  | tooManyOperators
  | operatorOutOfBounds
  | emptyInstructionRange
  | duplicateManagerLimitAmount
  | ingestionLimitExceeded
  | emptyTree
  | treeTooLarge
  | leafIndexOutOfBounds
  deriving DecidableEq

/-- How a call of the client ends without a value. -/
inductive Failure
  | returned (e : StrategyPolicyHashError)
  | panicked
  deriving DecidableEq

def normalizePolicyAccounts (vault : Pubkey) (accounts : List StrategyPolicyAccountMeta) :
    List StrategyPolicyAccountMeta :=
  accounts.map fun account =>
    { address := account.address
      isSigner := account.isSigner || account.address = vault
      isWritable := account.isWritable && account.address ≠ vault }

variable (hash : List Byte → Digest)

/-! ### The leaf -/

structure LeafBuffer where
  bytes : List Byte
  hasManagerLimitAmount : Bool
  ingestedInstructionBytes : ℕ

def StrategyPolicyLeaf.ingest (input : StrategyPolicyLeaf) (buf : LeafBuffer) :
    PolicyOperator → Except Failure LeafBuffer
  | .ingestInstruction offset length => do
    require (.returned .emptyInstructionRange) (length.toNat ≠ 0)
    let stop ← add (.returned .operatorOutOfBounds) u64 offset.toNat length.toNat
    let selected ← okOr (.returned .operatorOutOfBounds)
      (slice input.instructionData offset.toNat stop)
    let ingested ← add (.returned .ingestionLimitExceeded) u64 buf.ingestedInstructionBytes
      selected.length
    require (.returned .ingestionLimitExceeded) (ingested ≤ maxIngestedInstructionBytes)
    pure { buf with
      bytes := buf.bytes ++ [0] ++ littleEndian 2 offset.toNat ++ littleEndian 2 length.toNat
        ++ selected
      ingestedInstructionBytes := ingested }
  | .ingestAccount index => do
    let account ← okOr (.returned .operatorOutOfBounds) input.accounts[index.toNat]?
    pure { buf with
      bytes := buf.bytes ++ [1] ++ [index] ++ account.address.toBytes
        ++ [boolByte account.isSigner] ++ [boolByte account.isWritable] }
  | .managerLimitAmount offset => do
    require (.returned .duplicateManagerLimitAmount) (buf.hasManagerLimitAmount = false)
    let stop ← add (.returned .operatorOutOfBounds) u64 offset.toNat 8
    let _ ← okOr (.returned .operatorOutOfBounds) (slice input.instructionData offset.toNat stop)
    pure { buf with
      bytes := buf.bytes ++ [2] ++ littleEndian 2 offset.toNat
      hasManagerLimitAmount := true }

def hashStrategyPolicyLeaf (input : StrategyPolicyLeaf) : Except Failure Digest := do
  require (.returned .invalidInstructionData)
    (8 ≤ input.instructionData.length ∧ input.instructionData.length ≤ maxInstructionDataLen)
  require (.returned .tooManyAccounts) (input.accounts.length ≤ maxCpiAccounts)
  require (.returned .tooManyOperators) (input.operators.length ≤ maxPolicyOperators)
  let bytes := strategyLeafDomain ++ input.programAddress.toBytes ++ input.vault.toBytes
    ++ input.strategist.toBytes ++ littleEndian 8 input.policyVersion.toNat
    ++ input.targetProgram.toBytes ++ input.instructionData.take 8
    ++ littleEndian 4 (input.instructionData.length % u32)
    ++ littleEndian 2 (input.accounts.length % u16)
    ++ [.ofNat 8 (input.operators.length % u8)]
  let buf ← input.operators.foldlM input.ingest ⟨bytes, false, 0⟩
  pure (hash buf.bytes)

/-! ### The tree -/

def hashStrategyPolicyNode (first second : Digest) : Digest :=
  let (lower, upper) := if first ≤ second then (first, second) else (second, first)
  hash (strategyNodeDomain ++ Digest.toBytes lower ++ Digest.toBytes upper)

/-- The levels double as the loop's state: its `current` is the last of them. -/
def buildStrategyPolicyMerkleTree (leaves : List Digest) :
    Except Failure StrategyPolicyMerkleTree := do
  require (.returned .emptyTree) (leaves ≠ [])
  require (.returned .treeTooLarge) (leaves.length ≤ maxPolicyLeaves)
  let leaves := leaves.insertionSort (· ≤ ·)
  let levels := MerkleTree.levels (hashStrategyPolicyNode hash) leaves.length leaves
  let root ← okOr .panicked (MerkleTree.rootOf levels)
  pure { leaves := leaves, levels := levels, root := root }

def strategyPolicyProof (tree : StrategyPolicyMerkleTree) (sortedLeafIndex : ℕ) :
    Except Failure (List Digest) := do
  require (.returned .leafIndexOutOfBounds) (sortedLeafIndex < tree.leaves.length)
  okOr .panicked (MerkleTree.path (tree.levels.take (tree.levels.length - 1)) sortedLeafIndex)

/-! ### The program's view of a leaf -/

def StrategyPolicyAccountMeta.toMeta (a : StrategyPolicyAccountMeta) : PolicyAccountMeta :=
  { key := a.address, isSigner := a.isSigner, isWritable := a.isWritable }

/-- The call the program would hash for a client's leaf. -/
def StrategyPolicyLeaf.call (l : StrategyPolicyLeaf) : StrategyLeaf :=
  { vault := l.vault
    strategist := l.strategist
    policyVersion := l.policyVersion
    targetProgram := l.targetProgram
    instructionData := l.instructionData
    accounts := l.accounts.map (·.toMeta)
    operators := l.operators }

/-- Client and program give the accounts of a call the same privileges. -/
theorem normalizePolicyAccounts_toMeta (vault : Pubkey)
    (metas : List StrategyPolicyAccountMeta) :
    (normalizePolicyAccounts vault metas).map (·.toMeta)
      = policyAccounts vault (metas.map (·.toMeta)) := by
  rw [normalizePolicyAccounts, policyAccounts, List.map_map, List.map_map]
  rfl

variable {hash} {l : StrategyPolicyLeaf}

/-- The client keeps of the amount only whether there is one. -/
def bufferOf (buf : AsyncVault.LeafBuffer) : LeafBuffer :=
  ⟨buf.bytes, buf.managerLimitAmount.isSome, buf.ingestedInstructionBytes⟩

theorem ingest_eq_ok {buf : AsyncVault.LeafBuffer} {op : PolicyOperator} {buf' : LeafBuffer} :
    l.ingest (bufferOf buf) op = .ok buf' ↔
      ∃ b, l.call.ingest buf op = .ok b ∧ buf' = bufferOf b := by
  cases op with
  | ingestInstruction offset length =>
    simp only [StrategyPolicyLeaf.ingest, StrategyLeaf.ingest, bind_eq_ok, require_eq_ok,
      ensure_eq_ok, add_eq_ok, okOr_eq_ok, pure_eq_ok, Nat.pos_iff_ne_zero]
    constructor
    · rintro ⟨_, hpos, stop, hstop, selected, hsel, ingested, hing, _, hle, rfl⟩
      exact ⟨_, ⟨(), hpos, stop, hstop, selected, hsel, ingested, hing, (), hle, rfl⟩, rfl⟩
    · rintro ⟨_, ⟨_, hpos, stop, hstop, selected, hsel, ingested, hing, _, hle, rfl⟩, rfl⟩
      exact ⟨(), hpos, stop, hstop, selected, hsel, ingested, hing, (), hle, rfl⟩
  -- the client sees its own accounts, the program what they normalise to
  | ingestAccount index =>
    simp only [StrategyPolicyLeaf.ingest, StrategyLeaf.ingest, StrategyPolicyLeaf.call,
      bind_eq_ok, okOr_eq_ok, pure_eq_ok, List.getElem?_map, Option.map_eq_some_iff]
    constructor
    · rintro ⟨account, haccount, rfl⟩
      exact ⟨_, ⟨account.toMeta, ⟨account, haccount, rfl⟩, rfl⟩, rfl⟩
    · rintro ⟨_, ⟨_, ⟨account, haccount, rfl⟩, rfl⟩, rfl⟩
      exact ⟨account, haccount, rfl⟩
  | managerLimitAmount offset =>
    simp only [StrategyPolicyLeaf.ingest, StrategyLeaf.ingest, bind_eq_ok, require_eq_ok,
      ensure_eq_ok, add_eq_ok, okOr_eq_ok, pure_eq_ok]
    constructor
    · rintro ⟨_, hnone, stop, hstop, raw, hraw, rfl⟩
      refine ⟨_, ⟨(), ?_, stop, hstop, raw, hraw, rfl⟩, rfl⟩
      simpa [bufferOf] using hnone
    · rintro ⟨_, ⟨_, hnone, stop, hstop, raw, hraw, rfl⟩, rfl⟩
      refine ⟨(), ?_, stop, hstop, raw, hraw, rfl⟩
      simpa [bufferOf] using hnone

theorem foldlM_ingest_eq_ok {buf : AsyncVault.LeafBuffer} {ops : List PolicyOperator}
    {buf' : LeafBuffer} :
    ops.foldlM l.ingest (bufferOf buf) = .ok buf' ↔
      ∃ b, ops.foldlM l.call.ingest buf = .ok b ∧ buf' = bufferOf b := by
  induction ops generalizing buf with
  | nil =>
    simp only [List.foldlM_nil, pure_eq_ok]
    constructor
    · rintro rfl
      exact ⟨buf, rfl, rfl⟩
    · rintro ⟨b, rfl, rfl⟩
      rfl
  | cons op ops ih =>
    simp only [List.foldlM_cons, bind_eq_ok]
    constructor
    · rintro ⟨mid, hop, hops⟩
      obtain ⟨b, hb, rfl⟩ := ingest_eq_ok.1 hop
      obtain ⟨c, hc, rfl⟩ := ih.1 hops
      exact ⟨c, ⟨b, hb, hc⟩, rfl⟩
    · rintro ⟨c, ⟨b, hb, hc⟩, rfl⟩
      exact ⟨bufferOf b, ingest_eq_ok.2 ⟨b, hb, rfl⟩, ih.2 ⟨c, hc, rfl⟩⟩

/-- **The client hashes a leaf exactly when the program does, to the same digest.** -/
theorem hashStrategyPolicyLeaf_eq_ok (hid : l.programAddress = asyncVaultV2Id) {leaf : Digest} :
    hashStrategyPolicyLeaf hash l = .ok leaf ↔
      ∃ amount, hashStrategyLeaf hash l.call = .ok (leaf, amount) := by
  simp only [hashStrategyPolicyLeaf, hashStrategyLeaf, bind_eq_ok, require_eq_ok, ensure_eq_ok,
    narrow_eq_ok, pure_eq_ok, Prod.mk.injEq, hid]
  have hcount : l.call.accounts.length = l.accounts.length := List.length_map ..
  rw [hcount]
  -- the casts of the client do not truncate within its bounds
  have hmod : l.instructionData.length ≤ maxInstructionDataLen →
      l.accounts.length ≤ maxCpiAccounts → l.operators.length ≤ maxPolicyOperators →
      l.instructionData.length % u32 = l.instructionData.length ∧
      l.accounts.length % u16 = l.accounts.length ∧
      l.operators.length % u8 = l.operators.length := by
    intro hdata haccounts hops
    simp only [maxInstructionDataLen, maxCpiAccounts, maxPolicyOperators, u32, u16, u8] at *
    exact ⟨Nat.mod_eq_of_lt (by omega), Nat.mod_eq_of_lt (by omega), Nat.mod_eq_of_lt (by omega)⟩
  constructor
  · rintro ⟨_, ⟨hge, hle⟩, _, haccounts, _, hops, buf, hfold, rfl⟩
    obtain ⟨e₁, e₂, e₃⟩ := hmod hle haccounts hops
    rw [e₁, e₂, e₃] at hfold
    have hfold : l.operators.foldlM l.ingest (bufferOf ⟨_, none, 0⟩) = .ok buf := hfold
    obtain ⟨b, hb, rfl⟩ := foldlM_ingest_eq_ok.1 hfold
    refine ⟨b.managerLimitAmount, (), hge, (), hle, (), haccounts, (), hops, _, ⟨?_, rfl⟩, _,
      ⟨?_, rfl⟩, _, ⟨?_, rfl⟩, b, hb, rfl, rfl⟩
    · exact e₁ ▸ Nat.mod_lt _ (by decide)
    · exact e₂ ▸ Nat.mod_lt _ (by decide)
    · exact e₃ ▸ Nat.mod_lt _ (by decide)
  · rintro ⟨amount, _, hge, _, hle, _, haccounts, _, hops, _, ⟨-, rfl⟩, _, ⟨-, rfl⟩, _, ⟨-, rfl⟩,
      b, hb, rfl, rfl⟩
    obtain ⟨e₁, e₂, e₃⟩ := hmod hle haccounts hops
    refine ⟨(), ⟨hge, hle⟩, (), haccounts, (), hops, bufferOf b, ?_, rfl⟩
    rw [e₁, e₂, e₃]
    exact foldlM_ingest_eq_ok.2 ⟨b, hb, rfl⟩

/-! ### Trees and proofs -/

theorem hashStrategyPolicyNode_eq (hash : List Byte → Digest) :
    hashStrategyPolicyNode hash = hashStrategyNode hash := by
  funext first second
  rfl

/-- The tree of a list of leaves, and what it takes to have one. -/
theorem buildStrategyPolicyMerkleTree_eq_ok {leaves : List Digest}
    {tree : StrategyPolicyMerkleTree} :
    buildStrategyPolicyMerkleTree hash leaves = .ok tree ↔
      (leaves ≠ [] ∧ leaves.length ≤ maxPolicyLeaves) ∧
      tree.leaves = leaves.insertionSort (· ≤ ·) ∧
      tree.levels = MerkleTree.levels (hashStrategyNode hash) leaves.length tree.leaves ∧
      MerkleTree.rootOf tree.levels = some tree.root := by
  obtain ⟨treeLeaves, levels, root⟩ := tree
  simp only [buildStrategyPolicyMerkleTree, bind_eq_ok, require_eq_ok, okOr_eq_ok, pure_eq_ok,
    hashStrategyPolicyNode_eq, List.length_insertionSort, StrategyPolicyMerkleTree.mk.injEq]
  constructor
  · rintro ⟨_, hne, _, hle, root, hroot, rfl, rfl, rfl⟩
    exact ⟨⟨hne, hle⟩, rfl, rfl, hroot⟩
  · rintro ⟨⟨hne, hle⟩, rfl, rfl, hroot⟩
    exact ⟨(), hne, (), hle, root, hroot, rfl, rfl, rfl⟩

/-- **Every list of leaves the client accepts has a tree, and every leaf of it a proof** that is
short enough for the program and accepted by it. -/
theorem exists_tree {leaves : List Digest} (hne : leaves ≠ [])
    (hle : leaves.length ≤ maxPolicyLeaves) :
    ∃ tree, buildStrategyPolicyMerkleTree hash leaves = .ok tree ∧ tree.leaves.Perm leaves ∧
      ∀ i leaf, tree.leaves[i]? = some leaf → ∃ proof, strategyPolicyProof tree i = .ok proof ∧
        proof.length ≤ maxMerkleProofDepth ∧
        verifyStrategyProof hash leaf proof tree.root = .ok () := by
  have hlen : (leaves.insertionSort (· ≤ ·)).length = leaves.length :=
    List.length_insertionSort ..
  have hpos : 0 < leaves.length := List.length_pos_of_ne_nil hne
  -- every leaf of a level has a path, and climbing it ends at the root
  have hclimb : ∀ {i : ℕ} {leaf : Digest}, (leaves.insertionSort (· ≤ ·))[i]? = some leaf →
      ∃ p, MerkleTree.path (MerkleTree.levels (hashStrategyNode hash) leaves.length
          (leaves.insertionSort (· ≤ ·))).dropLast i = some p ∧
        MerkleTree.rootOf (MerkleTree.levels (hashStrategyNode hash) leaves.length
          (leaves.insertionSort (· ≤ ·))) = some (p.foldl (hashStrategyNode hash) leaf) :=
    MerkleTree.climb_path (hashStrategyNode_comm hash) (by omega)
  obtain ⟨p, -, hroot⟩ := hclimb (List.getElem?_eq_getElem (hlen.symm ▸ hpos))
  -- 4096 leaves make at most thirteen levels
  have hdepth : (MerkleTree.levels (hashStrategyNode hash) leaves.length
      (leaves.insertionSort (· ≤ ·))).length ≤ maxMerkleProofDepth + 1 := by
    apply MerkleTree.length_levels_le
    rw [hlen]
    exact hle
  refine ⟨⟨leaves.insertionSort (· ≤ ·), _, _⟩,
    buildStrategyPolicyMerkleTree_eq_ok.2 ⟨⟨hne, hle⟩, rfl, rfl, hroot⟩,
    List.perm_insertionSort .., ?_⟩
  intro i leaf hleaf
  obtain ⟨proof, hpath, hend⟩ := hclimb hleaf
  have hshort : proof.length ≤ maxMerkleProofDepth := by
    rw [MerkleTree.length_of_path hpath, List.length_dropLast]
    omega
  refine ⟨proof, ?_, hshort, ?_⟩
  · simp only [strategyPolicyProof, bind_eq_ok, require_eq_ok, okOr_eq_ok]
    refine ⟨(), (List.getElem?_eq_some_iff.1 hleaf).1, ?_⟩
    rw [← List.dropLast_eq_take]
    exact hpath
  · simp only [verifyStrategyProof, bind_eq_ok, ensure_eq_ok]
    exact ⟨(), hshort, Option.some.inj (hend.symm.trans hroot)⟩

end RustClient

end AsyncVault
