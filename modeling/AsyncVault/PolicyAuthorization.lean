/-
AsyncVault/PolicyAuthorization.lean

What a policy's root authorises, and that everyone computes the same root.

The curator commits the root of a tree over the leaves of the calls she means to
allow.  A strategist then brings a call of her own, with operators and a proof
of her own choosing.

* **Soundness** (`merkle_authorization_sound`): an accepted call is one of the
  committed ones, as far as its operators look.  The only assumption is that
  the hash function does not collide on the messages hashed for the tree and for
  the call (`hashedMessages`); a function with 32-byte values is not injective
  on all messages.
* **Agreement** (`clients_agree_with_program`): program, Rust client and
  TypeScript helper hash the same leaves, and every leaf of a tree has a proof
  the program accepts.
-/
import Mathlib.Data.Set.Function
import AsyncVault.PolicyTreeScript

namespace AsyncVault

open Checked Bytes

/-! ### What is committed -/

/-- A call the curator means to allow. -/
structure PolicyManifest where
  targetProgram : Pubkey
  instructionData : List Byte
  accounts : List RustClient.StrategyPolicyAccountMeta
  operators : List PolicyOperator

namespace PolicyManifest

def leaf (m : PolicyManifest) (vault strategist : Pubkey) (policyVersion : BitVec 64) :
    RustClient.StrategyPolicyLeaf :=
  .forAsyncVault vault strategist policyVersion m.targetProgram m.instructionData m.accounts
    m.operators

/-- The call is the manifest's, in what every leaf commits to and in what its operators take in. -/
structure Covers (m : PolicyManifest) (call : StrategyLeaf) : Prop where
  targetProgram : call.targetProgram = m.targetProgram
  discriminator : call.instructionData.take 8 = m.instructionData.take 8
  instructionLen : call.instructionData.length = m.instructionData.length
  accountCount : call.accounts.length = m.accounts.length
  operators : call.operators = m.operators
  data : ∀ offset length, .ingestInstruction offset length ∈ call.operators → ∃ bytes,
    slice call.instructionData offset.toNat (offset.toNat + length.toNat) = some bytes ∧
    slice m.instructionData offset.toNat (offset.toNat + length.toNat) = some bytes
  accounts : ∀ index, .ingestAccount index ∈ call.operators → ∃ account,
    call.accounts[index.toNat]? = some account.toMeta ∧ m.accounts[index.toNat]? = some account

end PolicyManifest

/-- The messages hashed while the tree of some calls is built and while a call is checked. -/
def hashedMessages (hash : List Byte → Digest) (committed : List StrategyLeaf)
    (call : StrategyLeaf) (proof : List Digest) : List (List Byte) :=
  let leaves := (committed.map fun c => hash c.message).insertionSort (· ≤ ·)
  committed.map (·.message)
    ++ (MerkleTree.joins (hashStrategyNode hash) leaves.length leaves).map
      (fun p => nodeMessage p.1 p.2)
    ++ call.message :: (MerkleTree.climbs (hashStrategyNode hash) (hash call.message) proof).map
      fun p => nodeMessage p.1 p.2

section Soundness

variable {hash : List Byte → Digest} {committed : List StrategyLeaf} {call : StrategyLeaf}
  {proof : List Digest}

theorem message_mem_hashed {c : StrategyLeaf} (hc : c ∈ committed) :
    c.message ∈ hashedMessages hash committed call proof := by
  apply List.mem_append_left
  apply List.mem_append_left
  exact List.mem_map_of_mem hc

theorem join_mem_hashed {p : Digest × Digest} {leaves : List Digest}
    (hleaves : leaves = (committed.map fun c => hash c.message).insertionSort (· ≤ ·))
    (hp : p ∈ MerkleTree.joins (hashStrategyNode hash) leaves.length leaves) :
    nodeMessage p.1 p.2 ∈ hashedMessages hash committed call proof := by
  subst hleaves
  apply List.mem_append_left
  apply List.mem_append_right
  exact List.mem_map.2 ⟨p, hp, rfl⟩

theorem call_mem_hashed : call.message ∈ hashedMessages hash committed call proof := by
  apply List.mem_append_right
  exact List.mem_cons_self

theorem climb_mem_hashed {p : Digest × Digest}
    (hp : p ∈ MerkleTree.climbs (hashStrategyNode hash) (hash call.message) proof) :
    nodeMessage p.1 p.2 ∈ hashedMessages hash committed call proof := by
  apply List.mem_append_right
  apply List.mem_cons_of_mem
  exact List.mem_map.2 ⟨p, hp, rfl⟩

/-- **An accepted message is a committed one**, whatever the proof and its length. -/
theorem exists_committed {root : Digest}
    (hinj : Set.InjOn hash {m | m ∈ hashedMessages hash committed call proof})
    (hroot : ∀ leaves : List Digest,
      leaves = (committed.map fun c => hash c.message).insertionSort (· ≤ ·) →
      MerkleTree.rootOf (MerkleTree.levels (hashStrategyNode hash) leaves.length leaves) =
        some root)
    (hproof : verifyStrategyProof hash (hash call.message) proof root = .ok ()) :
    ∃ c ∈ committed, call.message = c.message := by
  simp only [verifyStrategyProof, bind_eq_ok, ensure_eq_ok] at hproof
  obtain ⟨-, -, hend⟩ := hproof
  obtain ⟨leaves, hleaves⟩ : ∃ leaves : List Digest,
      leaves = (committed.map fun c => hash c.message).insertionSort (· ≤ ·) := ⟨_, rfl⟩
  -- the leaves are the hashes of the committed messages
  have hmem : ∀ b ∈ leaves, ∃ c ∈ committed, b = hash c.message := by
    intro b hb
    rw [hleaves, List.mem_insertionSort] at hb
    obtain ⟨c, hc, rfl⟩ := List.mem_map.1 hb
    exact ⟨c, hc, rfl⟩
  -- a climb that ends at the root began at a leaf, as no hash of a leaf is one of a node
  have hin : hash call.message ∈ leaves := by
    refine @MerkleTree.mem_of_climb _ (hashStrategyNode hash) leaves _ leaves.length proof
      ?_ ?_ ?_ ?_
    · intro q hq e
      exact message_ne_nodeMessage _ _ _
        (hinj call_mem_hashed (join_mem_hashed hleaves hq) e)
    · intro b hb p hp e
      obtain ⟨c, hc, rfl⟩ := hmem b hb
      exact message_ne_nodeMessage _ _ _ (hinj (message_mem_hashed hc) (climb_mem_hashed hp) e)
    · intro p hp q hq e
      exact nodeMessage_inj (hinj (climb_mem_hashed hp) (join_mem_hashed hleaves hq) e)
    · rw [hend]
      exact MerkleTree.mem_of_rootOf (hroot leaves hleaves)
  obtain ⟨c, hc, e⟩ := hmem _ hin
  exact ⟨c, hc, hinj call_mem_hashed (message_mem_hashed hc) e⟩

/-- The client's leaves of some manifests are the digests of their messages. -/
theorem leaves_of_mapM {vault strategist : Pubkey} {policyVersion : BitVec 64}
    {manifests : List PolicyManifest} {leaves : List Digest}
    (h : manifests.mapM (fun m => RustClient.hashStrategyPolicyLeaf hash
      (m.leaf vault strategist policyVersion)) = .ok leaves) :
    leaves = manifests.map (fun m => hash (m.leaf vault strategist policyVersion).call.message) ∧
      ∀ m ∈ manifests, (m.leaf vault strategist policyVersion).call.WellFormed := by
  induction manifests generalizing leaves with
  | nil =>
    obtain rfl : [] = leaves := by simpa using h
    simp
  | cons m ms ih =>
    simp only [List.mapM_cons, bind_eq_ok, pure_eq_ok] at h
    obtain ⟨leaf, hleaf, rest, hrest, rfl⟩ := h
    obtain ⟨amount, hamount⟩ := (RustClient.hashStrategyPolicyLeaf_eq_ok rfl).1 hleaf
    obtain ⟨hwf, rfl, -⟩ := hashStrategyLeaf_ok hamount
    obtain ⟨rfl, hms⟩ := ih hrest
    exact ⟨rfl, List.forall_mem_cons.2 ⟨hwf, hms⟩⟩

/-- Calls with one message agree as a manifest and a call do. -/
theorem PolicyManifest.covers_of_message_eq {m : PolicyManifest} {vault strategist : Pubkey}
    {policyVersion : BitVec 64} (hm : (m.leaf vault strategist policyVersion).call.WellFormed)
    (hcall : call.WellFormed)
    (e : call.message = (m.leaf vault strategist policyVersion).call.message) :
    call.vault = vault ∧ call.strategist = strategist ∧ call.policyVersion = policyVersion ∧
      m.Covers call := by
  have hsame := message_inj hcall hm e
  refine ⟨hsame.vault, hsame.strategist, hsame.policyVersion, hsame.targetProgram,
    hsame.discriminator, hsame.instructionLen, ?_, hsame.operators, ?_, ?_⟩
  · rw [hsame.accountCount]
    exact List.length_map ..
  · intro offset length hmem
    obtain ⟨-, hin⟩ := hcall.inBounds _ hmem
    have hsome := slice_eq_some.2 ⟨⟨Nat.le_add_right .., hin⟩, rfl⟩
    exact ⟨_, hsome, (hsame.ingested _ hmem).symm.trans hsome⟩
  · intro index hmem
    have hagrees : call.accounts[index.toNat]? = (m.accounts.map (·.toMeta))[index.toNat]? :=
      hsame.ingested _ hmem
    have hlt : index.toNat < call.accounts.length := hcall.inBounds _ hmem
    rw [List.getElem?_map, List.getElem?_eq_getElem hlt] at hagrees
    obtain ⟨account, haccount, e⟩ := Option.map_eq_some_iff.1 hagrees.symm
    refine ⟨account, ?_, haccount⟩
    rw [List.getElem?_eq_getElem hlt, e]

end Soundness

/-- A function does not collide on messages whose distinct ones have distinct values. -/
theorem injOn_of_nodup {hash : List Byte → Digest} {messages distinct : List (List Byte)}
    (hsub : ∀ m ∈ messages, m ∈ distinct) (hnodup : (distinct.map hash).Nodup) :
    Set.InjOn hash {m | m ∈ messages} := by
  intro m hm m' hm' e
  exact List.inj_on_of_nodup_map hnodup (hsub m hm) (hsub m' hm') e

/-! ### The call the clients pin -/

def pinnedStrategist : Pubkey :=
  ⟨0x06a7d51718c774c928566398691d5eb68b5eb8a39b4b6d5c73555b2100000000⟩

def pinnedTarget : Pubkey :=
  ⟨0x06ddf6e1d765a193d9cbe146ceeb79ac1cb485ed5f5b37913a8cf5857eff00a9⟩

def pinnedData : List Byte := (List.range' 1 16).map (.ofNat 8)

def pinnedMetas : List RustClient.StrategyPolicyAccountMeta :=
  [⟨Pubkey.default, false, true⟩, ⟨pinnedTarget, false, false⟩]

def pinnedOperators : List PolicyOperator :=
  [.ingestInstruction 8 4, .ingestAccount 0, .ingestAccount 1, .managerLimitAmount 8]

def pinnedLeaf : RustClient.StrategyPolicyLeaf :=
  .forAsyncVault Pubkey.default pinnedStrategist 7 pinnedTarget pinnedData
    (RustClient.normalizePolicyAccounts Pubkey.default pinnedMetas) pinnedOperators

def pinnedDigest : Digest :=
  0xd925c25360e7d800278163511eb9742bedbb5fdf9640323afa9814c3840d77f0

/-! ### Soundness -/

/-- **Merkle authorisation is sound.**  Against the root of the tree a client builds over the leaves
of any list of manifests, a call the program hashes and accepts with any proof is for the same
vault, strategist and version, is covered by one of the manifests, and yields the amount its own
operators point at. -/
theorem merkle_authorization_sound (hash : List Byte → Digest) (vault strategist : Pubkey)
    (policyVersion : BitVec 64) (manifests : List PolicyManifest) (leaves : List Digest)
    (tree : RustClient.StrategyPolicyMerkleTree) (call : StrategyLeaf) (leaf : Digest)
    (amount : Option ℕ) (proof : List Digest)
    (hleaves : manifests.mapM (fun m => RustClient.hashStrategyPolicyLeaf hash
      (m.leaf vault strategist policyVersion)) = .ok leaves)
    (htree : RustClient.buildStrategyPolicyMerkleTree hash leaves = .ok tree)
    (hinj : Set.InjOn hash {m | m ∈ hashedMessages hash
      (manifests.map fun m => (m.leaf vault strategist policyVersion).call) call proof})
    (hcall : hashStrategyLeaf hash call = .ok (leaf, amount))
    (hproof : verifyStrategyProof hash leaf proof tree.root = .ok ()) :
    call.vault = vault ∧ call.strategist = strategist ∧ call.policyVersion = policyVersion ∧
      (∃ m ∈ manifests, m.Covers call) ∧ call.Declares amount := by
  obtain ⟨rfl, hmanifests⟩ := leaves_of_mapM hleaves
  obtain ⟨hwf, rfl, hdeclares⟩ := hashStrategyLeaf_ok hcall
  obtain ⟨-, hsorted, hlevels, hroot⟩ := RustClient.buildStrategyPolicyMerkleTree_eq_ok.1 htree
  -- the message of the call is the message of a committed one
  obtain ⟨c, hc, e⟩ := exists_committed hinj (by
    intro leaves hleaves
    rw [List.map_map] at hleaves
    have htreeLeaves : tree.leaves = leaves := hsorted.trans hleaves.symm
    have hlen : leaves.length = (manifests.map fun m =>
        hash (m.leaf vault strategist policyVersion).call.message).length := by
      rw [← htreeLeaves, hsorted, List.length_insertionSort]
    rw [hlen, ← htreeLeaves, ← hlevels]
    exact hroot) hproof
  obtain ⟨m, hm, rfl⟩ := List.mem_map.1 hc
  -- and a message determines what it was written from
  obtain ⟨hvault, hstrategist, hversion, hcovers⟩ :=
    PolicyManifest.covers_of_message_eq (hmanifests m hm) hwf e
  exact ⟨hvault, hstrategist, hversion, ⟨m, hm, hcovers⟩, hdeclares⟩

/-- The pinned call, and one without operators. -/
def pinnedManifests : List PolicyManifest :=
  [⟨pinnedTarget, pinnedData, RustClient.normalizePolicyAccounts Pubkey.default pinnedMetas,
      pinnedOperators⟩,
    ⟨pinnedTarget, List.replicate 8 0, [], []⟩]

/-- The pinned call with other bytes behind what its operators take in. -/
def pinnedCall : StrategyLeaf :=
  { pinnedLeaf.call with instructionData := pinnedData.take 12 ++ List.replicate 4 0 }

def otherDigest : Digest :=
  0x6d3048f192b5afe3712ead0753898b3254a43f8243edefb2c7fca325cee3fcd3

def pinnedRoot : Digest :=
  0xe7326f44d601352428ed298373695a2253e6444e2474e5d3b921963a1b74ba5e

def pinnedTree : RustClient.StrategyPolicyMerkleTree :=
  { leaves := [otherDigest, pinnedDigest]
    levels := [[otherDigest, pinnedDigest], [pinnedRoot]]
    root := pinnedRoot }

/-- **Non-vacuity.** A call that differs from a committed one in bytes its operators leave out is
accepted under SHA-256, for the amount in its own data. -/
theorem merkle_authorization_sound_pinned :
    (∃ m ∈ pinnedManifests, m.Covers pinnedCall) ∧ pinnedCall.Declares (some 202050057) := by
  have hinj : Set.InjOn Sha256.hash {m | m ∈ hashedMessages Sha256.hash
      (pinnedManifests.map fun m => (m.leaf Pubkey.default pinnedStrategist 7).call) pinnedCall
      [otherDigest]} := by
    refine @injOn_of_nodup _ _ ((pinnedManifests.map fun m =>
      (m.leaf Pubkey.default pinnedStrategist 7).call.message)
        ++ [nodeMessage otherDigest pinnedDigest]) ?_ ?_
    · decide +kernel
    · decide +kernel
  exact (merkle_authorization_sound Sha256.hash Pubkey.default pinnedStrategist 7 pinnedManifests
    [pinnedDigest, otherDigest] pinnedTree pinnedCall pinnedDigest (some 202050057) [otherDigest]
    (by decide +kernel) (by decide +kernel) hinj (by decide +kernel) (by decide +kernel)).2.2.2

/-! ### Agreement -/

/-- **Clients and program agree on leaves and proofs.**  From the same metas client and program hash
the same leaf or both refuse; every list of at most 4096 leaves has a tree in which every leaf has a
proof of at most twelve nodes that the program accepts; and the TypeScript helper normalises,
hashes, builds and proves as the Rust client does. -/
theorem clients_agree_with_program (hash : List Byte → Digest) :
    (∀ (vault strategist : Pubkey) (policyVersion : BitVec 64) (target : Pubkey) (data : List Byte)
        (metas : List RustClient.StrategyPolicyAccountMeta) (operators : List PolicyOperator)
        (leaf : Digest),
      RustClient.hashStrategyPolicyLeaf hash (.forAsyncVault vault strategist policyVersion target
          data (RustClient.normalizePolicyAccounts vault metas) operators) = .ok leaf ↔
        ∃ amount, hashStrategyLeaf hash
          { vault := vault
            strategist := strategist
            policyVersion := policyVersion
            targetProgram := target
            instructionData := data
            accounts := policyAccounts vault (metas.map (·.toMeta))
            operators := operators } = .ok (leaf, amount)) ∧
    (∀ leaves : List Digest, leaves ≠ [] → leaves.length ≤ 4096 → ∃ tree,
      RustClient.buildStrategyPolicyMerkleTree hash leaves = .ok tree ∧ tree.leaves.Perm leaves ∧
      ∀ i leaf, tree.leaves[i]? = some leaf → ∃ proof,
        RustClient.strategyPolicyProof tree i = .ok proof ∧ proof.length ≤ 12 ∧
        verifyStrategyProof hash leaf proof tree.root = .ok ()) ∧
    (∀ vault metas, TypescriptClient.normalizeStrategyPolicyAccounts vault
        (metas.map TypescriptClient.accountOf)
      = (RustClient.normalizePolicyAccounts vault metas).map TypescriptClient.accountOf) ∧
    (∀ l input, TypescriptClient.Renders l input → ∀ bytes,
      TypescriptClient.hashStrategyPolicyLeaf hash input = .ok bytes ↔
        ∃ leaf, RustClient.hashStrategyPolicyLeaf hash l = .ok leaf ∧ bytes = leaf.toBytes) ∧
    (∀ (leaves : List Digest) tree,
      TypescriptClient.buildStrategyPolicyMerkleTree hash (leaves.map Digest.toBytes) = .ok tree ↔
        ∃ t, RustClient.buildStrategyPolicyMerkleTree hash leaves = .ok t ∧
          tree = TypescriptClient.treeOf t) ∧
    (∀ t (i : ℕ) proof,
      TypescriptClient.getStrategyPolicyProof (TypescriptClient.treeOf t) i = .ok proof ↔
        ∃ p, RustClient.strategyPolicyProof t i = .ok p ∧ proof = p.map Digest.toBytes) := by
  refine ⟨?_, ?_, ?_, ?_, ?_, ?_⟩
  · intro vault strategist policyVersion target data metas operators leaf
    rw [RustClient.hashStrategyPolicyLeaf_eq_ok rfl, ← RustClient.normalizePolicyAccounts_toMeta]
    rfl
  · intro leaves hne hle
    exact RustClient.exists_tree hne hle
  · exact TypescriptClient.normalizeStrategyPolicyAccounts_accountOf
  · intro l input hin bytes
    exact TypescriptClient.hashStrategyPolicyLeaf_eq_ok hin
  · intro leaves tree
    exact TypescriptClient.buildStrategyPolicyMerkleTree_eq_ok
  · intro t i proof
    exact TypescriptClient.getStrategyPolicyProof_eq_ok

/-- The helper's input for the pinned leaf, with its version as a number. -/
def pinnedInput : TypescriptClient.StrategyPolicyLeafInput :=
  { vault := Pubkey.default
    strategist := pinnedStrategist
    policyVersion := .number 7
    targetProgram := pinnedTarget
    instructionData := pinnedData
    accounts := pinnedLeaf.accounts.map TypescriptClient.accountOf
    operators := pinnedOperators.map TypescriptClient.operatorOf
    programAddress := none }

def pinnedLeaves : List Digest :=
  [pinnedDigest,
    0x0707070707070707070707070707070707070707070707070707070707070707,
    0x0909090909090909090909090909090909090909090909090909090909090909]

/-- **Non-vacuity.** The leaf both clients pin, computed by all three under SHA-256, and a proof of
it in a tree of three leaves. -/
theorem clients_agree_with_program_pinned :
    (∃ amount, hashStrategyLeaf Sha256.hash pinnedLeaf.call = .ok (pinnedDigest, amount)) ∧
    TypescriptClient.hashStrategyPolicyLeaf Sha256.hash pinnedInput = .ok pinnedDigest.toBytes ∧
    ∃ tree, RustClient.buildStrategyPolicyMerkleTree Sha256.hash pinnedLeaves = .ok tree ∧
      tree.leaves.Perm pinnedLeaves ∧ ∀ i leaf, tree.leaves[i]? = some leaf → ∃ proof,
        RustClient.strategyPolicyProof tree i = .ok proof ∧ proof.length ≤ 12 ∧
        verifyStrategyProof Sha256.hash leaf proof tree.root = .ok () := by
  have hleaf : RustClient.hashStrategyPolicyLeaf Sha256.hash pinnedLeaf = .ok pinnedDigest := by
    decide +kernel
  have hrenders : TypescriptClient.Renders pinnedLeaf pinnedInput :=
    { programAddress := rfl
      vault := rfl
      strategist := rfl
      policyVersion := .number (by decide)
      targetProgram := rfl
      instructionData := rfl
      accounts := rfl
      operators := rfl }
  obtain ⟨hprogram, htree, -, hscript, -⟩ := clients_agree_with_program Sha256.hash
  exact ⟨(hprogram Pubkey.default pinnedStrategist 7 pinnedTarget pinnedData pinnedMetas
      pinnedOperators pinnedDigest).1 hleaf,
    (hscript pinnedLeaf pinnedInput hrenders _).2 ⟨pinnedDigest, hleaf, rfl⟩,
    htree pinnedLeaves (by decide) (by decide)⟩

/-- The root both clients pin over that tree. -/
example : (RustClient.buildStrategyPolicyMerkleTree Sha256.hash pinnedLeaves).map (·.root)
    = .ok 0x8b27c6b7da89dfc5deb2a320214be3e77371e19ea5abae2bd8d585d1d09fe12a := by
  decide +kernel

end AsyncVault
