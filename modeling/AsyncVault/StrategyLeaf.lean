/-
AsyncVault/StrategyLeaf.lean

What a policy commits to: the leaf of a managed call and the proof that leads
from it to the policy's root.

A leaf is the digest of a message made of the call's fixed fields and one entry
per operator.  The operators are chosen by the caller; each says what more of
the call the leaf commits to, a range of the instruction data or an account with
its privileges, or where the amount for the manager's limit stands.  The hash
function is a parameter, on byte strings and with 32-byte values: the program
takes it from outside.  A digest is the number its bytes are the big-endian
encoding of, so that the order of byte strings is that of numbers.
-/
import AsyncVault.Lib.MerkleTree
import AsyncVault.Lib.Sha256
import AsyncVault.StrategyPolicy

namespace AsyncVault

open Checked Bytes

abbrev u8 : ℕ := 2 ^ 8
abbrev u32 : ℕ := 2 ^ 32

abbrev Digest := BitVec 256

def Digest.toBytes (d : Digest) : List Byte := ofWord 32 d

def strategyLeafDomain : List Byte := ascii "async-vault-v2/strategy-policy-leaf/v1"
def strategyNodeDomain : List Byte := ascii "async-vault-v2/strategy-policy-node/v1"

def maxMerkleProofDepth : ℕ := 12
def maxPolicyOperators : ℕ := 32
def maxPolicyIngestedInstructionBytes : ℕ := 2048

/-- The address the program is declared at. -/
def asyncVaultV2Id : Pubkey :=
  ⟨0x25acbe03723e3128af49222c350614070db8ac409bcb95d4663e8dcca3fcd60f⟩

def Pubkey.toBytes (k : Pubkey) : List Byte := ofWord 32 k.bytes

def boolByte (b : Bool) : Byte := if b then 1 else 0

variable (hash : List Byte → Digest)

/-! ### The leaf -/

/-- The message under construction, the amount met so far and how much of the data was taken. -/
structure LeafBuffer where
  bytes : List Byte
  managerLimitAmount : Option ℕ
  ingestedInstructionBytes : ℕ

namespace StrategyLeaf

def ingest (input : StrategyLeaf) (buf : LeafBuffer) : PolicyOperator → Result LeafBuffer
  | .ingestInstruction offset length => do
    ensure .invalidPolicyOperator (0 < length.toNat)
    let stop ← add (.async .policyOperatorOutOfBounds) u64 offset.toNat length.toNat
    let selected ← okOr (.async .policyOperatorOutOfBounds)
      (slice input.instructionData offset.toNat stop)
    let ingested ← add (.async .policyIngestionLimitExceeded) u64 buf.ingestedInstructionBytes
      selected.length
    ensure .policyIngestionLimitExceeded (ingested ≤ maxPolicyIngestedInstructionBytes)
    pure { buf with
      bytes := buf.bytes ++ [0] ++ littleEndian 2 offset.toNat ++ littleEndian 2 length.toNat
        ++ selected
      ingestedInstructionBytes := ingested }
  | .ingestAccount index => do
    let account ← okOr (.async .policyOperatorOutOfBounds) input.accounts[index.toNat]?
    pure { buf with
      bytes := buf.bytes ++ [1] ++ [index] ++ account.key.toBytes ++ [boolByte account.isSigner]
        ++ [boolByte account.isWritable] }
  | .managerLimitAmount offset => do
    ensure .duplicateManagerLimitOperator buf.managerLimitAmount.isNone
    let stop ← add (.async .policyOperatorOutOfBounds) u64 offset.toNat 8
    let raw ← okOr (.async .policyOperatorOutOfBounds)
      (slice input.instructionData offset.toNat stop)
    pure { buf with
      bytes := buf.bytes ++ [2] ++ littleEndian 2 offset.toNat
      managerLimitAmount := some (ofLittleEndian raw) }

end StrategyLeaf

def hashStrategyLeaf (input : StrategyLeaf) : Result (Digest × Option ℕ) := do
  ensure .invalidVenueInstruction (8 ≤ input.instructionData.length)
  ensure .instructionDataTooLarge (input.instructionData.length ≤ maxManageIxDataLen)
  ensure .tooManyCpiAccounts (input.accounts.length ≤ maxManageCpiAccounts)
  ensure .invalidPolicyOperator (input.operators.length ≤ maxPolicyOperators)
  let instructionLen ← narrow (.async .instructionDataTooLarge) u32 input.instructionData.length
  let accountCount ← narrow (.async .tooManyCpiAccounts) u16 input.accounts.length
  let operatorCount ← narrow (.async .invalidPolicyOperator) u8 input.operators.length
  let bytes := strategyLeafDomain ++ asyncVaultV2Id.toBytes ++ input.vault.toBytes
    ++ input.strategist.toBytes ++ littleEndian 8 input.policyVersion.toNat
    ++ input.targetProgram.toBytes ++ input.instructionData.take 8
    ++ littleEndian 4 instructionLen ++ littleEndian 2 accountCount ++ [.ofNat 8 operatorCount]
  let buf ← input.operators.foldlM input.ingest ⟨bytes, none, 0⟩
  pure (hash buf.bytes, buf.managerLimitAmount)

/-! ### The proof -/

/-- The message of a node: the lower of the two digests first. -/
def nodeMessage (left right : Digest) : List Byte :=
  let (left, right) := if left ≤ right then (left, right) else (right, left)
  strategyNodeDomain ++ Digest.toBytes left ++ Digest.toBytes right

def hashStrategyNode (left right : Digest) : Digest := hash (nodeMessage left right)

def verifyStrategyProof (leaf : Digest) (proof : List Digest) (root : Digest) : Result Unit := do
  ensure .merkleProofTooDeep (proof.length ≤ maxMerkleProofDepth)
  let computed := proof.foldl (hashStrategyNode hash) leaf
  ensure .merkleProofInvalid (computed = root)

/-- The check of a managed call: the amount its operators declare, if the policy covers it. -/
def merkleCheck : MerkleCheck := fun input proof root => do
  let (leaf, managerLimitAmount) ← hashStrategyLeaf hash input
  verifyStrategyProof hash leaf proof root
  pure managerLimitAmount

/-! ### Messages -/

namespace StrategyLeaf

/-- What an operator adds to the message. -/
def operatorBytes (l : StrategyLeaf) : PolicyOperator → List Byte
  | .ingestInstruction offset length =>
    0 :: (littleEndian 2 offset.toNat ++ (littleEndian 2 length.toNat
      ++ between l.instructionData offset.toNat (offset.toNat + length.toNat)))
  | .ingestAccount index =>
    1 :: index :: (match l.accounts[index.toNat]? with
      | some account =>
        account.key.toBytes ++ [boolByte account.isSigner, boolByte account.isWritable]
      | none => [])
  | .managerLimitAmount offset => 2 :: littleEndian 2 offset.toNat

/-- The fixed fields of the message. -/
def header (l : StrategyLeaf) : List Byte :=
  strategyLeafDomain ++ (asyncVaultV2Id.toBytes ++ (l.vault.toBytes ++ (l.strategist.toBytes
    ++ (littleEndian 8 l.policyVersion.toNat ++ (l.targetProgram.toBytes
    ++ (l.instructionData.take 8 ++ (littleEndian 4 l.instructionData.length
    ++ (littleEndian 2 l.accounts.length ++ [.ofNat 8 l.operators.length]))))))))

/-- The message whose digest is the leaf. -/
def message (l : StrategyLeaf) : List Byte := l.header ++ l.operators.flatMap l.operatorBytes

/-- The operator points into the call. -/
def InBounds (l : StrategyLeaf) : PolicyOperator → Prop
  | .ingestInstruction offset length =>
    0 < length.toNat ∧ offset.toNat + length.toNat ≤ l.instructionData.length
  | .ingestAccount index => index.toNat < l.accounts.length
  | .managerLimitAmount offset => offset.toNat + 8 ≤ l.instructionData.length

/-- The amount at an offset of the instruction data. -/
def amountAt (l : StrategyLeaf) (offset : BitVec 16) : ℕ :=
  ofLittleEndian (between l.instructionData offset.toNat (offset.toNat + 8))

/-- The amount returned is the one the operators point at, and none when none of them does. -/
structure Declares (l : StrategyLeaf) (amount : Option ℕ) : Prop where
  pointed : ∀ offset, .managerLimitAmount offset ∈ l.operators → amount = some (l.amountAt offset)
  absent : (∀ offset, .managerLimitAmount offset ∉ l.operators) → amount = none

/-- What a message must satisfy to be hashed. -/
structure WellFormed (l : StrategyLeaf) : Prop where
  data_ge : 8 ≤ l.instructionData.length
  data_le : l.instructionData.length ≤ maxManageIxDataLen
  accounts_le : l.accounts.length ≤ maxManageCpiAccounts
  operators_le : l.operators.length ≤ maxPolicyOperators
  inBounds : ∀ op ∈ l.operators, l.InBounds op

end StrategyLeaf

/-! ### What is hashed -/

section Ingest

variable {l : StrategyLeaf} {buf buf' : LeafBuffer} {op : PolicyOperator}
  {ops : List PolicyOperator}

/-- What taking in operators does to the message and to the amount met so far. -/
structure LeafBuffer.Takes (l : StrategyLeaf) (ops : List PolicyOperator)
    (buf buf' : LeafBuffer) : Prop where
  inBounds : ∀ op ∈ ops, l.InBounds op
  bytes : buf'.bytes = buf.bytes ++ ops.flatMap l.operatorBytes
  pointed : ∀ offset, .managerLimitAmount offset ∈ ops →
    buf.managerLimitAmount = none ∧ buf'.managerLimitAmount = some (l.amountAt offset)
  absent : (∀ offset, .managerLimitAmount offset ∉ ops) →
    buf'.managerLimitAmount = buf.managerLimitAmount

theorem takes_of_ingest (h : l.ingest buf op = .ok buf') : buf.Takes l [op] buf' := by
  cases op with
  | ingestInstruction offset length =>
    simp only [StrategyLeaf.ingest, bind_eq_ok, ensure_eq_ok, add_eq_ok, okOr_eq_ok,
      slice_eq_some, pure_eq_ok] at h
    obtain ⟨-, hpos, stop, ⟨-, rfl⟩, selected, ⟨⟨-, hstop⟩, rfl⟩, ingested, -, -, -, rfl⟩ := h
    refine ⟨?_, ?_, ?_, fun _ => rfl⟩
    · simp [StrategyLeaf.InBounds, hpos, hstop]
    · simp [StrategyLeaf.operatorBytes]
    · simp
  | ingestAccount index =>
    simp only [StrategyLeaf.ingest, bind_eq_ok, okOr_eq_ok, pure_eq_ok] at h
    obtain ⟨account, haccount, rfl⟩ := h
    refine ⟨?_, ?_, ?_, fun _ => rfl⟩
    · simpa [StrategyLeaf.InBounds] using (List.getElem?_eq_some_iff.1 haccount).1
    · simp [StrategyLeaf.operatorBytes, haccount]
    · simp
  -- the one operator that may be met once only: nothing was pointed at before it
  | managerLimitAmount offset =>
    simp only [StrategyLeaf.ingest, bind_eq_ok, ensure_eq_ok, add_eq_ok, okOr_eq_ok,
      slice_eq_some, pure_eq_ok, Option.isNone_iff_eq_none] at h
    obtain ⟨-, hnone, stop, ⟨-, rfl⟩, raw, ⟨⟨-, hstop⟩, rfl⟩, rfl⟩ := h
    refine ⟨?_, ?_, ?_, ?_⟩
    · simp [StrategyLeaf.InBounds, hstop]
    · simp [StrategyLeaf.operatorBytes]
    · intro offset' hmem
      obtain rfl : offset' = offset := by simpa using hmem
      exact ⟨hnone, rfl⟩
    · intro habsent
      exact absurd (List.mem_singleton_self _) (habsent offset)

theorem takes_nil : buf.Takes l [] buf := by
  refine ⟨?_, ?_, ?_, fun _ => rfl⟩
  · simp
  · simp
  · simp

theorem LeafBuffer.Takes.trans {buf'' : LeafBuffer} {ops' : List PolicyOperator}
    (h : buf.Takes l ops buf') (h' : buf'.Takes l ops' buf'') :
    buf.Takes l (ops ++ ops') buf'' := by
  refine ⟨?_, ?_, ?_, ?_⟩
  · intro op hop
    exact (List.mem_append.1 hop).elim (h.inBounds op) (h'.inBounds op)
  · rw [h'.bytes, h.bytes, List.flatMap_append, List.append_assoc]
  · -- an amount met in the first part bars the second from pointing at another
    intro offset hmem
    by_cases hfirst : ∃ o, PolicyOperator.managerLimitAmount o ∈ ops
    · obtain ⟨o, ho⟩ := hfirst
      have hlater : ∀ o', PolicyOperator.managerLimitAmount o' ∉ ops' := by
        intro o' ho'
        have := (h.pointed o ho).2.symm.trans (h'.pointed o' ho').1
        simp at this
      have hin : PolicyOperator.managerLimitAmount offset ∈ ops :=
        (List.mem_append.1 hmem).resolve_right (hlater offset)
      rw [h'.absent hlater]
      exact h.pointed offset hin
    · have hin := (List.mem_append.1 hmem).resolve_left fun hin => hfirst ⟨offset, hin⟩
      rw [← h.absent fun o ho => hfirst ⟨o, ho⟩]
      exact h'.pointed offset hin
  · intro habsent
    rw [h'.absent fun o ho => habsent o (List.mem_append_right _ ho),
      h.absent fun o ho => habsent o (List.mem_append_left _ ho)]

theorem takes_of_foldlM (h : ops.foldlM l.ingest buf = .ok buf') : buf.Takes l ops buf' := by
  induction ops generalizing buf with
  | nil =>
    obtain rfl : buf = buf' := by simpa using h
    exact takes_nil
  | cons op ops ih =>
    rw [List.foldlM_cons, bind_eq_ok] at h
    obtain ⟨mid, hop, hops⟩ := h
    exact (takes_of_ingest hop).trans (ih hops)

end Ingest

variable {hash : List Byte → Digest}

/-- **A leaf is the digest of a well-formed message, and the amount the one declared in it.** -/
theorem hashStrategyLeaf_ok {l : StrategyLeaf} {leaf : Digest} {amount : Option ℕ}
    (h : hashStrategyLeaf hash l = .ok (leaf, amount)) :
    l.WellFormed ∧ leaf = hash l.message ∧ l.Declares amount := by
  simp only [hashStrategyLeaf, bind_eq_ok, ensure_eq_ok, narrow_eq_ok, pure_eq_ok,
    Prod.mk.injEq] at h
  obtain ⟨-, hge, -, hle, -, haccounts, -, hoperators, _, ⟨-, rfl⟩, _, ⟨-, rfl⟩, _, ⟨-, rfl⟩, buf,
    hfold, rfl, rfl⟩ := h
  have htakes := takes_of_foldlM hfold
  refine ⟨⟨hge, hle, haccounts, hoperators, htakes.inBounds⟩, ?_, ?_, ?_⟩
  · rw [htakes.bytes]
    simp [StrategyLeaf.message, StrategyLeaf.header]
  · intro offset hmem
    exact (htakes.pointed offset hmem).2
  · exact htakes.absent

/-! ### Messages are unambiguous -/

section Unambiguous

variable {l m : StrategyLeaf} {op op' : PolicyOperator} {r r' : List Byte}

/-- Two calls agree on what an operator takes in. -/
def StrategyLeaf.Agrees (l m : StrategyLeaf) : PolicyOperator → Prop
  | .ingestInstruction offset length =>
    slice l.instructionData offset.toNat (offset.toNat + length.toNat)
      = slice m.instructionData offset.toNat (offset.toNat + length.toNat)
  | .ingestAccount index => l.accounts[index.toNat]? = m.accounts[index.toNat]?
  | .managerLimitAmount _ => True

theorem Pubkey.toBytes_inj {k k' : Pubkey} : k.toBytes = k'.toBytes ↔ k = k' := by
  rw [Pubkey.toBytes, Pubkey.toBytes, ofWord_inj (by decide)]
  constructor
  · intro h
    cases k
    cases k'
    exact congrArg Pubkey.mk h
  · rintro rfl
    rfl

@[simp] theorem Pubkey.length_toBytes (k : Pubkey) : k.toBytes.length = 32 :=
  length_ofWord 32 k.bytes

theorem Digest.toBytes_inj {d d' : Digest} : d.toBytes = d'.toBytes ↔ d = d' :=
  ofWord_inj (by decide)

@[simp] theorem Digest.length_toBytes (d : Digest) : d.toBytes.length = 32 :=
  length_ofWord 32 d

theorem boolByte_inj {b b' : Bool} : boolByte b = boolByte b' ↔ b = b' := by
  cases b <;> cases b' <;> simp [boolByte]

theorem littleEndian_toNat_inj {w k : ℕ} (h : k ≤ 8 * w) {x y : BitVec k}
    (e : littleEndian w x.toNat = littleEndian w y.toNat) : x = y :=
  BitVec.eq_of_toNat_eq ((littleEndian_inj (toNat_lt_pow h x) (toNat_lt_pow h y)).1 e)

/-- The entry of an operator is read off the front of any string it begins. -/
theorem operatorBytes_append_inj (h : l.InBounds op) (h' : m.InBounds op')
    (e : l.operatorBytes op ++ r = m.operatorBytes op' ++ r') :
    op = op' ∧ l.Agrees m op ∧ r = r' := by
  cases op with
  | ingestInstruction offset length =>
    cases op' with
    | ingestInstruction offset' length' =>
      simp only [StrategyLeaf.operatorBytes, List.cons_append, List.append_assoc,
        List.cons.injEq, true_and] at e
      -- offset and length have a fixed width, so they are read off first
      obtain ⟨eo, e⟩ := List.append_inj e (by simp)
      obtain ⟨el, e⟩ := List.append_inj e (by simp)
      obtain rfl := littleEndian_toNat_inj (by decide) eo
      obtain rfl := littleEndian_toNat_inj (by decide) el
      have hs : slice l.instructionData offset.toNat (offset.toNat + length.toNat)
          = some (between l.instructionData offset.toNat (offset.toNat + length.toNat)) :=
        slice_eq_some.2 ⟨⟨by omega, h.2⟩, rfl⟩
      have hs' : slice m.instructionData offset.toNat (offset.toNat + length.toNat)
          = some (between m.instructionData offset.toNat (offset.toNat + length.toNat)) :=
        slice_eq_some.2 ⟨⟨by omega, h'.2⟩, rfl⟩
      -- and then the bytes they select have one length in both
      obtain ⟨es, e⟩ := List.append_inj e (by rw [length_between h.2, length_between h'.2])
      refine ⟨rfl, ?_, e⟩
      show slice _ _ _ = slice _ _ _
      rw [hs, hs', es]
    -- entries of two kinds begin with different tags
    | ingestAccount index => simp [StrategyLeaf.operatorBytes] at e
    | managerLimitAmount offset' => simp [StrategyLeaf.operatorBytes] at e
  | ingestAccount index =>
    cases op' with
    | ingestInstruction offset length => simp [StrategyLeaf.operatorBytes] at e
    | ingestAccount index' =>
      -- both indices are in bounds, so each entry is of an account that is there
      obtain ⟨a, ha⟩ : ∃ a, l.accounts[index.toNat]? = some a :=
        ⟨_, List.getElem?_eq_getElem h⟩
      obtain ⟨a', ha'⟩ : ∃ a', m.accounts[index'.toNat]? = some a' :=
        ⟨_, List.getElem?_eq_getElem h'⟩
      simp only [StrategyLeaf.operatorBytes, ha, ha', List.cons_append, List.append_assoc,
        List.cons.injEq, true_and, List.nil_append] at e
      obtain ⟨rfl, e⟩ := e
      obtain ⟨ek, e⟩ := List.append_inj e (by simp)
      simp only [List.cons.injEq] at e
      obtain ⟨es, ew, er⟩ := e
      have haa : a = a' := by
        cases a
        cases a'
        simp_all [Pubkey.toBytes_inj, boolByte_inj]
      exact ⟨rfl, by rw [StrategyLeaf.Agrees, ha, ha', haa], er⟩
    | managerLimitAmount offset => simp [StrategyLeaf.operatorBytes] at e
  | managerLimitAmount offset =>
    cases op' with
    | ingestInstruction offset' length => simp [StrategyLeaf.operatorBytes] at e
    | ingestAccount index => simp [StrategyLeaf.operatorBytes] at e
    | managerLimitAmount offset' =>
      simp only [StrategyLeaf.operatorBytes, List.cons_append, List.cons.injEq, true_and] at e
      obtain ⟨eo, er⟩ := List.append_inj e (by simp)
      obtain rfl := littleEndian_toNat_inj (by decide) eo
      exact ⟨rfl, trivial, er⟩

theorem operatorBytes_flatMap_inj {ops ops' : List PolicyOperator}
    (hlen : ops.length = ops'.length) (h : ∀ op ∈ ops, l.InBounds op)
    (h' : ∀ op ∈ ops', m.InBounds op)
    (e : ops.flatMap l.operatorBytes = ops'.flatMap m.operatorBytes) :
    ops = ops' ∧ ∀ op ∈ ops, l.Agrees m op := by
  induction ops generalizing ops' with
  | nil =>
    obtain rfl : ops' = [] := List.length_eq_zero_iff.1 hlen.symm
    simp
  | cons op ops ih =>
    obtain ⟨op', ops', rfl⟩ := List.exists_cons_of_length_eq_add_one hlen.symm
    simp only [List.mem_cons, forall_eq_or_imp, List.flatMap_cons, List.length_cons,
      Nat.add_right_cancel_iff] at hlen h h' e
    obtain ⟨rfl, hop, hrest⟩ := operatorBytes_append_inj h.1 h'.1 e
    obtain ⟨rfl, hops⟩ := ih hlen h.2 h'.2 hrest
    exact ⟨rfl, List.forall_mem_cons.2 ⟨hop, hops⟩⟩

/-- Two calls a leaf cannot tell apart: what every leaf commits to is the same, and so is what
the operators take in. -/
structure StrategyLeaf.SameCall (l m : StrategyLeaf) : Prop where
  vault : l.vault = m.vault
  strategist : l.strategist = m.strategist
  policyVersion : l.policyVersion = m.policyVersion
  targetProgram : l.targetProgram = m.targetProgram
  discriminator : l.instructionData.take 8 = m.instructionData.take 8
  instructionLen : l.instructionData.length = m.instructionData.length
  accountCount : l.accounts.length = m.accounts.length
  operators : l.operators = m.operators
  ingested : ∀ op ∈ l.operators, l.Agrees m op

/-- **The message determines the call**, up to what the operators leave out. -/
theorem message_inj (h : l.WellFormed) (h' : m.WellFormed) (e : l.message = m.message) :
    l.SameCall m := by
  have hdata := h.data_ge
  have hdata' := h'.data_ge
  simp only [StrategyLeaf.message, StrategyLeaf.header, List.append_assoc] at e
  -- field by field; every field but the entries of the operators has a length of its own
  obtain ⟨-, e⟩ := List.append_inj e rfl
  obtain ⟨-, e⟩ := List.append_inj e rfl
  obtain ⟨hvault, e⟩ := List.append_inj e (by simp)
  obtain ⟨hstrategist, e⟩ := List.append_inj e (by simp)
  obtain ⟨hversion, e⟩ := List.append_inj e (by simp)
  obtain ⟨htarget, e⟩ := List.append_inj e (by simp)
  obtain ⟨hdiscriminator, e⟩ := List.append_inj e (by simp; omega)
  obtain ⟨hlen, e⟩ := List.append_inj e (by simp)
  obtain ⟨hcount, e⟩ := List.append_inj e (by simp)
  obtain ⟨hops, e⟩ := List.append_inj e rfl
  have hle := h.data_le
  have hle' := h'.data_le
  have haccounts := h.accounts_le
  have haccounts' := h'.accounts_le
  have hoperators := h.operators_le
  have hoperators' := h'.operators_le
  simp only [maxManageIxDataLen, maxManageCpiAccounts, maxPolicyOperators] at *
  have hoplen : l.operators.length = m.operators.length := by
    have := congrArg BitVec.toNat (List.cons.inj hops).1
    rw [BitVec.toNat_ofNat, BitVec.toNat_ofNat] at this
    omega
  obtain ⟨hoperators, hingested⟩ :=
    operatorBytes_flatMap_inj hoplen h.inBounds h'.inBounds e
  exact
    { vault := Pubkey.toBytes_inj.1 hvault
      strategist := Pubkey.toBytes_inj.1 hstrategist
      policyVersion := littleEndian_toNat_inj (by decide) hversion
      targetProgram := Pubkey.toBytes_inj.1 htarget
      discriminator := hdiscriminator
      instructionLen := (littleEndian_inj (by omega) (by omega)).1 hlen
      accountCount := (littleEndian_inj (by omega) (by omega)).1 hcount
      operators := hoperators
      ingested := hingested }

theorem nodeMessage_comm (a b : Digest) : nodeMessage a b = nodeMessage b a := by
  by_cases hab : a ≤ b
  · by_cases hba : b ≤ a
    · rw [BitVec.le_antisymm hab hba]
    · simp [nodeMessage, hab, hba]
  · have hba : b ≤ a := (BitVec.le_total b a).resolve_right hab
    simp [nodeMessage, hab, hba]

theorem hashStrategyNode_comm (hash : List Byte → Digest) (a b : Digest) :
    hashStrategyNode hash a b = hashStrategyNode hash b a :=
  congrArg hash (nodeMessage_comm a b)

/-- The message of a node determines its two digests up to their order. -/
theorem nodeMessage_inj {p q : Digest × Digest}
    (e : nodeMessage p.1 p.2 = nodeMessage q.1 q.2) : p = q ∨ p = q.swap := by
  obtain ⟨a, b⟩ := p
  obtain ⟨c, d⟩ := q
  -- both sides sorted, the digests are equal one by one
  have key : ∀ {a b c d : Digest}, strategyNodeDomain ++ a.toBytes ++ b.toBytes
      = strategyNodeDomain ++ c.toBytes ++ d.toBytes → a = c ∧ b = d := by
    intro a b c d e
    rw [List.append_assoc, List.append_assoc] at e
    obtain ⟨-, e⟩ := List.append_inj e rfl
    obtain ⟨hleft, hright⟩ := List.append_inj e (by simp)
    exact ⟨Digest.toBytes_inj.1 hleft, Digest.toBytes_inj.1 hright⟩
  simp only [nodeMessage] at e
  split at e <;> split at e <;> obtain ⟨rfl, rfl⟩ := key e <;> simp

/-- A leaf's message is never a node's: the domains differ. -/
theorem message_ne_nodeMessage (l : StrategyLeaf) (a b : Digest) :
    l.message ≠ nodeMessage a b := by
  intro e
  have hleaf : l.message.take 38 = strategyLeafDomain := by
    rw [StrategyLeaf.message, StrategyLeaf.header, List.append_assoc]
    exact List.take_left' rfl
  have hnode : (nodeMessage a b).take 38 = strategyNodeDomain := by
    rw [nodeMessage]
    split
    rw [List.append_assoc]
    exact List.take_left' rfl
  rw [e, hnode] at hleaf
  exact absurd hleaf (by decide)

end Unambiguous

end AsyncVault
