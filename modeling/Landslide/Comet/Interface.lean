import Landslide.Comet.Types

/-! # The part of CometBFT that the VM calls

CometBFT is a library outside this repository. Its functions are a parameter of
every definition below, and what a result relies on is a named rule about them.
-/
namespace Landslide

structure WeightedTime where
  time : ℤ
  weight : ℤ
  deriving DecidableEq

structure WireBlock where
  block : Bytes
  status : Status
  deriving DecidableEq

structure CometBFT (H : Type) where
  /-- `Header.Hash` of a header with a validators hash. -/
  headerHash : Header H → H
  commitHash : List CommitSig → H
  dataHash : List Tx → H
  evidenceHash : List Evidence → H
  validatorSetHash : ValidatorSet → H
  consensusParamsHash : ConsensusParams → H
  txResultsHash : List ExecTxResult → H
  /-- `Block.MakePartSet(BlockPartSizeBytes)`, reduced to the header of the part set. -/
  makePartSet : Block H → Except String (PartSetHeader H)
  /-- `Block.ValidateBasic`; `none` is success. -/
  validateBasic : Block H → Option String
  evidenceValidateBasic : Evidence → Option String
  evidenceByteSize : List Evidence → ℤ
  weightedMedian : List (Option WeightedTime) → ℤ → ℤ
  /-- `types.MaxDataBytes`; `none` is its panic on a negative result. -/
  maxDataBytes : ℤ → ℤ → ℕ → Option ℤ
  /-- `Txs.Validate`. -/
  validateTxs : List Tx → ℤ → Option String
  /-- `State.MakeBlock` without evidence. -/
  makeBlock : State H → ℤ → List Tx → Commit H → Bytes → Block H
  voteExtensionsEnabled : ConsensusParams → ℤ → Bool
  ensureExtension : ExtendedCommitSig → Bool → Option String
  pubKeyAddress : PubKey → Bytes
  pubKeyFromProto : PubKey → Except String PubKey
  validatorUpdates : List ValidatorUpdate → Except String (List Validator)
  /-- `ValidatorSet.UpdateWithChangeSet`. -/
  updateWithChangeSet : ValidatorSet → List Validator → Except String ValidatorSet
  updateParams : ConsensusParams → ConsensusParamUpdates → ConsensusParams
  paramsValidateBasic : ConsensusParams → Option String
  paramsValidateUpdate : ConsensusParams → ConsensusParamUpdates → ℤ → Option String
  ProtoBlock : Type
  toProto : Block H → Except String ProtoBlock
  blockFromProto : ProtoBlock → Except String (Block H)
  marshalBlock : ProtoBlock → Except String Bytes
  unmarshalBlock : Bytes → Except String ProtoBlock
  jsonMarshal : WireBlock → Except String Bytes
  jsonUnmarshal : Bytes → Except String WireBlock
  /-- The length of the JSON text of a wrapped block. The status is one of three
  one-digit numbers whenever the VM measures a wrapped block, so it does not matter. -/
  jsonLen : Block H → ℕ

namespace CometBFT
variable {H : Type}

def addressSize : ℕ := 20
def maxSignatureSize : ℕ := 64
def maxChainIDLen : ℕ := 50
def blockProtocol : ℕ := 11

/-- `Block.Hash`: nil while the header names no validator set. -/
def hash (C : CometBFT H) (b : Block H) : Option H :=
  b.header.validatorsHash.map (fun _ => C.headerHash b.header)

theorem hash_eq_some_iff (C : CometBFT H) {b : Block H} {id : H} :
    C.hash b = some id ↔ b.header.validatorsHash ≠ none ∧ C.headerHash b.header = id := by
  unfold hash
  cases b.header.validatorsHash <;> simp

/-- What `CommitSig.ValidateBasic` accepts. -/
def CommitSigValid (cs : CommitSig) : Prop :=
  match cs.blockIDFlag with
  | .absent => cs.validatorAddress = [] ∧ cs.timestamp = zeroTime ∧ cs.signature = []
  | _ => cs.validatorAddress.length = addressSize ∧
      cs.signature ≠ [] ∧ cs.signature.length ≤ maxSignatureSize

/-- What `Commit.ValidateBasic` accepts. -/
structure CommitValid (c : Commit H) : Prop where
  height : 0 ≤ c.height
  round : 0 ≤ c.round
  blockID : 1 ≤ c.height → c.blockID ≠ .zero H
  nonempty : 1 ≤ c.height → c.signatures ≠ []
  signatures : 1 ≤ c.height → ∀ cs ∈ c.signatures, CommitSigValid cs

/-- What `Block.ValidateBasic` accepts. -/
structure BasicValid (C : CometBFT H) (b : Block H) : Prop where
  version : b.header.version.block = blockProtocol
  chainID : b.header.chainID.utf8ByteSize ≤ maxChainIDLen
  height : 0 < b.header.height
  proposerAddress : b.header.proposerAddress.length = addressSize
  lastCommit : CommitValid b.lastCommit
  lastCommitHash : b.header.lastCommitHash = some (C.commitHash b.lastCommit.signatures)
  dataHash : b.header.dataHash = some (C.dataHash b.txs)
  evidence : ∀ e ∈ b.evidence, C.evidenceValidateBasic e = none
  evidenceHash : b.header.evidenceHash = some (C.evidenceHash b.evidence)

structure BlockRules (C : CometBFT H) : Prop where
  validateBasic_iff : ∀ b, C.validateBasic b = none ↔ BasicValid C b

/-- The header hash, the Merkle roots and the part-set hash are collision free, and a
consistent block has a part set. -/
structure HashRules (C : CometBFT H) : Prop where
  headerHash : Function.Injective C.headerHash
  commitHash : Function.Injective C.commitHash
  dataHash : Function.Injective C.dataHash
  evidenceHash : Function.Injective C.evidenceHash
  makePartSet : ∀ {b₁ b₂ p}, C.makePartSet b₁ = .ok p → C.makePartSet b₂ = .ok p → b₁ = b₂
  makePartSet_ok : ∀ {b}, C.validateBasic b = none → ∃ p, C.makePartSet b = .ok p

theorem HashRules.header_eq {C : CometBFT H} (hC : HashRules C) {b₁ b₂ : Block H} {id : H}
    (h₁ : C.hash b₁ = some id) (h₂ : C.hash b₂ = some id) : b₁.header = b₂.header := by
  have e₁ := (C.hash_eq_some_iff.mp h₁).2
  have e₂ := (C.hash_eq_some_iff.mp h₂).2
  exact hC.headerHash (e₁.trans e₂.symm)

def maxTotalVotingPower : ℤ := 2 ^ 60 - 1

/-- A validator set as CometBFT keeps them: not empty, with distinct addresses of the
right size and positive powers that stay below the bound on their total. -/
structure ValidatorSetValid (vals : ValidatorSet) : Prop where
  nonempty : vals ≠ []
  nodup : vals.addresses.Nodup
  address : ∀ v ∈ vals, v.address.length = addressSize
  power : ∀ v ∈ vals, 0 < v.votingPower
  total : (vals.map Validator.votingPower).sum ≤ maxTotalVotingPower

/-- `UpdateWithChangeSet` keeps validator sets valid, and validated consensus
parameters leave no negative room for evidence. -/
structure UpdateRules (C : CometBFT H) : Prop where
  updateWithChangeSet : ∀ {vals updates changes vals'}, ValidatorSetValid vals →
    C.validatorUpdates updates = .ok changes → C.updateWithChangeSet vals changes = .ok vals' →
    ValidatorSetValid vals'
  evidenceMaxBytes : ∀ {params}, C.paramsValidateBasic params = none →
    0 ≤ params.evidence.maxBytes

/-- The weighted median of positive weights is one of the times. -/
structure MedianRules (C : CometBFT H) : Prop where
  weightedMedian_mem : ∀ weighted : List (Option WeightedTime), weighted.reduceOption ≠ [] →
    (∀ w ∈ weighted.reduceOption, 0 < w.weight) → ∃ w ∈ weighted.reduceOption,
      C.weightedMedian weighted (weighted.reduceOption.map WeightedTime.weight).sum = w.time

/-- What `BlockFromProto` returns is a consistent block; a decoded block can be encoded
again, and the wrapper of an encoded block always has a JSON form. -/
structure CodecRules (C : CometBFT H) : Prop where
  fromProto_valid : ∀ {p b}, C.blockFromProto p = .ok b → C.validateBasic b = none
  decoded_encodes : ∀ {data p b}, C.unmarshalBlock data = .ok p → C.blockFromProto p = .ok b →
    ∃ q bytes, C.toProto b = .ok q ∧ C.marshalBlock q = .ok bytes
  jsonMarshal_ok : ∀ w, ∃ data, C.jsonMarshal w = .ok data

end CometBFT
end Landslide
