import Mathlib

/-! # Block, commit and state records

The records of CometBFT that the VM reads and writes, over an abstract type `H` of
32-byte digests: the VM only compares digests, so nothing depends on their bytes. A
digest field that the wire format allows to be empty is an `Option`. Times count
nanoseconds, heights and voting powers are integers.
-/
namespace Landslide

abbrev Bytes := List UInt8
abbrev Tx := Bytes

/-- Go's zero `time.Time`, the first of January of year 1, in Unix nanoseconds. -/
def zeroTime : ℤ := -62135596800 * 10 ^ 9

/-- Two's complement wrap-around of a Go `int64`. -/
def int64 (n : ℤ) : ℤ := n.bmod (2 ^ 64)

def uint64 (n : ℤ) : ℕ := (n % 2 ^ 64).toNat

/-- One piece of evidence, kept as its encoding. -/
abbrev Evidence := Bytes

/-- `vm.Status`; the wire format admits numbers without a name. -/
inductive Status where
  | unspecified
  | processing
  | rejected
  | accepted
  | other (n : ℤ)
  deriving DecidableEq, Repr

structure PartSetHeader (H : Type) where
  total : ℕ
  hash : Option H
  deriving DecidableEq

structure BlockID (H : Type) where
  hash : Option H
  partSetHeader : PartSetHeader H
  deriving DecidableEq

def BlockID.zero (H : Type) : BlockID H := ⟨none,⟨0,none⟩⟩

inductive BlockIDFlag where
  | absent
  | commit
  | nil
  deriving DecidableEq, Repr

structure CommitSig where
  blockIDFlag : BlockIDFlag
  validatorAddress : Bytes
  timestamp : ℤ
  signature : Bytes
  deriving DecidableEq

structure Commit (H : Type) where
  height : ℤ
  round : ℤ
  blockID : BlockID H
  signatures : List CommitSig
  deriving DecidableEq

structure ExtendedCommitSig where
  commitSig : CommitSig
  extension : Bytes
  extensionSignature : Bytes
  deriving DecidableEq

structure ExtendedCommit (H : Type) where
  height : ℤ
  round : ℤ
  blockID : BlockID H
  extendedSignatures : List ExtendedCommitSig
  deriving DecidableEq

/-- `ExtendedCommit.ToCommit` drops the vote extensions. -/
def ExtendedCommit.toCommit {H : Type} (ec : ExtendedCommit H) : Commit H :=
  ⟨ec.height,ec.round,ec.blockID,ec.extendedSignatures.map ExtendedCommitSig.commitSig⟩

structure Consensus where
  block : ℕ
  app : ℕ
  deriving DecidableEq

structure Header (H : Type) where
  version : Consensus
  chainID : String
  height : ℤ
  time : ℤ
  lastBlockID : BlockID H
  lastCommitHash : Option H
  dataHash : Option H
  validatorsHash : Option H
  nextValidatorsHash : Option H
  consensusHash : Option H
  appHash : Bytes
  lastResultsHash : Option H
  evidenceHash : Option H
  proposerAddress : Bytes
  deriving DecidableEq

structure Block (H : Type) where
  header : Header H
  txs : List Tx
  evidence : List Evidence
  lastCommit : Commit H
  deriving DecidableEq

structure PubKey where
  keyType : String
  data : Bytes
  deriving DecidableEq

structure Validator where
  address : Bytes
  pubKey : PubKey
  votingPower : ℤ
  deriving DecidableEq

/-- A validator set in its canonical order. Proposer priorities are left out: no
check, hash or request of the VM reads them. -/
abbrev ValidatorSet := List Validator

namespace ValidatorSet

def getByAddress (vals : ValidatorSet) (address : Bytes) : Option Validator :=
  vals.find? (fun v => v.address = address)

def addresses (vals : ValidatorSet) : List Bytes := vals.map Validator.address

end ValidatorSet

structure BlockParams where
  maxBytes : ℤ
  maxGas : ℤ
  deriving DecidableEq

structure EvidenceParams where
  maxAgeNumBlocks : ℤ
  maxAgeDuration : ℤ
  maxBytes : ℤ
  deriving DecidableEq

structure ConsensusParams where
  block : BlockParams
  evidence : EvidenceParams
  pubKeyTypes : List String
  appVersion : ℕ
  voteExtensionsEnableHeight : ℤ
  deriving DecidableEq

structure ConsensusParamUpdates where
  block : Option BlockParams
  evidence : Option EvidenceParams
  pubKeyTypes : Option (List String)
  appVersion : Option ℕ
  voteExtensionsEnableHeight : Option ℤ
  deriving DecidableEq

structure State (H : Type) where
  version : Consensus
  chainID : String
  initialHeight : ℤ
  lastBlockHeight : ℤ
  lastBlockID : BlockID H
  lastBlockTime : ℤ
  nextValidators : ValidatorSet
  validators : ValidatorSet
  lastValidators : ValidatorSet
  lastHeightValidatorsChanged : ℤ
  consensusParams : ConsensusParams
  lastHeightConsensusParamsChanged : ℤ
  lastResultsHash : Option H
  appHash : Bytes
  deriving DecidableEq

/-! ## Messages to and from the application -/

structure ABCIValidator where
  address : Bytes
  power : ℤ
  deriving DecidableEq

structure VoteInfo where
  validator : ABCIValidator
  blockIDFlag : BlockIDFlag
  deriving DecidableEq

structure CommitInfo where
  round : ℤ
  votes : List VoteInfo
  deriving DecidableEq

structure ExtendedVoteInfo where
  validator : ABCIValidator
  blockIDFlag : BlockIDFlag
  voteExtension : Bytes
  extensionSignature : Bytes
  deriving DecidableEq

structure ExtendedCommitInfo where
  round : ℤ
  votes : List ExtendedVoteInfo
  deriving DecidableEq

structure RequestPrepareProposal (H : Type) where
  maxTxBytes : ℤ
  txs : List Tx
  localLastCommit : ExtendedCommitInfo
  misbehavior : List Evidence
  height : ℤ
  time : ℤ
  nextValidatorsHash : Option H
  proposerAddress : Bytes

structure RequestFinalizeBlock (H : Type) where
  hash : Option H
  nextValidatorsHash : Option H
  proposerAddress : Bytes
  height : ℤ
  time : ℤ
  decidedLastCommit : CommitInfo
  misbehavior : List Evidence
  txs : List Tx

structure ExecTxResult where
  code : ℕ
  data : Bytes
  gasWanted : ℤ
  gasUsed : ℤ
  deriving DecidableEq

structure ValidatorUpdate where
  pubKey : PubKey
  power : ℤ
  deriving DecidableEq

structure ResponseFinalizeBlock where
  txResults : List ExecTxResult
  validatorUpdates : List ValidatorUpdate
  consensusParamUpdates : Option ConsensusParamUpdates
  appHash : Bytes
  deriving DecidableEq

end Landslide
