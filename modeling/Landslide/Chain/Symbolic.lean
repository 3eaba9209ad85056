import Landslide.Chain.Persistence
import Landslide.Chain.Proposal

/-! # A symbolic instance of the CometBFT interface

Digests are terms: hashing a value wraps it in a constructor, so no two values share
a digest. The other functions follow CometBFT. A finite catalogue stands for the wire
format: a block of the catalogue is encoded as its index. The instance shows that the
rules of the interface hold together, and runs the model on concrete blocks.
-/
namespace Landslide

/-- The values that are hashed and contain no digest themselves. -/
inductive Content where
  | commit (signatures : List CommitSig)
  | data (txs : List Tx)
  | evidence (evidence : List Evidence)
  | validators (vals : ValidatorSet)
  | params (params : ConsensusParams)
  | results (results : List ExecTxResult)
  deriving DecidableEq

inductive Digest where
  | content (c : Content)
  | header (h : Header Digest)
  | parts (b : Block Digest)

namespace Digest

-- the recursion runs through the records a digest may contain
mutual
def decEq : (a b : Digest) → Decidable (a = b)
  | .content c,.content c' => decidable_of_iff (c = c') (by simp)
  | .header h,.header h' =>
    have := decEqHeader h h'
    decidable_of_iff (h = h') (by simp)
  | .parts b,.parts b' =>
    have := decEqBlock b b'
    decidable_of_iff (b = b') (by simp)
  | .content _,.header _ => isFalse nofun
  | .content _,.parts _ => isFalse nofun
  | .header _,.content _ => isFalse nofun
  | .header _,.parts _ => isFalse nofun
  | .parts _,.content _ => isFalse nofun
  | .parts _,.header _ => isFalse nofun
termination_by structural a => a

def decEqBlock : (a b : Block Digest) → Decidable (a = b)
  | ⟨h,t,e,c⟩,⟨h',t',e',c'⟩ =>
    have := decEqHeader h h'
    have := decEqCommit c c'
    decidable_of_iff (h = h' ∧ t = t' ∧ e = e' ∧ c = c') (by simp)
termination_by structural a => a

def decEqHeader : (a b : Header Digest) → Decidable (a = b)
  | ⟨v,n,h,t,i,lc,d,vh,nv,c,a,r,e,p⟩,⟨v',n',h',t',i',lc',d',vh',nv',c',a',r',e',p'⟩ =>
    have := decEqBlockID i i'
    have := decEqOption lc lc'
    have := decEqOption d d'
    have := decEqOption vh vh'
    have := decEqOption nv nv'
    have := decEqOption c c'
    have := decEqOption r r'
    have := decEqOption e e'
    decidable_of_iff (v = v' ∧ n = n' ∧ h = h' ∧ t = t' ∧ i = i' ∧ lc = lc' ∧ d = d' ∧ vh = vh' ∧
      nv = nv' ∧ c = c' ∧ a = a' ∧ r = r' ∧ e = e' ∧ p = p') (by simp)
termination_by structural a => a

def decEqCommit : (a b : Commit Digest) → Decidable (a = b)
  | ⟨h,r,i,s⟩,⟨h',r',i',s'⟩ =>
    have := decEqBlockID i i'
    decidable_of_iff (h = h' ∧ r = r' ∧ i = i' ∧ s = s') (by simp)
termination_by structural a => a

def decEqBlockID : (a b : BlockID Digest) → Decidable (a = b)
  | ⟨h,p⟩,⟨h',p'⟩ =>
    have := decEqOption h h'
    have := decEqPartSetHeader p p'
    decidable_of_iff (h = h' ∧ p = p') (by simp)
termination_by structural a => a

def decEqPartSetHeader : (a b : PartSetHeader Digest) → Decidable (a = b)
  | ⟨t,p⟩,⟨t',p'⟩ =>
    have := decEqOption p p'
    decidable_of_iff (t = t' ∧ p = p') (by simp)
termination_by structural a => a

def decEqOption : (a b : Option Digest) → Decidable (a = b)
  | none,none => isTrue rfl
  | some a,some b =>
    have := decEq a b
    decidable_of_iff (a = b) (by simp)
  | none,some _ => isFalse nofun
  | some _,none => isFalse nofun
termination_by structural a => a
end

instance : DecidableEq Digest := decEq

end Digest

namespace Symbolic

instance (cs : CommitSig) : Decidable (CometBFT.CommitSigValid cs) := by
  unfold CometBFT.CommitSigValid
  exact match cs.blockIDFlag with
    | .absent => inferInstance
    | .commit => inferInstance
    | .nil => inferInstance

instance {H : Type} [DecidableEq H] (c : Commit H) : Decidable (CometBFT.CommitValid c) :=
  decidable_of_iff (0 ≤ c.height ∧ 0 ≤ c.round ∧ (1 ≤ c.height → c.blockID ≠ .zero H) ∧
    (1 ≤ c.height → c.signatures ≠ []) ∧
    (1 ≤ c.height → ∀ cs ∈ c.signatures, CometBFT.CommitSigValid cs))
    ⟨fun ⟨h,r,i,n,s⟩ => ⟨h,r,i,n,s⟩,fun ⟨h,r,i,n,s⟩ => ⟨h,r,i,n,s⟩⟩

instance (vals : ValidatorSet) : Decidable (CometBFT.ValidatorSetValid vals) :=
  decidable_of_iff (vals ≠ [] ∧ vals.addresses.Nodup ∧
    (∀ v ∈ vals, v.address.length = CometBFT.addressSize) ∧ (∀ v ∈ vals, 0 < v.votingPower) ∧
    (vals.map Validator.votingPower).sum ≤ CometBFT.maxTotalVotingPower)
    ⟨fun ⟨n,d,a,p,t⟩ => ⟨n,d,a,p,t⟩,fun ⟨n,d,a,p,t⟩ => ⟨n,d,a,p,t⟩⟩

/-! ## The functions -/

def commitHash (signatures : List CommitSig) : Digest := .content (.commit signatures)
def dataHash (txs : List Tx) : Digest := .content (.data txs)
def evidenceHash (evidence : List Evidence) : Digest := .content (.evidence evidence)
def validatorSetHash (vals : ValidatorSet) : Digest := .content (.validators vals)
def consensusParamsHash (params : ConsensusParams) : Digest := .content (.params params)

def BasicConditions (b : Block Digest) : Prop :=
  b.header.version.block = CometBFT.blockProtocol ∧
  b.header.chainID.utf8ByteSize ≤ CometBFT.maxChainIDLen ∧ 0 < b.header.height ∧
  b.header.proposerAddress.length = CometBFT.addressSize ∧ CometBFT.CommitValid b.lastCommit ∧
  b.header.lastCommitHash = some (commitHash b.lastCommit.signatures) ∧
  b.header.dataHash = some (dataHash b.txs) ∧
  b.header.evidenceHash = some (evidenceHash b.evidence)

instance (b : Block Digest) : Decidable (BasicConditions b) := by
  unfold BasicConditions
  infer_instance

def validateBasic (b : Block Digest) : Option String :=
  if BasicConditions b then none else some "invalid block"

def medianScan : ℤ → List WeightedTime → ℤ
  | _,[] => zeroTime
  | median,w :: rest => if median ≤ w.weight then w.time else medianScan (median - w.weight) rest

def weightedMedian (weighted : List (Option WeightedTime)) (total : ℤ) : ℤ :=
  medianScan (total / 2) (weighted.reduceOption.insertionSort (fun a b => a.time ≤ b.time))

/-- The block overhead, the header, the commit and the evidence come off the block size. -/
def maxDataBytes (maxBytes evidenceBytes : ℤ) (valsCount : ℕ) : Option ℤ :=
  let n := maxBytes - 11 - 626 - (94 + 111 * valsCount) - evidenceBytes
  if n < 0 then none else some n

def validateTxs (txs : List Tx) (maxBytes : ℤ) : Option String :=
  if (txs.map (fun tx => (tx.length : ℤ) + 2)).sum > maxBytes then
    some "transaction data size exceeds maximum %d"
  else none

def makeBlock (s : State Digest) (height : ℤ) (txs : List Tx) (commit : Commit Digest)
    (proposerAddress : Bytes) : Block Digest where
  header :=
    { version := s.version
      chainID := s.chainID
      height := height
      time := if height = s.initialHeight then s.lastBlockTime
        else
          let weighted := commit.signatures.map (weightedTime s.lastValidators)
          weightedMedian weighted (totalVotingPower weighted)
      lastBlockID := s.lastBlockID
      lastCommitHash := some (commitHash commit.signatures)
      dataHash := some (dataHash txs)
      validatorsHash := some (validatorSetHash s.validators)
      nextValidatorsHash := some (validatorSetHash s.nextValidators)
      consensusHash := some (consensusParamsHash s.consensusParams)
      appHash := s.appHash
      lastResultsHash := s.lastResultsHash
      evidenceHash := some (evidenceHash [])
      proposerAddress := proposerAddress }
  txs := txs
  evidence := []
  lastCommit := commit

def voteExtensionsEnabled (params : ConsensusParams) (height : ℤ) : Bool :=
  params.voteExtensionsEnableHeight ≠ 0 ∧ params.voteExtensionsEnableHeight ≤ height

def ensureExtension (ecs : ExtendedCommitSig) (enabled : Bool) : Option String :=
  if enabled ∧ ecs.commitSig.blockIDFlag = .commit then
    if ecs.extensionSignature = [] then some "vote extension signature is missing" else none
  else if ecs.extension ≠ [] ∨ ecs.extensionSignature ≠ [] then some "unexpected vote extension"
  else none

def pubKeyAddress (pk : PubKey) : Bytes :=
  (pk.data ++ List.replicate CometBFT.addressSize 0).take CometBFT.addressSize

/-- The changes replace validators of the same address, and power zero removes one. -/
def updateWithChangeSet (vals : ValidatorSet) (changes : List Validator) :
    Except String ValidatorSet :=
  let kept := vals.filter (fun v => v.address ∉ ValidatorSet.addresses changes)
  let next := kept ++ changes.filter (fun v => v.votingPower ≠ 0)
  if CometBFT.ValidatorSetValid next then .ok next else .error "invalid changes"

def updateParams (params : ConsensusParams) (updates : ConsensusParamUpdates) :
    ConsensusParams where
  block := updates.block.getD params.block
  evidence := updates.evidence.getD params.evidence
  pubKeyTypes := updates.pubKeyTypes.getD params.pubKeyTypes
  appVersion := updates.appVersion.getD params.appVersion
  voteExtensionsEnableHeight :=
    updates.voteExtensionsEnableHeight.getD params.voteExtensionsEnableHeight

def paramsValidateBasic (params : ConsensusParams) : Option String :=
  if params.evidence.maxBytes < 0 then some "evidence.MaxBytes must be non negative. Got: %d"
  else none

def statusCode : Status → UInt8
  | .unspecified => 0
  | .processing => 1
  | .rejected => 2
  | .accepted => 3
  | .other _ => 4

def statusOf (code : UInt8) : Status :=
  if code = 0 then .unspecified
  else if code = 1 then .processing
  else if code = 2 then .rejected
  else if code = 3 then .accepted
  else .other code.toNat

/-- A lower bound for the JSON text of a block whose header has all its hashes. With an
empty last commit the text takes 1002 bytes besides the transactions, which are written
in base 64; a signature takes at least 90. -/
def jsonLen (b : Block Digest) : ℕ :=
  1000 + 90 * b.lastCommit.signatures.length +
    (b.txs.map (fun tx => 4 * ((tx.length + 2) / 3) + 3)).sum

end Symbolic

open Symbolic in
/-- The instance whose wire format knows the blocks of a catalogue. -/
def symbolic (catalogue : List (Block Digest)) : CometBFT Digest where
  headerHash := .header
  commitHash := commitHash
  dataHash := dataHash
  evidenceHash := evidenceHash
  validatorSetHash := validatorSetHash
  consensusParamsHash := consensusParamsHash
  txResultsHash results := .content (.results results)
  makePartSet b := .ok ⟨1,some (.parts b)⟩
  validateBasic := validateBasic
  evidenceValidateBasic _ := none
  evidenceByteSize evidence := (evidence.map (fun e => (e.length : ℤ))).sum
  weightedMedian := weightedMedian
  maxDataBytes := maxDataBytes
  validateTxs := validateTxs
  makeBlock := makeBlock
  voteExtensionsEnabled := voteExtensionsEnabled
  ensureExtension := ensureExtension
  pubKeyAddress := pubKeyAddress
  pubKeyFromProto := .ok
  validatorUpdates updates :=
    .ok (updates.map (fun u => ⟨pubKeyAddress u.pubKey,u.pubKey,u.power⟩))
  updateWithChangeSet := updateWithChangeSet
  updateParams := updateParams
  paramsValidateBasic := paramsValidateBasic
  paramsValidateUpdate _ _ _ := none
  ProtoBlock := Block Digest
  toProto := .ok
  blockFromProto b := match validateBasic b with
    | none => .ok b
    | some e => .error e
  marshalBlock b := match catalogue.findIdx? (· = b) with
    | some i => .ok [UInt8.ofNat i]
    | none => .error "unknown block"
  unmarshalBlock data := match data with
    -- bytes after the index only make an encoding as long as the real one
    | i :: _ => match catalogue[i.toNat]? with
      | some b => .ok b
      | none => .error "unknown index"
    | [] => .error "unexpected EOF"
  jsonMarshal w := .ok (statusCode w.status :: w.block)
  jsonUnmarshal data := match data with
    | [] => .error "unexpected end of JSON input"
    | code :: block => .ok ⟨block,statusOf code⟩
  jsonLen := jsonLen

namespace Symbolic
variable (catalogue : List (Block Digest))

theorem blockRules : (symbolic catalogue).BlockRules where
  validateBasic_iff b := by
    have hif : (symbolic catalogue).validateBasic b = none ↔ BasicConditions b := by
      simp [symbolic,validateBasic]
    rw [hif]
    constructor
    · rintro ⟨hv,hn,hh,hp,hc,hl,hd,he⟩
      exact ⟨hv,hn,hh,hp,hc,hl,hd,fun _ _ => rfl,he⟩
    · rintro ⟨hv,hn,hh,hp,hc,hl,hd,_,he⟩
      exact ⟨hv,hn,hh,hp,hc,hl,hd,he⟩

theorem hashRules : (symbolic catalogue).HashRules where
  headerHash _ _ h := Digest.header.inj h
  commitHash _ _ h := Content.commit.inj (Digest.content.inj h)
  dataHash _ _ h := Content.data.inj (Digest.content.inj h)
  evidenceHash _ _ h := Content.evidence.inj (Digest.content.inj h)
  makePartSet {b₁ b₂ p} h₁ h₂ := by
    have h := Except.ok.inj (h₁.trans h₂.symm)
    simpa using h
  makePartSet_ok _ := ⟨_,rfl⟩

theorem blockFromProto_eq {p b : Block Digest}
    (h : (symbolic catalogue).blockFromProto p = .ok b) : b = p ∧ validateBasic p = none := by
  change (match validateBasic p with | none => Except.ok p | some e => .error e) = .ok b at h
  cases hv : validateBasic p with
  | some e => simp [hv] at h
  | none =>
    simp only [hv] at h
    exact ⟨(Except.ok.inj h).symm,rfl⟩

theorem blockFromProto_of_valid {b : Block Digest} (h : validateBasic b = none) :
    (symbolic catalogue).blockFromProto b = .ok b := by
  simp [symbolic,h]

theorem codecRules : (symbolic catalogue).CodecRules where
  fromProto_valid {p b} h := by
    obtain ⟨rfl,hv⟩ := blockFromProto_eq catalogue h
    exact hv
  decoded_encodes {data p b} hu hp := by
    have hbp := (blockFromProto_eq catalogue hp).1
    have hmem : b ∈ catalogue := by
      rw [hbp]
      simp only [symbolic] at hu
      split at hu
      · split at hu
        · next h =>
          cases hu
          exact List.mem_of_getElem? h
        · cases hu
      · cases hu
    obtain ⟨i,hi⟩ : ∃ i, catalogue.findIdx? (· = b) = some i := by
      apply Option.isSome_iff_exists.mp
      rw [List.findIdx?_isSome]
      simpa using hmem
    exact ⟨b,[UInt8.ofNat i],rfl,by simp [symbolic,hi]⟩
  jsonMarshal_ok _ := ⟨_,rfl⟩

theorem updateRules : (symbolic catalogue).UpdateRules where
  updateWithChangeSet {vals updates changes vals'} _ _ h := by
    simp only [symbolic,updateWithChangeSet] at h
    split at h
    · next hv => exact Except.ok.inj h ▸ hv
    · cases h
  evidenceMaxBytes {params} h := by
    by_contra hn
    simp [symbolic,paramsValidateBasic,not_le.mp hn] at h

theorem medianScan_of_scan {sorted : List WeightedTime} {median : ℤ} {w : WeightedTime}
    (h : WeightedMedian.scan WeightedTime.weight median sorted = some w) :
    medianScan median sorted = w.time := by
  induction sorted generalizing median with
  | nil => cases h
  | cons v rest ih =>
    by_cases hv : median ≤ v.weight
    · obtain rfl : v = w := Option.some.inj ((if_pos hv).symm.trans h)
      exact if_pos hv
    · exact (if_neg hv).trans (ih ((if_neg hv).symm.trans h))

theorem scanRules : (symbolic catalogue).ScanRules where
  weightedMedian_scan weighted total := by
    refine ⟨weighted.reduceOption.insertionSort (fun a b => a.time ≤ b.time),
      List.perm_insertionSort _ _,?_,fun w h => medianScan_of_scan h⟩
    have : Std.Total (fun a b : WeightedTime => a.time ≤ b.time) := ⟨fun a b => le_total _ _⟩
    have : IsTrans WeightedTime (fun a b => a.time ≤ b.time) := ⟨fun _ _ _ => le_trans⟩
    exact List.pairwise_insertionSort _ _

theorem medianRules : (symbolic catalogue).MedianRules where
  weightedMedian_mem weighted hne hpos := by
    have hscans := scanRules catalogue
    obtain ⟨sorted,hperm,_,hmedian⟩ := hscans.weightedMedian_scan weighted
      (weighted.reduceOption.map WeightedTime.weight).sum
    have hsum : WeightedMedian.total WeightedTime.weight sorted =
        (weighted.reduceOption.map WeightedTime.weight).sum := WeightedMedian.total_perm hperm
    have hnonneg : 0 ≤ WeightedMedian.total WeightedTime.weight sorted :=
      WeightedMedian.total_nonneg (fun w hw => hpos w (hperm.mem_iff.mp hw))
    have hsorted : sorted ≠ [] := fun he => hne (List.perm_nil.mp (he ▸ hperm).symm)
    have hhalf : (weighted.reduceOption.map WeightedTime.weight).sum / 2 ≤
        WeightedMedian.total WeightedTime.weight sorted := by omega
    obtain ⟨w,hscan⟩ := WeightedMedian.scan_isSome hsorted hhalf
    obtain ⟨before,after,rfl,_⟩ := WeightedMedian.scan_split hscan
    exact ⟨w,hperm.mem_iff.mp (by simp),hmedian w hscan⟩

theorem proposalRules : (symbolic catalogue).ProposalRules where
  makeBlock_eq _ _ _ _ _ := rfl
  ensureExtension_nil cs enabled h := by
    simp [symbolic,ensureExtension,h]
  evidenceByteSize_nil := rfl

end Symbolic

/-! ## A small chain

One validator, a genesis state, an application that answers every block with the same
validator updates, and the first two blocks.
-/

namespace Sample

def key : PubKey := ⟨"ed25519",List.replicate 32 1⟩

def validator : Validator := ⟨List.replicate 20 1,key,10⟩

def params : ConsensusParams where
  block := ⟨22020096,-1⟩
  evidence := ⟨100000,172800000000000,1048576⟩
  pubKeyTypes := ["ed25519"]
  appVersion := 0
  voteExtensionsEnableHeight := 0

def genesis : State Digest where
  version := ⟨11,0⟩
  chainID := "landslide"
  initialHeight := 1
  lastBlockHeight := 0
  lastBlockID := .zero Digest
  lastBlockTime := 1000
  nextValidators := [validator]
  validators := [validator]
  lastValidators := []
  lastHeightValidatorsChanged := 1
  consensusParams := params
  lastHeightConsensusParamsChanged := 1
  lastResultsHash := some (.content (.results []))
  appHash := []

def disk : Disk Digest := ⟨StateStore.save ⟨genesis,fun _ => none,[]⟩ genesis,.empty,0⟩

def config : ExecutorConfig := ⟨22020096,-1,1048576⟩

def proposal : ProposalEnv Digest where
  reapMaxBytesMaxGas _ _ := []
  prepareProposal req := .ok req.txs

def response (txs : List Tx) (updates : List ValidatorUpdate) : ResponseFinalizeBlock where
  txResults := txs.map (fun _ => ⟨0,[],0,0⟩)
  validatorUpdates := updates
  consensusParamUpdates := none
  appHash := []

/-- Every call succeeds; the application asks for these validator updates and this
height to retain. -/
def acceptEnv (updates : List ValidatorUpdate) (retainHeight : ℤ) : AcceptEnv Digest where
  finalizeBlock req := .ok (response req.txs updates)
  saveFinalizeBlockResponse := none
  flushAppConn := none
  commit := .ok retainHeight
  mempoolUpdate := none
  saveState := none
  pruneBlocks := none
  pruneStates := none
  saveStateAgain := none

def proposer : Bytes := List.replicate 20 0

def firstBlock : Block Digest := Symbolic.makeBlock genesis 1 [] ⟨0,0,.zero Digest,[]⟩ proposer

def firstID : Digest := .header firstBlock.header

def blockID (b : Block Digest) : BlockID Digest := ⟨some (.header b.header),⟨1,some (.parts b)⟩⟩

def nextState (s : State Digest) (b : Block Digest) (next : ValidatorSet) : State Digest :=
  { s with
    lastBlockHeight := b.header.height
    lastBlockID := blockID b
    lastBlockTime := b.header.time
    nextValidators := next
    validators := s.nextValidators
    lastValidators := s.validators
    lastResultsHash := some (.content (.results (b.txs.map (fun _ => ⟨0,[],0,0⟩)))) }

def firstState : State Digest := nextState genesis firstBlock [validator]

def commit (b : Block Digest) (timestamp : ℤ) : Commit Digest where
  height := b.header.height
  round := 0
  blockID := blockID b
  signatures := [⟨.nil,validator.address,timestamp,List.replicate 64 7⟩]

def secondBlock : Block Digest :=
  Symbolic.makeBlock firstState 2 [] (commit firstBlock 2000) proposer

def secondID : Digest := .header secondBlock.header

def secondState : State Digest := nextState firstState secondBlock [validator]

end Sample
end Landslide
