import Landslide.Chain.CommitInfo
import Landslide.Chain.ValidateBlock

/-! # The block executor

Proposal, validation, execution and commitment of one block. What the application,
the mempool and the databases answer is an input, so that a result about acceptance
covers every failure these calls can have.
-/
namespace Landslide
variable {H : Type}

inductive ValidatorUpdateError where
  | negativePower (update : ValidatorUpdate)
  | pubKey (e : String)
  | unsupported (update : ValidatorUpdate) (keyType : String)
  deriving DecidableEq

def ValidatorUpdateError.text : ValidatorUpdateError → String
  | negativePower _ => "voting power can't be negative %v"
  | pubKey e => e
  | unsupported .. => "validator %v is using pubkey %s, which is unsupported for consensus"

inductive UpdateStateError where
  | validatorSet (e : String)
  | newParams (e : String)
  | paramUpdates (e : String)
  deriving DecidableEq

def UpdateStateError.text : UpdateStateError → String
  | validatorSet _ => "changing validator set: %w"
  | newParams _ => "validating new consensus params: %w"
  | paramUpdates _ => "updating consensus params: %w"

inductive ExecError (H : Type) where
  | invalidBlock (e : BlockError H)
  /-- An error of a callee that is handed on unchanged. -/
  | callee (e : String)
  | txResults (expected got : ℕ)
  | validatorUpdates (e : ValidatorUpdateError)
  | updateState (e : UpdateStateError)
  | commit (e : String)
  deriving DecidableEq

def ExecError.text : ExecError H → String
  | invalidBlock e => e.text
  | callee e => e
  | txResults .. =>
    "expected tx results length to match size of transactions in block. Expected %d, got %d"
  | validatorUpdates _ => "error in validator updates: %v"
  | updateState _ => "commit failed for application: %v"
  | commit _ => "commit failed for application: %v"

/-- The size limits a `BlockExecutor` is created with. -/
structure ExecutorConfig where
  blockMaxBytes : ℤ
  blockMaxGas : ℤ
  evidenceMaxBytes : ℤ
  deriving DecidableEq

def maxBlockSizeBytes : ℤ := 104857600

/-! ## Proposals -/

structure ProposalEnv (H : Type) where
  reapMaxBytesMaxGas : ℤ → ℤ → List Tx
  prepareProposal : RequestPrepareProposal H → Except String (List Tx)

def ExecutorConfig.maxBytes (cfg : ExecutorConfig) : ℤ :=
  if cfg.blockMaxBytes = -1 then maxBlockSizeBytes else cfg.blockMaxBytes

def dataLimit (C : CometBFT H) (cfg : ExecutorConfig) (s : State H) : Outcome (ExecError H) ℤ :=
  match C.maxDataBytes cfg.maxBytes cfg.evidenceMaxBytes s.validators.length with
  | some n => .ok n
  | none => .panic "Negative MaxDataBytes"

def createProposalBlock (C : CometBFT H) (cfg : ExecutorConfig) (env : ProposalEnv H)
    (store : StateStore H) (height : ℤ) (s : State H) (lastExtCommit : ExtendedCommit H)
    (proposerAddr : Bytes) : Outcome (ExecError H) (Block H) := do
  let maxDataBytes ← dataLimit C cfg s
  let maxReapBytes := if cfg.blockMaxBytes = -1 then -1 else maxDataBytes
  let txs := env.reapMaxBytesMaxGas maxReapBytes cfg.blockMaxGas
  let commit := lastExtCommit.toCommit
  let block := C.makeBlock s height txs commit proposerAddr
  let localLastCommit ← buildExtendedCommitInfoFromStore C lastExtCommit store s.initialHeight
    s.consensusParams
  let txl ← .ofExcept .callee (env.prepareProposal
    { maxTxBytes := maxDataBytes
      txs := block.txs
      localLastCommit := localLastCommit
      misbehavior := block.evidence
      height := block.header.height
      time := block.header.time
      nextValidatorsHash := block.header.nextValidatorsHash
      proposerAddress := block.header.proposerAddress })
  .ofOption ((C.validateTxs txl maxDataBytes).map .callee)
  pure (C.makeBlock s height txl commit proposerAddr)

/-- `MakeCommit`: the commit a block is saved with, signed by nobody at height one. -/
def makeCommit (height timestamp : ℤ) (vals : ValidatorSet) (blockID : BlockID H) : Commit H where
  height := height
  round := 0
  blockID := blockID
  signatures := if height > 1 then
      vals.map (fun v => ⟨.commit,v.address,timestamp,[0]⟩)
    else []

/-! ## Execution -/

/-- What the application, the mempool and the stores answer while a block is
accepted; `none` is a call that succeeds. -/
structure AcceptEnv (H : Type) where
  finalizeBlock : RequestFinalizeBlock H → Except String ResponseFinalizeBlock
  saveFinalizeBlockResponse : Option String
  flushAppConn : Option String
  /-- ABCI `Commit`; its answer is the height to retain. -/
  commit : Except String ℤ
  mempoolUpdate : Option String
  saveState : Option String
  pruneBlocks : Option String
  pruneStates : Option String
  /-- The second `stateStore.Save`, after the block was saved. -/
  saveStateAgain : Option String

def validateValidatorUpdate (C : CometBFT H) (pubKeyTypes : List String)
    (update : ValidatorUpdate) : Option ValidatorUpdateError :=
  if update.power < 0 then some (.negativePower update)
  else if update.power = 0 then none
  else
    match C.pubKeyFromProto update.pubKey with
    | .error e => some (.pubKey e)
    | .ok pk =>
      if pk.keyType ∉ pubKeyTypes then some (.unsupported update pk.keyType) else none

def validateValidatorUpdates (C : CometBFT H) (updates : List ValidatorUpdate)
    (pubKeyTypes : List String) : Option ValidatorUpdateError :=
  firstError (updates.map (validateValidatorUpdate C pubKeyTypes))

def nextValidatorSet (C : CometBFT H) (s : State H) (header : Header H)
    (validatorUpdates : List Validator) : Outcome (ExecError H) (ValidatorSet × ℤ) := do
  let next ← if validatorUpdates.length > 0 then do
      let vals ← .ofExcept (fun e => .updateState (.validatorSet e))
        (C.updateWithChangeSet s.nextValidators validatorUpdates)
      pure (vals,header.height + 1 + 1)
    else pure (s.nextValidators,s.lastHeightValidatorsChanged)
  -- IncrementProposerPriority refuses an empty set
  if next.1 = [] then .panic "empty validator set" else pure next

/-- The consensus parameters after the block, the consensus version and the height
their last change is in force from. -/
def nextConsensusParams (C : CometBFT H) (s : State H) (header : Header H)
    (updates : Option ConsensusParamUpdates) :
    Outcome (ExecError H) (ConsensusParams × Consensus × ℤ) :=
  match updates with
  | none => pure (s.consensusParams,s.version,s.lastHeightConsensusParamsChanged)
  | some updates => do
    let nextParams := C.updateParams s.consensusParams updates
    .ofOption ((C.paramsValidateBasic nextParams).map (fun e => .updateState (.newParams e)))
    .ofOption ((C.paramsValidateUpdate s.consensusParams updates header.height).map
      (fun e => .updateState (.paramUpdates e)))
    pure (nextParams,{ s.version with app := nextParams.appVersion },header.height + 1)

def updateState (C : CometBFT H) (s : State H) (blockID : BlockID H) (header : Header H)
    (resp : ResponseFinalizeBlock) (validatorUpdates : List Validator) :
    Outcome (ExecError H) (State H) := do
  let (nValSet,lastHeightValsChanged) ← nextValidatorSet C s header validatorUpdates
  let (nextParams,nextVersion,lastHeightParamsChanged) ←
    nextConsensusParams C s header resp.consensusParamUpdates
  pure {
    version := nextVersion
    chainID := s.chainID
    initialHeight := s.initialHeight
    lastBlockHeight := header.height
    lastBlockID := blockID
    lastBlockTime := header.time
    nextValidators := nValSet
    validators := s.nextValidators
    lastValidators := s.validators
    lastHeightValidatorsChanged := lastHeightValsChanged
    consensusParams := nextParams
    lastHeightConsensusParamsChanged := lastHeightParamsChanged
    lastResultsHash := some (C.txResultsHash resp.txResults)
    -- the application hash is filled in after the commit
    appHash := [] }

section
variable [DecidableEq H] (C : CometBFT H) (env : AcceptEnv H)

/-- `ApplyBlock` up to the `FinalizeBlock` request. -/
def requestFinalizeBlock (store : StateStore H) (s : State H) (b : Block H) :
    Outcome (ExecError H) (RequestFinalizeBlock H) := do
  .ofOption ((validateBlock C s b).map .invalidBlock)
  let decidedLastCommit ← buildLastCommitInfoFromStore C b store s.initialHeight
  pure {
    hash := C.hash b
    nextValidatorsHash := b.header.nextValidatorsHash
    proposerAddress := b.header.proposerAddress
    height := b.header.height
    time := b.header.time
    decidedLastCommit := decidedLastCommit
    misbehavior := b.evidence
    txs := b.txs }

/-- `ApplyBlock` from the `FinalizeBlock` request to the updated state. -/
def executeBlock (store : StateStore H) (s : State H) (blockID : BlockID H) (b : Block H) :
    Exec (Write H) (ExecError H) (ResponseFinalizeBlock × State H) := do
  let req ← Exec.lift (requestFinalizeBlock C store s b)
  let resp ← Exec.lift (.ofExcept .callee (env.finalizeBlock req))
  Exec.lift (.ofOption (refuse (b.txs.length ≠ resp.txResults.length)
    (.txResults b.txs.length resp.txResults.length)))
  Exec.write (.finalizeBlockResponse b.header.height resp)
    (env.saveFinalizeBlockResponse.map .callee)
  Exec.lift (.ofOption ((validateValidatorUpdates C resp.validatorUpdates
    s.consensusParams.pubKeyTypes).map .validatorUpdates))
  let validatorUpdates ← Exec.lift (.ofExcept .callee (C.validatorUpdates resp.validatorUpdates))
  let next ← Exec.lift (updateState C s blockID b.header resp validatorUpdates)
  pure (resp,next)

def commitBlock (b : Block H) : Exec (Write H) (ExecError H) ℤ := do
  Exec.lift (.ofOption (env.flushAppConn.map .commit))
  let retainHeight ← Exec.lift (.ofExcept .commit env.commit)
  Exec.write (.appCommit b.header.height) none
  Exec.lift (.ofOption (env.mempoolUpdate.map .commit))
  pure retainHeight

/-- `BlockExecutor.pruneBlocks`. The block store refuses to prune beyond its height. -/
def pruneBlocks (bs : BlockStore H) (retainHeight : ℤ) : Exec (Write H) String Unit :=
  if retainHeight ≤ bs.base then pure ()
  else do
    Exec.lift (.ofOption (refuse (retainHeight > bs.height)
      "cannot prune beyond the latest height %v"))
    Exec.write (.pruneBlocks retainHeight) env.pruneBlocks
    Exec.write (.pruneStates bs.base retainHeight) env.pruneStates

def applyBlock (disk : Disk H) (s : State H) (blockID : BlockID H) (b : Block H) :
    Exec (Write H) (ExecError H) (State H) := do
  let (resp,next) ← executeBlock C env disk.stateStore s blockID b
  let retainHeight ← commitBlock env b
  let next := { next with appHash := resp.appHash }
  Exec.write (.state next) (env.saveState.map .callee)
  if retainHeight > 0 then
    Exec.attempt (pruneBlocks env disk.blockStore retainHeight)
  pure next

def blockIDOf (b : Block H) : Except String (BlockID H) := do
  let bps ← C.makePartSet b
  pure ⟨C.hash b,bps⟩

/-- `SaveBlock` panics rather than returning an error. -/
def saveBlock (bs : BlockStore H) (sb : StoredBlock H) : Exec (Write H) (ExecError H) Unit :=
  match bs.saveError sb.block sb.seenCommit with
  | some e => Exec.lift (.panic e)
  | none => Exec.write (.block sb) none

/-- The part that `BlockAccept` and `Initialize` share: apply the block, then save it,
then save the state once more. -/
def acceptBlock (disk : Disk H) (s : State H) (b : Block H) :
    Exec (Write H) (ExecError H) (State H) := do
  let blockID ← Exec.lift (.ofExcept .callee (blockIDOf C b))
  let newstate ← applyBlock C env disk s blockID b
  saveBlock disk.blockStore
    ⟨b,blockID,makeCommit b.header.height b.header.time s.validators blockID⟩
  Exec.write (.state newstate) (env.saveStateAgain.map .callee)
  pure newstate

end
end Landslide
