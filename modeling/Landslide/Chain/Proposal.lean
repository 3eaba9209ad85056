import Landslide.Chain.Acceptance

/-! # Proposed blocks

What `State.MakeBlock` puts into a block, when proposing one panics, and why a block
built on a valid state passes `ValidateBlock` against that state.
-/
namespace Landslide
variable {H : Type}

/-- The block `State.MakeBlock` builds without evidence. -/
def proposedBlock (C : CometBFT H) (s : State H) (height : ℤ) (txs : List Tx) (commit : Commit H)
    (proposerAddress : Bytes) : Block H where
  header :=
    { version := s.version
      chainID := s.chainID
      height := height
      time := if height = s.initialHeight then s.lastBlockTime
        else medianTime C commit s.lastValidators
      lastBlockID := s.lastBlockID
      lastCommitHash := some (C.commitHash commit.signatures)
      dataHash := some (C.dataHash txs)
      validatorsHash := some (C.validatorSetHash s.validators)
      nextValidatorsHash := some (C.validatorSetHash s.nextValidators)
      consensusHash := some (C.consensusParamsHash s.consensusParams)
      appHash := s.appHash
      lastResultsHash := s.lastResultsHash
      evidenceHash := some (C.evidenceHash [])
      proposerAddress := proposerAddress }
  txs := txs
  evidence := []
  lastCommit := commit

/-- The functions of CometBFT that a proposal goes through. A vote for nil needs no
extension. -/
structure CometBFT.ProposalRules (C : CometBFT H) : Prop where
  makeBlock_eq : ∀ s height txs commit proposerAddress,
    C.makeBlock s height txs commit proposerAddress =
      proposedBlock C s height txs commit proposerAddress
  ensureExtension_nil : ∀ cs enabled, cs.blockIDFlag = .nil →
    C.ensureExtension ⟨cs,[],[]⟩ enabled = none
  evidenceByteSize_nil : C.evidenceByteSize [] = 0

variable {C : CometBFT H}

/-- Whatever the mempool and the application answer, the proposal is the block of
`State.MakeBlock` with some transactions. -/
theorem createProposalBlock_ok (hP : C.ProposalRules) {cfg : ExecutorConfig} {env : ProposalEnv H}
    {store : StateStore H} {height : ℤ} {s : State H} {lastExtCommit : ExtendedCommit H}
    {proposerAddr : Bytes} {b : Block H}
    (h : createProposalBlock C cfg env store height s lastExtCommit proposerAddr = .ok b) :
    ∃ txs, b = proposedBlock C s height txs lastExtCommit.toCommit proposerAddr := by
  unfold createProposalBlock at h
  obtain ⟨maxDataBytes,_,h⟩ := Outcome.bind_eq_ok_iff.mp h
  obtain ⟨localLastCommit,_,h⟩ := Outcome.bind_eq_ok_iff.mp h
  obtain ⟨txs,_,h⟩ := Outcome.bind_eq_ok_iff.mp h
  obtain ⟨_,_,h⟩ := Outcome.bind_eq_ok_iff.mp h
  cases h
  exact ⟨txs,hP.makeBlock_eq ..⟩

theorem createProposalBlock_isPanic_iff {cfg : ExecutorConfig} {env : ProposalEnv H}
    {store : StateStore H} {height : ℤ} {s : State H} {lastExtCommit : ExtendedCommit H}
    {proposerAddr : Bytes} :
    (createProposalBlock C cfg env store height s lastExtCommit proposerAddr).isPanic = false ↔
      C.maxDataBytes cfg.maxBytes cfg.evidenceMaxBytes s.validators.length ≠ none ∧
      (buildExtendedCommitInfoFromStore C lastExtCommit store s.initialHeight s.consensusParams :
        Outcome (ExecError H) ExtendedCommitInfo).isPanic = false := by
  unfold createProposalBlock dataLimit
  cases C.maxDataBytes cfg.maxBytes cfg.evidenceMaxBytes s.validators.length with
  | none => simp
  | some limit =>
    simp only [Outcome.ok_bind,ne_eq,reduceCtorEq,not_false_eq_true,true_and]
    cases (buildExtendedCommitInfoFromStore C lastExtCommit store s.initialHeight
      s.consensusParams : Outcome (ExecError H) ExtendedCommitInfo) with
    | error e => simp
    | panic p => simp
    | ok info =>
      simp only [Outcome.ok_bind,Outcome.isPanic_ok,iff_true]
      -- nothing after this point panics
      generalize env.prepareProposal _ = prepared
      cases prepared with
      | error e => rfl
      | ok txs =>
        simp only [Outcome.ofExcept_ok,Outcome.ok_bind]
        cases C.validateTxs txs limit <;> rfl

/-! ## Valid states -/

structure StateValid (s : State H) : Prop where
  version : s.version.block = CometBFT.blockProtocol
  chainID : s.chainID.utf8ByteSize ≤ CometBFT.maxChainIDLen
  initialHeight : 0 < s.initialHeight
  validators : CometBFT.ValidatorSetValid s.validators
  nextValidators : CometBFT.ValidatorSetValid s.nextValidators
  evidence : 0 ≤ s.consensusParams.evidence.maxBytes

structure Running (s : State H) : Prop extends StateValid s where
  height : s.initialHeight ≤ s.lastBlockHeight
  lastBlockID : s.lastBlockID.hash ≠ none
  lastValidators : CometBFT.ValidatorSetValid s.lastValidators

theorem Running.lastBlockHeight_pos {s : State H} (h : Running s) : 0 < s.lastBlockHeight :=
  h.toStateValid.initialHeight.trans_le h.height

theorem Committed.running [DecidableEq H] (hU : C.UpdateRules) {env : AcceptEnv H}
    {store : StateStore H} {s next : State H} {b : Block H} {blockID : BlockID H}
    {resp : ResponseFinalizeBlock} {retainHeight : ℤ} (hs : StateValid s)
    (hc : Committed C env store s b blockID resp next retainHeight) : Running next := by
  have hf := hc.follows
  have hv := hc.valid
  obtain ⟨p,_,hid⟩ := blockIDOf_eq_ok_iff.mp hc.blockID_eq
  refine ⟨⟨hf.versionBlock.trans hs.version,hf.chainID ▸ hs.chainID,hf.initialHeight ▸
    hs.initialHeight,hf.validators ▸ hs.nextValidators,?_,?_⟩,?_,?_,hf.lastValidators ▸ hs.validators⟩
  · rcases hf.nextValidators with h | ⟨updates,changes,hup,h⟩
    · exact h ▸ hs.nextValidators
    · exact hU.updateWithChangeSet hs.nextValidators hup h
  · rcases hf.consensusParams with h | h
    · exact h ▸ hs.evidence
    · exact hU.evidenceMaxBytes h
  · rw [hf.initialHeight,hf.lastBlockHeight]
    exact hv.time.height
  · rw [hf.lastBlockID,hid]
    simp [CometBFT.hash,hv.validatorsHash]

/-- A proposal whose last commit has one timely vote for each validator of the previous
height passes `ValidateBlock`. -/
theorem proposedBlock_valid (hB : C.BlockRules) (hM : C.MedianRules) (hP : C.ProposalRules)
    {s : State H} (hs : Running s) {txs : List Tx} {commit : Commit H} {proposerAddress : Bytes}
    (hproposer : proposerAddress.length = CometBFT.addressSize)
    (hcommit : CometBFT.CommitValid commit)
    (haddr : commit.signatures.map CommitSig.validatorAddress = s.lastValidators.addresses)
    (hpresent : ∀ cs ∈ commit.signatures, cs.blockIDFlag ≠ .absent)
    (htime : ∀ cs ∈ commit.signatures, s.lastBlockTime ≤ cs.timestamp) :
    BlockValid C s (proposedBlock C s (s.lastBlockHeight + 1) txs commit proposerAddress) := by
  have hpos := hs.lastBlockHeight_pos
  have habove : s.initialHeight < s.lastBlockHeight + 1 := Int.lt_add_one_of_le hs.height
  have hne : s.lastBlockHeight + 1 ≠ s.initialHeight := habove.ne'
  obtain ⟨cs,hcs,hmedian⟩ := medianTime_mem hM hs.lastValidators haddr hpresent
  have hblockTime : (proposedBlock C s (s.lastBlockHeight + 1) txs commit
      proposerAddress).header.time = medianTime C commit s.lastValidators := if_neg hne
  have hbasic : CometBFT.BasicValid C
      (proposedBlock C s (s.lastBlockHeight + 1) txs commit proposerAddress) :=
    { version := hs.version
      chainID := hs.chainID
      height := by
        change 0 < s.lastBlockHeight + 1
        omega
      proposerAddress := hproposer
      lastCommit := hcommit
      lastCommitHash := rfl
      dataHash := rfl
      evidence := fun _ he => nomatch he
      evidenceHash := rfl }
  exact
    { basic := (hB.validateBasic_iff _).mpr hbasic
      version := rfl
      chainID := rfl
      initialHeight := fun h => absurd h hpos.ne'
      nextHeight := fun _ => rfl
      lastBlockID := rfl
      appHash := rfl
      consensusHash := rfl
      lastResultsHash := rfl
      validatorsHash := rfl
      nextValidatorsHash := rfl
      initialCommit := fun h => absurd h hne
      proposerAddress := hproposer
      time :=
        { height := habove.le
          notBefore := fun _ => by
            rw [hblockTime,hmedian]
            exact htime cs hcs
          median := fun _ => hblockTime
          genesis := fun h => absurd h hne }
      evidence := hP.evidenceByteSize_nil.le.trans hs.evidence }

end Landslide
