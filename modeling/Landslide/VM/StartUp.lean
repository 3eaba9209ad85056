import Landslide.VM.Progress

/-! # The first block

`Initialize` proposes the block after height zero, `ValidateBlock` wants the first block
at the initial height of the genesis document, and `MakeCommit` leaves out the signatures
up to height one. The three agree for the initial height one only, and even then the
commit made for the first block is not what a second block has to carry.
-/
namespace Landslide
variable {H : Type} [DecidableEq H] {C : CometBFT H}

/-- What the state store and the block store hold after the handshake of a new chain. -/
structure GenesisDisk (disk : Disk H) : Prop where
  state : StateValid disk.stateStore.state
  lastBlockHeight : disk.stateStore.state.lastBlockHeight = 0
  blockStore : disk.blockStore = .empty

def emptyCommit (H : Type) : ExtendedCommit H := ⟨0,0,.zero H,[]⟩

/-- The block `Initialize` works on. -/
def proposeFirst (C : CometBFT H) (config : ExecutorConfig) (penv : ProposalEnv H)
    (disk : Disk H) : Outcome (ExecError H) (Block H) :=
  createProposalBlock C config penv disk.stateStore (disk.stateStore.state.lastBlockHeight + 1)
    disk.stateStore.state (emptyCommit H) proposerAddress

/-- No call that `Initialize` makes fails: the application answers within the limits it
is given, the stores can be written, and the block has an encoding. -/
structure Cooperates (C : CometBFT H) (config : ExecutorConfig) (penv : ProposalEnv H)
    (aenv : AcceptEnv H) (disk : Disk H) : Prop where
  prepare : ∀ req, C.maxDataBytes config.maxBytes config.evidenceMaxBytes
      disk.stateStore.state.validators.length = some req.maxTxBytes →
    ∃ txs, penv.prepareProposal req = .ok txs ∧ C.validateTxs txs req.maxTxBytes = none
  finalize : ∀ req, ∃ resp, aenv.finalizeBlock req = .ok resp ∧
    req.txs.length = resp.txResults.length ∧
    validateValidatorUpdates C resp.validatorUpdates
      disk.stateStore.state.consensusParams.pubKeyTypes = none ∧
    ∃ changes, C.validatorUpdates resp.validatorUpdates = .ok changes ∧
      ∀ blockID header, ∃ next,
        updateState C disk.stateStore.state blockID header resp changes = .ok next
  saveFinalizeBlockResponse : aenv.saveFinalizeBlockResponse = none
  flushAppConn : aenv.flushAppConn = none
  commit : ∃ retainHeight, aenv.commit = .ok retainHeight
  mempoolUpdate : aenv.mempoolUpdate = none
  saveState : aenv.saveState = none
  saveStateAgain : aenv.saveStateAgain = none
  encodable : ∀ b, proposeFirst C config penv disk = .ok b → Encodable C b

/-! ## Proposing -/

omit [DecidableEq H] in
theorem createProposalBlock_empty {config : ExecutorConfig} {penv : ProposalEnv H}
    {store : StateStore H} {height : ℤ} {s : State H} {proposer : Bytes}
    (hroom : C.maxDataBytes config.maxBytes config.evidenceMaxBytes s.validators.length ≠ none)
    (hpos : 0 < s.initialHeight)
    (hprepare : ∀ req, C.maxDataBytes config.maxBytes config.evidenceMaxBytes s.validators.length =
        some req.maxTxBytes →
      ∃ txs, penv.prepareProposal req = .ok txs ∧ C.validateTxs txs req.maxTxBytes = none) :
    ∃ b, createProposalBlock C config penv store height s (emptyCommit H) proposer = .ok b := by
  obtain ⟨limit,hlimit⟩ := Option.ne_none_iff_exists'.mp hroom
  have hinfo : (buildExtendedCommitInfoFromStore C (emptyCommit H) store s.initialHeight
      s.consensusParams : Outcome (ExecError H) ExtendedCommitInfo) = .ok ⟨0,[]⟩ := if_pos hpos
  have hdata : dataLimit C config s = .ok limit := by simp [dataLimit,hlimit]
  unfold createProposalBlock
  simp only [hdata,hinfo,Outcome.ok_bind]
  generalize hreq : RequestPrepareProposal.mk limit _ _ _ _ _ _ _ = req
  have hlimit' : limit = req.maxTxBytes := by rw [← hreq]
  obtain ⟨txs,htxs,hmax⟩ := hprepare req (hlimit' ▸ hlimit)
  rw [← hlimit'] at hmax
  simp only [htxs,hmax,Outcome.ofExcept_ok,Outcome.ok_bind,Option.map_none,Outcome.ofOption_none]
  exact ⟨_,rfl⟩

omit [DecidableEq H] in
theorem createProposalBlock_room {config : ExecutorConfig} {penv : ProposalEnv H}
    {store : StateStore H} {height : ℤ} {s : State H} {ec : ExtendedCommit H} {proposer : Bytes}
    {b : Block H} (h : createProposalBlock C config penv store height s ec proposer = .ok b) :
    C.maxDataBytes config.maxBytes config.evidenceMaxBytes s.validators.length ≠ none := by
  have hpanic : (createProposalBlock C config penv store height s ec proposer).isPanic = false := by
    rw [h]
    rfl
  exact (createProposalBlock_isPanic_iff.mp hpanic).1

omit [DecidableEq H] in
/-- On a new chain a block without last commit is valid at the initial height only. -/
theorem proposedBlock_first_valid_iff (hB : C.BlockRules) (hP : C.ProposalRules) {s : State H}
    (hs : StateValid s) (hzero : s.lastBlockHeight = 0) {height : ℤ} (txs : List Tx) :
    BlockValid C s (proposedBlock C s height txs (emptyCommit H).toCommit proposerAddress) ↔
      height = s.initialHeight := by
  refine ⟨fun hv => hv.initialHeight hzero,?_⟩
  rintro rfl
  have hbelow : ¬1 ≤ (emptyCommit H).toCommit.height := (by decide : ¬(1 : ℤ) ≤ 0)
  have hbasic : CometBFT.BasicValid C
      (proposedBlock C s s.initialHeight txs (emptyCommit H).toCommit proposerAddress) :=
    { version := hs.version
      chainID := hs.chainID
      height := hs.initialHeight
      proposerAddress := rfl
      lastCommit := ⟨le_rfl,le_rfl,fun h => absurd h hbelow,fun h => absurd h hbelow,
        fun h => absurd h hbelow⟩
      lastCommitHash := rfl
      dataHash := rfl
      evidence := fun _ he => nomatch he
      evidenceHash := rfl }
  exact
    { basic := (hB.validateBasic_iff _).mpr hbasic
      version := rfl
      chainID := rfl
      initialHeight := fun _ => rfl
      nextHeight := fun h => absurd hzero h.ne'
      lastBlockID := rfl
      appHash := rfl
      consensusHash := rfl
      lastResultsHash := rfl
      validatorsHash := rfl
      nextValidatorsHash := rfl
      initialCommit := fun _ => rfl
      proposerAddress := rfl
      time :=
        { height := le_rfl
          notBefore := fun h => absurd h (lt_irrefl _)
          median := fun h => absurd h (lt_irrefl _)
          genesis := fun _ => if_pos rfl }
      evidence := hP.evidenceByteSize_nil.le.trans hs.evidence }

/-! ## Applying -/

theorem acceptBlock_first (hH : C.HashRules) {config : ExecutorConfig} {penv : ProposalEnv H}
    {aenv : AcceptEnv H} {disk : Disk H} (hdisk : GenesisDisk disk)
    (henv : Cooperates C config penv aenv disk) {b : Block H}
    (hv : BlockValid C disk.stateStore.state b) :
    ∃ next, (acceptBlock C aenv disk disk.stateStore.state b).result = .ok next ∧
      next.lastBlockHeight = b.header.height := by
  obtain ⟨p,hp⟩ := hH.makePartSet_ok hv.basic
  obtain ⟨retainHeight,hretain⟩ := henv.commit
  have hinfo : (buildLastCommitInfoFromStore C b disk.stateStore disk.stateStore.state.initialHeight :
      Outcome (ExecError H) CommitInfo) = .ok ⟨0,[]⟩ :=
    if_pos (hv.initialHeight hdisk.lastBlockHeight)
  have hrequest : ∃ req, requestFinalizeBlock C disk.stateStore disk.stateStore.state b = .ok req ∧
      req.txs = b.txs := by
    rw [requestFinalizeBlock,validateBlock_eq_none_iff.mpr hv,hinfo]
    exact ⟨_,rfl,rfl⟩
  obtain ⟨req,hreq,htxs⟩ := hrequest
  obtain ⟨resp,hresp,hlen,hupdates,changes,hchanges,hnext⟩ := henv.finalize req
  obtain ⟨raw,hraw⟩ := hnext ⟨C.hash b,p⟩ b.header
  have hc : Committed C aenv disk.stateStore disk.stateStore.state b ⟨C.hash b,p⟩ resp
      { raw with appHash := resp.appHash } retainHeight :=
    ⟨blockIDOf_eq_ok_iff.mpr ⟨p,hp,rfl⟩,⟨req,hreq,hresp⟩,htxs ▸ hlen,henv.saveFinalizeBlockResponse,
      hupdates,⟨changes,raw,hchanges,hraw,rfl⟩,henv.flushAppConn,hretain⟩
  have hsave : ∀ blockID, disk.blockStore.saveError b
      (storedBlock disk.stateStore.state b blockID).seenCommit = none := by
    intro blockID
    rw [hdisk.blockStore]
    simp [BlockStore.saveError,BlockStore.empty,storedBlock,makeCommit]
  have hacc := acceptBlock_accepts C aenv disk disk.stateStore.state b
  generalize acceptBlock C aenv disk disk.stateStore.state b = m at hacc
  cases hacc with
  | stopped hr hn hlog => exact absurd ⟨_,_,_,_,hc⟩ hn
  | unsaved hc' hf =>
    rcases hf with hf | hf
    · exact absurd henv.mempoolUpdate hf
    · exact absurd henv.saveState hf
  | refused hc' hp' =>
    rw [hsave] at hp'
    cases hp'
  | unfinished hc' hs he =>
    rw [henv.saveStateAgain] at he
    cases he
  | done hc' hs => exact ⟨_,rfl,hc'.follows.lastBlockHeight⟩

theorem initializeVM_created (hC : C.CodecRules) {config : ExecutorConfig} {penv : ProposalEnv H}
    {aenv : AcceptEnv H} {disk : Disk H} (hzero : disk.stateStore.state.lastBlockHeight = 0)
    {b : Block H} (hb : proposeFirst C config penv disk = .ok b) (henc : Encodable C b)
    {next : State H} (hnext : (acceptBlock C aenv disk disk.stateStore.state b).result = .ok next) :
    ∃ resp log, initializeVM C config penv aenv disk = ⟨.ok (next,resp),log⟩ := by
  have hpos : ¬disk.stateStore.state.lastBlockHeight > 0 := by omega
  obtain ⟨bytes,hbytes⟩ := encodeBlockWithStatus_ok hC henc .accepted
  have hfirst : createProposalBlock C config penv disk.stateStore
      (disk.stateStore.state.lastBlockHeight + 1) disk.stateStore.state ⟨0,0,.zero H,[]⟩
      proposerAddress = .ok b := hb
  cases ha : acceptBlock C aenv disk disk.stateStore.state b with
  | mk result log =>
    rw [ha] at hnext
    dsimp only at hnext
    subst hnext
    refine ⟨⟨C.hash b,b.header.lastBlockID.hash,uint64 b.header.height,bytes,b.header.time⟩,log,?_⟩
    simp only [initializeVM,if_neg hpos,hfirst,ha,hbytes,Outcome.mapError,Exec.mapError,
      Exec.lift_ok_bind,Exec.ok_bind,Exec.pure_bind,Exec.pure_result,Exec.pure_log,
      Outcome.ofExcept_ok,List.append_nil]

/-! ## The initial height -/

/-- The block that `Initialize` builds and applies is valid, and `Initialize` succeeds
with the chain at the initial height. -/
structure StartsUp (C : CometBFT H) (config : ExecutorConfig) (penv : ProposalEnv H)
    (aenv : AcceptEnv H) (disk : Disk H) : Prop where
  valid : ∃ b, proposeFirst C config penv disk = .ok b ∧
    validateBlock C disk.stateStore.state b = none
  succeeds : ∃ s resp log, initializeVM C config penv aenv disk = ⟨.ok (s,resp),log⟩ ∧
    s.lastBlockHeight = disk.stateStore.state.initialHeight

theorem startsUp_iff (hB : C.BlockRules) (hC : C.CodecRules) (hH : C.HashRules)
    (hP : C.ProposalRules) {config : ExecutorConfig} {penv : ProposalEnv H} {aenv : AcceptEnv H}
    {disk : Disk H} (hdisk : GenesisDisk disk) (henv : Cooperates C config penv aenv disk) :
    StartsUp C config penv aenv disk ↔
      disk.stateStore.state.initialHeight = 1 ∧
        C.maxDataBytes config.maxBytes config.evidenceMaxBytes
          disk.stateStore.state.validators.length ≠ none := by
  have hfirst : disk.stateStore.state.lastBlockHeight + 1 = 1 := by
    rw [hdisk.lastBlockHeight]
    rfl
  constructor
  · rintro ⟨⟨b,hb,hv⟩,-⟩
    refine ⟨?_,createProposalBlock_room hb⟩
    obtain ⟨txs,rfl⟩ := createProposalBlock_ok hP hb
    have hheight := (proposedBlock_first_valid_iff hB hP hdisk.state hdisk.lastBlockHeight txs).mp
      (validateBlock_eq_none_iff.mp hv)
    exact hheight.symm.trans hfirst
  · rintro ⟨hone,hroom⟩
    obtain ⟨b,hb⟩ : ∃ b, proposeFirst C config penv disk = .ok b :=
      createProposalBlock_empty hroom hdisk.state.initialHeight henv.prepare
    obtain ⟨txs,rfl⟩ := createProposalBlock_ok hP hb
    have hv : BlockValid C disk.stateStore.state _ :=
      (proposedBlock_first_valid_iff hB hP hdisk.state hdisk.lastBlockHeight txs).mpr
        (hfirst.trans hone.symm)
    obtain ⟨next,hnext,hheight⟩ := acceptBlock_first hH hdisk henv hv
    obtain ⟨resp,log,hinit⟩ :=
      initializeVM_created hC hdisk.lastBlockHeight hb (henv.encodable _ hb) hnext
    exact ⟨⟨_,hb,validateBlock_eq_none_iff.mpr hv⟩,next,resp,log,hinit,
      hheight.trans (hfirst.trans hone.symm)⟩

/-- What `ValidateBlock` wants of the last commit of the block at a height: no signatures
at the initial height, some signature above it. -/
def LastCommitRule (initialHeight height : ℤ) (lastCommit : Commit H) : Prop :=
  if height = initialHeight then lastCommit.signatures = [] else lastCommit.signatures ≠ []

omit [DecidableEq H] in
theorem makeCommit_signatures_eq_nil_iff (height timestamp : ℤ) {vals : ValidatorSet}
    (hvals : vals ≠ []) (blockID : BlockID H) :
    (makeCommit height timestamp vals blockID).signatures = [] ↔ height ≤ 1 := by
  by_cases h : height > 1
  · simp [makeCommit,h,hvals]
  · simp [makeCommit,h,not_lt.mp h]

/-- With a new chain and no failing call, the start-up works and the block at a height
can carry the commit that `MakeCommit` makes for the height before, if and only if the
initial height is one, the limits leave room for data and the block is not the second. -/
theorem startUp_iff_initialHeight_one (hB : C.BlockRules) (hC : C.CodecRules) (hH : C.HashRules)
    (hP : C.ProposalRules) {config : ExecutorConfig} {penv : ProposalEnv H} {aenv : AcceptEnv H}
    {disk : Disk H} (hdisk : GenesisDisk disk) (henv : Cooperates C config penv aenv disk)
    {height : ℤ} (hheight : disk.stateStore.state.initialHeight ≤ height) {vals : ValidatorSet}
    (hvals : vals ≠ []) (timestamp : ℤ) (blockID : BlockID H) :
    (StartsUp C config penv aenv disk ∧
      LastCommitRule disk.stateStore.state.initialHeight height
        (makeCommit (height - 1) timestamp vals blockID)) ↔
      disk.stateStore.state.initialHeight = 1 ∧
        C.maxDataBytes config.maxBytes config.evidenceMaxBytes
          disk.stateStore.state.validators.length ≠ none ∧ height ≠ 2 := by
  have hsigned := makeCommit_signatures_eq_nil_iff (height - 1) timestamp hvals blockID
  rw [startsUp_iff hB hC hH hP hdisk henv,and_assoc]
  refine and_congr_right (fun hone => and_congr_right (fun _ => ?_))
  rw [hone] at hheight ⊢
  unfold LastCommitRule
  by_cases h : height = 1
  · rw [if_pos h,hsigned]
    omega
  · rw [if_neg h,ne_eq,hsigned]
    omega

namespace Sample

def lateGenesis : State Digest := { genesis with initialHeight := 2 }

def lateDisk : Disk Digest :=
  ⟨StateStore.save ⟨lateGenesis,fun _ => none,[]⟩ lateGenesis,.empty,0⟩

def emptyProposal : ProposalEnv Digest where
  reapMaxBytesMaxGas _ _ := []
  prepareProposal _ := .ok []

def lateBlock : Block Digest :=
  Symbolic.makeBlock lateGenesis 1 [] (emptyCommit Digest).toCommit proposer

theorem genesisDisk_late : GenesisDisk lateDisk where
  state := ⟨rfl,by decide,by decide,validatorSetValid,validatorSetValid,by decide⟩
  lastBlockHeight := rfl
  blockStore := rfl

theorem genesisDisk_first : GenesisDisk disk := ⟨validatorsDisk.state,rfl,rfl⟩

theorem cooperates {catalogue : List (Block Digest)} {d : Disk Digest}
    (hnext : d.stateStore.state.nextValidators = [validator])
    (henc : ∀ b, proposeFirst (symbolic catalogue) config emptyProposal d = .ok b →
      Encodable (symbolic catalogue) b) :
    Cooperates (symbolic catalogue) config emptyProposal (acceptEnv [] 0) d where
  prepare req hlimit := by
    refine ⟨[],rfl,?_⟩
    have hroom : 0 ≤ req.maxTxBytes := by
      change (if _ < 0 then none else some _) = some req.maxTxBytes at hlimit
      split at hlimit
      · cases hlimit
      · rw [← Option.some.inj hlimit]
        omega
    exact if_neg (not_lt.mpr hroom)
  finalize req := by
    refine ⟨response req.txs [],rfl,by simp [response],rfl,[],rfl,fun blockID header => ?_⟩
    have hvals : nextValidatorSet (symbolic catalogue) d.stateStore.state header [] =
        .ok ([validator],d.stateStore.state.lastHeightValidatorsChanged) := by
      simp [nextValidatorSet,hnext]
    simp [updateState,hvals,nextConsensusParams,response]
  saveFinalizeBlockResponse := rfl
  flushAppConn := rfl
  commit := ⟨0,rfl⟩
  mempoolUpdate := rfl
  saveState := rfl
  saveStateAgain := rfl
  encodable := henc

theorem cooperates_late :
    Cooperates (symbolic [lateBlock]) config emptyProposal (acceptEnv [] 0) lateDisk := by
  refine cooperates rfl (fun b hb => ?_)
  have hlate : proposeFirst (symbolic [lateBlock]) config emptyProposal lateDisk =
      .ok lateBlock := rfl
  rw [hlate] at hb
  cases hb
  exact ⟨[0],by decide +kernel⟩

theorem cooperates_first :
    Cooperates (comet []) config emptyProposal (acceptEnv [] 0) disk := by
  refine cooperates rfl (fun b hb => ?_)
  have hfirst : proposeFirst (comet []) config emptyProposal disk = .ok firstBlock := rfl
  rw [hfirst] at hb
  cases hb
  exact ⟨[0],by decide +kernel⟩

/-- At the initial height two `Initialize` builds a block at height one and then refuses
it itself. -/
theorem lateGenesis_fails :
    lateDisk.stateStore.state.initialHeight = 2 ∧ GenesisDisk lateDisk ∧
      Cooperates (symbolic [lateBlock]) config emptyProposal (acceptEnv [] 0) lateDisk ∧
      proposeFirst (symbolic [lateBlock]) config emptyProposal lateDisk = .ok lateBlock ∧
      validateBlock (symbolic [lateBlock]) lateDisk.stateStore.state lateBlock =
        some (.initialHeight 1 2) ∧
      ¬StartsUp (symbolic [lateBlock]) config emptyProposal (acceptEnv [] 0) lateDisk := by
  have hlate : proposeFirst (symbolic [lateBlock]) config emptyProposal lateDisk =
      .ok lateBlock := rfl
  have hrefused : validateBlock (symbolic [lateBlock]) lateDisk.stateStore.state lateBlock =
      some (.initialHeight 1 2) := by decide +kernel
  refine ⟨rfl,genesisDisk_late,cooperates_late,hlate,hrefused,fun h => ?_⟩
  obtain ⟨b,hb,hv⟩ := h.valid
  rw [hlate] at hb
  cases hb
  rw [hrefused] at hv
  cases hv

/-- At the initial height one the sample chain starts up, and its third block can carry
the commit made for the second. -/
theorem startUp_first :
    StartsUp (comet []) config emptyProposal (acceptEnv [] 0) disk ∧
      LastCommitRule disk.stateStore.state.initialHeight 3
        (makeCommit 2 2000 [validator] (blockID firstBlock)) :=
  (startUp_iff_initialHeight_one (Symbolic.blockRules _) (Symbolic.codecRules _)
    (Symbolic.hashRules _) (Symbolic.proposalRules _) genesisDisk_first cooperates_first
    (by decide : disk.stateStore.state.initialHeight ≤ 3) (by simp) 2000
    (blockID firstBlock)).mpr ⟨rfl,by decide +kernel,by decide⟩

end Sample
end Landslide
