import Landslide.Chain.Symbolic

/-! # The pipeline of validator sets

Every block moves the three validator sets on by one: the next validators become the
validators, these the last validators, and the updates that the application returned go into
the next validators. So they are in force two heights later, updates of the consensus
parameters one height later, and the state keeps the heights of the last changes. Updates that
are refused leave the state as it was.
-/
namespace Landslide
variable {H : Type} [DecidableEq H] (C : CometBFT H) (env : AcceptEnv H)

def returnedState (disk : Disk H) (s : State H) (blockID : BlockID H) (b : Block H) : State H :=
  match (executeBlock C env disk.stateStore s blockID b).result with
  | .ok (resp,next) => match (commitBlock env b).result with
    | .ok _ => { next with appHash := resp.appHash }
    | _ => next
  | _ => s

structure AppliedBlock where
  height : ℤ
  validatorUpdates : List Validator
  paramUpdates : Option ConsensusParamUpdates

def Applies (s : State H) (r : AppliedBlock) (next : State H) : Prop :=
  ∃ env disk blockID b req resp, (applyBlock C env disk s blockID b).result = .ok next ∧
    requestFinalizeBlock C disk.stateStore s b = .ok req ∧ env.finalizeBlock req = .ok resp ∧
    C.validatorUpdates resp.validatorUpdates = .ok r.validatorUpdates ∧
    r.paramUpdates = resp.consensusParamUpdates ∧ r.height = b.header.height

inductive AppliedRun (genesis : State H) : List AppliedBlock → State H → Prop
  | genesis : AppliedRun genesis [] genesis
  | apply {rs : List AppliedBlock} {r : AppliedBlock} {s next : State H}
      (h : AppliedRun genesis rs s) (hr : Applies C s r next) : AppliedRun genesis (rs ++ [r]) next

def lastChange (changes : AppliedBlock → Bool) (delay first : ℤ) (rs : List AppliedBlock) : ℤ :=
  ((rs.filter changes).getLast?.map fun r => r.height + delay).getD first

def AppliedBlock.changesValidators (r : AppliedBlock) : Bool := !r.validatorUpdates.isEmpty

def AppliedBlock.changesParams (r : AppliedBlock) : Bool := r.paramUpdates.isSome

def InvalidUpdates (s : State H) (b : Block H) (resp : ResponseFinalizeBlock) : Prop :=
  validateValidatorUpdates C resp.validatorUpdates s.consensusParams.pubKeyTypes ≠ none ∨
  (∃ e, C.validatorUpdates resp.validatorUpdates = .error e) ∨
  (∃ changes e, C.validatorUpdates resp.validatorUpdates = .ok changes ∧ changes ≠ [] ∧
    C.updateWithChangeSet s.nextValidators changes = .error e) ∨
  ∃ updates, resp.consensusParamUpdates = some updates ∧
    (C.paramsValidateBasic (C.updateParams s.consensusParams updates) ≠ none ∨
      C.paramsValidateUpdate s.consensusParams updates b.header.height ≠ none)

/-- What one applied block does to the validator sets and to the heights of the last changes. -/
structure Advances (s : State H) (r : AppliedBlock) (next : State H) : Prop where
  lastBlockHeight : next.lastBlockHeight = r.height
  lastValidators : next.lastValidators = s.validators
  validators : next.validators = s.nextValidators
  nextValidators : r.validatorUpdates = [] ∧ next.nextValidators = s.nextValidators ∧
      next.lastHeightValidatorsChanged = s.lastHeightValidatorsChanged ∨
    r.validatorUpdates ≠ [] ∧
      C.updateWithChangeSet s.nextValidators r.validatorUpdates = .ok next.nextValidators ∧
      next.lastHeightValidatorsChanged = r.height + 2
  consensusParams : r.paramUpdates = none ∧ next.consensusParams = s.consensusParams ∧
      next.lastHeightConsensusParamsChanged = s.lastHeightConsensusParamsChanged ∨
    ∃ updates, r.paramUpdates = some updates ∧
      next.consensusParams = C.updateParams s.consensusParams updates ∧
      next.lastHeightConsensusParamsChanged = r.height + 1

variable {C env}

/-! ## One block -/

theorem applyBlock_next {disk : Disk H} {s next raw : State H} {blockID : BlockID H}
    {b : Block H} {resp : ResponseFinalizeBlock} {log : List (Write H)}
    (hexec : executeBlock C env disk.stateStore s blockID b = ⟨.ok (resp,raw),log⟩)
    (h : (applyBlock C env disk s blockID b).result = .ok next) :
    next = { raw with appHash := resp.appHash } := by
  rw [applyBlock,hexec] at h
  cases hcommit : commitBlock env b with
  | mk result log =>
    cases result with
    | error e => simp [hcommit] at h
    | panic p => simp [hcommit] at h
    | ok retainHeight =>
      cases hs : env.saveState with
      | some e => simp [hcommit,hs] at h
      | none =>
        by_cases hretain : retainHeight > 0
        · simp only [hcommit,hs,Exec.ok_bind,Option.map_none,Exec.write_none,if_pos hretain,
            Exec.attempt_eq,Exec.pure_result] at h
          exact (Outcome.ok.inj h).symm
        · simp only [hcommit,hs,Exec.ok_bind,Option.map_none,Exec.write_none,if_neg hretain,
            Exec.pure_result] at h
          exact (Outcome.ok.inj h).symm

theorem applyBlock_error (disk : Disk H) {s : State H} {blockID : BlockID H} {b : Block H}
    {e : ExecError H} (h : (executeBlock C env disk.stateStore s blockID b).result = .error e) :
    (applyBlock C env disk s blockID b).result = .error e ∧
      returnedState C env disk s blockID b = s := by
  unfold applyBlock returnedState
  rw [h]
  cases hexec : executeBlock C env disk.stateStore s blockID b with
  | mk result log =>
    rw [hexec] at h
    cases h
    exact ⟨by simp,rfl⟩

/-- An applied block has passed every check, and its updates are in the state. -/
theorem applyBlock_ok {disk : Disk H} {s next : State H} {blockID : BlockID H} {b : Block H}
    (h : (applyBlock C env disk s blockID b).result = .ok next) :
    ∃ req resp updates raw, requestFinalizeBlock C disk.stateStore s b = .ok req ∧
      env.finalizeBlock req = .ok resp ∧
      C.validatorUpdates resp.validatorUpdates = .ok updates ∧
      updateState C s blockID b.header resp updates = .ok raw ∧
      next = { raw with appHash := resp.appHash } := by
  rcases executeBlock_cases disk.stateStore s blockID b with
    ⟨req,resp,updates,raw,hreq,hfin,htx,hsave,hval,hup,hraw⟩ | ⟨hres,_⟩
  · have hexec := executeBlock_eq hreq hfin htx hsave hval hup hraw
    exact ⟨req,resp,updates,raw,hreq,hfin,hup,hraw,applyBlock_next hexec h⟩
  · exact absurd h ((applyBlock_of_stopped hres).2 next)

theorem applies_of_applyBlock {disk : Disk H} {s next : State H} {blockID : BlockID H}
    {b : Block H} (h : (applyBlock C env disk s blockID b).result = .ok next) :
    ∃ r : AppliedBlock, r.height = b.header.height ∧ Applies C s r next := by
  obtain ⟨req,resp,updates,raw,hreq,hfin,hup,_,_⟩ := applyBlock_ok h
  exact ⟨⟨b.header.height,updates,resp.consensusParamUpdates⟩,rfl,
    env,disk,blockID,b,req,resp,h,hreq,hfin,hup,rfl,rfl⟩

theorem Applies.advances {s next : State H} {r : AppliedBlock} (h : Applies C s r next) :
    Advances C s r next := by
  obtain ⟨env,disk,blockID,b,req,resp,happly,hreq,hfin,hup,hparams,hheight⟩ := h
  obtain ⟨req',resp',updates,raw,hreq',hfin',hup',hraw,rfl⟩ := applyBlock_ok happly
  -- the request and the answer are those of the run
  obtain rfl : req = req' := Outcome.ok.inj (hreq.symm.trans hreq')
  obtain rfl : resp = resp' := Except.ok.inj (hfin.symm.trans hfin')
  obtain rfl : r.validatorUpdates = updates := Except.ok.inj (hup.symm.trans hup')
  unfold updateState at hraw
  obtain ⟨⟨vals,changed⟩,hvals,hraw⟩ := Outcome.bind_eq_ok_iff.mp hraw
  obtain ⟨⟨params,version,paramsChanged⟩,hp,hraw⟩ := Outcome.bind_eq_ok_iff.mp hraw
  cases hraw
  refine ⟨hheight.symm,rfl,rfl,?_,?_⟩
  · rw [hheight]
    exact nextValidatorSet_cases hvals
  · rw [hheight,hparams]
    rcases (nextConsensusParams_cases hp).2 with h | ⟨changes,hsome,hnext,_,_,hchanged⟩
    · exact .inl h
    · exact .inr ⟨changes,hsome,hnext,hchanged⟩

theorem Applies.nextValidators_valid (hU : C.UpdateRules) {s next : State H} {r : AppliedBlock}
    (h : Applies C s r next) (hs : CometBFT.ValidatorSetValid s.nextValidators) :
    CometBFT.ValidatorSetValid next.nextValidators := by
  rcases h.advances.nextValidators with ⟨_,hv,_⟩ | ⟨_,hv,_⟩
  · rw [hv]
    exact hs
  · obtain ⟨_,_,_,_,_,_,_,_,_,hup,_⟩ := h
    exact hU.updateWithChangeSet hs hup hv

/-- The heights of applied blocks are positive, and count up once there is a block. -/
theorem Applies.height (hC : C.BlockRules) {s next : State H} {r : AppliedBlock}
    (h : Applies C s r next) :
    0 < r.height ∧ (0 < s.lastBlockHeight → r.height = s.lastBlockHeight + 1) := by
  obtain ⟨env,disk,blockID,b,req,resp,_,hreq,_,_,_,hheight⟩ := h
  have hv : BlockValid C s b := by
    apply validateBlock_eq_none_iff.mp
    cases hv : validateBlock C s b with
    | none => rfl
    | some e => simp [requestFinalizeBlock,hv] at hreq
  rw [hheight]
  exact ⟨((hC.validateBasic_iff b).mp hv.basic).height,hv.nextHeight⟩

/-! ## Refused updates -/

omit [DecidableEq H] in
theorem nextValidatorSet_isPanic (hU : C.UpdateRules) {s : State H} {header : Header H}
    {updates : List ValidatorUpdate} {changes : List Validator}
    (hs : CometBFT.ValidatorSetValid s.nextValidators)
    (hup : C.validatorUpdates updates = .ok changes) :
    (nextValidatorSet C s header changes).isPanic = false := by
  unfold nextValidatorSet
  dsimp only
  -- in both cases the set is valid, so it is not empty
  split
  · apply Outcome.isPanic_bind (by simp)
    intro vals hvals
    have hnext := hU.updateWithChangeSet hs hup (Outcome.ofExcept_eq_ok_iff.mp hvals)
    simp [hnext.nonempty]
  · simp [hs.nonempty]

omit [DecidableEq H] in
theorem updateState_isPanic (hU : C.UpdateRules) {s : State H} (blockID : BlockID H) (b : Block H)
    {resp : ResponseFinalizeBlock} {changes : List Validator}
    (hs : CometBFT.ValidatorSetValid s.nextValidators)
    (hup : C.validatorUpdates resp.validatorUpdates = .ok changes) :
    (updateState C s blockID b.header resp changes).isPanic = false := by
  apply Outcome.isPanic_bind (nextValidatorSet_isPanic hU hs hup)
  intro _ _
  apply Outcome.isPanic_bind
  · unfold nextConsensusParams
    cases resp.consensusParamUpdates with
    | none => rfl
    | some updates =>
      apply Outcome.isPanic_bind (by simp)
      intro _ _
      exact Outcome.isPanic_bind (by simp) (fun _ _ => rfl)
  · intro _ _
    rfl

omit [DecidableEq H] in
theorem updateState_ne_ok {s raw : State H} {b : Block H} {blockID : BlockID H}
    {resp : ResponseFinalizeBlock} {changes : List Validator}
    (hval : validateValidatorUpdates C resp.validatorUpdates s.consensusParams.pubKeyTypes = none)
    (hup : C.validatorUpdates resp.validatorUpdates = .ok changes)
    (hinvalid : InvalidUpdates C s b resp) :
    updateState C s blockID b.header resp changes ≠ .ok raw := by
  intro h
  unfold updateState at h
  obtain ⟨⟨vals,changed⟩,hvals,h⟩ := Outcome.bind_eq_ok_iff.mp h
  obtain ⟨⟨params,version,paramsChanged⟩,hp,_⟩ := Outcome.bind_eq_ok_iff.mp h
  rcases hinvalid with hv | ⟨e,he⟩ | ⟨refused,e,hrefused,hne,he⟩ | ⟨updates,hupdates,he⟩
  · exact hv hval
  · simp [he] at hup
  · obtain rfl : refused = changes := Except.ok.inj (hrefused.symm.trans hup)
    rcases nextValidatorSet_cases hvals with ⟨hnil,_⟩ | ⟨_,hok,_⟩
    · exact hne hnil
    · simp [he] at hok
  · rcases (nextConsensusParams_cases hp).2 with ⟨hnone,_⟩ | ⟨passed,hsome,rfl,hb,hu,_⟩
    · simp [hnone] at hupdates
    · obtain rfl : updates = passed := Option.some.inj (hupdates.symm.trans hsome)
      exact he.elim (fun he => he hb) (fun he => he hu)

theorem executeBlock_invalidUpdates (hU : C.UpdateRules) {store : StateStore H} {s : State H}
    {b : Block H} {req : RequestFinalizeBlock H} {resp : ResponseFinalizeBlock}
    (hs : CometBFT.ValidatorSetValid s.nextValidators)
    (hreq : requestFinalizeBlock C store s b = .ok req) (hfin : env.finalizeBlock req = .ok resp)
    (hinvalid : InvalidUpdates C s b resp) (blockID : BlockID H) :
    ∃ e, (executeBlock C env store s blockID b).result = .error e := by
  unfold executeBlock
  simp only [hreq,hfin,Outcome.ofExcept_ok,Exec.lift_ok_bind]
  by_cases htx : b.txs.length = resp.txResults.length
  · cases hsave : env.saveFinalizeBlockResponse with
    | some e => simp [refuse,htx]
    | none =>
      cases hval : validateValidatorUpdates C resp.validatorUpdates
          s.consensusParams.pubKeyTypes with
      | some e => simp [refuse,htx]
      | none =>
        cases hup : C.validatorUpdates resp.validatorUpdates with
        | error e => simp [refuse,htx]
        | ok changes =>
          cases hraw : updateState C s blockID b.header resp changes with
          | ok raw => exact absurd hraw (updateState_ne_ok hval hup hinvalid)
          | panic p =>
            have hpanic := updateState_isPanic hU blockID b hs hup
            simp [hraw] at hpanic
          | error e => simp [refuse,htx,hraw]
  · simp [refuse,htx]

/-! ## Whole runs -/

theorem AppliedRun.nextValidators_valid (hU : C.UpdateRules) {genesis s : State H}
    {rs : List AppliedBlock} (hg : CometBFT.ValidatorSetValid genesis.nextValidators)
    (h : AppliedRun C genesis rs s) : CometBFT.ValidatorSetValid s.nextValidators := by
  induction h with
  | genesis => exact hg
  | apply _ hr ih => exact hr.nextValidators_valid hU ih

theorem lastChange_append (changes : AppliedBlock → Bool) (delay first : ℤ)
    (rs : List AppliedBlock) (r : AppliedBlock) :
    lastChange changes delay first (rs ++ [r]) =
      if changes r then r.height + delay else lastChange changes delay first rs := by
  by_cases h : changes r <;> simp [lastChange,List.filter_append,h]

theorem AppliedRun.lastChanges {genesis s : State H} {rs : List AppliedBlock}
    (h : AppliedRun C genesis rs s) :
    s.lastHeightValidatorsChanged = lastChange AppliedBlock.changesValidators 2
      genesis.lastHeightValidatorsChanged rs ∧
    s.lastHeightConsensusParamsChanged = lastChange AppliedBlock.changesParams 1
      genesis.lastHeightConsensusParamsChanged rs := by
  induction h with
  | genesis => exact ⟨rfl,rfl⟩
  | apply _ hr ih =>
    have hadv := hr.advances
    rw [lastChange_append,lastChange_append,← ih.1,← ih.2]
    constructor
    · rcases hadv.nextValidators with ⟨hnil,_,hc⟩ | ⟨hne,_,hc⟩
      · simpa [AppliedBlock.changesValidators,hnil] using hc
      · simpa [AppliedBlock.changesValidators,hne] using hc
    · rcases hadv.consensusParams with ⟨hnone,_,hc⟩ | ⟨updates,hsome,_,hc⟩
      · simpa [AppliedBlock.changesParams,hnone] using hc
      · simpa [AppliedBlock.changesParams,hsome] using hc

/-- From any state that a run of applied blocks has reached, every block that is applied moves
the sets on and its updates are in force two heights later, the heights of the last changes are
those of the run, and updates that are refused give an error with the state as it was. -/
theorem AppliedRun.pipeline (hC : C.BlockRules) (hU : C.UpdateRules) {genesis s : State H}
    {rs : List AppliedBlock} (hg : CometBFT.ValidatorSetValid genesis.nextValidators)
    (h : AppliedRun C genesis rs s) :
    s.lastHeightValidatorsChanged = lastChange AppliedBlock.changesValidators 2
      genesis.lastHeightValidatorsChanged rs ∧
    s.lastHeightConsensusParamsChanged = lastChange AppliedBlock.changesParams 1
      genesis.lastHeightConsensusParamsChanged rs ∧
    (∀ env disk blockID b next, (applyBlock C env disk s blockID b).result = .ok next →
      ∃ r : AppliedBlock, r.height = b.header.height ∧ Applies C s r next) ∧
    (∀ r next, Applies C s r next →
      next.lastValidators = s.validators ∧ next.validators = s.nextValidators ∧
      (if r.validatorUpdates = [] then next.nextValidators = s.nextValidators
        else C.updateWithChangeSet s.nextValidators r.validatorUpdates =
          .ok next.nextValidators) ∧
      ∀ r' later, Applies C next r' later →
        later.lastBlockHeight = r.height + 1 ∧ later.validators = next.nextValidators) ∧
    ∀ env disk blockID b req resp, requestFinalizeBlock C disk.stateStore s b = .ok req →
      env.finalizeBlock req = .ok resp → InvalidUpdates C s b resp →
      (∃ e, (applyBlock C env disk s blockID b).result = .error e) ∧
        returnedState C env disk s blockID b = s := by
  refine ⟨h.lastChanges.1,h.lastChanges.2,?_,?_,?_⟩
  · intro env disk blockID b next happly
    exact applies_of_applyBlock happly
  · intro r next hr
    have hadv := hr.advances
    refine ⟨hadv.lastValidators,hadv.validators,?_,?_⟩
    · rcases hadv.nextValidators with ⟨hnil,hv,_⟩ | ⟨hne,hv,_⟩
      · rw [if_pos hnil]
        exact hv
      · rw [if_neg hne]
        exact hv
    · intro r' later hr'
      have hpos : 0 < next.lastBlockHeight := by
        rw [hadv.lastBlockHeight]
        exact (hr.height hC).1
      have hnext := (hr'.height hC).2 hpos
      have hlater := hr'.advances
      refine ⟨?_,hlater.validators⟩
      rw [hlater.lastBlockHeight,hnext,hadv.lastBlockHeight]
  · intro env disk blockID b req resp hreq hfin hinvalid
    obtain ⟨e,he⟩ := executeBlock_invalidUpdates hU (h.nextValidators_valid hU hg) hreq hfin
      hinvalid blockID
    obtain ⟨hresult,hstate⟩ := applyBlock_error disk he
    exact ⟨⟨e,hresult⟩,hstate⟩

namespace Sample

def newcomerKey : PubKey := ⟨"ed25519",List.replicate 32 3⟩

def newcomer : Validator := ⟨List.replicate 20 3,newcomerKey,10⟩

/-- The state after a first block that lets a second validator in. -/
def newcomerState : State Digest :=
  { nextState genesis firstBlock [validator,newcomer] with lastHeightValidatorsChanged := 3 }

def newcomerSecond : Block Digest :=
  Symbolic.makeBlock newcomerState 2 [] (commit firstBlock 2000) proposer

def newcomerDisk : Disk Digest := ⟨disk.stateStore.save newcomerState,.empty,0⟩

theorem newcomer_applies : Applies (symbolic []) genesis ⟨1,[newcomer],none⟩ newcomerState :=
  ⟨acceptEnv [⟨newcomerKey,10⟩] 0,disk,blockID firstBlock,firstBlock,_,_,rfl,rfl,rfl,rfl,rfl,rfl⟩

/-- The change of the first block is in force from height three, and a second block with a
negative power in its updates leaves the state as it is. -/
theorem newcomer_pipeline :
    newcomerState.lastHeightValidatorsChanged = lastChange AppliedBlock.changesValidators 2 1
      [⟨1,[newcomer],none⟩] ∧
    returnedState (symbolic []) (acceptEnv [⟨newcomerKey,-1⟩] 0) newcomerDisk newcomerState
      (blockID newcomerSecond) newcomerSecond = newcomerState := by
  have hrun : AppliedRun (symbolic []) genesis ([] ++ [⟨1,[newcomer],none⟩]) newcomerState :=
    .apply .genesis newcomer_applies
  have h := hrun.pipeline (Symbolic.blockRules []) (Symbolic.updateRules []) (by decide +kernel)
  have hinvalid : InvalidUpdates (symbolic []) newcomerState newcomerSecond
      (response [] [⟨newcomerKey,-1⟩]) := .inl (by decide +kernel)
  obtain ⟨hchanged,_,_,_,hrefused⟩ := h
  exact ⟨hchanged,(hrefused (acceptEnv [⟨newcomerKey,-1⟩] 0) newcomerDisk (blockID newcomerSecond)
    newcomerSecond _ _ rfl rfl hinvalid).2⟩

end Sample

end Landslide
