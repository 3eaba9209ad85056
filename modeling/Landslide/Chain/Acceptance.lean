import Landslide.Chain.Executor

/-! # What accepting a block can do

Every way in which the acceptance of one block can end, with the writes it leaves
behind. The results about crashes, failures and the stored chain all start from
this case distinction and never look into the executor again.
-/
namespace Landslide
variable {H : Type} [DecidableEq H] (C : CometBFT H) (env : AcceptEnv H)

/-- Every call of the acceptance up to and including ABCI `Commit` succeeds, and
`next` is the state it leads to. -/
structure Committed (store : StateStore H) (s : State H) (b : Block H) (blockID : BlockID H)
    (resp : ResponseFinalizeBlock) (next : State H) (retainHeight : ℤ) : Prop where
  blockID_eq : blockIDOf C b = .ok blockID
  finalize : ∃ req, requestFinalizeBlock C store s b = .ok req ∧ env.finalizeBlock req = .ok resp
  txResults : b.txs.length = resp.txResults.length
  saveResponse : env.saveFinalizeBlockResponse = none
  updatesValid : validateValidatorUpdates C resp.validatorUpdates
    s.consensusParams.pubKeyTypes = none
  update : ∃ updates raw, C.validatorUpdates resp.validatorUpdates = .ok updates ∧
    updateState C s blockID b.header resp updates = .ok raw ∧
    next = { raw with appHash := resp.appHash }
  flush : env.flushAppConn = none
  commit : env.commit = .ok retainHeight

def ReachesCommit (store : StateStore H) (s : State H) (b : Block H) : Prop :=
  ∃ blockID resp next retainHeight, Committed C env store s b blockID resp next retainHeight

/-- The writes of pruning, which `ApplyBlock` makes between its own save and its return. -/
def pruneLog (bs : BlockStore H) (retainHeight : ℤ) : List (Write H) :=
  if retainHeight > 0 then (pruneBlocks env bs retainHeight).log else []

def appliedLog (bs : BlockStore H) (b : Block H) (resp : ResponseFinalizeBlock)
    (next : State H) (retainHeight : ℤ) : List (Write H) :=
  .finalizeBlockResponse b.header.height resp :: .appCommit b.header.height :: .state next ::
    pruneLog env bs retainHeight

/-- The entry of the block store that an accepted block becomes. -/
def storedBlock (s : State H) (b : Block H) (blockID : BlockID H) : StoredBlock H :=
  ⟨b,blockID,makeCommit b.header.height b.header.time s.validators blockID⟩

inductive Accepts (disk : Disk H) (s : State H) (b : Block H) :
    Exec (Write H) (ExecError H) (State H) → Prop
  | stopped {result : Outcome (ExecError H) (State H)} {log : List (Write H)}
      (hr : ∀ next, result ≠ .ok next) (hc : ¬ReachesCommit C env disk.stateStore s b)
      (hlog : log = [] ∨ ∃ resp, log = [.finalizeBlockResponse b.header.height resp]) :
      Accepts disk s b ⟨result,log⟩
  /-- The application commits, then the mempool update or the first save fails. -/
  | unsaved {blockID : BlockID H} {resp : ResponseFinalizeBlock} {next : State H}
      {retainHeight : ℤ} {e : ExecError H}
      (hc : Committed C env disk.stateStore s b blockID resp next retainHeight)
      (hf : env.mempoolUpdate ≠ none ∨ env.saveState ≠ none) :
      Accepts disk s b ⟨.error e,
        [.finalizeBlockResponse b.header.height resp,.appCommit b.header.height]⟩
  | refused {blockID : BlockID H} {resp : ResponseFinalizeBlock} {next : State H}
      {retainHeight : ℤ} {p : String}
      (hc : Committed C env disk.stateStore s b blockID resp next retainHeight)
      (hp : disk.blockStore.saveError b (storedBlock s b blockID).seenCommit = some p) :
      Accepts disk s b ⟨.panic p,appliedLog env disk.blockStore b resp next retainHeight⟩
  | unfinished {blockID : BlockID H} {resp : ResponseFinalizeBlock} {next : State H}
      {retainHeight : ℤ} {e : String}
      (hc : Committed C env disk.stateStore s b blockID resp next retainHeight)
      (hs : disk.blockStore.saveError b (storedBlock s b blockID).seenCommit = none)
      (he : env.saveStateAgain = some e) :
      Accepts disk s b ⟨.error (.callee e),appliedLog env disk.blockStore b resp next retainHeight ++
        [.block (storedBlock s b blockID)]⟩
  | done {blockID : BlockID H} {resp : ResponseFinalizeBlock} {next : State H} {retainHeight : ℤ}
      (hc : Committed C env disk.stateStore s b blockID resp next retainHeight)
      (hs : disk.blockStore.saveError b (storedBlock s b blockID).seenCommit = none) :
      Accepts disk s b ⟨.ok next,appliedLog env disk.blockStore b resp next retainHeight ++
        [.block (storedBlock s b blockID),.state next]⟩

structure Follows (C : CometBFT H) (s next : State H) (b : Block H) (blockID : BlockID H) :
    Prop where
  versionBlock : next.version.block = s.version.block
  chainID : next.chainID = s.chainID
  initialHeight : next.initialHeight = s.initialHeight
  lastBlockHeight : next.lastBlockHeight = b.header.height
  lastBlockID : next.lastBlockID = blockID
  lastBlockTime : next.lastBlockTime = b.header.time
  lastValidators : next.lastValidators = s.validators
  validators : next.validators = s.nextValidators
  nextValidators : next.nextValidators = s.nextValidators ∨
    ∃ updates changes, C.validatorUpdates updates = .ok changes ∧
      C.updateWithChangeSet s.nextValidators changes = .ok next.nextValidators
  consensusParams : next.consensusParams = s.consensusParams ∨
    C.paramsValidateBasic next.consensusParams = none

variable {C env}

omit [DecidableEq H] in
theorem blockIDOf_eq_ok_iff {b : Block H} {blockID : BlockID H} :
    blockIDOf C b = .ok blockID ↔ ∃ p, C.makePartSet b = .ok p ∧ blockID = ⟨C.hash b,p⟩ := by
  unfold blockIDOf
  cases C.makePartSet b with
  | error e => simp [bind,Except.bind]
  | ok p => simp [bind,Except.bind,pure,Except.pure,eq_comm]

omit [DecidableEq H] in
theorem nextValidatorSet_cases {s : State H} {header : Header H} {changes : List Validator}
    {vals : ValidatorSet} {changed : ℤ}
    (h : nextValidatorSet C s header changes = .ok (vals,changed)) :
    changes = [] ∧ vals = s.nextValidators ∧ changed = s.lastHeightValidatorsChanged ∨
    changes ≠ [] ∧ C.updateWithChangeSet s.nextValidators changes = .ok vals ∧
      changed = header.height + 2 := by
  unfold nextValidatorSet at h
  by_cases hlen : changes.length > 0
  · rw [if_pos hlen] at h
    obtain ⟨next,hup,h⟩ := Outcome.bind_eq_ok_iff.mp h
    have hnext : next = vals ∧ header.height + 1 + 1 = changed := by
      simp only [Outcome.pure_eq,Outcome.ok_bind] at h
      split at h
      · cases h
      · cases h
        exact ⟨rfl,rfl⟩
    refine .inr ⟨List.length_pos_iff.mp hlen,?_,by omega⟩
    rw [← hnext.1]
    exact Outcome.ofExcept_eq_ok_iff.mp hup
  · rw [if_neg hlen] at h
    simp only [Outcome.pure_eq,Outcome.ok_bind] at h
    split at h
    · cases h
    · cases h
      exact .inl ⟨List.length_eq_zero_iff.mp (by omega),rfl,rfl⟩

omit [DecidableEq H] in
theorem nextConsensusParams_cases {s : State H} {header : Header H}
    {updates : Option ConsensusParamUpdates} {params : ConsensusParams} {version : Consensus}
    {changed : ℤ} (h : nextConsensusParams C s header updates = .ok (params,version,changed)) :
    version.block = s.version.block ∧
    (updates = none ∧ params = s.consensusParams ∧
      changed = s.lastHeightConsensusParamsChanged ∨
    ∃ changes, updates = some changes ∧ params = C.updateParams s.consensusParams changes ∧
      C.paramsValidateBasic params = none ∧
      C.paramsValidateUpdate s.consensusParams changes header.height = none ∧
      changed = header.height + 1) := by
  unfold nextConsensusParams at h
  cases updates with
  | none =>
    cases h
    exact ⟨rfl,.inl ⟨rfl,rfl,rfl⟩⟩
  | some updates =>
    cases hv : C.paramsValidateBasic (C.updateParams s.consensusParams updates) with
    | some e => simp [hv] at h
    | none =>
      cases hu : C.paramsValidateUpdate s.consensusParams updates header.height with
      | some e => simp [hv,hu] at h
      | none =>
        simp only [hv,hu,Option.map_none,Outcome.ofOption_none,Outcome.ok_bind] at h
        cases h
        exact ⟨rfl,.inr ⟨updates,rfl,rfl,hv,hu,rfl⟩⟩

omit [DecidableEq H] in
theorem updateState_ok {s raw : State H} {b : Block H} {blockID : BlockID H}
    {resp : ResponseFinalizeBlock} {updates : List ValidatorUpdate} {changes : List Validator}
    (hup : C.validatorUpdates updates = .ok changes)
    (h : updateState C s blockID b.header resp changes = .ok raw) (appHash : Bytes) :
    Follows C s { raw with appHash := appHash } b blockID := by
  unfold updateState at h
  obtain ⟨⟨vals,changed⟩,hvals,h⟩ := Outcome.bind_eq_ok_iff.mp h
  obtain ⟨⟨params,version,paramsChanged⟩,hparams,h⟩ := Outcome.bind_eq_ok_iff.mp h
  cases h
  obtain ⟨hversion,hp⟩ := nextConsensusParams_cases hparams
  refine ⟨hversion,rfl,rfl,rfl,rfl,rfl,rfl,rfl,?_,?_⟩
  · rcases nextValidatorSet_cases hvals with ⟨_,hv,_⟩ | ⟨_,hv,_⟩
    · exact .inl hv
    · exact .inr ⟨updates,changes,hup,hv⟩
  · rcases hp with ⟨_,hp,_⟩ | ⟨_,_,_,hp,_⟩
    · exact .inl hp
    · exact .inr hp

theorem Committed.follows {store : StateStore H} {s : State H} {b : Block H} {blockID : BlockID H}
    {resp : ResponseFinalizeBlock} {next : State H} {retainHeight : ℤ}
    (hc : Committed C env store s b blockID resp next retainHeight) :
    Follows C s next b blockID := by
  obtain ⟨updates,raw,hup,hraw,rfl⟩ := hc.update
  exact updateState_ok hup hraw _

theorem Committed.valid {store : StateStore H} {s : State H} {b : Block H} {blockID : BlockID H}
    {resp : ResponseFinalizeBlock} {next : State H} {retainHeight : ℤ}
    (hc : Committed C env store s b blockID resp next retainHeight) : BlockValid C s b := by
  obtain ⟨req,hreq,_⟩ := hc.finalize
  apply validateBlock_eq_none_iff.mp
  cases hv : validateBlock C s b with
  | none => rfl
  | some e => simp [requestFinalizeBlock,hv] at hreq

theorem executeBlock_eq {store : StateStore H} {s : State H} {b : Block H} {blockID : BlockID H}
    {req : RequestFinalizeBlock H} {resp : ResponseFinalizeBlock} {updates : List Validator}
    {raw : State H} (hreq : requestFinalizeBlock C store s b = .ok req)
    (hfin : env.finalizeBlock req = .ok resp) (htx : b.txs.length = resp.txResults.length)
    (hsave : env.saveFinalizeBlockResponse = none)
    (hval : validateValidatorUpdates C resp.validatorUpdates s.consensusParams.pubKeyTypes = none)
    (hup : C.validatorUpdates resp.validatorUpdates = .ok updates)
    (hraw : updateState C s blockID b.header resp updates = .ok raw) :
    executeBlock C env store s blockID b =
      ⟨.ok (resp,raw),[.finalizeBlockResponse b.header.height resp]⟩ := by
  simp [executeBlock,hreq,hfin,refuse,htx,hsave,hval,hup,hraw]

/-- The execution of a block either gets to the updated state, or fails with at most
the response saved. -/
theorem executeBlock_cases (store : StateStore H) (s : State H) (blockID : BlockID H)
    (b : Block H) :
    (∃ req resp updates raw, requestFinalizeBlock C store s b = .ok req ∧
      env.finalizeBlock req = .ok resp ∧ b.txs.length = resp.txResults.length ∧
      env.saveFinalizeBlockResponse = none ∧
      validateValidatorUpdates C resp.validatorUpdates s.consensusParams.pubKeyTypes = none ∧
      C.validatorUpdates resp.validatorUpdates = .ok updates ∧
      updateState C s blockID b.header resp updates = .ok raw) ∨
    (∀ r, (executeBlock C env store s blockID b).result ≠ .ok r) ∧
      ((executeBlock C env store s blockID b).log = [] ∨
        ∃ resp, (executeBlock C env store s blockID b).log =
          [.finalizeBlockResponse b.header.height resp]) := by
  unfold executeBlock
  cases hreq : requestFinalizeBlock C store s b with
  | error e => exact .inr ⟨by simp,.inl rfl⟩
  | panic p => exact .inr ⟨by simp,.inl rfl⟩
  | ok req =>
    simp only [Exec.lift_ok_bind]
    cases hfin : env.finalizeBlock req with
    | error e => exact .inr ⟨by simp,.inl rfl⟩
    | ok resp =>
      simp only [Outcome.ofExcept_ok,Exec.lift_ok_bind]
      by_cases htx : b.txs.length = resp.txResults.length
      · cases hsave : env.saveFinalizeBlockResponse with
        | some e => exact .inr ⟨by simp [refuse,htx],.inl (by simp [refuse,htx])⟩
        | none =>
          cases hval : validateValidatorUpdates C resp.validatorUpdates
              s.consensusParams.pubKeyTypes with
          | some e =>
            exact .inr ⟨by simp [refuse,htx],.inr ⟨resp,by simp [refuse,htx]⟩⟩
          | none =>
            cases hup : C.validatorUpdates resp.validatorUpdates with
            | error e =>
              exact .inr ⟨by simp [refuse,htx],.inr ⟨resp,by simp [refuse,htx]⟩⟩
            | ok updates =>
              cases hraw : updateState C s blockID b.header resp updates with
              | error e =>
                exact .inr ⟨by simp [refuse,htx,hraw],.inr ⟨resp,by simp [refuse,htx,hraw]⟩⟩
              | panic p =>
                exact .inr ⟨by simp [refuse,htx,hraw],.inr ⟨resp,by simp [refuse,htx,hraw]⟩⟩
              | ok raw =>
                exact .inl ⟨req,resp,updates,raw,rfl,hfin,htx,rfl,hval,hup,hraw⟩
      · exact .inr ⟨by simp [refuse,htx],.inl (by simp [refuse,htx])⟩

omit [DecidableEq H] in
theorem commitBlock_eq {retainHeight : ℤ} (hflush : env.flushAppConn = none)
    (hcommit : env.commit = .ok retainHeight) (b : Block H) :
    commitBlock env b = ⟨match env.mempoolUpdate with
      | none => .ok retainHeight
      | some e => .error (.commit e),[.appCommit b.header.height]⟩ := by
  cases hm : env.mempoolUpdate <;> simp [commitBlock,hflush,hcommit,hm]

omit [DecidableEq H] in
theorem commitBlock_stopped (b : Block H)
    (h : ¬(env.flushAppConn = none ∧ ∃ retainHeight, env.commit = .ok retainHeight)) :
    ∃ e, commitBlock env b = ⟨.error e,[]⟩ := by
  cases hflush : env.flushAppConn with
  | some e => exact ⟨.commit e,by simp [commitBlock,hflush]⟩
  | none =>
    cases hcommit : env.commit with
    | error e => exact ⟨.commit e,by simp [commitBlock,hflush,hcommit]⟩
    | ok retainHeight => exact absurd ⟨hflush,retainHeight,hcommit⟩ h

theorem Committed.applyBlock_eq {disk : Disk H} {s : State H} {b : Block H} {blockID : BlockID H}
    {resp : ResponseFinalizeBlock} {next : State H} {retainHeight : ℤ}
    (hc : Committed C env disk.stateStore s b blockID resp next retainHeight) :
    applyBlock C env disk s blockID b =
      match env.mempoolUpdate,env.saveState with
      | some e,_ => ⟨.error (.commit e),
          [.finalizeBlockResponse b.header.height resp,.appCommit b.header.height]⟩
      | none,some e => ⟨.error (.callee e),
          [.finalizeBlockResponse b.header.height resp,.appCommit b.header.height]⟩
      | none,none => ⟨.ok next,appliedLog env disk.blockStore b resp next retainHeight⟩ := by
  obtain ⟨req,hreq,hfin⟩ := hc.finalize
  obtain ⟨updates,raw,hup,hraw,rfl⟩ := hc.update
  have hexec := executeBlock_eq hreq hfin hc.txResults hc.saveResponse hc.updatesValid hup hraw
  rw [applyBlock,hexec,commitBlock_eq hc.flush hc.commit]
  cases hm : env.mempoolUpdate with
  | some e => simp
  | none =>
    cases hs : env.saveState with
    | some e => simp
    | none => by_cases hr : retainHeight > 0 <;> simp [hr,appliedLog,pruneLog]

theorem applyBlock_of_stopped {disk : Disk H} {s : State H} {b : Block H} {blockID : BlockID H}
    (h : ∀ r, (executeBlock C env disk.stateStore s blockID b).result ≠ .ok r) :
    (applyBlock C env disk s blockID b).log =
      (executeBlock C env disk.stateStore s blockID b).log ∧
    ∀ next, (applyBlock C env disk s blockID b).result ≠ .ok next := by
  unfold applyBlock
  cases hexec : executeBlock C env disk.stateStore s blockID b with
  | mk result log =>
    cases result with
    | ok r => exact absurd (by rw [hexec]) (h r)
    | error e => exact ⟨by simp,by simp⟩
    | panic p => exact ⟨by simp,by simp⟩

theorem applyBlock_stopped {disk : Disk H} {s : State H} {b : Block H} {blockID : BlockID H}
    (hid : blockIDOf C b = .ok blockID) (h : ¬ReachesCommit C env disk.stateStore s b) :
    (∀ next, (applyBlock C env disk s blockID b).result ≠ .ok next) ∧
      ((applyBlock C env disk s blockID b).log = [] ∨
        ∃ resp, (applyBlock C env disk s blockID b).log =
          [.finalizeBlockResponse b.header.height resp]) := by
  rcases executeBlock_cases disk.stateStore s blockID b with
    ⟨req,resp,updates,raw,hreq,hfin,htx,hsave,hval,hup,hraw⟩ | ⟨hres,hlog⟩
  · have hcommit : ¬(env.flushAppConn = none ∧ ∃ retainHeight, env.commit = .ok retainHeight) := by
      rintro ⟨hflush,retainHeight,hcommit⟩
      exact h ⟨blockID,resp,_,retainHeight,hid,⟨req,hreq,hfin⟩,htx,hsave,hval,
        ⟨updates,raw,hup,hraw,rfl⟩,hflush,hcommit⟩
    obtain ⟨e,he⟩ := commitBlock_stopped b hcommit
    rw [applyBlock,executeBlock_eq hreq hfin htx hsave hval hup hraw,he]
    exact ⟨by simp,.inr ⟨resp,by simp⟩⟩
  · have happly := applyBlock_of_stopped hres
    rw [happly.1]
    exact ⟨happly.2,hlog⟩

variable (C env)

theorem acceptBlock_accepts (disk : Disk H) (s : State H) (b : Block H) :
    Accepts C env disk s b (acceptBlock C env disk s b) := by
  unfold acceptBlock
  cases hid : blockIDOf C b with
  | error e =>
    have hc : ¬ReachesCommit C env disk.stateStore s b := by
      rintro ⟨blockID,_,_,_,hc⟩
      have := hc.blockID_eq
      simp [hid] at this
    exact .stopped (by simp) hc (.inl rfl)
  | ok blockID =>
    simp only [Outcome.ofExcept_ok,Exec.lift_ok_bind]
    by_cases hc : ReachesCommit C env disk.stateStore s b
    · obtain ⟨blockID',resp,next,retainHeight,hc⟩ := hc
      obtain rfl : blockID' = blockID := by
        have := hc.blockID_eq
        rw [hid] at this
        exact (Except.ok.inj this).symm
      rw [hc.applyBlock_eq]
      cases hm : env.mempoolUpdate with
      | some e => exact .unsaved hc (.inl (by simp [hm]))
      | none =>
        cases hs : env.saveState with
        | some e => exact .unsaved hc (.inr (by simp [hs]))
        | none =>
          simp only [saveBlock,Exec.ok_bind]
          cases hp : disk.blockStore.saveError b (storedBlock s b blockID').seenCommit with
          | some p =>
            have hp' := hp
            simp only [storedBlock] at hp'
            simp only [hp',Exec.lift_panic_bind,List.append_nil]
            exact .refused hc hp
          | none =>
            have hp' := hp
            simp only [storedBlock] at hp'
            simp only [hp',Exec.write_none,Exec.ok_bind]
            cases ha : env.saveStateAgain with
            | some e => exact .unfinished hc hp ha
            | none => exact .done hc hp
    · obtain ⟨hres,hlog⟩ := applyBlock_stopped hid hc
      cases happly : applyBlock C env disk s blockID b with
      | mk result log =>
        rw [happly] at hres hlog
        cases result with
        | ok next => exact absurd rfl (hres next)
        | error e => exact .stopped (by simp) hc hlog
        | panic p => exact .stopped (by simp) hc hlog

end Landslide
