import Landslide.VM.Invariants

/-! # Can the VM build its next block?

`BuildBlock` makes up the last commit from the current validators. Those who validate
and apply the block compare it with the validators of the previous height. In every
state of every run the two fit together exactly when the validators of the two heights
have the same addresses in the same order.
-/
namespace Landslide
open WrappedBlocksStorage
variable {H : Type} [DecidableEq H] {C : CometBFT H}

/-! ## The made-up commit -/

omit [DecidableEq H] in
theorem fabricatedCommit_addresses (env : BuildEnv H) (s : State H) :
    (fabricatedCommit env s).extendedSignatures.map (fun ecs => ecs.commitSig.validatorAddress) =
      s.validators.addresses := by
  apply List.ext_getElem
  · simp [fabricatedCommit,ValidatorSet.addresses]
  · intro i _ _
    simp [fabricatedCommit,ValidatorSet.addresses]

omit [DecidableEq H] in
theorem fabricatedCommit_signature {env : BuildEnv H} {s : State H} {ecs : ExtendedCommitSig}
    (h : ecs ∈ (fabricatedCommit env s).extendedSignatures) :
    ∃ i, ∃ v ∈ s.validators, ecs = ⟨⟨.nil,v.address,env.now i,env.randBytes i⟩,[],[]⟩ := by
  obtain ⟨i,hi,rfl⟩ := List.mem_mapIdx.mp h
  exact ⟨i,s.validators[i],List.getElem_mem hi,rfl⟩

omit [DecidableEq H] in
theorem fabricatedCommit_commitSig {env : BuildEnv H} {s : State H} {cs : CommitSig}
    (h : cs ∈ (fabricatedCommit env s).toCommit.signatures) :
    ∃ i, ∃ v ∈ s.validators, cs = ⟨.nil,v.address,env.now i,env.randBytes i⟩ := by
  obtain ⟨ecs,hecs,rfl⟩ := List.mem_map.mp h
  obtain ⟨i,v,hv,rfl⟩ := fabricatedCommit_signature hecs
  exact ⟨i,v,hv,rfl⟩

omit [DecidableEq H] in
theorem fabricatedCommit_valid (env : BuildEnv H) {s : State H} (hs : Running s) :
    CometBFT.CommitValid (fabricatedCommit env s).toCommit where
  height := hs.lastBlockHeight_pos.le
  round := le_rfl
  blockID _ h := hs.lastBlockID (by
    have hid : s.lastBlockID = .zero H := h
    rw [hid]
    rfl)
  nonempty _ h := by
    have haddr := fabricatedCommit_addresses env s
    rw [List.map_eq_nil_iff.mp h,List.map_nil,eq_comm] at haddr
    exact hs.validators.nonempty (List.map_eq_nil_iff.mp haddr)
  signatures _ cs hcs := by
    obtain ⟨i,v,hv,rfl⟩ := fabricatedCommit_commitSig hcs
    have hlen := env.randBytes_length i
    refine ⟨hs.validators.address v hv,?_,hlen.le⟩
    intro hnil
    dsimp only at hnil
    rw [hnil] at hlen
    cases hlen

omit [DecidableEq H] in
theorem fabricatedCommit_toCommit_addresses (env : BuildEnv H) (s : State H) :
    (fabricatedCommit env s).toCommit.signatures.map CommitSig.validatorAddress =
      s.validators.addresses := by
  rw [← fabricatedCommit_addresses env s,ExtendedCommit.toCommit,List.map_map]
  rfl

/-! ## The validators on disk -/

/-- The state is valid, and its validators are on disk for the heights at which they are
in force. After a save of the state that failed the previous ones may be pruned. -/
structure ValidatorsKept (disk : Disk H) (s : State H) : Prop where
  running : Running s
  base : 0 < disk.blockStore.base
  height : disk.blockStore.height = s.lastBlockHeight ∨
    disk.blockStore.height = s.lastBlockHeight + 1
  last : disk.stateStore.validators s.lastBlockHeight = some s.lastValidators ∨
    disk.stateStore.validators s.lastBlockHeight = none
  current : disk.stateStore.validators (s.lastBlockHeight + 1) = some s.validators
  next : disk.stateStore.validators (s.lastBlockHeight + 2) = some s.nextValidators

/-- A disk to start from: at genesis with an empty block store, or with the stores of a
running chain. -/
structure ValidatorsDisk (disk : Disk H) : Prop where
  state : StateValid disk.stateStore.state
  stored : ValidatorsStored disk.stateStore disk.stateStore.state
  genesis : disk.stateStore.state.lastBlockHeight = 0 → disk.blockStore = .empty
  running : 0 < disk.stateStore.state.lastBlockHeight → Running disk.stateStore.state ∧
    disk.blockStore.height = disk.stateStore.state.lastBlockHeight ∧ 0 < disk.blockStore.base

theorem validatorsKept_of_ok (hB : C.BlockRules) (hU : C.UpdateRules) {env : AcceptEnv H}
    {disk : Disk H} {s next : State H} {b : Block H} (hs : StateValid s)
    (hbase : 0 ≤ disk.blockStore.base) (hheight : disk.blockStore.height ≤ b.header.height)
    (hcurrent : disk.stateStore.validators b.header.height = some s.validators)
    (hnext : disk.stateStore.validators (b.header.height + 1) = some s.nextValidators)
    (hok : (acceptBlock C env disk s b).result = .ok next) :
    ValidatorsKept (disk.replay (acceptBlock C env disk s b).log) next := by
  have hkeep : ∀ w ∈ (acceptBlock C env disk s b).log,
      w.KeepsValidators disk.blockStore.height (b.header.height + 2) :=
    acceptBlock_keepsValidators hB (fun _ => rfl)
  have hkept : ∀ h, h ≠ b.header.height + 2 → disk.blockStore.height ≤ h →
      (disk.replay (acceptBlock C env disk s b).log).stateStore.validators h =
        disk.stateStore.validators h := fun h hne => (replay_validators hkeep hne disk).1
  obtain ⟨blockID,_,_,hc,_,hp⟩ := acceptBlock_ok hbase hok
  have hf := hc.follows
  have hpos := ((hB.validateBasic_iff b).mp hc.valid.basic).height
  refine ⟨hc.running hU hs,?_,.inl ?_,.inl ?_,?_,?_⟩
  · have hnew := hp.base
    have hb : (storedBlock s b blockID).block.header.height = b.header.height := rfl
    omega
  · exact hp.height.trans hf.lastBlockHeight.symm
  · rw [hf.lastBlockHeight,hf.lastValidators,hkept _ (by omega) hheight]
    exact hcurrent
  · rw [hf.lastBlockHeight,hf.validators,hkept _ (by omega) (by omega)]
    exact hnext
  · rw [hp.validators _ (by rw [hf.lastBlockHeight]; omega),StateStore.save,
      if_neg (by rw [hf.lastBlockHeight]; omega)]
    exact Function.update_self ..

theorem ValidatorsKept.acceptBlock (hB : C.BlockRules) (hU : C.UpdateRules) {env : AcceptEnv H}
    {disk : Disk H} {s next : State H} {b : Block H} (h : ValidatorsKept disk s)
    (hok : (Landslide.acceptBlock C env disk s b).result = .ok next) :
    ValidatorsKept (disk.replay (Landslide.acceptBlock C env disk s b).log) next := by
  obtain ⟨blockID,_,_,hc,_,_⟩ := acceptBlock_ok h.base.le hok
  have hb := hc.valid.nextHeight h.running.lastBlockHeight_pos
  have hheight := h.height
  refine validatorsKept_of_ok hB hU h.running.toStateValid h.base.le (by omega) ?_ ?_ hok
  · rw [hb]
    exact h.current
  · rw [hb,add_assoc]
    exact h.next

theorem ValidatorsKept.acceptBlock_failed (hB : C.BlockRules) {env : AcceptEnv H} {disk : Disk H}
    {s : State H} {b : Block H} (h : ValidatorsKept disk s)
    (hfail : ∀ next, (Landslide.acceptBlock C env disk s b).result ≠ .ok next) :
    ValidatorsKept (disk.replay (Landslide.acceptBlock C env disk s b).log) s := by
  have hpos := h.running.lastBlockHeight_pos
  have hheight := h.height
  have hex : BlockValid C s b → b.header.height + 2 = s.lastBlockHeight + 3 := by
    intro hv
    rw [hv.nextHeight hpos]
    omega
  have hkeep : ∀ w ∈ (Landslide.acceptBlock C env disk s b).log,
      w.KeepsValidators disk.blockStore.height (s.lastBlockHeight + 3) :=
    acceptBlock_keepsValidators hB hex
  have hlast : s.lastBlockHeight ≠ s.lastBlockHeight + 3 := by omega
  refine ⟨h.running,h.base.trans_le (acceptBlock_base h.base),?_,?_,?_,?_⟩
  · rcases acceptBlock_not_ok h.base.le hfail with ⟨_,hh,_⟩ | ⟨blockID,next,_,_,hc,_,hp⟩
    · rw [hh]
      exact hheight
    · rw [hp.height]
      exact .inr (hc.valid.nextHeight hpos)
  · rcases (replay_validators hkeep hlast disk).2 with hr | hr
    · rw [hr]
      exact h.last
    · exact .inr hr
  · rw [(replay_validators hkeep (by omega) disk).1 (by omega)]
    exact h.current
  · rw [(replay_validators hkeep (by omega) disk).1 (by omega)]
    exact h.next

theorem ValidatorsKept.call (hB : C.BlockRules) (hU : C.UpdateRules) {vm : VM H}
    (h : ValidatorsKept vm.disk vm.state) {op : Op H} (hop : op.IsCall) :
    ValidatorsKept (vm.step C op).disk (vm.step C op).state := by
  cases step_advance (C := C) vm hop with
  | quiet hstate hdisk hn =>
    rw [hstate,hdisk]
    exact h
  | failed env id w hop hw ha hstate hdisk =>
    rw [hstate,hdisk]
    exact h.acceptBlock_failed hB ha
  | accepted env id w hop hw ha hdisk =>
    rw [hdisk]
    exact h.acceptBlock hB hU ha

theorem validatorsKept_started (hB : C.BlockRules) (hU : C.UpdateRules) {config : ExecutorConfig}
    {disk : Disk H} (hdisk : ValidatorsDisk disk) {vm : VM H} (h : Started C config disk vm) :
    ValidatorsKept vm.disk vm.state := by
  obtain ⟨resp,h⟩ := h
  obtain ⟨penv,aenv,log,hinit,hd⟩ := h.run
  have hstored := hdisk.stored
  cases initializeVM_ok hinit with
  | resumed b hpos hb henc hid hs hlog =>
    subst hlog
    obtain ⟨hrunning,hheight,hbase⟩ := hdisk.running hpos
    have hnext : disk.stateStore.state.nextHeight = disk.stateStore.state.lastBlockHeight + 1 :=
      State.nextHeight_of_pos hpos
    rw [hd,hs,Disk.replay_nil]
    refine ⟨hrunning,hbase,.inl hheight,.inl (hstored.last hpos),?_,?_⟩
    · rw [← hnext]
      exact hstored.current
    · rw [← hstored.next,hnext,add_assoc]
      rfl
  | created b penv' aenv' hpos hb henc hid ha =>
    have hzero : disk.stateStore.state.lastBlockHeight = 0 := le_antisymm hpos hstored.nonneg
    have hempty := hdisk.genesis hzero
    have hbase : disk.blockStore.base = 0 := by rw [hempty]; rfl
    have hheight : disk.blockStore.height = 0 := by rw [hempty]; rfl
    have hok : (acceptBlock C aenv' disk disk.stateStore.state b).result = .ok vm.state := by
      rw [ha]
    obtain ⟨blockID,_,_,hc,_,_⟩ := acceptBlock_ok hbase.ge hok
    have hfirst := hc.valid.initialHeight hzero
    have hpos' := hdisk.state.initialHeight
    have hnext : disk.stateStore.state.nextHeight = b.header.height := by
      rw [State.nextHeight,if_pos hzero,hfirst]
    have hkept := validatorsKept_of_ok hB hU hdisk.state hbase.ge (by omega)
      (hnext ▸ hstored.current) (hnext ▸ hstored.next) hok
    rwa [ha,← hd] at hkept

theorem validatorsKept_of_reaches (hB : C.BlockRules) (hU : C.UpdateRules)
    {config : ExecutorConfig} {disk : Disk H} (hdisk : ValidatorsDisk disk) {vm : VM H}
    (h : Reaches (Started C config disk) (fun _ _ => True) (VM.step C) vm) :
    ValidatorsKept vm.disk vm.state := by
  refine h.invariant (P := fun vm => ValidatorsKept vm.disk vm.state) ?_ ?_
  · exact fun vm hs => validatorsKept_started hB hU hdisk hs
  · intro vm op hvm _
    have hg : Guarded C (fun _ _ => True) vm op := .of_call (fun _ _ => trivial) trivial
    exact hg.keeps (P := fun vm => ValidatorsKept vm.disk vm.state)
      (fun vm op hop hvm _ => hvm.call hB hU hop) hvm

/-! ## Building -/

/-- `BuildBlock` does not panic, and the block it works on passes `ValidateBlock` and has
one vote for each validator stored for the last height, in the same order, so that
`BuildLastCommitInfo` does not panic either. -/
structure BuildsSafely (C : CometBFT H) (env : BuildEnv H) (vm : VM H) : Prop where
  noPanic : (buildBlock C env vm).1.isPanic = false
  valid : ∀ b, proposeBlock C env vm = .ok b → validateBlock C vm.state b = none
  commitInfo : ∀ b, proposeBlock C env vm = .ok b →
    ∃ vals, vm.disk.stateStore.validators vm.state.lastBlockHeight = some vals ∧
      b.lastCommit.signatures.map CommitSig.validatorAddress = vals.addresses ∧
      (buildLastCommitInfo C b vals vm.state.initialHeight :
        Outcome (ExecError H) CommitInfo).isPanic = false

theorem buildBlock_isPanic (env : BuildEnv H) (vm : VM H) :
    (buildBlock C env vm).1.isPanic = (proposeBlock C env vm).isPanic := by
  unfold buildBlock
  cases proposeBlock C env vm with
  | error e => rfl
  | panic p => rfl
  | ok b =>
    cases he : encodeBlockWithStatus C b .processing with
    | error e => simp [Outcome.mapError,he]
    | ok bytes =>
      cases hid : C.hash b with
      | none => simp [Outcome.mapError,he,toID,hid]
      | some id => simp [Outcome.mapError,he,toID,hid]

omit [DecidableEq H] in
/-- Proposing survives exactly when the limits leave room for data and the validators
stored for the last height are the current ones. -/
theorem proposeBlock_isPanic_iff (hP : C.ProposalRules) (env : BuildEnv H) {vm : VM H}
    (hheight : vm.state.initialHeight ≤ vm.state.lastBlockHeight) :
    (proposeBlock C env vm).isPanic = false ↔
      C.maxDataBytes vm.config.maxBytes vm.config.evidenceMaxBytes
        vm.state.validators.length ≠ none ∧
      ∃ vals, vm.disk.stateStore.validators vm.state.lastBlockHeight = some vals ∧
        vals.addresses = vm.state.validators.addresses := by
  have hnil : ∀ ecs ∈ (fabricatedCommit env vm.state).extendedSignatures,
      ecs.commitSig.blockIDFlag = .nil ∧ C.ensureExtension ecs (C.voteExtensionsEnabled
        vm.state.consensusParams (fabricatedCommit env vm.state).height) = none := by
    intro ecs hecs
    obtain ⟨i,v,_,rfl⟩ := fabricatedCommit_signature hecs
    exact ⟨rfl,hP.ensureExtension_nil _ _ rfl⟩
  unfold proposeBlock
  rw [createProposalBlock_isPanic_iff,buildExtendedCommitInfoFromStore_isPanic_iff hheight hnil]
  refine and_congr_right (fun _ => exists_congr (fun vals => and_congr_right (fun _ => ?_)))
  rw [fabricatedCommit_addresses]
  exact eq_comm

/-- In every state of every run, with a clock that is not behind the last block,
`BuildBlock` is safe if and only if the configured limits leave room for data and the
validators stored for the last height have the addresses of the current ones, in the
same order. -/
theorem buildsSafely_iff (hB : C.BlockRules) (hM : C.MedianRules) (hP : C.ProposalRules)
    (hU : C.UpdateRules) {config : ExecutorConfig} {disk : Disk H} (hdisk : ValidatorsDisk disk)
    {vm : VM H} (h : Reaches (Started C config disk) (fun _ _ => True) (VM.step C) vm)
    {env : BuildEnv H} (hclock : ∀ i, vm.state.lastBlockTime ≤ env.now i) :
    BuildsSafely C env vm ↔
      C.maxDataBytes vm.config.maxBytes vm.config.evidenceMaxBytes
        vm.state.validators.length ≠ none ∧
      ∃ vals, vm.disk.stateStore.validators vm.state.lastBlockHeight = some vals ∧
        vals.addresses = vm.state.validators.addresses := by
  have hkept := validatorsKept_of_reaches hB hU hdisk h
  have hrunning := hkept.running
  rw [← proposeBlock_isPanic_iff hP env hrunning.height]
  constructor
  · intro hsafe
    rw [← buildBlock_isPanic]
    exact hsafe.noPanic
  · intro hpanic
    obtain ⟨_,vals,hvals,haddr⟩ := (proposeBlock_isPanic_iff hP env hrunning.height).mp hpanic
    obtain rfl : vals = vm.state.lastValidators := by
      rcases hkept.last with hl | hl
      · rw [hl] at hvals
        exact (Option.some.inj hvals).symm
      · rw [hl] at hvals
        cases hvals
    have hcommit : (fabricatedCommit env vm.state).toCommit.signatures.map
        CommitSig.validatorAddress = vm.state.lastValidators.addresses :=
      (fabricatedCommit_toCommit_addresses env vm.state).trans haddr.symm
    refine ⟨(buildBlock_isPanic env vm).trans hpanic,?_,?_⟩
    · intro b hb
      obtain ⟨txs,rfl⟩ := createProposalBlock_ok hP hb
      refine validateBlock_eq_none_iff.mpr (proposedBlock_valid hB hM hP hrunning rfl
        (fabricatedCommit_valid env hrunning) hcommit ?_ ?_)
      · intro cs hcs
        obtain ⟨i,v,_,rfl⟩ := fabricatedCommit_commitSig hcs
        simp
      · intro cs hcs
        obtain ⟨i,v,_,rfl⟩ := fabricatedCommit_commitSig hcs
        exact hclock i
    · intro b hb
      obtain ⟨txs,rfl⟩ := createProposalBlock_ok hP hb
      refine ⟨vm.state.lastValidators,hvals,hcommit,?_⟩
      rw [Bool.eq_false_iff,ne_eq,buildLastCommitInfo_isPanic_iff]
      rintro ⟨_,hlen⟩
      have heq := congrArg List.length hcommit
      rw [List.length_map,ValidatorSet.addresses,List.length_map] at heq
      exact hlen heq

namespace Sample

def bobKey : PubKey := ⟨"ed25519",List.replicate 32 2⟩

def bob : Validator := ⟨List.replicate 20 2,bobKey,10⟩

def jointBlock : Block Digest :=
  Symbolic.makeBlock (nextState firstState secondBlock [validator,bob]) 3 []
    (commit secondBlock 3000) proposer

def jointID : Digest := .header jointBlock.header

abbrev jointComet : CometBFT Digest := comet [secondBlock,jointBlock]

def jointVM : VM Digest :=
  ((((vm [secondBlock,jointBlock]).step jointComet (.parseBlock [1,1])).step jointComet
    (.blockAccept (acceptEnv [⟨bobKey,10⟩] 0) (some secondID))).step jointComet
    (.parseBlock [1,2])).step jointComet (.blockAccept (acceptEnv [] 0) (some jointID))

def buildEnv : BuildEnv Digest where
  toProposalEnv := proposal
  now _ := 4000
  randBytes _ := List.replicate 64 7
  randBytes_length _ := by simp [CometBFT.maxSignatureSize]

theorem validatorSetValid : CometBFT.ValidatorSetValid [validator] := by decide +kernel

theorem validatorsDisk : ValidatorsDisk disk where
  state := ⟨rfl,by decide,by decide,validatorSetValid,validatorSetValid,by decide⟩
  stored := ⟨by decide,fun h => absurd h (by decide),rfl,rfl⟩
  genesis _ := rfl
  running h := absurd h (by decide)

/-- Both blocks are accepted, and from then on no block can be built. -/
theorem buildBlock_panics :
    Reaches (Started jointComet config disk) (fun _ _ => True) (VM.step jointComet) jointVM ∧
      jointVM.state.lastBlockHeight = 3 ∧ jointVM.state.validators = [validator,bob] ∧
      (∀ i, jointVM.state.lastBlockTime ≤ buildEnv.now i) ∧
      (buildBlock jointComet buildEnv jointVM).1.isPanic = true := by
  have htime : jointVM.state.lastBlockTime ≤ 4000 := by decide +kernel
  refine ⟨?_,by decide +kernel,by decide +kernel,fun _ => htime,by decide +kernel⟩
  have hstart : Reaches (Started jointComet config disk) (fun _ _ => True) (VM.step jointComet)
      (vm [secondBlock,jointBlock]) := reaches_vm _
  unfold jointVM
  exact .step (.step (.step (.step hstart trivial) trivial) trivial) trivial

theorem buildBlock_safe_first : BuildsSafely (comet []) buildEnv (vm []) := by
  refine (buildsSafely_iff (Symbolic.blockRules _) (Symbolic.medianRules _)
    (Symbolic.proposalRules _) (Symbolic.updateRules _) validatorsDisk (reaches_vm [])
    (fun _ => ?_)).mpr ⟨by decide +kernel,[validator],by decide +kernel,rfl⟩
  exact (by decide : (1000 : ℤ) ≤ 4000)

end Sample
end Landslide
