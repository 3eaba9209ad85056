import Landslide.VM.Invariants

/-! # Crashes and failures during an acceptance

The application commits a block before the block store has it. A crash between the two
leaves the application ahead of the block store, which the handshake at the next start
refuses; a failure between the two leaves it ahead of the state.
-/
namespace Landslide
open WrappedBlocksStorage
variable {H : Type}

/-- The heights on disk that CometBFT's handshake accepts. -/
structure HandshakeReady (d : Disk H) : Prop where
  state_le : d.stateStore.state.lastBlockHeight ≤ d.blockStore.height
  le_state : d.blockStore.height ≤ d.stateStore.state.lastBlockHeight + 1
  app_le : d.appHeight ≤ d.blockStore.height

/-- A disk between two acceptances. -/
structure Consistent (d : Disk H) : Prop where
  height : d.blockStore.height = d.stateStore.state.lastBlockHeight
  app_le : d.appHeight ≤ d.blockStore.height

/-! ## Heights along a log -/

def Write.AtHeight (h : ℤ) : Write H → Prop
  | .appCommit height => height = h
  | .state s => s.lastBlockHeight = h
  | .block sb => sb.block.header.height = h
  | _ => True

def Write.isAppCommit : Write H → Bool
  | .appCommit _ => true
  | _ => false

def Write.isState : Write H → Bool
  | .state _ => true
  | _ => false

def Write.isBlock : Write H → Bool
  | .block _ => true
  | _ => false

theorem any_isAppCommit_iff {log : List (Write H)} :
    log.any Write.isAppCommit = true ↔ ∃ height, .appCommit height ∈ log := by
  rw [List.any_eq_true]
  constructor
  · rintro ⟨w,hw,hm⟩
    cases w with
    | appCommit height => exact ⟨height,hw⟩
    | _ => cases hm
  · rintro ⟨height,hw⟩
    exact ⟨_,hw,rfl⟩

theorem any_isBlock_iff {log : List (Write H)} :
    log.any Write.isBlock = true ↔ ∃ sb, .block sb ∈ log := by
  rw [List.any_eq_true]
  constructor
  · rintro ⟨w,hw,hm⟩
    cases w with
    | block sb => exact ⟨sb,hw⟩
    | _ => cases hm
  · rintro ⟨sb,hw⟩
    exact ⟨_,hw,rfl⟩

section
variable {h : ℤ} {log : List (Write H)} (hlog : ∀ w ∈ log, w.AtHeight h) (d : Disk H)
include hlog

theorem replay_appHeight :
    (d.replay log).appHeight = if log.any Write.isAppCommit then h else d.appHeight := by
  apply Exec.replay_marked Disk.apply Disk.appHeight Write.isAppCommit h
  intro d w hw
  have := hlog w hw
  cases w <;> simp_all [Disk.apply,Write.isAppCommit,Write.AtHeight]

theorem replay_stateHeight : (d.replay log).stateStore.state.lastBlockHeight =
    if log.any Write.isState then h else d.stateStore.state.lastBlockHeight := by
  apply Exec.replay_marked Disk.apply (fun d => d.stateStore.state.lastBlockHeight) Write.isState h
  intro d w hw
  have := hlog w hw
  cases w <;> simp_all [Disk.apply,Write.isState,Write.AtHeight]

theorem replay_blockHeight : (d.replay log).blockStore.height =
    if log.any Write.isBlock then h else d.blockStore.height := by
  apply Exec.replay_marked Disk.apply (fun d => d.blockStore.height) Write.isBlock h
  intro d w hw
  have := hlog w hw
  cases w <;> simp_all [Disk.apply,Write.isBlock,Write.AtHeight,BlockStore.save]

end

/-! ## The order of the writes -/

section
variable [DecidableEq H] {C : CometBFT H} {env : AcceptEnv H} {disk : Disk H} {s : State H}
  {b : Block H}

omit [DecidableEq H] in
/-- A log that starts with the response, the commit of the application and the state. -/
theorem prefix_cases {w₁ w₂ w₃ : Write H} {rest p : List (Write H)}
    (h : p <+: w₁ :: w₂ :: w₃ :: rest) :
    p = [] ∨ p = [w₁] ∨ p = [w₁,w₂] ∨ ∃ q, q <+: rest ∧ p = w₁ :: w₂ :: w₃ :: q := by
  rcases List.prefix_cons_iff.mp h with rfl | ⟨p₁,rfl,h₁⟩
  · exact .inl rfl
  rcases List.prefix_cons_iff.mp h₁ with rfl | ⟨p₂,rfl,h₂⟩
  · exact .inr (.inl rfl)
  rcases List.prefix_cons_iff.mp h₂ with rfl | ⟨p₃,rfl,h₃⟩
  · exact .inr (.inr (.inl rfl))
  · exact .inr (.inr (.inr ⟨p₃,h₃,rfl⟩))

omit [DecidableEq H] in
theorem pruneLog_atHeight {bs : BlockStore H} {retainHeight h : ℤ} {w : Write H}
    (hw : w ∈ pruneLog env bs retainHeight) : w.AtHeight h := by
  rcases pruneLog_cases env bs retainHeight with he | ⟨_,_,he | he⟩
  · rw [he] at hw
    cases hw
  · rw [he] at hw
    simp only [List.mem_cons,List.not_mem_nil,or_false] at hw
    subst hw
    trivial
  · rw [he] at hw
    simp only [List.mem_cons,List.not_mem_nil,or_false] at hw
    rcases hw with rfl | rfl <;> trivial

omit [DecidableEq H] in
/-- Whether a crash leaves the heights ready depends only on whether the application
has committed without the block being saved. -/
theorem handshakeReady_replay_iff (hd : Consistent disk) {h : ℤ}
    (hh : disk.blockStore.height < h) {resp : ResponseFinalizeBlock} {next : State H}
    (hnext : next.lastBlockHeight = h) {rest p : List (Write H)}
    (hrest : ∀ w ∈ rest, w.AtHeight h)
    (hp : p <+: .finalizeBlockResponse h resp :: .appCommit h :: .state next :: rest) :
    HandshakeReady (disk.replay p) ↔
      ((∃ height, .appCommit height ∈ p) → ∃ sb, .block sb ∈ p) := by
  have hheight := hd.height
  have happ := hd.app_le
  have hat : ∀ w ∈ p, w.AtHeight h := by
    intro w hw
    have hmem := hp.subset hw
    simp only [List.mem_cons] at hmem
    rcases hmem with rfl | rfl | rfl | hmem
    · trivial
    · rfl
    · exact hnext
    · exact hrest w hmem
  have happH := replay_appHeight hat disk
  have hstateH := replay_stateHeight hat disk
  have hblockH := replay_blockHeight hat disk
  rw [← any_isAppCommit_iff,← any_isBlock_iff]
  -- before the state is written no block is, afterwards everything is at the new height
  rcases prefix_cases hp with rfl | rfl | rfl | ⟨q,_,rfl⟩
  · simp only [List.any_nil,Bool.false_eq_true,if_false] at happH hstateH hblockH ⊢
    exact ⟨fun _ h => h.elim,fun _ => ⟨by omega,by omega,by omega⟩⟩
  · simp only [List.any_cons,List.any_nil,Write.isAppCommit,Write.isState,Write.isBlock,
      Bool.or_false,Bool.false_eq_true,if_false] at happH hstateH hblockH ⊢
    exact ⟨fun _ h => h.elim,fun _ => ⟨by omega,by omega,by omega⟩⟩
  · simp only [List.any_cons,List.any_nil,Write.isAppCommit,Write.isState,Write.isBlock,
      Bool.or_false,Bool.false_or,Bool.false_eq_true,if_true,if_false] at happH hstateH hblockH ⊢
    constructor
    · intro hr
      have := hr.app_le
      omega
    · intro hr
      exact (hr trivial).elim
  · simp only [List.any_cons,Write.isAppCommit,Write.isState,Write.isBlock,Bool.true_or,
      Bool.false_or,if_true,forall_const] at happH hstateH hblockH ⊢
    cases hq : q.any Write.isBlock with
    | true =>
      rw [hq,if_pos rfl] at hblockH
      exact ⟨fun _ => rfl,fun _ => ⟨by omega,by omega,by omega⟩⟩
    | false =>
      rw [hq] at hblockH
      simp only [Bool.false_eq_true,if_false] at hblockH
      constructor
      · intro hr
        have := hr.app_le
        omega
      · intro hr
        cases hr

omit [DecidableEq H] in
theorem handshakeReady_of_responses (hd : Consistent disk) {h : ℤ} {p : List (Write H)}
    (hp : ∀ w ∈ p, ∃ resp, w = .finalizeBlockResponse h resp) :
    HandshakeReady (disk.replay p) ↔
      ((∃ height, .appCommit height ∈ p) → ∃ sb, .block sb ∈ p) := by
  have hheight := hd.height
  have happ := hd.app_le
  have hat : ∀ w ∈ p, w.AtHeight h := by
    intro w hw
    obtain ⟨resp,rfl⟩ := hp w hw
    trivial
  have hany : ∀ mark : Write H → Bool, (∀ resp, mark (.finalizeBlockResponse h resp) = false) →
      p.any mark = false := by
    intro mark hmark
    rw [List.any_eq_false]
    intro w hw
    obtain ⟨resp,rfl⟩ := hp w hw
    simp [hmark resp]
  have happH := replay_appHeight hat disk
  have hstateH := replay_stateHeight hat disk
  have hblockH := replay_blockHeight hat disk
  rw [hany Write.isAppCommit (fun _ => rfl)] at happH
  rw [hany Write.isState (fun _ => rfl)] at hstateH
  rw [hany Write.isBlock (fun _ => rfl)] at hblockH
  simp only [Bool.false_eq_true,if_false] at happH hstateH hblockH
  refine ⟨?_,fun _ => ⟨by omega,by omega,by omega⟩⟩
  rintro _ ⟨height,hw⟩
  obtain ⟨resp,hresp⟩ := hp _ hw
  cases hresp

theorem acceptBlock_prefix_iff (hB : C.BlockRules) (hs : s = disk.stateStore.state)
    (hd : Consistent disk) {p : List (Write H)} (hp : p <+: (acceptBlock C env disk s b).log) :
    HandshakeReady (disk.replay p) ↔
      ((∃ height, .appCommit height ∈ p) → ∃ sb, .block sb ∈ p) := by
  have hheight := hd.height
  have hacc := acceptBlock_accepts C env disk s b
  -- a committed block is above the store, and so are the writes that follow
  have hcommitted : ∀ {blockID : BlockID H} {resp : ResponseFinalizeBlock} {next : State H}
      {retainHeight : ℤ}, Committed C env disk.stateStore s b blockID resp next retainHeight →
      disk.blockStore.height < b.header.height ∧ next.lastBlockHeight = b.header.height := by
    intro blockID resp next retainHeight hc
    have hlt := hc.valid.lastBlockHeight_lt hB
    rw [hs] at hlt
    exact ⟨by omega,hc.follows.lastBlockHeight⟩
  generalize acceptBlock C env disk s b = m at hp hacc
  cases hacc with
  | stopped hr hc hlog =>
    have hmem : ∀ w ∈ p, ∃ resp, w = .finalizeBlockResponse b.header.height resp := by
      intro w hw
      rcases hlog with rfl | ⟨resp,rfl⟩
      · exact absurd (hp.subset hw) List.not_mem_nil
      · exact ⟨resp,List.mem_singleton.mp (hp.subset hw)⟩
    exact handshakeReady_of_responses hd hmem
  | @unsaved blockID resp next retainHeight e hc hf =>
    obtain ⟨hlt,hnext⟩ := hcommitted hc
    have hp' : p <+: [.finalizeBlockResponse b.header.height resp,.appCommit b.header.height,
        .state next] := hp.trans ⟨[.state next],rfl⟩
    refine handshakeReady_replay_iff hd hlt hnext ?_ hp'
    intro w hw
    cases hw
  | @refused blockID resp next retainHeight e hc hf =>
    obtain ⟨hlt,hnext⟩ := hcommitted hc
    exact handshakeReady_replay_iff hd hlt hnext (fun _ hw => pruneLog_atHeight hw) hp
  | @unfinished blockID resp next retainHeight e hc hf he =>
    obtain ⟨hlt,hnext⟩ := hcommitted hc
    refine handshakeReady_replay_iff hd hlt hnext ?_ hp
    intro w hw
    rcases List.mem_append.mp hw with hw | hw
    · exact pruneLog_atHeight hw
    · rw [List.mem_singleton.mp hw]
      rfl
  | @done blockID resp next retainHeight hc hf =>
    obtain ⟨hlt,hnext⟩ := hcommitted hc
    refine handshakeReady_replay_iff hd hlt hnext ?_ hp
    intro w hw
    rcases List.mem_append.mp hw with hw | hw
    · exact pruneLog_atHeight hw
    · simp only [List.mem_cons,List.not_mem_nil,or_false] at hw
      rcases hw with rfl | rfl
      · rfl
      · exact hnext

/-! ## Crashes -/

theorem AcceptsID.log_eq {vm : VM H} {request : Option H}
    {r : Exec (Write H) (VMError H) Unit × VM H} (h : AcceptsID C env vm request r) :
    r.1.log = [] ∨ ∃ b, r.1.log = (acceptBlock C env vm.disk vm.state b).log := by
  cases h with
  | refused hn hs => exact .inl rfl
  | failed id w hw hs hr ha hp => exact .inr ⟨w.block,rfl⟩
  | done id w next hw hs ha => exact .inr ⟨w.block,rfl⟩

theorem initializeVM_log_eq (config : ExecutorConfig) (penv : ProposalEnv H) (env : AcceptEnv H)
    (disk : Disk H) : (initializeVM C config penv env disk).log = [] ∨
      ∃ b, (initializeVM C config penv env disk).log =
        (acceptBlock C env disk disk.stateStore.state b).log := by
  unfold initializeVM
  dsimp only
  by_cases hpos : disk.stateStore.state.lastBlockHeight > 0
  · rw [if_pos hpos]
    left
    cases hb : disk.blockStore.loadBlock disk.stateStore.state.lastBlockHeight with
    | none => rfl
    | some b =>
      simp only [Exec.pure_bind]
      cases he : encodeBlockWithStatus C b .accepted <;> rfl
  · rw [if_neg hpos]
    cases hb : createProposalBlock C config penv disk.stateStore
        (disk.stateStore.state.lastBlockHeight + 1) disk.stateStore.state ⟨0,0,.zero H,[]⟩
        proposerAddress with
    | error e => exact .inl rfl
    | panic p => exact .inl rfl
    | ok b =>
      refine .inr ⟨b,?_⟩
      simp only [Outcome.mapError,Exec.lift_ok_bind,Exec.mapError]
      cases ha : acceptBlock C env disk disk.stateStore.state b with
      | mk result log =>
        cases result with
        | error e => rfl
        | panic p => rfl
        | ok next =>
          simp only [Exec.ok_bind,Exec.pure_bind]
          cases he : encodeBlockWithStatus C b .accepted <;> simp

/-- A crash during `BlockAccept`, or while `Initialize` creates the first block, leaves
heights that the handshake accepts if and only if it does not fall between the commit
of the application and the saving of the block. -/
theorem crash_handshakeReady_iff (hB : C.BlockRules) :
    (∀ (env : AcceptEnv H) (vm : VM H) (id : Option H) (p : List (Write H)),
      vm.state = vm.disk.stateStore.state → Consistent vm.disk →
      p <+: (blockAccept C env vm id).1.log →
      (HandshakeReady (vm.disk.replay p) ↔
        ((∃ height, .appCommit height ∈ p) → ∃ sb, .block sb ∈ p))) ∧
    ∀ (config : ExecutorConfig) (penv : ProposalEnv H) (env : AcceptEnv H) (disk : Disk H)
      (p : List (Write H)), Consistent disk →
      p <+: (initializeVM C config penv env disk).log →
      (HandshakeReady (disk.replay p) ↔
        ((∃ height, .appCommit height ∈ p) → ∃ sb, .block sb ∈ p)) := by
  have hempty : ∀ {disk : Disk H} {p : List (Write H)}, Consistent disk → p <+: [] →
      (HandshakeReady (disk.replay p) ↔
        ((∃ height, .appCommit height ∈ p) → ∃ sb, .block sb ∈ p)) := by
    intro disk p hd hp
    rw [List.prefix_nil] at hp
    subst hp
    exact handshakeReady_of_responses (h := 0) hd (fun _ hw => nomatch hw)
  constructor
  · intro env vm id p hs hd hp
    rcases (blockAccept_acceptsID (C := C) env vm id).log_eq with hlog | ⟨b,hlog⟩
    · rw [hlog] at hp
      exact hempty hd hp
    · rw [hlog] at hp
      exact acceptBlock_prefix_iff hB hs hd hp
  · intro config penv env disk p hd hp
    rcases initializeVM_log_eq (C := C) config penv env disk with hlog | ⟨b,hlog⟩
    · rw [hlog] at hp
      exact hempty hd hp
    · rw [hlog] at hp
      exact acceptBlock_prefix_iff hB rfl hd hp

end

namespace Sample

theorem consistent_disk : Consistent disk := ⟨rfl,by decide⟩

theorem consistent_second : Consistent secondVM.disk := ⟨by decide +kernel,by decide +kernel⟩

theorem blockAccept_second_log : (blockAccept (comet [secondBlock]) (acceptEnv [] 0) secondVM
    (some secondID)).1.log = secondLog := by decide +kernel

/-- A crash right after the application has committed: the application is at the new
height and the block store is not, for a first and for a later block. -/
theorem crash_after_appCommit :
    (secondVM.state = secondVM.disk.stateStore.state ∧ Consistent secondVM.disk ∧
      secondLog.take 2 <+: (blockAccept (comet [secondBlock]) (acceptEnv [] 0) secondVM
        (some secondID)).1.log ∧ ¬HandshakeReady (secondVM.disk.replay (secondLog.take 2))) ∧
    Consistent disk ∧
      firstLog.take 2 <+: (initializeVM (comet []) config proposal (acceptEnv [] 0) disk).log ∧
      ¬HandshakeReady (disk.replay (firstLog.take 2)) := by
  refine ⟨⟨by decide +kernel,consistent_second,?_,?_⟩,consistent_disk,?_,?_⟩
  · rw [blockAccept_second_log]
    exact List.take_prefix 2 secondLog
  · intro h
    exact absurd h.app_le (by decide +kernel)
  · rw [initializeVM_eq]
    exact List.take_prefix 2 firstLog
  · intro h
    exact absurd h.app_le (by decide +kernel)

/-- A crash after all writes of the first block, and after all writes of the second. -/
theorem crash_after_everything : HandshakeReady (disk.replay firstLog) ∧
    HandshakeReady (secondVM.disk.replay secondLog) := by
  constructor
  · refine ((crash_handshakeReady_iff (Symbolic.blockRules [firstBlock])).2 config proposal
      (acceptEnv [] 0) disk firstLog consistent_disk ?_).mpr (fun _ => ⟨_,.tail _ (.tail _ (.tail _ (.head _)))⟩)
    exact (congrArg Exec.log (initializeVM_eq _)).symm ▸ List.prefix_rfl
  · refine ((crash_handshakeReady_iff (Symbolic.blockRules [firstBlock,secondBlock])).1
      (acceptEnv [] 0) secondVM (some secondID) secondLog (by decide +kernel) consistent_second
      ?_).mpr (fun _ => ⟨_,.tail _ (.tail _ (.tail _ (.head _)))⟩)
    exact blockAccept_second_log.symm ▸ List.prefix_rfl

end Sample

section
variable [DecidableEq H] {C : CometBFT H} {env : AcceptEnv H} {disk : Disk H} {s : State H}
  {b : Block H}

/-! ## Failures -/

def CommitReached (C : CometBFT H) (env : AcceptEnv H) (vm : VM H) (request : Option H) : Prop :=
  ∃ id w, request = some id ∧ vm.wrappedBlocks.cached id = some w ∧
    ReachesCommit C env vm.disk.stateStore vm.state w.block

structure Retryable (vm : VM H) : Prop where
  state : vm.state = vm.disk.stateStore.state
  app_le : vm.disk.appHeight ≤ vm.state.lastBlockHeight

/-- An acceptance that did not succeed leaves things as they were unless the
application has committed. -/
theorem acceptBlock_retryable_iff (hB : C.BlockRules) (hs : s = disk.stateStore.state)
    (happ : disk.appHeight ≤ s.lastBlockHeight)
    (h : ∀ next, (acceptBlock C env disk s b).result ≠ .ok next) :
    (s = (disk.replay (acceptBlock C env disk s b).log).stateStore.state ∧
      (disk.replay (acceptBlock C env disk s b).log).appHeight ≤ s.lastBlockHeight) ↔
      ¬ReachesCommit C env disk.stateStore s b := by
  have hacc := acceptBlock_accepts C env disk s b
  generalize acceptBlock C env disk s b = m at h hacc
  cases hacc with
  | stopped hr hc hlog =>
    refine ⟨fun _ => hc,fun _ => ?_⟩
    rcases hlog with rfl | ⟨resp,rfl⟩
    · exact ⟨hs,happ⟩
    · exact ⟨hs,happ⟩
  | unsaved hc hf =>
    have hlt := hc.valid.lastBlockHeight_lt hB
    refine ⟨?_,fun hn => absurd ⟨_,_,_,_,hc⟩ hn⟩
    rintro ⟨_,hle⟩
    exact absurd hle (not_le.mpr hlt)
  | @refused blockID resp next retainHeight p hc hp =>
    have hlt := hc.valid.lastBlockHeight_lt hB
    have hd := replay_appliedLog env disk b resp next retainHeight
    refine ⟨?_,fun hn => absurd ⟨_,_,_,_,hc⟩ hn⟩
    rintro ⟨_,hle⟩
    rw [hd.appHeight] at hle
    exact absurd hle (not_le.mpr hlt)
  | @unfinished blockID resp next retainHeight e hc hp he =>
    have hlt := hc.valid.lastBlockHeight_lt hB
    have hd := replay_appliedLog env disk b resp next retainHeight
    refine ⟨?_,fun hn => absurd ⟨_,_,_,_,hc⟩ hn⟩
    rintro ⟨_,hle⟩
    rw [Disk.replay_append] at hle
    have happH : ((disk.replay (appliedLog env disk.blockStore b resp next retainHeight)).replay
        [.block (storedBlock s b blockID)]).appHeight = b.header.height := hd.appHeight
    omega
  | @done blockID resp next retainHeight hc hp => exact absurd rfl (h next)

/-- When `BlockAccept` returns an error, the state of the VM is still the stored one
with the application not ahead of it if and only if some call before or at the commit
of the application failed. -/
theorem blockAccept_error_retryable_iff (hB : C.BlockRules) {env : AcceptEnv H} {vm : VM H}
    {id : Option H} {e : VMError H} (hvm : Retryable vm)
    (he : (blockAccept C env vm id).1.result = .error e) :
    Retryable (blockAccept C env vm id).2 ↔ ¬CommitReached C env vm id := by
  have hacc := blockAccept_acceptsID (C := C) env vm id
  generalize blockAccept C env vm id = r at he hacc
  cases hacc with
  | refused hn hs =>
    refine ⟨?_,fun _ => ⟨hvm.state,hvm.app_le⟩⟩
    rintro _ ⟨id',w,rfl,hw,_⟩
    rw [hn id' rfl] at hw
    cases hw
  | failed id w hw hs hr ha hp =>
    have hiff := acceptBlock_retryable_iff hB hvm.state hvm.app_le ha
    constructor
    · rintro hret ⟨id',w',hid,hw',hc⟩
      cases hid
      rw [hw] at hw'
      cases hw'
      exact hiff.mp ⟨hret.state,hret.app_le⟩ hc
    · intro hn
      obtain ⟨hstate,hle⟩ := hiff.mpr (fun hc => hn ⟨id,w,rfl,hw,hc⟩)
      exact ⟨hstate,hle⟩
  | done id w next hw hs ha => cases he

end

namespace Sample

theorem retryable_second : Retryable secondVM := ⟨by decide +kernel,by decide +kernel⟩

/-- The state can not be saved after the commit: the call returns an error and the application
is ahead. -/
theorem blockAccept_save_error :
    Retryable secondVM ∧
    (blockAccept (comet [secondBlock]) { acceptEnv [] 0 with saveState := some "disk" }
      secondVM (some secondID)).1.result = .error (.exec (.callee "disk")) ∧
    ¬Retryable (blockAccept (comet [secondBlock])
      { acceptEnv [] 0 with saveState := some "disk" } secondVM (some secondID)).2 := by
  refine ⟨retryable_second,by decide +kernel,?_⟩
  intro h
  exact absurd h.app_le (by decide +kernel)

/-- `FinalizeBlock` fails: the acceptance can be retried. -/
theorem blockAccept_finalize_error :
    Retryable (blockAccept (comet [secondBlock])
      { acceptEnv [] 0 with finalizeBlock := fun _ => .error "app" } secondVM (some secondID)).2 := by
  refine (blockAccept_error_retryable_iff (e := .exec (.callee "app"))
    (Symbolic.blockRules [firstBlock,secondBlock]) retryable_second (by decide +kernel)).mpr ?_
  rintro ⟨id,w,_,_,blockID,resp,next,retainHeight,hc⟩
  obtain ⟨req,_,hfin⟩ := hc.finalize
  cases hfin

end Sample
end Landslide
