import Landslide.Chain.Symbolic

/-! # What the ID of a block says about accepting it

The ID of a block is the hash of its header. The state after the block also holds the
hash of the part set, which covers the whole block. The header commits to the
transactions, the evidence and the signatures of the last commit; nothing that
`ValidateBlock` looks at commits to the height, the round and the block ID of the last
commit, and nothing ties the number of its signatures to the validators.
-/
namespace Landslide
variable {H : Type} [DecidableEq H] {C : CometBFT H}

/-! ## Blocks with the same ID -/

omit [DecidableEq H] in
theorem block_eq_of_hash_eq (hB : C.BlockRules) (hH : C.HashRules) {b₁ b₂ : Block H}
    (h₁ : C.validateBasic b₁ = none) (h₂ : C.validateBasic b₂ = none)
    (hheader : b₁.header = b₂.header)
    (hheight : b₁.lastCommit.height = b₂.lastCommit.height)
    (hround : b₁.lastCommit.round = b₂.lastCommit.round)
    (hid : b₁.lastCommit.blockID = b₂.lastCommit.blockID) : b₁ = b₂ := by
  have v₁ := (hB.validateBasic_iff b₁).mp h₁
  have v₂ := (hB.validateBasic_iff b₂).mp h₂
  have htxs : b₁.txs = b₂.txs := by
    apply hH.dataHash
    apply Option.some.inj
    rw [← v₁.dataHash,← v₂.dataHash,hheader]
  have hevidence : b₁.evidence = b₂.evidence := by
    apply hH.evidenceHash
    apply Option.some.inj
    rw [← v₁.evidenceHash,← v₂.evidenceHash,hheader]
  have hsignatures : b₁.lastCommit.signatures = b₂.lastCommit.signatures := by
    apply hH.commitHash
    apply Option.some.inj
    rw [← v₁.lastCommitHash,← v₂.lastCommitHash,hheader]
  obtain ⟨header₁,txs₁,evidence₁,⟨height₁,round₁,id₁,signatures₁⟩⟩ := b₁
  obtain ⟨header₂,txs₂,evidence₂,⟨height₂,round₂,id₂,signatures₂⟩⟩ := b₂
  simp_all

omit [DecidableEq H] in
theorem pruneLog_response {env : AcceptEnv H} {bs : BlockStore H} {retainHeight height : ℤ}
    {resp : ResponseFinalizeBlock} :
    .finalizeBlockResponse height resp ∉ pruneLog env bs retainHeight := by
  rcases pruneLog_cases env bs retainHeight with h | ⟨_,_,h | h⟩ <;> simp [h]

/-- The response that an acceptance has saved is the one its state was computed from. -/
theorem acceptBlock_committed {env : AcceptEnv H} {disk : Disk H} {s next : State H} {b : Block H}
    {height : ℤ} {resp : ResponseFinalizeBlock}
    (hok : (acceptBlock C env disk s b).result = .ok next)
    (hresp : .finalizeBlockResponse height resp ∈ (acceptBlock C env disk s b).log) :
    ∃ blockID retainHeight, Committed C env disk.stateStore s b blockID resp next retainHeight := by
  have hacc := acceptBlock_accepts C env disk s b
  generalize acceptBlock C env disk s b = m at hok hresp hacc
  cases hacc with
  | stopped hr => exact absurd hok (hr next)
  | unsaved => cases hok
  | refused => cases hok
  | unfinished => cases hok
  | @done blockID resp' _ retainHeight hc =>
    cases hok
    have hsame : resp = resp' := by
      simp only [appliedLog,List.cons_append,List.mem_cons,List.mem_append,reduceCtorEq,
        pruneLog_response,List.not_mem_nil,or_false,Write.finalizeBlockResponse.injEq] at hresp
      exact hresp.2
    exact ⟨blockID,retainHeight,hsame ▸ hc⟩

/-- Accepting either block in `s` gives the same block ID, and for the same response of
the application the same state, whatever else the two nodes have stored. -/
structure AcceptedAlike (C : CometBFT H) (s : State H) (b₁ b₂ : Block H) : Prop where
  blockID : blockIDOf C b₁ = blockIDOf C b₂
  state : ∀ {env₁ env₂ : AcceptEnv H} {disk₁ disk₂ : Disk H} {next₁ next₂ : State H}
    {height₁ height₂ : ℤ} {resp : ResponseFinalizeBlock},
    (acceptBlock C env₁ disk₁ s b₁).result = .ok next₁ →
    (acceptBlock C env₂ disk₂ s b₂).result = .ok next₂ →
    .finalizeBlockResponse height₁ resp ∈ (acceptBlock C env₁ disk₁ s b₁).log →
    .finalizeBlockResponse height₂ resp ∈ (acceptBlock C env₂ disk₂ s b₂).log →
    next₁ = next₂

theorem AcceptedAlike.refl (s : State H) (b : Block H) : AcceptedAlike C s b b := by
  refine ⟨rfl,?_⟩
  intro env₁ env₂ disk₁ disk₂ next₁ next₂ height₁ height₂ resp hok₁ hok₂ hresp₁ hresp₂
  obtain ⟨id₁,_,hc₁⟩ := acceptBlock_committed hok₁ hresp₁
  obtain ⟨id₂,_,hc₂⟩ := acceptBlock_committed hok₂ hresp₂
  obtain rfl : id₁ = id₂ := Except.ok.inj (hc₁.blockID_eq.symm.trans hc₂.blockID_eq)
  obtain ⟨updates₁,raw₁,hup₁,hraw₁,rfl⟩ := hc₁.update
  obtain ⟨updates₂,raw₂,hup₂,hraw₂,rfl⟩ := hc₂.update
  obtain rfl : updates₁ = updates₂ := Except.ok.inj (hup₁.symm.trans hup₂)
  obtain rfl : raw₁ = raw₂ := Outcome.ok.inj (hraw₁.symm.trans hraw₂)
  rfl

/-- Two valid blocks with the same ID are accepted alike exactly when their last commits
have the same height, round and block ID. -/
theorem acceptedAlike_iff (hB : C.BlockRules) (hH : C.HashRules) {s : State H} {b₁ b₂ : Block H}
    (hhash : C.hash b₁ = C.hash b₂) (h₁ : validateBlock C s b₁ = none)
    (h₂ : validateBlock C s b₂ = none) :
    AcceptedAlike C s b₁ b₂ ↔ b₁.lastCommit.height = b₂.lastCommit.height ∧
      b₁.lastCommit.round = b₂.lastCommit.round ∧
      b₁.lastCommit.blockID = b₂.lastCommit.blockID := by
  have v₁ := validateBlock_eq_none_iff.mp h₁
  have v₂ := validateBlock_eq_none_iff.mp h₂
  constructor
  · intro halike
    obtain ⟨p₁,hp₁⟩ := hH.makePartSet_ok v₁.basic
    have hid : blockIDOf C b₁ = .ok ⟨C.hash b₁,p₁⟩ := blockIDOf_eq_ok_iff.mpr ⟨p₁,hp₁,rfl⟩
    obtain ⟨p₂,hp₂,heq⟩ := blockIDOf_eq_ok_iff.mp (halike.blockID ▸ hid)
    have hparts : p₁ = p₂ := congrArg BlockID.partSetHeader heq
    obtain rfl : b₁ = b₂ := hH.makePartSet hp₁ (hparts ▸ hp₂)
    exact ⟨rfl,rfl,rfl⟩
  · rintro ⟨hheight,hround,hid⟩
    have hsome : C.hash b₁ = some (C.headerHash b₁.header) :=
      C.hash_eq_some_iff.mpr ⟨by simp [v₁.validatorsHash],rfl⟩
    have hheader := hH.header_eq hsome (hhash ▸ hsome)
    rw [block_eq_of_hash_eq hB hH v₁.basic v₂.basic hheader hheight hround hid]
    exact .refl s b₂

/-! ## The commit information of a valid block -/

/-- The steps of `ApplyBlock` up to the `FinalizeBlock` request do not panic, and above
the initial height there is one signature for each validator of the previous height. -/
structure Acceptable (C : CometBFT H) (store : StateStore H) (s : State H) (b : Block H) : Prop where
  noPanic : (requestFinalizeBlock C store s b).isPanic = false
  commitSize : s.initialHeight < b.header.height →
    ∃ vals, store.validators (b.header.height - 1) = some vals ∧
      b.lastCommit.signatures.length = vals.length

theorem requestFinalizeBlock_isPanic {store : StateStore H} {s : State H} {b : Block H}
    (hv : validateBlock C s b = none) : (requestFinalizeBlock C store s b).isPanic =
      (buildLastCommitInfoFromStore C b store s.initialHeight :
        Outcome (ExecError H) CommitInfo).isPanic := by
  unfold requestFinalizeBlock
  simp only [hv,Option.map_none,Outcome.ofOption_none,Outcome.ok_bind]
  cases (buildLastCommitInfoFromStore C b store s.initialHeight :
    Outcome (ExecError H) CommitInfo) <;> rfl

/-- A valid block can be handed to the application exactly when it is the initial block
or has as many signatures as the previous height has validators. -/
theorem acceptable_iff {store : StateStore H} {s : State H} {b : Block H}
    (hs : ValidatorsStored store s) (hb : validateBlock C s b = none) :
    Acceptable C store s b ↔ b.header.height = s.initialHeight ∨
      b.lastCommit.signatures.length = s.lastValidators.length := by
  have hv := validateBlock_eq_none_iff.mp hb
  rcases hv.time.height.lt_or_eq with hlt | heq
  · have hne : b.header.height ≠ s.initialHeight := hlt.ne'
    have hstored : 0 < s.lastBlockHeight →
        store.validators (b.header.height - 1) = some s.lastValidators := by
      intro hpos
      rw [hv.nextHeight hpos,add_sub_cancel_right]
      exact hs.last hpos
    have hpos : 0 < s.lastBlockHeight := by
      refine lt_of_le_of_ne hs.nonneg (fun hzero => ?_)
      exact hne (hv.initialHeight hzero.symm)
    constructor
    · intro ha
      obtain ⟨vals,hvals,hlen⟩ := ha.commitSize hlt
      rw [hstored hpos] at hvals
      exact .inr (Option.some.inj hvals ▸ hlen)
    · intro h
      have hlen := h.resolve_left hne
      refine ⟨?_,fun _ => ⟨_,hstored hpos,hlen⟩⟩
      rw [requestFinalizeBlock_isPanic hb,buildLastCommitInfoFromStore,if_neg hne,
        loadValidators_of_some (hstored hpos),Outcome.ok_bind,Bool.eq_false_iff,ne_eq,
        buildLastCommitInfo_isPanic_iff]
      exact fun hp => hp.2 hlen
  · refine ⟨fun _ => .inl heq.symm,fun _ => ⟨?_,fun hlt => absurd hlt (by omega)⟩⟩
    rw [requestFinalizeBlock_isPanic hb,buildLastCommitInfoFromStore,if_pos heq.symm]
    rfl

namespace Sample

def otherRound : Block Digest :=
  { secondBlock with lastCommit := { secondBlock.lastCommit with round := 1 } }

/-- Both blocks are valid after the first block and have one ID, but nodes that accept
one and the other disagree on the ID of the last block. -/
theorem otherRound_not_alike :
    (symbolic []).hash secondBlock = (symbolic []).hash otherRound ∧
      validateBlock (symbolic []) firstState secondBlock = none ∧
      validateBlock (symbolic []) firstState otherRound = none ∧
      ¬AcceptedAlike (symbolic []) firstState secondBlock otherRound := by
  refine ⟨by decide +kernel,by decide +kernel,by decide +kernel,fun h => ?_⟩
  have hne : blockIDOf (symbolic []) secondBlock ≠ blockIDOf (symbolic []) otherRound := by
    decide +kernel
  exact hne h.blockID

theorem secondBlock_alike : AcceptedAlike (symbolic []) firstState secondBlock secondBlock :=
  (acceptedAlike_iff (Symbolic.blockRules []) (Symbolic.hashRules []) rfl (by decide +kernel)
    (by decide +kernel)).mpr ⟨rfl,rfl,rfl⟩

def firstDisk : Disk Digest :=
  disk.replay (acceptBlock (symbolic []) (acceptEnv [] 0) disk genesis firstBlock).log

theorem validatorsStored_first : ValidatorsStored firstDisk.stateStore firstState where
  nonneg := by decide
  last _ := by decide +kernel
  current := by decide +kernel
  next := by decide +kernel

def repeatedSignature : Block Digest :=
  Symbolic.makeBlock firstState 2 []
    { commit firstBlock 2000 with
      signatures := (commit firstBlock 2000).signatures ++ (commit firstBlock 2000).signatures }
    proposer

/-- The block passes `ValidateBlock`, and applying it panics. -/
theorem repeatedSignature_panics :
    ValidatorsStored firstDisk.stateStore firstState ∧
      validateBlock (symbolic []) firstState repeatedSignature = none ∧
      (requestFinalizeBlock (symbolic []) firstDisk.stateStore firstState
        repeatedSignature).isPanic = true :=
  ⟨validatorsStored_first,by decide +kernel,by decide +kernel⟩

theorem secondBlock_acceptable :
    Acceptable (symbolic []) firstDisk.stateStore firstState secondBlock :=
  (acceptable_iff validatorsStored_first (by decide +kernel)).mpr (.inr (by decide +kernel))

end Sample
end Landslide
