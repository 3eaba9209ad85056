import Landslide.Chain.Store

/-! # Commit information for the application

The executor tells the application who voted in the last commit. It pairs the
signatures of the commit with the validators recorded for the commit's height by
position, and panics when the two do not line up.
-/
namespace Landslide
variable {H : Type} {ε : Type} (C : CometBFT H)

/-- `TM2PB.Validator`. -/
def abciValidator (val : Validator) : ABCIValidator := ⟨C.pubKeyAddress val.pubKey,val.votingPower⟩

/-- `Store.LoadValidators`, whose error each caller turns into a panic of its own. -/
def loadValidators (store : StateStore H) (height : ℤ) (message : String) :
    Outcome ε ValidatorSet :=
  match store.validators height with
  | some vals => .ok vals
  | none => .panic message

def buildLastCommitInfo (b : Block H) (lastValSet : ValidatorSet) (initialHeight : ℤ) :
    Outcome ε CommitInfo :=
  if b.header.height = initialHeight then .ok ⟨0,[]⟩
  else if b.lastCommit.signatures.length ≠ lastValSet.length then
    .panic "commit size (%d) doesn't match validator set length (%d) at height %d\n\n%v\n\n%v"
  else .ok ⟨b.lastCommit.round,List.zipWith
    (fun val commitSig => ⟨abciValidator C val,commitSig.blockIDFlag⟩)
    lastValSet b.lastCommit.signatures⟩

def buildLastCommitInfoFromStore (b : Block H) (store : StateStore H) (initialHeight : ℤ) :
    Outcome ε CommitInfo :=
  if b.header.height = initialHeight then .ok ⟨0,[]⟩
  else do
    let lastValSet ← loadValidators store (b.header.height - 1)
      "failed to load validator set at height %d: %w"
    buildLastCommitInfo C b lastValSet initialHeight

def extendedVotes (height : ℤ) (params : ConsensusParams) :
    List (Validator × ExtendedCommitSig) → Outcome ε (List ExtendedVoteInfo)
  | [] => .ok []
  | (val,ecs) :: rest =>
    if ecs.commitSig.blockIDFlag ≠ .absent ∧ ecs.commitSig.validatorAddress ≠ val.address then
      .panic "validator address of extended commit signature in position %d (%s) does not match the corresponding validator's at height %d (%s)"
    else
      match C.ensureExtension ecs (C.voteExtensionsEnabled params height) with
      | some _ => .panic "commit at height %d has problems with vote extension data; err %w"
      | none => do
        let votes ← extendedVotes height params rest
        pure (⟨abciValidator C val,ecs.commitSig.blockIDFlag,ecs.extension,
          ecs.extensionSignature⟩ :: votes)

def buildExtendedCommitInfo (ec : ExtendedCommit H) (valSet : ValidatorSet) (initialHeight : ℤ)
    (params : ConsensusParams) : Outcome ε ExtendedCommitInfo :=
  if ec.height < initialHeight then .ok ⟨0,[]⟩
  else if ec.extendedSignatures.length ≠ valSet.length then
    .panic "extended commit size (%d) does not match validator set length (%d) at height %d\n\n%v\n\n%v"
  else do
    let votes ← extendedVotes C ec.height params (valSet.zip ec.extendedSignatures)
    pure ⟨ec.round,votes⟩

def buildExtendedCommitInfoFromStore (ec : ExtendedCommit H) (store : StateStore H)
    (initialHeight : ℤ) (params : ConsensusParams) : Outcome ε ExtendedCommitInfo :=
  if ec.height < initialHeight then .ok ⟨0,[]⟩
  else do
    let valSet ← loadValidators store ec.height
      "failed to load validator set at height %d, initial height %d: %w"
    buildExtendedCommitInfo C ec valSet initialHeight params

variable {C}

theorem loadValidators_of_some {store : StateStore H} {height : ℤ} {vals : ValidatorSet}
    (h : store.validators height = some vals) (message : String) :
    (loadValidators store height message : Outcome ε ValidatorSet) = .ok vals := by
  simp [loadValidators,h]

theorem buildLastCommitInfo_isPanic_iff {b : Block H} {vals : ValidatorSet} {initialHeight : ℤ} :
    (buildLastCommitInfo C b vals initialHeight : Outcome ε CommitInfo).isPanic = true ↔
      b.header.height ≠ initialHeight ∧ b.lastCommit.signatures.length ≠ vals.length := by
  unfold buildLastCommitInfo
  by_cases h : b.header.height = initialHeight
  · simp [h]
  · by_cases hl : b.lastCommit.signatures.length = vals.length
    · simp [h,hl]
    · simp [h,hl]

/-- The loop survives exactly when every present vote names the validator it stands
next to and has the right extension data. -/
theorem extendedVotes_isPanic_iff {height : ℤ} {params : ConsensusParams}
    {pairs : List (Validator × ExtendedCommitSig)} :
    (extendedVotes C height params pairs : Outcome ε (List ExtendedVoteInfo)).isPanic = false ↔
      ∀ p ∈ pairs, (p.2.commitSig.blockIDFlag = .absent ∨
        p.2.commitSig.validatorAddress = p.1.address) ∧
        C.ensureExtension p.2 (C.voteExtensionsEnabled params height) = none := by
  induction pairs with
  | nil => simp [extendedVotes]
  | cons p rest ih =>
    obtain ⟨val,ecs⟩ := p
    simp only [extendedVotes,List.mem_cons,forall_eq_or_imp]
    by_cases haddr : ecs.commitSig.blockIDFlag ≠ .absent ∧
        ecs.commitSig.validatorAddress ≠ val.address
    · simp [haddr]
    · have hok : ecs.commitSig.blockIDFlag = .absent ∨
          ecs.commitSig.validatorAddress = val.address := by
        by_contra hn
        exact haddr (not_or.mp hn)
      rw [if_neg haddr]
      cases he : C.ensureExtension ecs (C.voteExtensionsEnabled params height) with
      | some e => simp
      | none =>
        rw [← ih]
        cases (extendedVotes C height params rest : Outcome ε (List ExtendedVoteInfo)) <;> simp [hok]

/-- Signatures stand next to their own validators exactly when the addresses agree in
order. -/
theorem addresses_eq_iff {signatures : List ExtendedCommitSig} {vals : ValidatorSet} :
    signatures.map (fun ecs => ecs.commitSig.validatorAddress) = vals.addresses ↔
      signatures.length = vals.length ∧
        ∀ p ∈ vals.zip signatures, p.2.commitSig.validatorAddress = p.1.address := by
  have hmap : vals.addresses = signatures.map (fun ecs => ecs.commitSig.validatorAddress) ↔
      List.Forall₂ (fun (v : Validator) (ecs : ExtendedCommitSig) =>
        v.address = ecs.commitSig.validatorAddress) vals signatures := by
    rw [← List.forall₂_map_right_iff,← List.forall₂_map_left_iff]
    exact Iff.of_eq (congrFun (congrFun List.forall₂_eq_eq_eq.symm _) _)
  rw [eq_comm,hmap,List.forall₂_iff_zip]
  constructor
  · rintro ⟨hlen,h⟩
    exact ⟨hlen.symm,fun p hp => (h hp).symm⟩
  · rintro ⟨hlen,h⟩
    exact ⟨hlen.symm,fun {v ecs} hp => (h (v,ecs) hp).symm⟩

/-- For a commit of votes for nil without wrong extensions, `BuildExtendedCommitInfo`
survives exactly when the stored validators are those who voted. -/
theorem buildExtendedCommitInfoFromStore_isPanic_iff {ec : ExtendedCommit H} {store : StateStore H}
    {initialHeight : ℤ} {params : ConsensusParams} (hheight : initialHeight ≤ ec.height)
    (hnil : ∀ ecs ∈ ec.extendedSignatures, ecs.commitSig.blockIDFlag = .nil ∧
      C.ensureExtension ecs (C.voteExtensionsEnabled params ec.height) = none) :
    (buildExtendedCommitInfoFromStore C ec store initialHeight params :
      Outcome ε ExtendedCommitInfo).isPanic = false ↔
      ∃ vals, store.validators ec.height = some vals ∧
        ec.extendedSignatures.map (fun ecs => ecs.commitSig.validatorAddress) = vals.addresses := by
  unfold buildExtendedCommitInfoFromStore
  rw [if_neg (not_lt.mpr hheight)]
  cases hvals : store.validators ec.height with
  | none => simp [loadValidators,hvals]
  | some vals =>
    rw [loadValidators_of_some hvals,Outcome.ok_bind,buildExtendedCommitInfo,
      if_neg (not_lt.mpr hheight)]
    simp only [Option.some.injEq,exists_eq_left',addresses_eq_iff]
    by_cases hlen : ec.extendedSignatures.length = vals.length
    · have hpanic : ∀ x : Outcome ε (List ExtendedVoteInfo),
          (x >>= fun votes => pure (⟨ec.round,votes⟩ : ExtendedCommitInfo)).isPanic = x.isPanic := by
        intro x
        cases x <;> rfl
      rw [if_neg (not_not.mpr hlen),hpanic,extendedVotes_isPanic_iff]
      refine ⟨fun h => ⟨hlen,fun p hp => ?_⟩,fun h p hp => ?_⟩
      · have hp2 := hnil p.2 (List.of_mem_zip hp).2
        exact (h p hp).1.resolve_left (by simp [hp2.1])
      · exact ⟨.inr (h.2 p hp),(hnil p.2 (List.of_mem_zip hp).2).2⟩
    · simp [hlen]

end Landslide
