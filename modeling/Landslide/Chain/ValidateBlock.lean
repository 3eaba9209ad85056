import Landslide.Chain.MedianTime

/-! # Validation of a block against the chain state

`ValidateBlock` descends from CometBFT's function of the same name with the
verification of the last commit removed: beyond the checks of `ValidateBasic`, the
only conditions left on the last commit are that it is empty at the initial height
and that the block time is the weighted median of its timestamps.
-/
namespace Landslide
variable {H : Type}

/-- Why a block is refused. The arguments are those of the source's message, in the
order in which it prints them. -/
inductive BlockError (H : Type) where
  | basic (e : String)
  | version (expected got : Consensus)
  | chainID (expected got : String)
  | initialHeight (expected got : ℤ)
  | height (expected got : ℤ)
  | lastBlockID (expected got : BlockID H)
  | appHash (expected got : Bytes)
  | consensusHash (expected got : Option H)
  | lastResultsHash (expected got : Option H)
  | validatorsHash (expected got : Option H)
  | nextValidatorsHash (expected got : Option H)
  | initialCommit
  | proposerAddress (expected got : ℕ)
  | timeBeforeLast (time last : ℤ)
  | timeNotMedian (expected got : ℤ)
  | timeNotGenesis (time genesis : ℤ)
  | heightBelowInitial (height initial : ℤ)
  | evidenceOverflow (max got : ℤ)
  deriving DecidableEq

/-- The message of each error, as a format string. -/
def BlockError.text : BlockError H → String
  | basic e => e
  | version .. => "wrong Block.Header.Version. Expected %v, got %v"
  | chainID .. => "wrong Block.Header.ChainID. Expected %v, got %v"
  | initialHeight .. => "wrong Block.Header.Height. Expected %v for initial block, got %v"
  | height .. => "wrong Block.Header.Height. Expected %v, got %v"
  | lastBlockID .. => "wrong Block.Header.LastBlockID.  Expected %v, got %v"
  | appHash .. => "wrong Block.Header.AppHash.  Expected %X, got %v"
  | consensusHash .. => "wrong Block.Header.ConsensusHash.  Expected %X, got %v"
  | lastResultsHash .. => "wrong Block.Header.LastResultsHash.  Expected %X, got %v"
  | validatorsHash .. => "wrong Block.Header.ValidatorsHash.  Expected %X, got %v"
  | nextValidatorsHash .. => "wrong Block.Header.NextValidatorsHash.  Expected %X, got %v"
  | initialCommit => "initial block can't have LastCommit signatures"
  | proposerAddress .. => "expected ProposerAddress size %d, got %d"
  | timeBeforeLast .. => "block time %v not greater than or equal to last block time %v"
  | timeNotMedian .. => "invalid block time. Expected %v, got %v"
  | timeNotGenesis .. => "block time %v is not equal to genesis time %v"
  | heightBelowInitial .. => "block height %v lower than initial height %v"
  | evidenceOverflow .. => "Too much evidence: Max %d, got %d"

/-- One `if` of the source that returns an error. -/
def refuse {ε : Type} (cond : Prop) [Decidable cond] (e : ε) : Option ε :=
  if cond then some e else none

@[simp] theorem refuse_eq_none_iff {ε : Type} {cond : Prop} [Decidable cond] {e : ε} :
    refuse cond e = none ↔ ¬cond := by
  unfold refuse
  split <;> simp_all

/-- Checks made one after the other; the first error is returned. -/
def firstError {ε : Type} (checks : List (Option ε)) : Option ε := checks.findSome? id

@[simp] theorem firstError_eq_none_iff {ε : Type} {checks : List (Option ε)} :
    firstError checks = none ↔ ∀ c ∈ checks, c = none := by
  simp [firstError,List.findSome?_eq_none_iff]

section
variable [DecidableEq H] (C : CometBFT H)

def timeError (s : State H) (b : Block H) : Option (BlockError H) :=
  if b.header.height > s.initialHeight then
    let median := medianTime C b.lastCommit s.lastValidators
    firstError [
      refuse (¬(b.header.time > s.lastBlockTime ∨ b.header.time = s.lastBlockTime))
        (.timeBeforeLast b.header.time s.lastBlockTime),
      refuse (b.header.time ≠ median) (.timeNotMedian median b.header.time)]
  else if b.header.height = s.initialHeight then
    refuse (b.header.time ≠ s.lastBlockTime) (.timeNotGenesis b.header.time s.lastBlockTime)
  else some (.heightBelowInitial b.header.height s.initialHeight)

/-- `ValidateBlock`; `none` is success. -/
def validateBlock (s : State H) (b : Block H) : Option (BlockError H) :=
  firstError [
    (C.validateBasic b).map .basic,
    refuse (b.header.version.app ≠ s.version.app ∨ b.header.version.block ≠ s.version.block)
      (.version s.version b.header.version),
    refuse (b.header.chainID ≠ s.chainID) (.chainID s.chainID b.header.chainID),
    -- the source prints the two heights of the initial block in this order
    refuse (s.lastBlockHeight = 0 ∧ b.header.height ≠ s.initialHeight)
      (.initialHeight b.header.height s.initialHeight),
    refuse (s.lastBlockHeight > 0 ∧ b.header.height ≠ s.lastBlockHeight + 1)
      (.height (s.lastBlockHeight + 1) b.header.height),
    refuse (b.header.lastBlockID ≠ s.lastBlockID) (.lastBlockID s.lastBlockID b.header.lastBlockID),
    refuse (b.header.appHash ≠ s.appHash) (.appHash s.appHash b.header.appHash),
    refuse (b.header.consensusHash ≠ some (C.consensusParamsHash s.consensusParams))
      (.consensusHash (some (C.consensusParamsHash s.consensusParams)) b.header.consensusHash),
    refuse (b.header.lastResultsHash ≠ s.lastResultsHash)
      (.lastResultsHash s.lastResultsHash b.header.lastResultsHash),
    refuse (b.header.validatorsHash ≠ some (C.validatorSetHash s.validators))
      (.validatorsHash (some (C.validatorSetHash s.validators)) b.header.validatorsHash),
    refuse (b.header.nextValidatorsHash ≠ some (C.validatorSetHash s.nextValidators))
      (.nextValidatorsHash (some (C.validatorSetHash s.nextValidators))
        b.header.nextValidatorsHash),
    refuse (b.header.height = s.initialHeight ∧ b.lastCommit.signatures.length ≠ 0) .initialCommit,
    refuse (b.header.proposerAddress.length ≠ CometBFT.addressSize)
      (.proposerAddress CometBFT.addressSize b.header.proposerAddress.length),
    timeError C s b,
    refuse (C.evidenceByteSize b.evidence > s.consensusParams.evidence.maxBytes)
      (.evidenceOverflow s.consensusParams.evidence.maxBytes (C.evidenceByteSize b.evidence))]

/-- The time of a block is the genesis time at the initial height, and afterwards the
median of the last commit, not before the previous block. -/
structure TimeValid (s : State H) (b : Block H) : Prop where
  height : s.initialHeight ≤ b.header.height
  notBefore : s.initialHeight < b.header.height → s.lastBlockTime ≤ b.header.time
  median : s.initialHeight < b.header.height →
    b.header.time = medianTime C b.lastCommit s.lastValidators
  genesis : b.header.height = s.initialHeight → b.header.time = s.lastBlockTime

/-- What a block that `ValidateBlock` accepts satisfies. -/
structure BlockValid (s : State H) (b : Block H) : Prop where
  basic : C.validateBasic b = none
  version : b.header.version = s.version
  chainID : b.header.chainID = s.chainID
  initialHeight : s.lastBlockHeight = 0 → b.header.height = s.initialHeight
  nextHeight : 0 < s.lastBlockHeight → b.header.height = s.lastBlockHeight + 1
  lastBlockID : b.header.lastBlockID = s.lastBlockID
  appHash : b.header.appHash = s.appHash
  consensusHash : b.header.consensusHash = some (C.consensusParamsHash s.consensusParams)
  lastResultsHash : b.header.lastResultsHash = s.lastResultsHash
  validatorsHash : b.header.validatorsHash = some (C.validatorSetHash s.validators)
  nextValidatorsHash : b.header.nextValidatorsHash = some (C.validatorSetHash s.nextValidators)
  initialCommit : b.header.height = s.initialHeight → b.lastCommit.signatures = []
  proposerAddress : b.header.proposerAddress.length = CometBFT.addressSize
  time : TimeValid C s b
  evidence : C.evidenceByteSize b.evidence ≤ s.consensusParams.evidence.maxBytes

variable {C}

omit [DecidableEq H] in
theorem timeError_eq_none_iff {s : State H} {b : Block H} :
    timeError C s b = none ↔ TimeValid C s b := by
  unfold timeError
  rcases lt_trichotomy s.initialHeight b.header.height with h | h | h
  · simp only [gt_iff_lt,h,↓reduceIte,firstError_eq_none_iff,List.mem_cons,List.not_mem_nil,
      or_false,forall_eq_or_imp,forall_eq,refuse_eq_none_iff,not_not]
    constructor
    · rintro ⟨hl,hm⟩
      exact ⟨h.le,fun _ => by omega,fun _ => hm,fun he => by omega⟩
    · intro hv
      have hl := hv.notBefore h
      exact ⟨by omega,hv.median h⟩
  · simp only [gt_iff_lt,h,lt_self_iff_false,↓reduceIte,refuse_eq_none_iff,not_not]
    constructor
    · intro he
      exact ⟨h.le,fun hlt => by omega,fun hlt => by omega,fun _ => he⟩
    · intro hv
      exact hv.genesis h.symm
  · have hgt : ¬s.initialHeight < b.header.height := by omega
    have hne : b.header.height ≠ s.initialHeight := by omega
    simp only [gt_iff_lt,hgt,hne,↓reduceIte,reduceCtorEq,false_iff]
    intro hv
    exact absurd hv.height (by omega)

theorem validateBlock_eq_none_iff {s : State H} {b : Block H} :
    validateBlock C s b = none ↔ BlockValid C s b := by
  have hversion : (¬(b.header.version.app ≠ s.version.app ∨
      b.header.version.block ≠ s.version.block)) ↔ b.header.version = s.version := by
    obtain ⟨⟨vb,va⟩,_⟩ := b.header
    obtain ⟨⟨sb,sa⟩,_⟩ := s
    simp only [ne_eq,not_or,not_not,Consensus.mk.injEq]
    exact and_comm
  simp only [validateBlock,firstError_eq_none_iff,List.mem_cons,List.not_mem_nil,or_false,
    forall_eq_or_imp,forall_eq,Option.map_eq_none_iff,refuse_eq_none_iff,timeError_eq_none_iff,
    hversion]
  constructor
  · rintro ⟨h1,h2,h3,h4,h5,h6,h7,h8,h9,h10,h11,h12,h13,h14,h15⟩
    refine ⟨h1,h2,not_not.mp h3,?_,?_,not_not.mp h6,not_not.mp h7,not_not.mp h8,not_not.mp h9,
      not_not.mp h10,not_not.mp h11,?_,not_not.mp h13,h14,by omega⟩
    · intro h
      exact not_not.mp (fun hne => h4 ⟨h,hne⟩)
    · intro h
      exact not_not.mp (fun hne => h5 ⟨h,hne⟩)
    · intro h
      have hl : b.lastCommit.signatures.length = 0 := not_not.mp (fun hne => h12 ⟨h,hne⟩)
      exact List.eq_nil_of_length_eq_zero hl
  · intro hv
    refine ⟨hv.basic,hv.version,not_not.mpr hv.chainID,?_,?_,not_not.mpr hv.lastBlockID,
      not_not.mpr hv.appHash,not_not.mpr hv.consensusHash,not_not.mpr hv.lastResultsHash,
      not_not.mpr hv.validatorsHash,not_not.mpr hv.nextValidatorsHash,?_,
      not_not.mpr hv.proposerAddress,hv.time,not_lt.mpr hv.evidence⟩
    · rintro ⟨h,hne⟩
      exact hne (hv.initialHeight h)
    · rintro ⟨h,hne⟩
      exact hne (hv.nextHeight h)
    · rintro ⟨h,hne⟩
      exact hne (by rw [hv.initialCommit h]; rfl)

omit [DecidableEq H] in
theorem BlockValid.lastBlockHeight_lt (hC : C.BlockRules) {s : State H} {b : Block H}
    (hv : BlockValid C s b) : s.lastBlockHeight < b.header.height := by
  have hpos := ((hC.validateBasic_iff b).mp hv.basic).height
  by_cases h : 0 < s.lastBlockHeight
  · have hn := hv.nextHeight h
    omega
  · omega

end
end Landslide
