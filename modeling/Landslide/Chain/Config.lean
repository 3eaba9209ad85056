import Landslide.Chain.Symbolic

/-! # The limits of a configuration

The size limits of a proposed block come from the configuration of the VM, those of a
transaction that enters the mempool from the consensus parameters of the state. `Validate`
looks at each limit of the configuration for itself.
-/
namespace Landslide
variable {H : Type}

/-! ## The configuration -/

/-- `types.ConsensusParams` of the VM, with its parts in one record. -/
structure ConfigParams where
  blockMaxBytes : ℤ
  blockMaxGas : ℤ
  evidenceMaxBytes : ℤ
  deriving DecidableEq

structure VMConfig where
  networkName : String
  timeoutBroadcastTxCommit : UInt16
  consensusParams : ConfigParams
  maxSubscriptionClients : ℤ
  maxSubscriptionsPerClient : ℤ
  deriving DecidableEq

inductive ConfigError where
  | emptyNetworkName
  | blockMaxBytesZero
  | blockMaxBytesNegative (got : ℤ)
  | blockMaxBytesTooBig (got : ℤ)
  | blockMaxGas (got : ℤ)
  | evidenceTooBig (got blockMaxBytes : ℤ)
  | evidenceNegative (got : ℤ)
  | maxSubscriptionsPerClient (got : ℤ)
  | maxSubscriptionClients (got : ℤ)
  deriving DecidableEq

def ConfigError.text : ConfigError → String
  | emptyNetworkName => "network_name can't be empty"
  | blockMaxBytesZero => "consensus_params is invalid: block.MaxBytes cannot be 0"
  | blockMaxBytesNegative got =>
    "consensus_params is invalid: block.MaxBytes must be -1 or greater than 0. Got " ++ toString got
  | blockMaxBytesTooBig got => "consensus_params is invalid: block.MaxBytes is too big. " ++
      toString got ++ " > " ++ toString maxBlockSizeBytes
  | blockMaxGas got =>
    "consensus_params is invalid: block.MaxGas must be greater or equal to -1. Got " ++ toString got
  | evidenceTooBig got blockMaxBytes =>
    "consensus_params is invalid: evidence.MaxBytes is greater than upper bound, " ++
      toString got ++ " > " ++ toString blockMaxBytes
  | evidenceNegative got =>
    "consensus_params is invalid: evidence.MaxBytes must be non negative. Got: " ++ toString got
  | maxSubscriptionsPerClient got =>
    "max_subscriptions_per_client must be positive. Got " ++ toString got
  | maxSubscriptionClients got =>
    "max_subscription_clients must be positive. Got " ++ toString got

namespace ConfigParams

def executorConfig (c : ConfigParams) : ExecutorConfig :=
  ⟨c.blockMaxBytes,c.blockMaxGas,c.evidenceMaxBytes⟩

def validate (c : ConfigParams) : Option ConfigError :=
  firstError [refuse (c.blockMaxBytes = 0) .blockMaxBytesZero,
    refuse (c.blockMaxBytes < -1) (.blockMaxBytesNegative c.blockMaxBytes),
    refuse (c.blockMaxBytes > maxBlockSizeBytes) (.blockMaxBytesTooBig c.blockMaxBytes),
    refuse (c.blockMaxGas < -1) (.blockMaxGas c.blockMaxGas),
    -- an unlimited block is compared with the largest one
    refuse (c.evidenceMaxBytes > c.executorConfig.maxBytes)
      (.evidenceTooBig c.evidenceMaxBytes c.blockMaxBytes),
    refuse (c.evidenceMaxBytes < 0) (.evidenceNegative c.evidenceMaxBytes)]

end ConfigParams

namespace VMConfig

def setDefaults : VMConfig where
  networkName := "landslide-test"
  timeoutBroadcastTxCommit := 30
  consensusParams := ⟨100 * 1024 * 1024,10000000,1000⟩
  maxSubscriptionClients := 100
  maxSubscriptionsPerClient := 5

def validate (c : VMConfig) : Option ConfigError :=
  firstError [refuse (c.networkName.length = 0) .emptyNetworkName,c.consensusParams.validate,
    refuse (c.maxSubscriptionsPerClient < 0)
      (.maxSubscriptionsPerClient c.maxSubscriptionsPerClient),
    refuse (c.maxSubscriptionClients < 0) (.maxSubscriptionClients c.maxSubscriptionClients)]

structure Valid (c : VMConfig) : Prop where
  blockMaxBytes : c.consensusParams.blockMaxBytes = -1 ∨ 0 < c.consensusParams.blockMaxBytes
  maxBytes_le : c.consensusParams.executorConfig.maxBytes ≤ maxBlockSizeBytes
  blockMaxGas : -1 ≤ c.consensusParams.blockMaxGas
  evidence_le : c.consensusParams.evidenceMaxBytes ≤ c.consensusParams.executorConfig.maxBytes
  evidence_nonneg : 0 ≤ c.consensusParams.evidenceMaxBytes

theorem valid_of_validate {c : VMConfig} (h : c.validate = none) : c.Valid := by
  have hparams : c.consensusParams.validate = none := by
    rw [validate,firstError_eq_none_iff] at h
    exact h _ (by simp)
  rw [ConfigParams.validate,firstError_eq_none_iff] at hparams
  simp only [List.forall_mem_cons,refuse_eq_none_iff,List.not_mem_nil,false_imp_iff,forall_const,
    and_true,not_lt] at hparams
  obtain ⟨hzero,hneg,hbig,hgas,hevidence,hnonneg⟩ := hparams
  refine ⟨by omega,?_,hgas,hevidence,hnonneg⟩
  unfold ExecutorConfig.maxBytes
  split
  · exact le_rfl
  · exact hbig

theorem validate_setDefaults : setDefaults.validate = none := by decide

end VMConfig

/-! ## Room for data -/

def maxCommitBytes (valsCount : ℕ) : ℤ := 94 + (109 + 2) * valsCount

/-- The block size less `MaxOverheadForBlock`, `MaxHeaderBytes` and the commit. -/
def dataRoom (maxBytes : ℤ) (valsCount : ℕ) : ℤ := maxBytes - 11 - 626 - maxCommitBytes valsCount

/-- `types.MaxDataBytes` takes the evidence off the room for data. -/
structure CometBFT.SizeRules (C : CometBFT H) : Prop where
  maxDataBytes_eq : ∀ maxBytes evidenceBytes valsCount,
    C.maxDataBytes maxBytes evidenceBytes valsCount =
      if dataRoom maxBytes valsCount - evidenceBytes < 0 then none
      else some (dataRoom maxBytes valsCount - evidenceBytes)

theorem Symbolic.sizeRules (blocks : List (Block Digest)) : (symbolic blocks).SizeRules where
  maxDataBytes_eq _ _ _ := rfl

def ExecutorConfig.room (cfg : ExecutorConfig) (s : State H) : ℤ :=
  dataRoom cfg.maxBytes s.validators.length - cfg.evidenceMaxBytes

section
variable {C : CometBFT H}

theorem dataLimit_eq (hC : C.SizeRules) (cfg : ExecutorConfig) (s : State H) :
    dataLimit C cfg s =
      if cfg.room s < 0 then .panic "Negative MaxDataBytes" else .ok (cfg.room s) := by
  unfold dataLimit
  rw [hC.maxDataBytes_eq,← ExecutorConfig.room]
  by_cases h : cfg.room s < 0
  · rw [if_pos h,if_pos h]
  · rw [if_neg h,if_neg h]

/-- The size computation of a validated configuration succeeds, with a limit below the largest
block, exactly if the limits leave room for the commit. -/
theorem dataLimit_ok_iff (hC : C.SizeRules) {c : VMConfig} (hc : c.validate = none) (s : State H) :
    (∃ limit, dataLimit C c.consensusParams.executorConfig s = .ok limit ∧ 0 ≤ limit ∧
        limit < maxBlockSizeBytes) ↔
      731 + 111 * (s.validators.length : ℤ) + c.consensusParams.evidenceMaxBytes ≤
        c.consensusParams.executorConfig.maxBytes := by
  have hvalid := VMConfig.valid_of_validate hc
  have hle := hvalid.maxBytes_le
  have hevidence := hvalid.evidence_nonneg
  have hroom : c.consensusParams.executorConfig.room s =
      c.consensusParams.executorConfig.maxBytes - 731 - 111 * (s.validators.length : ℤ) -
        c.consensusParams.evidenceMaxBytes := by
    unfold ExecutorConfig.room dataRoom maxCommitBytes ConfigParams.executorConfig
    ring
  rw [dataLimit_eq hC]
  by_cases h : c.consensusParams.executorConfig.room s < 0
  · rw [if_pos h]
    refine ⟨fun ⟨_,heq,_⟩ => (nomatch heq),fun hfit => ?_⟩
    omega
  · rw [if_neg h]
    refine ⟨fun _ => by omega,fun _ => ⟨_,rfl,by omega,by omega⟩⟩

end

/-! ## Transactions -/

inductive TxError where
  | tooBig (txSize maxBytes : ℤ)
  | negativeGas (gasWanted : ℤ)
  | tooMuchGas (gasWanted maxGas : ℤ)
  deriving DecidableEq

def TxError.text : TxError → String
  | tooBig txSize maxBytes =>
    "tx size is too big: " ++ toString txSize ++ ", max: " ++ toString maxBytes
  | negativeGas gasWanted => "gas wanted " ++ toString gasWanted ++ " is negative"
  | tooMuchGas gasWanted maxGas =>
    "gas wanted " ++ toString gasWanted ++ " is greater than max gas " ++ toString maxGas

def State.room (s : State H) : ℤ :=
  dataRoom (if s.consensusParams.block.maxBytes = -1 then maxBlockSizeBytes
    else s.consensusParams.block.maxBytes) s.validators.length

section
variable {M : Mempool} {C : CometBFT H}

end

/-! ## Small blocks -/

namespace Sample

def limited (blockMaxBytes evidenceMaxBytes : ℤ) : VMConfig :=
  { VMConfig.setDefaults with consensusParams := ⟨blockMaxBytes,-1,evidenceMaxBytes⟩ }

/-- A block of one byte passes `Validate` and makes `CreateProposalBlock` panic. -/
theorem oneByte_panics : (limited 1 0).validate = none ∧
    genesis.validators.length ≤ 10000 ∧
    (createProposalBlock (symbolic []) (limited 1 0).consensusParams.executorConfig proposal
      disk.stateStore 1 genesis ⟨0,0,.zero Digest,[]⟩ proposer).isPanic = true := by
  refine ⟨by decide,by decide,rfl⟩

theorem defaults_fit : ∃ limit, dataLimit (symbolic [])
    VMConfig.setDefaults.consensusParams.executorConfig genesis = .ok limit ∧ 0 ≤ limit ∧
      limit < maxBlockSizeBytes :=
  (dataLimit_ok_iff (Symbolic.sizeRules []) VMConfig.validate_setDefaults genesis).mpr
    (by decide)

end Sample
end Landslide
