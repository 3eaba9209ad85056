import Landslide.Lib.Exec
import Landslide.Warp.Signature

/-! # Aggregating signatures

The aggregator asks every validator for its signature at once and takes the answers in the
order in which they arrive, until the weight behind them meets the quorum. What it returns
passes the verifier, who builds the validator list for itself.
-/
namespace Landslide.Warp
open Codec
variable {PK Sig : Type}

def warpQuorumDenominator : UInt64 := 100

structure AggregateSignatureResult where
  signatureWeight : UInt64
  totalWeight : UInt64
  message : Message

structure SignatureFetchResult (Sig : Type) where
  sig : Sig
  index : ℕ
  weight : UInt64

/-- `GetSignature` of a node. -/
abbrev SignatureGetter (Sig : Type) := Bytes → UnsignedMessage → Except String Sig

structure Aggregator (PK Sig : Type) where
  client : SignatureGetter Sig
  validators : List (Validator PK)
  totalWeight : UInt64

inductive AggregateError where
  | insufficientWeight
  | aggregateSignatures (e : BLSError)
  | newMessage (e : CodecError)
  deriving DecidableEq

def AggregateError.text : AggregateError → String
  | insufficientWeight => "signature weight is insufficient"
  | aggregateSignatures e => "failed to aggregate BLS signatures: " ++ e.text
  | newMessage e => "failed to construct warp message: " ++ e.text

/-- The goroutine of one validator; `none` is the nil it sends. -/
def fetchSignature (blst : Blst PK Sig) (client : SignatureGetter Sig) (msg : UnsignedMessage)
    (validator : Validator PK) (i : ℕ) : Option (SignatureFetchResult Sig) :=
  match client (validator.nodeIDs.headD []) msg with
  | .error _ => none
  | .ok signature =>
    if blst.verify validator.publicKey signature msg.bytes then
      some ⟨signature,i,validator.weight⟩
    else none

structure Collected (Sig : Type) where
  signatures : List Sig
  signersBitset : Bits
  signaturesWeight : UInt64

def Collected.add (acc : Collected Sig) (r : SignatureFetchResult Sig) : Collected Sig :=
  ⟨acc.signatures ++ [r.sig],acc.signersBitset.add r.index,acc.signaturesWeight + r.weight⟩

/-- The loop over the channel; `none` when it ends below the threshold. -/
def collect (totalWeight quorumNum : UInt64) :
    List (Option (SignatureFetchResult Sig)) → Collected Sig → Option (Collected Sig)
  | [], _ => none
  | none :: results, acc => collect totalWeight quorumNum results acc
  | some r :: results, acc =>
    match verifyWeight (acc.add r).signaturesWeight totalWeight quorumNum warpQuorumDenominator with
    | .ok () => some (acc.add r)
    | .error _ => collect totalWeight quorumNum results (acc.add r)

/-- `AggregateSignatures`, for one order in which the goroutines send their results. -/
def Aggregator.aggregateSignatures (a : Aggregator PK Sig) (blst : Blst PK Sig)
    (arrivals : List (Validator PK × ℕ)) (msg : UnsignedMessage) (quorumNum : UInt64) :
    Outcome AggregateError AggregateSignatureResult :=
  if a.validators.any fun validator => validator.nodeIDs.isEmpty then
    .panic "runtime error: index out of range [0] with length 0"
  else
    match collect a.totalWeight quorumNum
        (arrivals.map fun p => fetchSignature blst a.client msg p.1 p.2) ⟨[],0,0⟩ with
    | none => .error .insufficientWeight
    | some acc => do
      let aggregateSignature ←
        Outcome.ofExcept .aggregateSignatures (blst.aggregateSignatures acc.signatures)
      let warpSignature : BitSetSignature :=
        ⟨acc.signersBitset.bytes,ByteArrayOf.copy (blst.compress aggregateSignature)⟩
      let message ← Outcome.ofExcept .newMessage (newMessage msg warpSignature)
      pure ⟨acc.signaturesWeight,a.totalWeight,message⟩

/-! ## The loop -/

section
variable {blst : Blst PK Sig} {client : SignatureGetter Sig} {msg : UnsignedMessage}
variable {vdrs : List (Validator PK)} {totalWeight quorumNum : UInt64}
variable {arrivals : List (Validator PK × ℕ)} {acc acc' : Collected Sig}

theorem fetchSignature_eq_some {v : Validator PK} {i : ℕ} {r : SignatureFetchResult Sig}
    (h : fetchSignature blst client msg v i = some r) :
    blst.verify v.publicKey r.sig msg.bytes = true ∧ r.index = i ∧ r.weight = v.weight := by
  unfold fetchSignature at h
  split at h
  · cases h
  · split at h
    · next hverify =>
      cases h
      exact ⟨hverify,rfl,rfl⟩
    · cases h

/-- The signed validators behind what has been collected, each with its index; the rest of the
arrivals are others. -/
structure Collects (blst : Blst PK Sig) (msg : UnsignedMessage) (vdrs : List (Validator PK))
    (arrivals : List (Validator PK × ℕ)) (acc : Collected Sig)
    (signed : List ((Validator PK × ℕ) × Sig)) : Prop where
  signatures : acc.signatures = signed.map Prod.snd
  signers : acc.signersBitset = Bits.ofList (signed.map fun s => s.1.2)
  weight : acc.signaturesWeight.toNat = weightSum (signed.map fun s => s.1.1)
  verifies : ∀ s ∈ signed, blst.verify s.1.1.publicKey s.2 msg.bytes = true
  subperm : (signed.map Prod.fst ++ arrivals).Subperm vdrs.zipIdx

theorem weightSum_le_of_subperm {picked : List (Validator PK × ℕ)} (h : picked.Subperm vdrs.zipIdx) :
    weightSum (picked.map Prod.fst) ≤ weightSum vdrs := by
  obtain ⟨picked',hperm,hsub⟩ := h
  have hsub := hsub.map Prod.fst
  rw [List.zipIdx_map_fst] at hsub
  calc weightSum (picked.map Prod.fst) = weightSum (picked'.map Prod.fst) :=
        (((hperm.map Prod.fst).map _).sum_eq).symm
    _ ≤ weightSum vdrs := (hsub.map _).sum_le_sum fun _ _ => Nat.zero_le _

variable {signed : List ((Validator PK × ℕ) × Sig)}

theorem Collects.skip {p : Validator PK × ℕ} (h : Collects blst msg vdrs (p :: arrivals) acc signed) :
    Collects blst msg vdrs arrivals acc signed where
  signatures := h.signatures
  signers := h.signers
  weight := h.weight
  verifies := h.verifies
  subperm := List.Subperm.trans
    ((List.Sublist.refl _).append (List.sublist_cons_self p arrivals)).subperm h.subperm

theorem Collects.add {p : Validator PK × ℕ} {r : SignatureFetchResult Sig}
    (hle : weightSum vdrs < 2 ^ 64)
    (h : Collects blst msg vdrs (p :: arrivals) acc signed)
    (hr : fetchSignature blst client msg p.1 p.2 = some r) :
    Collects blst msg vdrs arrivals (acc.add r) (signed ++ [(p,r.sig)]) := by
  obtain ⟨hverify,hindex,hweight⟩ := fetchSignature_eq_some hr
  have hsub : ((signed ++ [(p,r.sig)]).map Prod.fst ++ arrivals).Subperm vdrs.zipIdx := by
    simpa using h.subperm
  refine ⟨?_,?_,?_,?_,hsub⟩
  · rw [Collected.add,h.signatures,List.map_append]
    rfl
  · rw [Collected.add,h.signers,hindex,List.map_append]
    exact (Bits.ofList_concat _ _).symm
  · have hsum : weightSum ((signed ++ [(p,r.sig)]).map fun s => s.1.1) =
        acc.signaturesWeight.toNat + p.1.weight.toNat := by
      rw [List.map_append,weightSum,List.map_append,List.sum_append,h.weight]
      rfl
    have hpart := weightSum_le_of_subperm ((List.sublist_append_left _ arrivals).subperm.trans hsub)
    rw [List.map_map] at hpart
    have hlt := lt_of_le_of_lt (hsum.symm.trans_le hpart) hle
    rw [hsum,Collected.add,hweight,UInt64.toNat_add,Nat.mod_eq_of_lt hlt]
  · intro s hs
    rcases List.mem_append.mp hs with hs | hs
    · exact h.verifies s hs
    · rw [List.mem_singleton.mp hs]
      exact hverify

theorem collect_collects (hle : weightSum vdrs < 2 ^ 64)
    (h : Collects blst msg vdrs arrivals acc signed)
    (hcollect : collect totalWeight quorumNum
      (arrivals.map fun p => fetchSignature blst client msg p.1 p.2) acc = some acc') :
    (∃ rest signed', Collects blst msg vdrs rest acc' signed') ∧
      verifyWeight acc'.signaturesWeight totalWeight quorumNum warpQuorumDenominator = .ok () := by
  induction arrivals generalizing acc signed with
  | nil => cases hcollect
  | cons p arrivals ih =>
    rw [List.map_cons] at hcollect
    cases hr : fetchSignature blst client msg p.1 p.2 with
    | none =>
      rw [hr,collect] at hcollect
      exact ih h.skip hcollect
    | some r =>
      rw [hr,collect] at hcollect
      split at hcollect
      · next hverify =>
        cases hcollect
        exact ⟨⟨_,_,h.add hle hr⟩,hverify⟩
      · exact ih (h.add hle hr) hcollect

theorem Aggregator.aggregateSignatures_ok {a : Aggregator PK Sig} {result : AggregateSignatureResult}
    (hle : weightSum a.validators < 2 ^ 64) (harrivals : arrivals.Perm a.validators.zipIdx)
    (h : a.aggregateSignatures blst arrivals msg quorumNum = .ok result) :
    ∃ rest acc signed agg, Collects blst msg a.validators rest acc signed ∧
      verifyWeight acc.signaturesWeight a.totalWeight quorumNum warpQuorumDenominator = .ok () ∧
      blst.aggregateSignatures acc.signatures = .ok agg ∧
      result.signatureWeight = acc.signaturesWeight ∧ result.totalWeight = a.totalWeight ∧
      result.message.unsignedMessage = msg ∧ result.message.signature =
        ⟨acc.signersBitset.bytes,ByteArrayOf.copy (blst.compress agg)⟩ := by
  have hstart : Collects blst msg a.validators arrivals (⟨[],0,0⟩ : Collected Sig) [] :=
    ⟨rfl,rfl,rfl,fun _ h => (nomatch h),harrivals.subperm⟩
  unfold Aggregator.aggregateSignatures at h
  split at h
  · cases h
  · split at h
    · cases h
    · next acc hcollect =>
      obtain ⟨⟨rest,signed,hsigned⟩,hweight⟩ := collect_collects hle hstart hcollect
      obtain ⟨agg,hagg,h⟩ := Outcome.bind_eq_ok_iff.mp h
      obtain ⟨message,hmessage,h⟩ := Outcome.bind_eq_ok_iff.mp h
      obtain ⟨bytes,_,hnew⟩ := bind_eq_ok (Outcome.ofExcept_eq_ok_iff.mp hmessage)
      cases hnew
      cases h
      exact ⟨rest,acc,signed,agg,hsigned,hweight,Outcome.ofExcept_eq_ok_iff.mp hagg,rfl,rfl,rfl,rfl⟩

/-! ## The verifier's view -/

theorem Collects.picked (h : Collects blst msg vdrs arrivals acc signed) :
    (signed.map Prod.fst).Subperm vdrs.zipIdx :=
  (List.sublist_append_left _ arrivals).subperm.trans h.subperm

theorem Collects.signers_eq (h : Collects blst msg vdrs arrivals acc signed) :
    acc.signersBitset = Bits.ofList ((signed.map Prod.fst).map Prod.snd) := by
  rw [h.signers,List.map_map]
  rfl

theorem Collects.bitLen_le (h : Collects blst msg vdrs arrivals acc signed) :
    acc.signersBitset.bitLen ≤ vdrs.length := by
  rw [h.signers_eq]
  refine Bits.bitLen_ofList_le fun i hi => ?_
  obtain ⟨p,hp,rfl⟩ := List.mem_map.mp hi
  exact List.snd_lt_of_mem_zipIdx (h.picked.subset hp)

theorem Collects.select_perm (h : Collects blst msg vdrs arrivals acc signed) :
    (acc.signersBitset.select vdrs).Perm (signed.map fun s => s.1.1) := by
  have hperm := Bits.select_ofList_perm h.picked
  rwa [← h.signers_eq,List.map_map] at hperm

theorem Collects.weight_eq (h : Collects blst msg vdrs arrivals acc signed) :
    acc.signaturesWeight.toNat = weightSum (acc.signersBitset.select vdrs) :=
  h.weight.trans (h.select_perm.map _).sum_eq.symm

variable {us us' : List (Validator PK)}

theorem weightSum_of_face (h : us.map Validator.face = us'.map Validator.face) :
    weightSum us = weightSum us' := by
  have hface (vs : List (Validator PK)) :
      weightSum vs = ((vs.map Validator.face).map fun face => face.2.2.toNat).sum := by
    rw [List.map_map]
    rfl
  rw [hface,hface us',h]

theorem publicKeys_of_face (h : us.map Validator.face = us'.map Validator.face) :
    us.map Validator.publicKey = us'.map Validator.publicKey := by
  have hface := congrArg (List.map Prod.fst) h
  rwa [List.map_map,List.map_map] at hface

theorem select_face (b : Bits) (h : us.map Validator.face = us'.map Validator.face) :
    (b.select us).map Validator.face = (b.select us').map Validator.face := by
  rw [← Bits.select_map,← Bits.select_map,h]

/-- The aggregate can be read from its bytes and verifies under the keys of the signers. -/
theorem Collects.aggregate (hblst : BlstRules blst)
    (h : Collects blst msg vdrs arrivals acc signed) {agg : Sig}
    (hagg : blst.aggregateSignatures acc.signatures = .ok agg)
    (hface : us.map Validator.face = (acc.signersBitset.select vdrs).map Validator.face) :
    blst.signatureFromBytes (blst.compress agg) = .ok agg ∧
      ∃ aggPubKey, aggregatePublicKeys blst us = .ok aggPubKey ∧
        blst.verify aggPubKey agg msg.bytes = true := by
  have hverify : ∀ t ∈ signed.map fun s => (s.1.1.publicKey,s.2),
      blst.verify t.1 t.2 msg.bytes = true := by
    intro t ht
    obtain ⟨s,hs,rfl⟩ := List.mem_map.mp ht
    exact h.verifies s hs
  have hsigs : acc.signatures = (signed.map fun s => (s.1.1.publicKey,s.2)).map Prod.snd := by
    rw [List.map_map,h.signatures]
    rfl
  have hkeys : (us.map Validator.publicKey).Perm
      ((signed.map fun s => (s.1.1.publicKey,s.2)).map Prod.fst) := by
    have hperm := h.select_perm.map Validator.publicKey
    rw [publicKeys_of_face hface]
    rwa [List.map_map] at hperm ⊢
  rw [hsigs] at hagg
  exact ⟨Blst.signatureFromBytes_aggregate hblst hverify hagg,
    Blst.verify_aggregate hblst hverify hagg hkeys⟩

end

/-- For every validator set, every order in which it is visited on either side, every order of
arrival and every answer of the validators. -/
theorem aggregateSignatures_verifies {blst : Blst PK Sig} (hblst : BlstRules blst)
    {vdrSet vdrSet' : List (GetValidatorOutput PK)} (hset : vdrSet.Perm vdrSet')
    {a : Aggregator PK Sig}
    (hflatten : flattenValidatorSet blst.serialize vdrSet = .ok (a.validators,a.totalWeight))
    {arrivals : List (Validator PK × ℕ)} (harrivals : arrivals.Perm a.validators.zipIdx)
    (msg : UnsignedMessage) (quorumNum : UInt64) {result : AggregateSignatureResult}
    (hresult : a.aggregateSignatures blst arrivals msg quorumNum = .ok result)
    (pChainState : PChainState PK) (pChainHeight : UInt64) {subnetID : ID}
    (hsubnet : pChainState.getSubnetID result.message.unsignedMessage.sourceChainID = .ok subnetID)
    (hstate : pChainState.getValidatorSet pChainHeight subnetID = .ok vdrSet') :
    result.message.signature.verify blst result.message.unsignedMessage
      result.message.unsignedMessage.networkID pChainState pChainHeight quorumNum
      warpQuorumDenominator = .ok () ∧
    result.signatureWeight.toNat =
      weightSum ((Bits.ofBytes result.message.signature.signers).select a.validators) ∧
    quorumNum.toNat * a.totalWeight.toNat ≤
      warpQuorumDenominator.toNat * result.signatureWeight.toNat := by
  have hcan := flattenValidatorSet_canonical hflatten
  have hle : weightSum a.validators < 2 ^ 64 := lt_of_le_of_lt hcan.sum_le a.totalWeight.toNat_lt
  obtain ⟨rest,acc,signed,agg,hsigned,hweight,hagg,hsigWeight,_,hmsg,hsignature⟩ :=
    Aggregator.aggregateSignatures_ok hle harrivals hresult
  obtain ⟨vdrs',hflatten',hface⟩ :=
    flattenValidatorSet_perm hblst.serialize_injective hset hflatten
  have hselect := select_face acc.signersBitset hface
  obtain ⟨hread,aggPubKey,hkey,hagree⟩ := hsigned.aggregate hblst hagg hselect
  have hcopy := ByteArrayOf.copy_of_length (hblst.compress_length agg)
  rw [hmsg] at hsubnet
  rw [hmsg,hsignature,hsigWeight,hcopy]
  refine ⟨?_,?_,verifyWeight_ok_iff.mp hweight⟩
  · refine BitSetSignature.verify_bytes hsubnet hstate hflatten' ?_ ?_ hweight hread hkey hagree
    · rw [← List.length_map,hface,List.length_map]
      exact hsigned.bitLen_le
    · rw [weightSum_of_face hselect]
      exact hsigned.weight_eq
  · rw [Bits.ofBytes_bytes]
    exact hsigned.weight_eq

/-! ## One validator -/

namespace Sample

/-- A scheme in which a key is its own signature of every message. -/
def blst : Blst (Fin 256) (Fin 256) where
  verify pk sig _ := pk = sig
  serialize pk := beBytes 1 pk
  compress sig := beBytes signatureLen sig
  uncompress bytes := some (Fin.ofNat 256 (beNat bytes))
  sigValidate _ := true
  aggregateP1 pks := some pks.sum
  aggregateP2 sigs := some sigs.sum

theorem blstRules : BlstRules blst where
  serialize_injective a b h := by
    have heq := congrArg beNat h
    rw [blst,beNat_beBytes (by simp),beNat_beBytes (by simp)] at heq
    exact Fin.ext heq
  compress_length _ := beBytes_length _ _
  aggregate_valid {_ _ agg} _ _ _ := by
    have hlt : agg.val < 256 ^ signatureLen :=
      lt_of_lt_of_le agg.isLt (Nat.le_self_pow (by decide) 256)
    have hread : beNat (beBytes signatureLen agg.val) = agg.val := beNat_beBytes hlt
    refine ⟨congrArg some (Fin.ext ?_),rfl⟩
    exact (congrArg (· % 256) hread).trans (Nat.mod_eq_of_lt agg.isLt)
  aggregate_verifies {signed msg agg} _ hverify hagg pks hpks := by
    have hsame : signed.map Prod.fst = signed.map Prod.snd :=
      List.map_congr_left fun s hs => of_decide_eq_true (hverify s hs)
    refine ⟨_,rfl,decide_eq_true ?_⟩
    rw [hpks.sum_eq,hsame]
    exact Option.some.inj hagg

def validatorSet : List (GetValidatorOutput (Fin 256)) := [⟨[1],some 7,1⟩,⟨[2],some 8,1⟩]

def validator : Validator (Fin 256) := ⟨7,[7],1,[[1]]⟩

def otherValidator : Validator (Fin 256) := ⟨8,[8],1,[[2]]⟩

def aggregator : Aggregator (Fin 256) (Fin 256) :=
  ⟨fun nodeID _ => .ok (if nodeID = [1] then 7 else 8),[validator,otherValidator],2⟩

def unsignedMessage : UnsignedMessage := ⟨0,zeroID,[],versioned 0,zeroID⟩

def pChain : PChainState (Fin 256) := ⟨fun id => .ok id,fun _ _ => .ok validatorSet⟩

theorem flatten_validatorSet :
    flattenValidatorSet blst.serialize validatorSet = .ok ([validator,otherValidator],2) := by
  have hloop : flattenLoop blst.serialize validatorSet [] 0 = .ok ([validator,otherValidator],2) :=
    rfl
  have hsorted : [validator,otherValidator].mergeSort
      (fun v o => ¬o.publicKeyBytes < v.publicKeyBytes) = [validator,otherValidator] :=
    List.mergeSort_of_pairwise (by decide)
  rw [flattenValidatorSet,hloop]
  exact congrArg (fun vdrs => Except.ok (vdrs,2)) hsorted

/-- Two nodes with one key, and a node without. -/
def sharedKey : List (GetValidatorOutput (Fin 256)) :=
  [⟨[1],some 7,1⟩,⟨[2],none,4⟩,⟨[3],some 7,2⟩]

theorem sharedKey_agrees : ∃ vdrs vdrs' totalWeight,
    flattenValidatorSet blst.serialize sharedKey = .ok (vdrs,totalWeight) ∧
    flattenValidatorSet blst.serialize sharedKey.reverse = .ok (vdrs',totalWeight) ∧
    vdrs'.map Validator.face = vdrs.map Validator.face := by
  obtain ⟨vdrs,totalWeight,h⟩ := flattenValidatorSet_ok blst.serialize
    (show (sharedKey.map fun vdr => vdr.weight.toNat).sum < 2 ^ 64 by decide)
  obtain ⟨⟨vdrs',h',hface⟩,_⟩ := (flattenValidatorSet_agrees blstRules.serialize_injective
    (List.reverse_perm sharedKey).symm).2 vdrs totalWeight h
  exact ⟨vdrs,vdrs',totalWeight,h,h',hface⟩

/-- The second validator answers first. -/
def arrivals : List (Validator (Fin 256) × ℕ) := [(otherValidator,1),(validator,0)]

theorem aggregate_both : ∃ result,
    aggregator.aggregateSignatures blst arrivals unsignedMessage 67 = .ok result := by
  have hok : ((newMessage unsignedMessage
      ⟨(Bits.add 2 0).bytes,ByteArrayOf.copy (blst.compress 15)⟩).toOption).isSome = true := by
    decide +kernel
  rw [Aggregator.aggregateSignatures,if_neg (by decide)]
  have hcollect : collect aggregator.totalWeight 67 (arrivals.map fun p =>
      fetchSignature blst aggregator.client unsignedMessage p.1 p.2) ⟨[],0,0⟩ =
      some ⟨[8,7],Bits.add 2 0,2⟩ := rfl
  have hagg : blst.aggregateSignatures [8,7] = .ok 15 := rfl
  rw [hcollect]
  dsimp only
  rw [hagg,Outcome.ofExcept_ok,Outcome.ok_bind]
  cases hnew : newMessage unsignedMessage
      ⟨(Bits.add 2 0).bytes,ByteArrayOf.copy (blst.compress 15)⟩ with
  | error e =>
    rw [hnew] at hok
    cases hok
  | ok message => exact ⟨_,rfl⟩

theorem aggregate_both_verifies : ∃ result,
    aggregator.aggregateSignatures blst arrivals unsignedMessage 67 = .ok result ∧
      result.message.signature.verify blst result.message.unsignedMessage
        result.message.unsignedMessage.networkID pChain 0 67 warpQuorumDenominator = .ok () := by
  obtain ⟨result,hresult⟩ := aggregate_both
  have harrivals : arrivals.Perm aggregator.validators.zipIdx := .swap _ _ _
  exact ⟨result,hresult,(aggregateSignatures_verifies blstRules (.refl _) flatten_validatorSet
    harrivals unsignedMessage 67 hresult pChain 0 rfl rfl).1⟩

/-- The signatures of the two validators. -/
def bothSigners : BitSetSignature := ⟨Bits.bytes 3,ByteArrayOf.copy (blst.compress 15)⟩

theorem bothSigners_verifies :
    bothSigners.verify blst unsignedMessage 0 pChain 0 67 warpQuorumDenominator = .ok () := by
  have hsubnet : pChain.getSubnetID unsignedMessage.sourceChainID = .ok zeroID := rfl
  have hset : pChain.getValidatorSet 0 zeroID = .ok validatorSet := rfl
  have hlen : Bits.bitLen 3 ≤ [validator,otherValidator].length := by decide
  have hsum : (2 : UInt64).toNat = weightSum (Bits.select 3 [validator,otherValidator]) := by decide
  have hweight : verifyWeight 2 2 67 warpQuorumDenominator = .ok () :=
    verifyWeight_ok_iff.mpr (by decide)
  have hsig : blst.signatureFromBytes bothSigners.signature.1 = .ok 15 := by
    decide +kernel
  have hkey : aggregatePublicKeys blst (Bits.select 3 [validator,otherValidator]) = .ok 15 := by
    decide
  have hverify : blst.verify 15 15 unsignedMessage.bytes = true := by decide
  exact BitSetSignature.verify_bytes hsubnet hset flatten_validatorSet hlen hsum hweight hsig hkey
    hverify

theorem bothSigners_sound : ∃ positions : Finset ℕ, positions.card = 2 ∧
    bothSigners.numSigners = .ok positions.card ∧ Bits.Shortest bothSigners.signers := by
  obtain ⟨_,_,_,_,_,_,_,positions,_,_,hshortest,_,_,hnum,_⟩ :=
    BitSetSignature.verify_sound bothSigners_verifies
  have htwo : bothSigners.numSigners = .ok 2 := by decide +kernel
  exact ⟨positions,Except.ok.inj (hnum.symm.trans htwo),hnum,hshortest⟩

end Sample
end Landslide.Warp
