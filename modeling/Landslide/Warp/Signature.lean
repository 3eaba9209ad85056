import Landslide.Lib.Bits
import Landslide.Warp.Validators

/-! # Verifying a signed message

A bit-set signature names its signers by their index in the canonical validator list. The
verifier flattens the set again, selects the signers, compares their weight with the quorum
and checks the aggregate signature under the aggregate of their keys.
-/
namespace Landslide.Warp
open Codec
variable {PK Sig : Type}

/-! ## Signers and their weight -/

def filterValidators (indices : Bits) (vdrs : List (Validator PK)) :
    Except WarpError (List (Validator PK)) :=
  if vdrs.length < indices.bitLen then .error (.unknownValidator indices.bitLen vdrs.length)
  else .ok (indices.select vdrs)

def sumWeight (vdrs : List (Validator PK)) : Except WarpError UInt64 :=
  vdrs.foldlM (fun weight vdr => addWeight weight vdr.weight) 0

def aggregatePublicKeys (blst : Blst PK Sig) (vdrs : List (Validator PK)) : Except BLSError PK :=
  blst.aggregatePublicKeys (vdrs.map Validator.publicKey)

/-- On big integers. -/
def verifyWeight (sigWeight totalWeight quorumNum quorumDen : UInt64) : Except WarpError Unit :=
  if quorumDen.toNat * sigWeight.toNat < quorumNum.toNat * totalWeight.toNat then
    .error (.insufficientWeight quorumNum totalWeight quorumDen sigWeight)
  else .ok ()

theorem verifyWeight_ok_iff {sigWeight totalWeight quorumNum quorumDen : UInt64} :
    verifyWeight sigWeight totalWeight quorumNum quorumDen = .ok () ↔
      quorumNum.toNat * totalWeight.toNat ≤ quorumDen.toNat * sigWeight.toNat := by
  unfold verifyWeight
  split
  · next h => exact ⟨fun h' => (nomatch h'),fun h' => absurd h' (not_le.mpr h)⟩
  · next h => exact ⟨fun _ => not_lt.mp h,fun _ => rfl⟩

theorem foldlM_addWeight_ok {vdrs : List (Validator PK)} {weight sum : UInt64}
    (h : sum.toNat = weight.toNat + weightSum vdrs) :
    vdrs.foldlM (fun weight vdr => addWeight weight vdr.weight) weight = .ok sum := by
  induction vdrs generalizing weight with
  | nil => exact congrArg Except.ok (UInt64.toNat_inj.mp h).symm
  | cons v vdrs ih =>
    simp only [weightSum,List.map_cons,List.sum_cons] at h
    have hlt := sum.toNat_lt
    have hsum : (weight + v.weight).toNat = weight.toNat + v.weight.toNat := by
      rw [UInt64.toNat_add,Nat.mod_eq_of_lt (by omega)]
    rw [List.foldlM_cons,addWeight_ok_iff.mpr hsum]
    exact ih (by rw [hsum,weightSum]; omega)

theorem sumWeight_eq {vdrs : List (Validator PK)} {sum : UInt64} (h : sum.toNat = weightSum vdrs) :
    sumWeight vdrs = .ok sum :=
  foldlM_addWeight_ok (by simpa using h)

/-! ## Messages -/

structure BitSetSignature where
  signers : Bytes
  signature : ByteArrayOf signatureLen
  deriving DecidableEq

structure Message where
  unsignedMessage : UnsignedMessage
  signature : BitSetSignature
  bytes : Bytes
  deriving DecidableEq

def Message.value (unsignedMsg : UnsignedMessage) (signature : BitSetSignature) : Val TypeName :=
  .struct [UnsignedMessage.value unsignedMsg.networkID unsignedMsg.sourceChainID unsignedMsg.payload,
    .iface (pointer .bitSetSignature)
      (.ptr (.struct [.bytes signature.signers,.bytes signature.signature.1]))]

def newMessage (unsignedMsg : UnsignedMessage) (signature : BitSetSignature) :
    Except CodecError Message := do
  let bytes ← warpCodec.marshal depth (.struct .message) (Message.value unsignedMsg signature)
  .ok ⟨unsignedMsg,signature,bytes⟩

/-! ## Verification -/

/-- `validators.State`: the map of the validator set is the list of its values, in the order in
which they are visited. -/
structure PChainState (PK : Type) where
  getSubnetID : ID → Except String ID
  getValidatorSet : UInt64 → ID → Except String (List (GetValidatorOutput PK))

def BitSetSignature.verify (blst : Blst PK Sig) (s : BitSetSignature) (msg : UnsignedMessage)
    (networkID : UInt32) (pChainState : PChainState PK)
    (pChainHeight quorumNum quorumDen : UInt64) : Except WarpError Unit := do
  if msg.networkID ≠ networkID then .error .wrongNetworkID
  let subnetID ← (pChainState.getSubnetID msg.sourceChainID).mapError .getSubnetID
  let vdrSet ← (pChainState.getValidatorSet pChainHeight subnetID).mapError .getValidatorSet
  let (vdrs,totalWeight) ← flattenValidatorSet blst.serialize vdrSet
  let signerIndices := Bits.ofBytes s.signers
  if signerIndices.bytes.length ≠ s.signers.length then .error .invalidBitSet
  let signers ← filterValidators signerIndices vdrs
  -- the error is dropped, and the weight is then zero
  let sigWeight := (sumWeight signers).toOption.getD 0
  verifyWeight sigWeight totalWeight quorumNum quorumDen
  let aggSig ← (blst.signatureFromBytes s.signature.1).mapError .parseSignature
  let aggPubKey ← (aggregatePublicKeys blst signers).mapError .bls
  if blst.verify aggPubKey aggSig msg.bytes then .ok () else .error .invalidSignature

def BitSetSignature.numSigners (s : BitSetSignature) : Except WarpError ℕ :=
  let signerIndices := Bits.ofBytes s.signers
  if signerIndices.bytes.length ≠ s.signers.length then .error .invalidBitSet
  else .ok signerIndices.len

section
variable {blst : Blst PK Sig} {indices : Bits} {signature : ByteArrayOf signatureLen}
variable {msg : UnsignedMessage} {pChainState : PChainState PK}
variable {pChainHeight quorumNum quorumDen totalWeight sigWeight : UInt64} {subnetID : ID}
variable {vdrSet : List (GetValidatorOutput PK)} {vdrs : List (Validator PK)}
variable {aggSig : Sig} {aggPubKey : PK}

/-- What a signature over the shortest form of a bit set has to meet. -/
theorem BitSetSignature.verify_bytes
    (hsubnet : pChainState.getSubnetID msg.sourceChainID = .ok subnetID)
    (hset : pChainState.getValidatorSet pChainHeight subnetID = .ok vdrSet)
    (hflatten : flattenValidatorSet blst.serialize vdrSet = .ok (vdrs,totalWeight))
    (hlen : indices.bitLen ≤ vdrs.length)
    (hsum : sigWeight.toNat = weightSum (indices.select vdrs))
    (hweight : verifyWeight sigWeight totalWeight quorumNum quorumDen = .ok ())
    (hsig : blst.signatureFromBytes signature.1 = .ok aggSig)
    (hkey : aggregatePublicKeys blst (indices.select vdrs) = .ok aggPubKey)
    (hverify : blst.verify aggPubKey aggSig msg.bytes = true) :
    BitSetSignature.verify blst ⟨indices.bytes,signature⟩ msg msg.networkID pChainState pChainHeight
      quorumNum quorumDen = .ok () := by
  have hfilter : filterValidators indices vdrs = .ok (indices.select vdrs) :=
    if_neg (not_lt.mpr hlen)
  simp only [BitSetSignature.verify,ne_eq,not_true_eq_false,if_false,hsubnet,hset,hflatten,
    Except.mapError,Bits.ofBytes_bytes,hfilter,sumWeight_eq hsum,Except.toOption,Option.getD_some,
    hweight,hsig,hkey,hverify,if_true,bind,Except.bind]

end

/-! ## What an accepted signature proves -/

section
variable {blst : Blst PK Sig} {s : BitSetSignature} {msg : UnsignedMessage} {networkID : UInt32}
variable {pChainState : PChainState PK} {pChainHeight quorumNum quorumDen : UInt64}

theorem BitSetSignature.verify_ok
    (h : s.verify blst msg networkID pChainState pChainHeight quorumNum quorumDen = .ok ()) :
    ∃ subnetID vdrSet vdrs totalWeight aggSig aggPubKey,
      pChainState.getSubnetID msg.sourceChainID = .ok subnetID ∧
      pChainState.getValidatorSet pChainHeight subnetID = .ok vdrSet ∧
      flattenValidatorSet blst.serialize vdrSet = .ok (vdrs,totalWeight) ∧
      (Bits.ofBytes s.signers).bytes.length = s.signers.length ∧
      (Bits.ofBytes s.signers).bitLen ≤ vdrs.length ∧
      verifyWeight ((sumWeight ((Bits.ofBytes s.signers).select vdrs)).toOption.getD 0) totalWeight
        quorumNum quorumDen = .ok () ∧
      blst.signatureFromBytes s.signature.1 = .ok aggSig ∧
      aggregatePublicKeys blst ((Bits.ofBytes s.signers).select vdrs) = .ok aggPubKey ∧
      blst.verify aggPubKey aggSig msg.bytes = true := by
  unfold BitSetSignature.verify at h
  dsimp only at h
  split at h
  · cases h
  obtain ⟨subnetID,hsubnet,h⟩ := bind_eq_ok h
  obtain ⟨vdrSet,hset,h⟩ := bind_eq_ok h
  obtain ⟨⟨vdrs,totalWeight⟩,hflatten,h⟩ := bind_eq_ok h
  dsimp only at h
  split at h
  · cases h
  next hlen =>
  obtain ⟨signers,hfilter,h⟩ := bind_eq_ok h
  obtain ⟨_,hweight,h⟩ := bind_eq_ok h
  obtain ⟨aggSig,hsig,h⟩ := bind_eq_ok h
  obtain ⟨aggPubKey,hkey,hchecked⟩ := bind_eq_ok h
  unfold filterValidators at hfilter
  split at hfilter
  · cases hfilter
  next hle =>
  cases hfilter
  refine ⟨subnetID,vdrSet,vdrs,totalWeight,aggSig,aggPubKey,mapError_eq_ok hsubnet,
    mapError_eq_ok hset,hflatten,not_not.mp hlen,not_lt.mp hle,hweight,mapError_eq_ok hsig,
    mapError_eq_ok hkey,?_⟩
  by_contra hne
  rw [if_neg hne] at hchecked
  cases hchecked

/-- The weights of some of the validators of a flattened set add up without overflow. -/
theorem Flattens.sumWeight_select {vdrSet : List (GetValidatorOutput PK)}
    {vdrs : List (Validator PK)} {totalWeight : UInt64} {pkBytes : PK → Bytes}
    (h : Flattens pkBytes vdrSet vdrs totalWeight) (indices : Bits) :
    ∃ sigWeight, sumWeight (indices.select vdrs) = .ok sigWeight ∧
      sigWeight.toNat = weightSum (indices.select vdrs) := by
  have hle : weightSum (indices.select vdrs) ≤ weightSum vdrs :=
    ((indices.select_sublist vdrs).map _).sum_le_sum fun _ _ => Nat.zero_le _
  have hlt : weightSum (indices.select vdrs) < 2 ^ 64 :=
    lt_of_le_of_lt (hle.trans h.sum_le) totalWeight.toNat_lt
  have heq : (UInt64.ofNat (weightSum (indices.select vdrs))).toNat =
      weightSum (indices.select vdrs) := by
    rw [UInt64.toNat_ofNat',Nat.mod_eq_of_lt hlt]
  exact ⟨_,sumWeight_eq heq,heq⟩

/-- The validators at the positions in the set. -/
def validatorsAt (positions : Finset ℕ) (vdrs : List (Validator PK)) : List (Validator PK) :=
  (vdrs.zipIdx.filter fun p => p.2 ∈ positions).map Prod.fst

/-- An accepted signature names a set of validators in the only shortest way; they have the
quorum, and the aggregate signature is one of exactly these validators. -/
theorem BitSetSignature.verify_sound
    (h : s.verify blst msg networkID pChainState pChainHeight quorumNum quorumDen = .ok ()) :
    ∃ subnetID vdrSet vdrs totalWeight,
      pChainState.getSubnetID msg.sourceChainID = .ok subnetID ∧
      pChainState.getValidatorSet pChainHeight subnetID = .ok vdrSet ∧
      flattenValidatorSet blst.serialize vdrSet = .ok (vdrs,totalWeight) ∧
      ∃ positions : Finset ℕ, positions = (Bits.ofBytes s.signers).members ∧
        (∀ i ∈ positions, i < vdrs.length) ∧ Bits.Shortest s.signers ∧
        quorumNum.toNat * totalWeight.toNat ≤
          quorumDen.toNat * ((validatorsAt positions vdrs).map fun v => v.weight.toNat).sum ∧
        (∃ aggSig aggPubKey, blst.signatureFromBytes s.signature.1 = .ok aggSig ∧
          blst.aggregatePublicKeys ((validatorsAt positions vdrs).map Validator.publicKey) =
            .ok aggPubKey ∧ blst.verify aggPubKey aggSig msg.bytes = true) ∧
        s.numSigners = .ok positions.card ∧
        ∀ (s' : BitSetSignature) (msg' : UnsignedMessage) (networkID' : UInt32)
          (pChainState' : PChainState PK) (pChainHeight' quorumNum' quorumDen' : UInt64),
          s'.verify blst msg' networkID' pChainState' pChainHeight' quorumNum' quorumDen' = .ok () →
          (Bits.ofBytes s'.signers).members = positions → s'.signers = s.signers := by
  obtain ⟨subnetID,vdrSet,vdrs,totalWeight,aggSig,aggPubKey,hsubnet,hset,hflatten,hlen,hle,hweight,
    hsig,hkey,hverify⟩ := verify_ok h
  have hselect : (Bits.ofBytes s.signers).select vdrs =
      validatorsAt (Bits.ofBytes s.signers).members vdrs := Bits.select_eq_members _ _
  have hflat := (flattenValidatorSet_canonical hflatten).toFlattens
  obtain ⟨sigWeight,hsum,hsigWeight⟩ := hflat.sumWeight_select (Bits.ofBytes s.signers)
  have hshortest := Bits.shortest_of_length hlen
  refine ⟨subnetID,vdrSet,vdrs,totalWeight,hsubnet,hset,hflatten,_,rfl,fun i hi => ?_,hshortest,?_,
    ⟨aggSig,aggPubKey,hsig,?_,hverify⟩,?_,?_⟩
  · exact lt_of_lt_of_le (Bits.lt_bitLen (Bits.mem_members.mp hi)) hle
  · rw [hsum] at hweight
    have hquorum := verifyWeight_ok_iff.mp hweight
    rw [Except.toOption,Option.getD_some,hsigWeight,hselect] at hquorum
    exact hquorum
  · rw [← hselect]
    exact hkey
  · rw [numSigners,if_neg (not_not.mpr hlen),Bits.len_eq_card]
  · intro s' msg' networkID' pChainState' pChainHeight' quorumNum' quorumDen' h' hmembers
    obtain ⟨_,_,_,_,_,_,_,_,_,hlen',_⟩ := verify_ok h'
    exact hshortest.eq (Bits.shortest_of_length hlen') hmembers

end
end Landslide.Warp
