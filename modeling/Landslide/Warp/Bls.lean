import Landslide.Warp.Messages

/-! # BLS signatures

The curve library is a parameter. What the bls package adds to it are the refusals: no keys
or signatures to aggregate, and bytes that are no valid signature.
-/
namespace Landslide.Warp
variable {PK Sig : Type}

/-- The operations of `blst` that the bls package calls. -/
structure Blst (PK Sig : Type) where
  verify : PK → Sig → Bytes → Bool
  serialize : PK → Bytes
  compress : Sig → Bytes
  uncompress : Bytes → Option Sig
  sigValidate : Sig → Bool
  /-- `P1Aggregate` and `P2Aggregate`; `none` where `Aggregate` says no. -/
  aggregateP1 : List PK → Option PK
  aggregateP2 : List Sig → Option Sig

/-- Signatures of one message that verify one by one aggregate to one that can be sent and that
verifies under the aggregated key, in whatever order the keys are aggregated. -/
structure BlstRules (blst : Blst PK Sig) : Prop where
  serialize_injective : Function.Injective blst.serialize
  compress_length : ∀ sig, (blst.compress sig).length = signatureLen
  aggregate_valid : ∀ {signed : List (PK × Sig)} {msg : Bytes} {agg : Sig}, signed ≠ [] →
    (∀ s ∈ signed, blst.verify s.1 s.2 msg = true) →
    blst.aggregateP2 (signed.map Prod.snd) = some agg →
    blst.uncompress (blst.compress agg) = some agg ∧ blst.sigValidate agg = true
  aggregate_verifies : ∀ {signed : List (PK × Sig)} {msg : Bytes} {agg : Sig}, signed ≠ [] →
    (∀ s ∈ signed, blst.verify s.1 s.2 msg = true) →
    blst.aggregateP2 (signed.map Prod.snd) = some agg →
    ∀ {pks : List PK}, pks.Perm (signed.map Prod.fst) →
      ∃ pk, blst.aggregateP1 pks = some pk ∧ blst.verify pk agg msg = true

inductive BLSError where
  | noPublicKeys
  | failedPublicKeyAggregation
  | failedSignatureDecompress
  | invalidSignature
  | noSignatures
  | failedSignatureAggregation
  deriving DecidableEq

def BLSError.text : BLSError → String
  | noPublicKeys => "no public keys"
  | failedPublicKeyAggregation => "couldn't aggregate public keys"
  | failedSignatureDecompress => "couldn't decompress signature"
  | invalidSignature => "invalid signature"
  | noSignatures => "no signatures"
  | failedSignatureAggregation => "couldn't aggregate signatures"

namespace Blst
variable (blst : Blst PK Sig)

def signatureFromBytes (sigBytes : Bytes) : Except BLSError Sig :=
  match blst.uncompress sigBytes with
  | none => .error .failedSignatureDecompress
  | some sig => if blst.sigValidate sig then .ok sig else .error .invalidSignature

def aggregateNonempty {α : Type} (aggregate : List α → Option α) (empty failed : BLSError) :
    List α → Except BLSError α
  | [] => .error empty
  | a :: as => match aggregate (a :: as) with
    | none => .error failed
    | some agg => .ok agg

def aggregatePublicKeys (pks : List PK) : Except BLSError PK :=
  aggregateNonempty blst.aggregateP1 .noPublicKeys .failedPublicKeyAggregation pks

def aggregateSignatures (sigs : List Sig) : Except BLSError Sig :=
  aggregateNonempty blst.aggregateP2 .noSignatures .failedSignatureAggregation sigs

theorem aggregateNonempty_ok_iff {α : Type} {aggregate : List α → Option α} {empty failed : BLSError}
    {as : List α} {agg : α} : aggregateNonempty aggregate empty failed as = .ok agg ↔
      as ≠ [] ∧ aggregate as = some agg := by
  cases as with
  | nil => exact ⟨fun h => (nomatch h),fun h => absurd rfl h.1⟩
  | cons a as =>
    rw [aggregateNonempty]
    cases aggregate (a :: as) with
    | none => exact ⟨fun h => (nomatch h),fun h => (nomatch h.2)⟩
    | some agg' => simp

variable {blst} {signed : List (PK × Sig)} {msg : Bytes} {agg : Sig}

theorem signatureFromBytes_aggregate (hblst : BlstRules blst)
    (hverify : ∀ s ∈ signed, blst.verify s.1 s.2 msg = true)
    (hagg : blst.aggregateSignatures (signed.map Prod.snd) = .ok agg) :
    blst.signatureFromBytes (blst.compress agg) = .ok agg := by
  obtain ⟨hne,hagg⟩ := aggregateNonempty_ok_iff.mp hagg
  have hne : signed ≠ [] := fun h => hne (h ▸ List.map_nil)
  obtain ⟨hread,hvalid⟩ := hblst.aggregate_valid hne hverify hagg
  rw [signatureFromBytes,hread]
  exact if_pos hvalid

theorem verify_aggregate (hblst : BlstRules blst)
    (hverify : ∀ s ∈ signed, blst.verify s.1 s.2 msg = true)
    (hagg : blst.aggregateSignatures (signed.map Prod.snd) = .ok agg) {pks : List PK}
    (hpks : pks.Perm (signed.map Prod.fst)) :
    ∃ pk, blst.aggregatePublicKeys pks = .ok pk ∧ blst.verify pk agg msg = true := by
  obtain ⟨hne,hagg⟩ := aggregateNonempty_ok_iff.mp hagg
  have hne : signed ≠ [] := fun h => hne (h ▸ List.map_nil)
  obtain ⟨pk,hpk,hv⟩ := hblst.aggregate_verifies hne hverify hagg hpks
  refine ⟨pk,aggregateNonempty_ok_iff.mpr ⟨fun hnil => hne ?_,hpk⟩,hv⟩
  rw [hnil] at hpks
  exact List.map_eq_nil_iff.mp hpks.nil_eq.symm

end Blst
end Landslide.Warp
