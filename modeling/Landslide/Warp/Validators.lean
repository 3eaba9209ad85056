import Landslide.Lib.KeySort
import Landslide.Warp.Bls

/-! # The canonical validator list

A validator set is a map, visited in any order. Flattening it merges the validators that
share a public key and sorts them by the bytes of the key, so that everyone who has the set
gets the same list with the same weights.
-/
namespace Landslide.Warp
variable {PK : Type}

structure GetValidatorOutput (PK : Type) where
  nodeID : Bytes
  publicKey : Option PK
  weight : UInt64

structure Validator (PK : Type) where
  publicKey : PK
  publicKeyBytes : Bytes
  weight : UInt64
  nodeIDs : List Bytes

inductive WarpError where
  | weightOverflow
  | unknownValidator (numIndices numValidators : ℕ)
  | wrongNetworkID
  | invalidBitSet
  | insufficientWeight (quorumNum totalWeight quorumDen sigWeight : UInt64)
  | parseSignature (e : BLSError)
  | invalidSignature
  | bls (e : BLSError)
  | getValidatorSet (e : String)
  | getSubnetID (e : String)
  deriving DecidableEq

def WarpError.text : WarpError → String
  | weightOverflow => "weight overflowed: overflow"
  | unknownValidator numIndices numValidators => "unknown validator: NumIndices (" ++
      toString (numIndices - 1) ++ ") >= NumFilteredValidators (" ++ toString numValidators ++ ")"
  | wrongNetworkID => "wrong networkID"
  | invalidBitSet => "bitset is invalid"
  | insufficientWeight quorumNum totalWeight quorumDen sigWeight =>
    "signature weight is insufficient: " ++ toString quorumNum ++ "*" ++ toString totalWeight ++
      " > " ++ toString quorumDen ++ "*" ++ toString sigWeight
  | parseSignature e => "failed to parse signature: " ++ e.text
  | invalidSignature => "signature is invalid"
  | bls e => e.text
  | getValidatorSet e => "failed to get validator set: " ++ e
  | getSubnetID e => e

/-- `math.Add` of two weights. -/
def addWeight (a b : UInt64) : Except WarpError UInt64 :=
  if a.toNat + b.toNat < 2 ^ 64 then .ok (a + b) else .error .weightOverflow

theorem addWeight_ok_iff {a b c : UInt64} :
    addWeight a b = .ok c ↔ c.toNat = a.toNat + b.toNat := by
  unfold addWeight
  split
  · next h =>
    have hsum : (a + b).toNat = a.toNat + b.toNat := by
      rw [UInt64.toNat_add,Nat.mod_eq_of_lt h]
    rw [Except.ok.injEq,← UInt64.toNat_inj,hsum,eq_comm]
  · next h =>
    have hc := c.toNat_lt
    exact ⟨fun h' => (nomatch h'),fun h' => absurd (h' ▸ hc) h⟩

/-! ## Flattening -/

/-- One step with a public key: the first validator with the key is kept and gets the weight.
The addition is that of `uint64`. -/
def mergeValidator (v : Validator PK) : List (Validator PK) → List (Validator PK)
  | [] => [v]
  | u :: us =>
    if u.publicKeyBytes = v.publicKeyBytes then
      { u with weight := u.weight + v.weight, nodeIDs := u.nodeIDs ++ v.nodeIDs } :: us
    else u :: mergeValidator v us

def flattenLoop (pkBytes : PK → Bytes) :
    List (GetValidatorOutput PK) → List (Validator PK) → UInt64 →
      Except WarpError (List (Validator PK) × UInt64)
  | [], vdrs, totalWeight => .ok (vdrs,totalWeight)
  | vdr :: vdrSet, vdrs, totalWeight => do
    let totalWeight ← addWeight totalWeight vdr.weight
    match vdr.publicKey with
    | none => flattenLoop pkBytes vdrSet vdrs totalWeight
    | some pk =>
      flattenLoop pkBytes vdrSet (mergeValidator ⟨pk,pkBytes pk,vdr.weight,[vdr.nodeID]⟩ vdrs)
        totalWeight

/-- `FlattenValidatorSet`, for one order in which the map is visited. -/
def flattenValidatorSet (pkBytes : PK → Bytes) (vdrSet : List (GetValidatorOutput PK)) :
    Except WarpError (List (Validator PK) × UInt64) := do
  let (vdrs,totalWeight) ← flattenLoop pkBytes vdrSet [] 0
  .ok (vdrs.mergeSort fun v o => ¬o.publicKeyBytes < v.publicKeyBytes,totalWeight)

/-! ## What the list consists of -/

/-- The weight of a key in the set. -/
def keyWeight (pkBytes : PK → Bytes) (vdrSet : List (GetValidatorOutput PK)) (key : Bytes) : ℕ :=
  (vdrSet.map fun vdr => if vdr.publicKey.map pkBytes = some key then vdr.weight.toNat else 0).sum

def weightSum (vdrs : List (Validator PK)) : ℕ := (vdrs.map fun v => v.weight.toNat).sum

/-- The validators are those of the set, one for each key, with the weight of the key. -/
structure Flattens (pkBytes : PK → Bytes) (vdrSet : List (GetValidatorOutput PK))
    (vdrs : List (Validator PK)) (totalWeight : UInt64) : Prop where
  total : totalWeight.toNat = (vdrSet.map fun vdr => vdr.weight.toNat).sum
  nodup : (vdrs.map Validator.publicKeyBytes).Nodup
  mem_iff : ∀ key, key ∈ vdrs.map Validator.publicKeyBytes ↔
    ∃ vdr ∈ vdrSet, vdr.publicKey.map pkBytes = some key
  key : ∀ v ∈ vdrs, pkBytes v.publicKey = v.publicKeyBytes
  weight : ∀ v ∈ vdrs, v.weight.toNat = keyWeight pkBytes vdrSet v.publicKeyBytes
  sum_le : weightSum vdrs ≤ totalWeight.toNat
  nodeIDs : ∀ v ∈ vdrs, v.nodeIDs ≠ []

theorem flattens_nil (pkBytes : PK → Bytes) : Flattens pkBytes [] [] 0 :=
  ⟨rfl,List.nodup_nil,by simp,by simp,by simp,le_rfl,by simp⟩

/-! ## One step -/

section
variable {v : Validator PK} {us : List (Validator PK)}

theorem mergeValidator_keys (v : Validator PK) (us : List (Validator PK)) :
    (mergeValidator v us).map Validator.publicKeyBytes =
      if v.publicKeyBytes ∈ us.map Validator.publicKeyBytes then us.map Validator.publicKeyBytes
      else us.map Validator.publicKeyBytes ++ [v.publicKeyBytes] := by
  induction us with
  | nil => rfl
  | cons u us ih =>
    by_cases hu : u.publicKeyBytes = v.publicKeyBytes
    · simp [mergeValidator,hu]
    · have hne : ¬v.publicKeyBytes = u.publicKeyBytes := fun h => hu h.symm
      rw [mergeValidator,if_neg hu,List.map_cons,ih]
      simp only [List.map_cons,List.mem_cons,hne,false_or]
      split <;> rfl

theorem weightSum_mergeValidator (h : ∀ u ∈ us, u.weight.toNat + v.weight.toNat < 2 ^ 64) :
    weightSum (mergeValidator v us) = weightSum us + v.weight.toNat := by
  induction us with
  | nil => simp [mergeValidator,weightSum]
  | cons u us ih =>
    rw [mergeValidator]
    split
    · have hsum : (u.weight + v.weight).toNat = u.weight.toNat + v.weight.toNat := by
        rw [UInt64.toNat_add,Nat.mod_eq_of_lt (h u List.mem_cons_self)]
      simp only [weightSum,List.map_cons,List.sum_cons,hsum]
      omega
    · have ih := ih fun w hw => h w (List.mem_cons_of_mem _ hw)
      simp only [weightSum,List.map_cons,List.sum_cons] at ih ⊢
      omega

/-- Where a validator of the new list comes from: it is an old one with another key, the old
one with this key and the weights added, or the new one. -/
theorem mem_mergeValidator (hnodup : (us.map Validator.publicKeyBytes).Nodup) {w : Validator PK}
    (hw : w ∈ mergeValidator v us) :
    (w ∈ us ∧ w.publicKeyBytes ≠ v.publicKeyBytes) ∨
    (∃ u ∈ us, u.publicKeyBytes = v.publicKeyBytes ∧
      w = { u with weight := u.weight + v.weight, nodeIDs := u.nodeIDs ++ v.nodeIDs }) ∨
    (v.publicKeyBytes ∉ us.map Validator.publicKeyBytes ∧ w = v) := by
  induction us with
  | nil => exact .inr (.inr ⟨List.not_mem_nil,List.mem_singleton.mp hw⟩)
  | cons u us ih =>
    rw [List.map_cons,List.nodup_cons] at hnodup
    rw [mergeValidator] at hw
    split at hw
    · next hu =>
      rcases List.mem_cons.mp hw with rfl | hw
      · exact .inr (.inl ⟨u,List.mem_cons_self,hu,rfl⟩)
      · refine .inl ⟨List.mem_cons_of_mem _ hw,fun heq => hnodup.1 ?_⟩
        rw [hu,← heq]
        exact List.mem_map_of_mem hw
    · next hu =>
      rcases List.mem_cons.mp hw with rfl | hw
      · exact .inl ⟨List.mem_cons_self,hu⟩
      · rcases ih hnodup.2 hw with ⟨hin,hne⟩ | ⟨u',hu',hkey,heq⟩ | ⟨hout,heq⟩
        · exact .inl ⟨List.mem_cons_of_mem _ hin,hne⟩
        · exact .inr (.inl ⟨u',List.mem_cons_of_mem _ hu',hkey,heq⟩)
        · refine .inr (.inr ⟨fun hin => ?_,heq⟩)
          rcases List.mem_cons.mp hin with heq | hin
          · exact hu heq.symm
          · exact hout hin

end

section
variable {pkBytes : PK → Bytes} {vdrSet : List (GetValidatorOutput PK)} {vdrs : List (Validator PK)}
variable {totalWeight totalWeight' : UInt64}

theorem keyWeight_concat_of_eq {vdr : GetValidatorOutput PK} {key : Bytes}
    (h : vdr.publicKey.map pkBytes = some key) :
    keyWeight pkBytes (vdrSet ++ [vdr]) key = keyWeight pkBytes vdrSet key + vdr.weight.toNat := by
  simp only [keyWeight,List.map_append,List.sum_append,List.map_cons,List.map_nil,List.sum_singleton,
    if_pos h]

theorem keyWeight_concat_of_ne {vdr : GetValidatorOutput PK} {key : Bytes}
    (h : vdr.publicKey.map pkBytes ≠ some key) :
    keyWeight pkBytes (vdrSet ++ [vdr]) key = keyWeight pkBytes vdrSet key := by
  simp only [keyWeight,List.map_append,List.sum_append,List.map_cons,List.map_nil,List.sum_singleton,
    if_neg h,add_zero]

theorem keyWeight_eq_zero {key : Bytes}
    (h : ∀ vdr ∈ vdrSet, vdr.publicKey.map pkBytes ≠ some key) :
    keyWeight pkBytes vdrSet key = 0 := by
  refine List.sum_eq_zero fun n hn => ?_
  obtain ⟨vdr,hvdr,rfl⟩ := List.mem_map.mp hn
  exact if_neg (h vdr hvdr)

theorem Flattens.total_concat (h : Flattens pkBytes vdrSet vdrs totalWeight)
    {vdr : GetValidatorOutput PK} (hadd : addWeight totalWeight vdr.weight = .ok totalWeight') :
    totalWeight'.toNat = ((vdrSet ++ [vdr]).map fun vdr => vdr.weight.toNat).sum := by
  rw [addWeight_ok_iff.mp hadd,h.total]
  simp

theorem Flattens.skip (h : Flattens pkBytes vdrSet vdrs totalWeight) {vdr : GetValidatorOutput PK}
    (hadd : addWeight totalWeight vdr.weight = .ok totalWeight') (hpk : vdr.publicKey = none) :
    Flattens pkBytes (vdrSet ++ [vdr]) vdrs totalWeight' := by
  refine ⟨h.total_concat hadd,h.nodup,fun key => ?_,h.key,fun v hv => ?_,?_,h.nodeIDs⟩
  · rw [h.mem_iff]
    simp [hpk]
  · rw [h.weight v hv,keyWeight_concat_of_ne (by simp [hpk])]
  · have hle := h.sum_le
    have heq := addWeight_ok_iff.mp hadd
    omega

theorem Flattens.room (h : Flattens pkBytes vdrSet vdrs totalWeight) {weight : UInt64}
    (hadd : addWeight totalWeight weight = .ok totalWeight') {u : Validator PK} (hu : u ∈ vdrs) :
    u.weight.toNat + weight.toNat < 2 ^ 64 := by
  have heq := addWeight_ok_iff.mp hadd
  have hlt := totalWeight'.toNat_lt
  have hle := h.sum_le
  have hu : u.weight.toNat ≤ weightSum vdrs := List.single_le_sum (fun _ _ => Nat.zero_le _) _
    (List.mem_map_of_mem hu)
  omega

theorem Flattens.merge (h : Flattens pkBytes vdrSet vdrs totalWeight) {vdr : GetValidatorOutput PK}
    (hadd : addWeight totalWeight vdr.weight = .ok totalWeight') {pk : PK}
    (hpk : vdr.publicKey = some pk) :
    Flattens pkBytes (vdrSet ++ [vdr])
      (mergeValidator ⟨pk,pkBytes pk,vdr.weight,[vdr.nodeID]⟩ vdrs) totalWeight' := by
  have hkeys := mergeValidator_keys ⟨pk,pkBytes pk,vdr.weight,[vdr.nodeID]⟩ vdrs
  refine ⟨h.total_concat hadd,?_,fun key => ?_,fun w hw => ?_,fun w hw => ?_,?_,fun w hw => ?_⟩
  · rw [hkeys]
    split
    · exact h.nodup
    · next hnew => exact List.nodup_append.mpr ⟨h.nodup,List.nodup_singleton _,by simpa using hnew⟩
  · have hmem : (∃ o ∈ vdrSet ++ [vdr], o.publicKey.map pkBytes = some key) ↔
        key ∈ vdrs.map Validator.publicKeyBytes ∨ pkBytes pk = key := by
      rw [h.mem_iff]
      simp [or_and_right,exists_or,hpk]
    rw [hmem,hkeys]
    split
    · next hold => exact ⟨.inl,fun hkey => hkey.elim id fun heq => heq ▸ hold⟩
    · simp [eq_comm]
  · rcases mem_mergeValidator h.nodup hw with ⟨hin,_⟩ | ⟨u,hu,_,rfl⟩ | ⟨_,rfl⟩
    · exact h.key w hin
    · exact h.key u hu
    · rfl
  · have hkey : vdr.publicKey.map pkBytes = some (pkBytes pk) := by rw [hpk,Option.map_some]
    rcases mem_mergeValidator h.nodup hw with ⟨hin,hne⟩ | ⟨u,hu,heq,rfl⟩ | ⟨hnew,rfl⟩
    · rw [h.weight w hin,keyWeight_concat_of_ne]
      rw [hkey]
      exact fun heq => hne (Option.some.inj heq).symm
    · rw [UInt64.toNat_add,Nat.mod_eq_of_lt (h.room hadd hu),h.weight u hu]
      exact (keyWeight_concat_of_eq (hkey.trans (congrArg some heq.symm))).symm
    · rw [keyWeight_concat_of_eq hkey,
        keyWeight_eq_zero fun o ho hkey => hnew ((h.mem_iff _).mpr ⟨o,ho,hkey⟩),zero_add]
  · have heq := addWeight_ok_iff.mp hadd
    have hle := h.sum_le
    rw [weightSum_mergeValidator fun u hu => h.room hadd hu,heq]
    exact Nat.add_le_add_right hle _
  · rcases mem_mergeValidator h.nodup hw with ⟨hin,_⟩ | ⟨u,_,_,rfl⟩ | ⟨_,rfl⟩
    · exact h.nodeIDs w hin
    · exact List.append_ne_nil_of_right_ne_nil _ (List.cons_ne_nil _ _)
    · exact List.cons_ne_nil _ _

/-! ## The whole set -/

/-- What holds of the part that was visited holds at the end of the loop, if both kinds of
turns keep it. -/
theorem flattenLoop_induction
    {P : List (GetValidatorOutput PK) → List (Validator PK) → UInt64 → Prop}
    (hskip : ∀ {vdrSet vdrs totalWeight totalWeight' vdr},
      P vdrSet vdrs totalWeight → addWeight totalWeight vdr.weight = .ok totalWeight' →
      vdr.publicKey = none → P (vdrSet ++ [vdr]) vdrs totalWeight')
    (hmerge : ∀ {vdrSet vdrs totalWeight totalWeight' vdr pk},
      P vdrSet vdrs totalWeight → addWeight totalWeight vdr.weight = .ok totalWeight' →
      vdr.publicKey = some pk → P (vdrSet ++ [vdr])
        (mergeValidator ⟨pk,pkBytes pk,vdr.weight,[vdr.nodeID]⟩ vdrs) totalWeight')
    {rest : List (GetValidatorOutput PK)} {result : List (Validator PK) × UInt64}
    (h : P vdrSet vdrs totalWeight)
    (hloop : flattenLoop pkBytes rest vdrs totalWeight = .ok result) :
    P (vdrSet ++ rest) result.1 result.2 := by
  induction rest generalizing vdrSet vdrs totalWeight with
  | nil =>
    cases hloop
    rwa [List.append_nil]
  | cons vdr rest ih =>
    obtain ⟨totalWeight',hadd,hloop⟩ := bind_eq_ok hloop
    rw [List.append_cons]
    cases hpk : vdr.publicKey with
    | none =>
      rw [hpk] at hloop
      exact ih (hskip h hadd hpk) hloop
    | some pk =>
      rw [hpk] at hloop
      exact ih (hmerge h hadd hpk) hloop

theorem flattenLoop_flattens {rest : List (GetValidatorOutput PK)}
    {result : List (Validator PK) × UInt64} (h : Flattens pkBytes vdrSet vdrs totalWeight)
    (hloop : flattenLoop pkBytes rest vdrs totalWeight = .ok result) :
    Flattens pkBytes (vdrSet ++ rest) result.1 result.2 :=
  flattenLoop_induction (P := Flattens pkBytes) (fun h hadd hpk => h.skip hadd hpk)
    (fun h hadd hpk => h.merge hadd hpk) h hloop

theorem flattenLoop_ok (pkBytes : PK → Bytes) (vdrs : List (Validator PK))
    {rest : List (GetValidatorOutput PK)}
    (h : totalWeight.toNat + (rest.map fun vdr => vdr.weight.toNat).sum < 2 ^ 64) :
    ∃ result, flattenLoop pkBytes rest vdrs totalWeight = .ok result := by
  induction rest generalizing vdrs totalWeight with
  | nil => exact ⟨_,rfl⟩
  | cons vdr rest ih =>
    rw [List.map_cons,List.sum_cons] at h
    have hlt : totalWeight.toNat + vdr.weight.toNat < 2 ^ 64 := by omega
    have hsum : (totalWeight + vdr.weight).toNat = totalWeight.toNat + vdr.weight.toNat := by
      rw [UInt64.toNat_add,Nat.mod_eq_of_lt hlt]
    rw [flattenLoop,addWeight_ok_iff.mpr hsum]
    cases vdr.publicKey with
    | none => exact ih _ (by omega)
    | some pk => exact ih _ (by omega)

structure Canonical (pkBytes : PK → Bytes) (vdrSet : List (GetValidatorOutput PK))
    (vdrs : List (Validator PK)) (totalWeight : UInt64) : Prop extends
    Flattens pkBytes vdrSet vdrs totalWeight where
  sorted : vdrs.Pairwise fun v o => v.publicKeyBytes < o.publicKeyBytes

theorem Flattens.perm {vdrs' : List (Validator PK)} (h : Flattens pkBytes vdrSet vdrs totalWeight)
    (hp : vdrs'.Perm vdrs) : Flattens pkBytes vdrSet vdrs' totalWeight where
  total := h.total
  nodup := (hp.map _).nodup_iff.mpr h.nodup
  mem_iff key := ((hp.map _).mem_iff).trans (h.mem_iff key)
  key v hv := h.key v (hp.mem_iff.mp hv)
  weight v hv := h.weight v (hp.mem_iff.mp hv)
  sum_le := (hp.map _).sum_eq.trans_le h.sum_le
  nodeIDs v hv := h.nodeIDs v (hp.mem_iff.mp hv)

theorem flattenValidatorSet_canonical
    (h : flattenValidatorSet pkBytes vdrSet = .ok (vdrs,totalWeight)) :
    Canonical pkBytes vdrSet vdrs totalWeight := by
  obtain ⟨⟨loop,total⟩,hloop,h⟩ := bind_eq_ok h
  cases h
  have hflat : Flattens pkBytes vdrSet loop totalWeight :=
    flattenLoop_flattens (flattens_nil pkBytes) hloop
  exact ⟨hflat.perm (List.mergeSort_perm _ _),mergeSort_key_strict hflat.nodup⟩

theorem flattenValidatorSet_ok (pkBytes : PK → Bytes)
    (h : (vdrSet.map fun vdr => vdr.weight.toNat).sum < 2 ^ 64) :
    ∃ vdrs totalWeight, flattenValidatorSet pkBytes vdrSet = .ok (vdrs,totalWeight) := by
  have h : (0 : UInt64).toNat + (vdrSet.map fun vdr => vdr.weight.toNat).sum < 2 ^ 64 := by
    simpa using h
  obtain ⟨result,hloop⟩ := flattenLoop_ok pkBytes [] h
  rw [flattenValidatorSet,hloop]
  exact ⟨_,_,rfl⟩

/-! ## Agreement -/

/-- What does not depend on the order in which the set was visited: all but the order of the
node IDs. -/
def Validator.face (v : Validator PK) : PK × Bytes × UInt64 :=
  (v.publicKey,v.publicKeyBytes,v.weight)

variable {vdrSet' : List (GetValidatorOutput PK)} {vdrs' : List (Validator PK)}

theorem keyWeight_perm (hp : vdrSet.Perm vdrSet') (key : Bytes) :
    keyWeight pkBytes vdrSet key = keyWeight pkBytes vdrSet' key :=
  (hp.map _).sum_eq

theorem Flattens.mem_face (hpk : Function.Injective pkBytes) (hp : vdrSet.Perm vdrSet')
    (h : Flattens pkBytes vdrSet vdrs totalWeight)
    (h' : Flattens pkBytes vdrSet' vdrs' totalWeight') {face : PK × Bytes × UInt64}
    (hface : face ∈ vdrs.map Validator.face) : face ∈ vdrs'.map Validator.face := by
  obtain ⟨v,hv,rfl⟩ := List.mem_map.mp hface
  obtain ⟨vdr,hvdr,hkey⟩ := (h.mem_iff _).mp (List.mem_map_of_mem hv)
  obtain ⟨v',hv',heq⟩ := List.mem_map.mp ((h'.mem_iff _).mpr ⟨vdr,hp.mem_iff.mp hvdr,hkey⟩)
  have hpublicKey : v'.publicKey = v.publicKey := by
    apply hpk
    rw [h.key v hv,h'.key v' hv',heq]
  have hweight : v'.weight = v.weight := by
    rw [← UInt64.toNat_inj,h.weight v hv,h'.weight v' hv',heq,keyWeight_perm hp]
  refine List.mem_map.mpr ⟨v',hv',?_⟩
  rw [Validator.face,Validator.face,hpublicKey,hweight,heq]

theorem Canonical.face_sorted (h : Canonical pkBytes vdrSet vdrs totalWeight) :
    (vdrs.map Validator.face).Pairwise fun a b => a.2.1 < b.2.1 :=
  List.pairwise_map.mpr h.sorted

theorem Canonical.face_eq (hpk : Function.Injective pkBytes) (hp : vdrSet.Perm vdrSet')
    (h : Canonical pkBytes vdrSet vdrs totalWeight)
    (h' : Canonical pkBytes vdrSet' vdrs' totalWeight') :
    vdrs.map Validator.face = vdrs'.map Validator.face := by
  have hnodup := (nodup_keys_of_pairwise h.face_sorted).of_map
  have hnodup' := (nodup_keys_of_pairwise h'.face_sorted).of_map
  have hperm : (vdrs.map Validator.face).Perm (vdrs'.map Validator.face) :=
    (List.perm_ext_iff_of_nodup hnodup hnodup').mpr fun face =>
      ⟨h.mem_face hpk hp h'.toFlattens,h'.mem_face hpk hp.symm h.toFlattens⟩
  exact perm_eq_of_strict hperm h.face_sorted h'.face_sorted

/-- Whoever flattens the set gets the same list. -/
theorem flattenValidatorSet_perm (hpk : Function.Injective pkBytes) (hp : vdrSet.Perm vdrSet')
    (h : flattenValidatorSet pkBytes vdrSet = .ok (vdrs,totalWeight)) :
    ∃ vdrs', flattenValidatorSet pkBytes vdrSet' = .ok (vdrs',totalWeight) ∧
      vdrs'.map Validator.face = vdrs.map Validator.face := by
  have hcan := flattenValidatorSet_canonical h
  have hsum := (hp.map fun vdr => vdr.weight.toNat).sum_eq
  have hlt : (vdrSet'.map fun vdr => vdr.weight.toNat).sum < 2 ^ 64 := by
    rw [← hsum,← hcan.total]
    exact totalWeight.toNat_lt
  obtain ⟨vdrs',totalWeight',h'⟩ := flattenValidatorSet_ok pkBytes hlt
  have hcan' := flattenValidatorSet_canonical h'
  have htotal : totalWeight' = totalWeight := by
    rw [← UInt64.toNat_inj,hcan.total,hcan'.total,hsum]
  subst htotal
  exact ⟨vdrs',h',hcan'.face_eq hpk hp.symm hcan⟩

/-! ## The nodes behind a key -/

/-- The validators of the set that share a key. -/
def sharing (pkBytes : PK → Bytes) (vdrSet : List (GetValidatorOutput PK)) (key : Bytes) :
    List (GetValidatorOutput PK) :=
  vdrSet.filter fun vdr => vdr.publicKey.map pkBytes = some key

theorem keyWeight_eq_sharing (vdrSet : List (GetValidatorOutput PK)) (key : Bytes) :
    keyWeight pkBytes vdrSet key =
      ((sharing pkBytes vdrSet key).map fun vdr => vdr.weight.toNat).sum := by
  induction vdrSet with
  | nil => rfl
  | cons vdr vdrSet ih =>
    simp only [keyWeight,sharing,List.map_cons,List.sum_cons,List.filter_cons,
      decide_eq_true_eq] at ih ⊢
    by_cases hkey : vdr.publicKey.map pkBytes = some key
    · rw [if_pos hkey,if_pos hkey,List.map_cons,List.sum_cons,ih]
    · rw [if_neg hkey,if_neg hkey,zero_add,ih]

theorem sharing_concat_of_eq {vdr : GetValidatorOutput PK} {key : Bytes}
    (h : vdr.publicKey.map pkBytes = some key) :
    sharing pkBytes (vdrSet ++ [vdr]) key = sharing pkBytes vdrSet key ++ [vdr] := by
  simp only [sharing,List.filter_append,List.filter_cons,decide_eq_true_eq,if_pos h,
    List.filter_nil]

theorem sharing_concat_of_ne {vdr : GetValidatorOutput PK} {key : Bytes}
    (h : vdr.publicKey.map pkBytes ≠ some key) :
    sharing pkBytes (vdrSet ++ [vdr]) key = sharing pkBytes vdrSet key := by
  simp only [sharing,List.filter_append,List.filter_cons,decide_eq_true_eq,if_neg h,
    List.filter_nil,List.append_nil]

/-- Every entry names the nodes that share its key, in the order of the visit. -/
def NamesNodes (pkBytes : PK → Bytes) (vdrSet : List (GetValidatorOutput PK))
    (vdrs : List (Validator PK)) : Prop :=
  ∀ v ∈ vdrs, v.nodeIDs = (sharing pkBytes vdrSet v.publicKeyBytes).map
    GetValidatorOutput.nodeID

theorem NamesNodes.merge (h : Flattens pkBytes vdrSet vdrs totalWeight)
    (hnames : NamesNodes pkBytes vdrSet vdrs) {vdr : GetValidatorOutput PK} {pk : PK}
    (hpk : vdr.publicKey = some pk) :
    NamesNodes pkBytes (vdrSet ++ [vdr])
      (mergeValidator ⟨pk,pkBytes pk,vdr.weight,[vdr.nodeID]⟩ vdrs) := by
  have hkey : vdr.publicKey.map pkBytes = some (pkBytes pk) := by rw [hpk,Option.map_some]
  intro w hw
  rcases mem_mergeValidator h.nodup hw with ⟨hin,hne⟩ | ⟨u,hu,heq,rfl⟩ | ⟨hnew,rfl⟩
  · rw [hnames w hin,sharing_concat_of_ne]
    rw [hkey]
    exact fun heq => hne (Option.some.inj heq).symm
  · have hshared : sharing pkBytes (vdrSet ++ [vdr]) u.publicKeyBytes =
        sharing pkBytes vdrSet u.publicKeyBytes ++ [vdr] :=
      sharing_concat_of_eq (hkey.trans (congrArg some heq.symm))
    rw [hshared,List.map_append,← hnames u hu]
    rfl
  · have hnone : sharing pkBytes vdrSet (pkBytes pk) = [] := by
      refine List.filter_eq_nil_iff.mpr fun o ho hkey => hnew ?_
      exact (h.mem_iff _).mpr ⟨o,ho,of_decide_eq_true hkey⟩
    rw [sharing_concat_of_eq hkey,hnone]
    rfl

theorem flattenLoop_namesNodes {rest : List (GetValidatorOutput PK)}
    {result : List (Validator PK) × UInt64} (h : Flattens pkBytes vdrSet vdrs totalWeight)
    (hnames : NamesNodes pkBytes vdrSet vdrs)
    (hloop : flattenLoop pkBytes rest vdrs totalWeight = .ok result) :
    NamesNodes pkBytes (vdrSet ++ rest) result.1 := by
  refine (flattenLoop_induction (P := fun vdrSet vdrs totalWeight =>
    Flattens pkBytes vdrSet vdrs totalWeight ∧ NamesNodes pkBytes vdrSet vdrs) ?_ ?_ ⟨h,hnames⟩
    hloop).2
  · rintro vdrSet vdrs totalWeight totalWeight' vdr ⟨h,hnames⟩ hadd hpk
    refine ⟨h.skip hadd hpk,fun v hv => ?_⟩
    rw [hnames v hv,sharing_concat_of_ne (by simp [hpk])]
  · rintro vdrSet vdrs totalWeight totalWeight' vdr pk ⟨h,hnames⟩ hadd hpk
    exact ⟨h.merge hadd hpk,hnames.merge h hpk⟩

/-! ## Success and failure -/

theorem flattenLoop_error {rest : List (GetValidatorOutput PK)} {e : WarpError}
    (h : flattenLoop pkBytes rest vdrs totalWeight = .error e) : e = .weightOverflow := by
  induction rest generalizing vdrs totalWeight with
  | nil => cases h
  | cons vdr rest ih =>
    rw [flattenLoop] at h
    unfold addWeight at h
    split at h
    · cases hpk : vdr.publicKey with
      | none =>
        rw [hpk] at h
        exact ih h
      | some pk =>
        rw [hpk] at h
        exact ih h
    · exact (Except.error.inj h).symm

theorem flattenValidatorSet_error {e : WarpError}
    (h : flattenValidatorSet pkBytes vdrSet = .error e) : e = .weightOverflow := by
  unfold flattenValidatorSet at h
  cases hloop : flattenLoop pkBytes vdrSet [] 0 with
  | error e' =>
    rw [hloop] at h
    exact (Except.error.inj h).symm.trans (flattenLoop_error hloop)
  | ok result =>
    rw [hloop] at h
    cases h

theorem flattenValidatorSet_error_perm (hpk : Function.Injective pkBytes)
    (hp : vdrSet.Perm vdrSet') {e : WarpError}
    (h : flattenValidatorSet pkBytes vdrSet = .error e) :
    flattenValidatorSet pkBytes vdrSet' = .error e := by
  cases h' : flattenValidatorSet pkBytes vdrSet' with
  | ok result =>
    obtain ⟨_,hok,_⟩ := flattenValidatorSet_perm hpk hp.symm h'
    rw [h] at hok
    cases hok
  | error e' => rw [flattenValidatorSet_error h,flattenValidatorSet_error h']

/-- The list is canonical: neither the order in which the set is visited nor the order in
which the merged validators come out of their map shows, and the list accounts for every
validator of the set. -/
theorem flattenValidatorSet_agrees (hpk : Function.Injective pkBytes)
    (hp : vdrSet.Perm vdrSet') :
    (∀ e, flattenValidatorSet pkBytes vdrSet = .error e ↔
      flattenValidatorSet pkBytes vdrSet' = .error e) ∧
    ∀ vdrs totalWeight, flattenValidatorSet pkBytes vdrSet = .ok (vdrs,totalWeight) →
      (∃ vdrs', flattenValidatorSet pkBytes vdrSet' = .ok (vdrs',totalWeight) ∧
        vdrs'.map Validator.face = vdrs.map Validator.face) ∧
      (∃ merged, flattenLoop pkBytes vdrSet [] 0 = .ok (merged,totalWeight) ∧
        ∀ values : List (Validator PK), values.Perm merged →
          (values.mergeSort fun v o => ¬o.publicKeyBytes < v.publicKeyBytes) = vdrs) ∧
      (vdrs.Pairwise fun v o => v.publicKeyBytes < o.publicKeyBytes) ∧
      (∀ key, key ∈ vdrs.map Validator.publicKeyBytes ↔ sharing pkBytes vdrSet key ≠ []) ∧
      (∀ v ∈ vdrs, pkBytes v.publicKey = v.publicKeyBytes ∧
        v.weight.toNat = ((sharing pkBytes vdrSet v.publicKeyBytes).map
          fun vdr => vdr.weight.toNat).sum ∧
        v.nodeIDs = (sharing pkBytes vdrSet v.publicKeyBytes).map GetValidatorOutput.nodeID) ∧
      totalWeight.toNat = (vdrSet.map fun vdr => vdr.weight.toNat).sum := by
  refine ⟨fun e => ⟨flattenValidatorSet_error_perm hpk hp,
    flattenValidatorSet_error_perm hpk hp.symm⟩,fun vdrs totalWeight h => ?_⟩
  have hcan := flattenValidatorSet_canonical h
  obtain ⟨⟨merged,total⟩,hloop,hsort⟩ := bind_eq_ok h
  cases hsort
  have hperm := List.mergeSort_perm merged fun v o => ¬o.publicKeyBytes < v.publicKeyBytes
  have hnames : NamesNodes pkBytes vdrSet merged :=
    flattenLoop_namesNodes (flattens_nil pkBytes) (fun v hv => nomatch hv) hloop
  refine ⟨flattenValidatorSet_perm hpk hp h,⟨merged,hloop,fun values hvalues => ?_⟩,hcan.sorted,
    fun key => ?_,fun v hv => ⟨hcan.key v hv,?_,hnames v (hperm.mem_iff.mp hv)⟩,hcan.total⟩
  · exact mergeSort_key_eq (hvalues.trans hperm.symm) hcan.sorted
  · rw [hcan.mem_iff,ne_eq,sharing,List.filter_eq_nil_iff]
    push Not
    simp
  · rw [hcan.weight v hv,keyWeight_eq_sharing]

end
end Landslide.Warp
