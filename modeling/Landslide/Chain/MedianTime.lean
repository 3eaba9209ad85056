import Landslide.Comet.Interface
import Landslide.Lib.WeightedMedian

/-! # The block time

`MedianTime` weighs the timestamps of a commit with the voting powers of a validator
set. Over a valid set whose validators all signed, the 64-bit sum of the powers does
not wrap around and the median is one of the timestamps.
-/
namespace Landslide
variable {H : Type}

/-- The weighted time of one commit signature: an absent vote and a signature of an
unknown validator leave their slot empty. -/
def weightedTime (vals : ValidatorSet) (cs : CommitSig) : Option WeightedTime :=
  if cs.blockIDFlag = .absent then none
  else (vals.getByAddress cs.validatorAddress).map (fun v => ⟨cs.timestamp,v.votingPower⟩)

/-- The voting power added up by the loop of `MedianTime`, in 64-bit arithmetic. -/
def totalVotingPower (weighted : List (Option WeightedTime)) : ℤ :=
  weighted.foldl (fun total w => (w.map (fun w => int64 (total + w.weight))).getD total) 0

def medianTime (C : CometBFT H) (commit : Commit H) (vals : ValidatorSet) : ℤ :=
  let weightedTimes := commit.signatures.map (weightedTime vals)
  C.weightedMedian weightedTimes (totalVotingPower weightedTimes)

theorem int64_of_lt {n : ℤ} (h0 : 0 ≤ n) (h : n < 2 ^ 63) : int64 n = n := by
  unfold int64
  apply Int.bmod_eq_of_le
  · omega
  · omega

theorem totalVotingPower_fold {weighted : List (Option WeightedTime)}
    (hpos : ∀ w ∈ weighted.reduceOption, 0 < w.weight) {total : ℤ} (h0 : 0 ≤ total)
    (hlt : total + (weighted.reduceOption.map WeightedTime.weight).sum < 2 ^ 63) :
    weighted.foldl (fun total w => (w.map (fun w => int64 (total + w.weight))).getD total) total =
      total + (weighted.reduceOption.map WeightedTime.weight).sum := by
  induction weighted generalizing total with
  | nil => simp
  | cons w rest ih =>
    cases w with
    | none => exact ih hpos h0 hlt
    | some w =>
      rw [List.reduceOption_cons_of_some] at hpos hlt ⊢
      rw [List.map_cons,List.sum_cons] at hlt ⊢
      have hw : 0 < w.weight := hpos w List.mem_cons_self
      have hrest : ∀ v ∈ rest.reduceOption, 0 < v.weight :=
        fun v hv => hpos v (List.mem_cons_of_mem _ hv)
      have hsum : 0 ≤ (rest.reduceOption.map WeightedTime.weight).sum := by
        apply List.sum_nonneg
        intro n hn
        obtain ⟨v,hv,rfl⟩ := List.mem_map.mp hn
        exact (hrest v hv).le
      have hstep : int64 (total + w.weight) = total + w.weight :=
        int64_of_lt (by omega) (by omega)
      rw [List.foldl_cons,Option.map_some,Option.getD_some,hstep,
        ih hrest (by omega) (by omega)]
      omega

theorem totalVotingPower_eq (weighted : List (Option WeightedTime))
    (hpos : ∀ w ∈ weighted.reduceOption, 0 < w.weight)
    (hlt : (weighted.reduceOption.map WeightedTime.weight).sum < 2 ^ 63) :
    totalVotingPower weighted = (weighted.reduceOption.map WeightedTime.weight).sum := by
  unfold totalVotingPower
  rw [totalVotingPower_fold hpos le_rfl (by omega),zero_add]

theorem ValidatorSet.getByAddress_of_mem {vals : ValidatorSet} (h : vals.addresses.Nodup)
    {v : Validator} (hv : v ∈ vals) : vals.getByAddress v.address = some v := by
  induction vals with
  | nil => cases hv
  | cons u rest ih =>
    have hnot : u.address ∉ ValidatorSet.addresses rest := (List.nodup_cons.mp h).1
    rcases List.mem_cons.mp hv with rfl | hv
    · simp [getByAddress]
    · have hne : u.address ≠ v.address := by
        intro he
        exact hnot (he ▸ List.mem_map_of_mem hv)
      simp only [getByAddress,List.find?_cons,hne,decide_false] at ih ⊢
      exact ih (List.nodup_cons.mp h).2 hv

section
variable {vals : ValidatorSet} {signatures : List CommitSig}

/-- When every validator signed in its place, the weighted times pair the timestamps
with the powers. -/
theorem map_weightedTime_eq (hnodup : vals.addresses.Nodup)
    (haddr : signatures.map CommitSig.validatorAddress = vals.addresses)
    (hpresent : ∀ cs ∈ signatures, cs.blockIDFlag ≠ .absent) :
    signatures.map (weightedTime vals) =
      (List.zipWith (fun cs v => (⟨cs.timestamp,v.votingPower⟩ : WeightedTime))
        signatures vals).map some := by
  have hlen : signatures.length = vals.length := by
    have := congrArg List.length haddr
    simpa [ValidatorSet.addresses] using this
  apply List.ext_getElem
  · simp [hlen]
  · intro i hi hi'
    have his : i < signatures.length := by simpa using hi
    have hiv : i < vals.length := by omega
    have ha : signatures[i].validatorAddress = vals[i].address := by
      have := List.getElem_of_eq haddr (by simpa using his)
      simpa [ValidatorSet.addresses] using this
    have hv := ValidatorSet.getByAddress_of_mem hnodup (List.getElem_mem hiv)
    simp [weightedTime,hpresent _ (List.getElem_mem his),ha,hv]

/-- Over a commit that every validator of a valid set signed, the median time is the
timestamp of one of the signatures. -/
theorem medianTime_mem {C : CometBFT H} (hC : C.MedianRules) {commit : Commit H}
    (hvals : CometBFT.ValidatorSetValid vals)
    (haddr : commit.signatures.map CommitSig.validatorAddress = vals.addresses)
    (hpresent : ∀ cs ∈ commit.signatures, cs.blockIDFlag ≠ .absent) :
    ∃ cs ∈ commit.signatures, medianTime C commit vals = cs.timestamp := by
  let weighted := List.zipWith (fun cs v => (⟨cs.timestamp,v.votingPower⟩ : WeightedTime))
    commit.signatures vals
  have hmap : commit.signatures.map (weightedTime vals) = weighted.map some :=
    map_weightedTime_eq hvals.nodup haddr hpresent
  have hreduce : (weighted.map some).reduceOption = weighted := by
    simp [List.reduceOption]
  have hlen : commit.signatures.length = vals.length := by
    have := congrArg List.length haddr
    simpa [ValidatorSet.addresses] using this
  have hweights : weighted.map WeightedTime.weight = vals.map Validator.votingPower := by
    apply List.ext_getElem
    · simp [weighted,hlen]
    · intro i _ _
      simp [weighted]
  have hmem : ∀ w ∈ weighted, ∃ cs ∈ commit.signatures, ∃ v ∈ vals,
      w = ⟨cs.timestamp,v.votingPower⟩ := by
    intro w hw
    obtain ⟨i,hi,rfl⟩ := List.mem_iff_getElem.mp hw
    have hi' : i < commit.signatures.length ∧ i < vals.length := by simpa [weighted] using hi
    exact ⟨_,List.getElem_mem hi'.1,_,List.getElem_mem hi'.2,by simp [weighted]⟩
  have hpos : ∀ w ∈ weighted, 0 < w.weight := by
    intro w hw
    obtain ⟨cs,_,v,hv,rfl⟩ := hmem w hw
    exact hvals.power v hv
  have hne : weighted ≠ [] := by
    intro he
    have hzero : vals.map Validator.votingPower = [] := by rw [← hweights,he]; rfl
    exact hvals.nonempty (List.map_eq_nil_iff.mp hzero)
  have htotal : totalVotingPower (weighted.map some) = (weighted.map WeightedTime.weight).sum := by
    have hsum := hvals.total
    rw [← hweights] at hsum
    unfold CometBFT.maxTotalVotingPower at hsum
    have := totalVotingPower_eq (weighted.map some) (by rwa [hreduce])
      (by rw [hreduce]; omega)
    rwa [hreduce] at this
  obtain ⟨w,hw,heq⟩ := hC.weightedMedian_mem (weighted.map some)
    (by rwa [hreduce]) (by rwa [hreduce])
  rw [hreduce] at hw heq
  obtain ⟨cs,hcs,v,_,rfl⟩ := hmem w hw
  refine ⟨cs,hcs,?_⟩
  simp only [medianTime,hmap,htotal]
  exact heq

end

/-- `WeightedMedian` sorts the entries that are not nil by their time and returns the first
time at which the remaining half of the weight is used up. -/
structure CometBFT.ScanRules (C : CometBFT H) : Prop where
  weightedMedian_scan : ∀ (weighted : List (Option WeightedTime)) (total : ℤ),
    ∃ sorted, sorted.Perm weighted.reduceOption ∧
      sorted.Pairwise (fun a b => a.time ≤ b.time) ∧
      ∀ w, WeightedMedian.scan WeightedTime.weight (total / 2) sorted = some w →
        C.weightedMedian weighted total = w.time

end Landslide
