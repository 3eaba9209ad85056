import Landslide.Chain.Symbolic
import Mathlib.Data.List.Perm.Subperm

/-! # Faulty votes and the block time

Faulty signatures with less than a third of the counted power can not move the median time
past the timestamps of the others.
-/
namespace Landslide
variable {H : Type}

def voter (vals : ValidatorSet) (cs : CommitSig) : Option Validator :=
  if cs.blockIDFlag = .absent then none else vals.getByAddress cs.validatorAddress

def countedVotes (vals : ValidatorSet) (signatures : List CommitSig) : List (CommitSig × ℤ) :=
  signatures.filterMap (fun cs => (voter vals cs).map (fun v => (cs,v.votingPower)))

def weightedVote (vote : CommitSig × ℤ) : WeightedTime := ⟨vote.1.timestamp,vote.2⟩

theorem weightedTime_eq (vals : ValidatorSet) (cs : CommitSig) :
    weightedTime vals cs = (voter vals cs).map (fun v => weightedVote (cs,v.votingPower)) := by
  unfold weightedTime voter
  split
  · rfl
  · rfl

theorem voter_mem {vals : ValidatorSet} {cs : CommitSig} {v : Validator}
    (h : voter vals cs = some v) : v ∈ vals ∧ v.address = cs.validatorAddress := by
  unfold voter at h
  split at h
  · cases h
  · exact ⟨List.mem_of_find?_eq_some h,of_decide_eq_true (List.find?_some h :)⟩

section
variable {vals : ValidatorSet} {signatures : List CommitSig}

theorem reduceOption_weightedTimes (vals : ValidatorSet) (signatures : List CommitSig) :
    (signatures.map (weightedTime vals)).reduceOption =
      (countedVotes vals signatures).map weightedVote := by
  simp only [List.reduceOption,List.filterMap_map,countedVotes,List.map_filterMap]
  apply List.filterMap_congr
  intro cs _
  simp [weightedTime_eq,Function.comp_def]

theorem countedVotes_map_snd (vals : ValidatorSet) (signatures : List CommitSig) :
    (countedVotes vals signatures).map Prod.snd =
      (signatures.filterMap (voter vals)).map Validator.votingPower := by
  simp [countedVotes,List.map_filterMap,Function.comp_def]

theorem nodup_voters
    (honce : ∀ a ∈ vals.addresses, (signatures.map CommitSig.validatorAddress).count a ≤ 1) :
    (signatures.filterMap (voter vals)).Nodup := by
  induction signatures with
  | nil => exact List.nodup_nil
  | cons cs rest ih =>
    have hrest : ∀ a ∈ vals.addresses,
        (rest.map CommitSig.validatorAddress).count a ≤ 1 := by
      intro a ha
      exact (List.count_le_count_cons).trans (honce a ha)
    cases hv : voter vals cs with
    | none =>
      rw [List.filterMap_cons_none hv]
      exact ih hrest
    | some v =>
      rw [List.filterMap_cons_some hv]
      refine List.nodup_cons.mpr ⟨?_,ih hrest⟩
      -- a second signature found under the same validator would repeat its address
      intro hagain
      obtain ⟨cs',hcs',hv'⟩ := List.mem_filterMap.mp hagain
      obtain ⟨hmem,haddr⟩ := voter_mem hv
      have hcount := honce v.address (List.mem_map_of_mem hmem)
      have hpos : 0 < (rest.map CommitSig.validatorAddress).count v.address :=
        List.count_pos_iff.mpr (List.mem_map.mpr ⟨cs',hcs',(voter_mem hv').2.symm⟩)
      rw [List.map_cons,← haddr,List.count_cons_self] at hcount
      omega

theorem total_countedVotes_le (hpower : ∀ v ∈ vals, 0 < v.votingPower)
    (honce : ∀ a ∈ vals.addresses, (signatures.map CommitSig.validatorAddress).count a ≤ 1) :
    ((countedVotes vals signatures).map Prod.snd).sum ≤ (vals.map Validator.votingPower).sum := by
  have hsub : signatures.filterMap (voter vals) ⊆ vals := by
    intro v hv
    obtain ⟨cs,_,hcs⟩ := List.mem_filterMap.mp hv
    exact (voter_mem hcs).1
  obtain ⟨voters,hperm,hle⟩ := (nodup_voters honce).subperm hsub
  rw [countedVotes_map_snd,← (hperm.map Validator.votingPower).sum_eq]
  apply (hle.map Validator.votingPower).sum_le_sum
  intro n hn
  obtain ⟨v,hv,rfl⟩ := List.mem_map.mp hn
  exact (hpower v hv).le

theorem countedVotes_pos (hpower : ∀ v ∈ vals, 0 < v.votingPower) :
    ∀ vote ∈ countedVotes vals signatures, 0 < vote.2 := by
  intro vote hvote
  obtain ⟨cs,_,h⟩ := List.mem_filterMap.mp hvote
  obtain ⟨v,hv,rfl⟩ := Option.map_eq_some_iff.mp h
  exact hpower v (voter_mem hv).1

theorem totalVotingPower_countedVotes (hpower : ∀ v ∈ vals, 0 < v.votingPower)
    (htotal : (vals.map Validator.votingPower).sum ≤ CometBFT.maxTotalVotingPower)
    (honce : ∀ a ∈ vals.addresses, (signatures.map CommitSig.validatorAddress).count a ≤ 1) :
    totalVotingPower (signatures.map (weightedTime vals)) =
      ((countedVotes vals signatures).map Prod.snd).sum := by
  have hweights : (signatures.map (weightedTime vals)).reduceOption.map WeightedTime.weight =
      (countedVotes vals signatures).map Prod.snd := by
    rw [reduceOption_weightedTimes,List.map_map]
    rfl
  have hle := (total_countedVotes_le hpower honce).trans htotal
  unfold CometBFT.maxTotalVotingPower at hle
  rw [totalVotingPower_eq,hweights]
  · intro w hw
    rw [reduceOption_weightedTimes] at hw
    obtain ⟨vote,hvote,rfl⟩ := List.mem_map.mp hw
    exact countedVotes_pos hpower vote hvote
  · rw [hweights]
    omega

theorem exists_sorted_votes {votes : List (CommitSig × ℤ)} {sorted : List WeightedTime}
    (hperm : sorted.Perm (votes.map weightedVote)) :
    ∃ votes' : List (CommitSig × ℤ), votes'.Perm votes ∧ sorted = votes'.map weightedVote := by
  have hrel : List.Forall₂ (fun w vote => w = weightedVote vote) (votes.map weightedVote) votes :=
    List.forall₂_map_left_iff.mpr (List.forall₂_same.mpr (fun _ _ => rfl))
  obtain ⟨votes',hrel',hperm'⟩ := List.perm_comp_forall₂ hperm hrel
  exact ⟨votes',hperm',List.forall₂_eq_eq_eq ▸ List.forall₂_map_right_iff.mpr hrel'⟩

/-- When the faulty signatures have less than a third of the counted power, the median time
lies between two timestamps of the others. -/
theorem medianTime_between {C : CometBFT H} (hC : C.ScanRules) {commit : Commit H}
    (hpower : ∀ v ∈ vals, 0 < v.votingPower)
    (htotal : (vals.map Validator.votingPower).sum ≤ CometBFT.maxTotalVotingPower)
    (honce : ∀ a ∈ vals.addresses,
      (commit.signatures.map CommitSig.validatorAddress).count a ≤ 1)
    (faulty : CommitSig → Bool)
    (hminority :
      3 * (((countedVotes vals commit.signatures).filter (fun vote => faulty vote.1)).map
        Prod.snd).sum < ((countedVotes vals commit.signatures).map Prod.snd).sum) :
    ∃ earliest ∈ countedVotes vals commit.signatures,
      ∃ latest ∈ countedVotes vals commit.signatures,
        faulty earliest.1 = false ∧ faulty latest.1 = false ∧
        earliest.1.timestamp ≤ medianTime C commit vals ∧
        medianTime C commit vals ≤ latest.1.timestamp := by
  obtain ⟨sorted,hperm,hsorted,hmedian⟩ := hC.weightedMedian_scan
    (commit.signatures.map (weightedTime vals))
    (totalVotingPower (commit.signatures.map (weightedTime vals)))
  rw [reduceOption_weightedTimes] at hperm
  obtain ⟨votes,hvotes,rfl⟩ := exists_sorted_votes hperm
  have hpos : ∀ vote ∈ votes, 0 < vote.2 :=
    fun vote hvote => countedVotes_pos hpower vote (hvotes.mem_iff.mp hvote)
  have htotal' : ((countedVotes vals commit.signatures).map Prod.snd).sum =
      WeightedMedian.total Prod.snd votes := ((hvotes.map Prod.snd).sum_eq).symm
  have hminority' : 3 * WeightedMedian.total Prod.snd (votes.filter (fun vote => faulty vote.1)) <
      WeightedMedian.total Prod.snd votes := by
    rw [← htotal',WeightedMedian.total,((hvotes.filter _).map Prod.snd).sum_eq]
    exact hminority
  have hnonneg : 0 ≤ WeightedMedian.total Prod.snd votes := WeightedMedian.total_nonneg hpos
  have hne : votes ≠ [] := by
    rintro rfl
    simp at hminority'
  have hhalf : WeightedMedian.total Prod.snd votes / 2 ≤ WeightedMedian.total Prod.snd votes := by
    omega
  obtain ⟨vote,hscan⟩ := WeightedMedian.scan_isSome hne hhalf
  have htime : medianTime C commit vals = vote.1.timestamp := by
    apply hmedian (weightedVote vote)
    rw [totalVotingPower_countedVotes hpower htotal honce,htotal',WeightedMedian.scan_map]
    exact congrArg (Option.map weightedVote) hscan
  rw [List.pairwise_map] at hsorted
  obtain ⟨earliest,hearliest,hhonest,hle⟩ :=
    WeightedMedian.exists_time_le hsorted hpos hminority' hscan
  obtain ⟨latest,hlatest,hhonest',hle'⟩ :=
    WeightedMedian.exists_le_time hsorted hpos hminority' hscan
  rw [htime]
  exact ⟨earliest,hvotes.mem_iff.mp hearliest,latest,hvotes.mem_iff.mp hlatest,hhonest,hhonest',
    hle,hle'⟩

end

namespace Sample

def committee : ValidatorSet := [1,2,3,4].map (fun n => ⟨List.replicate 20 n,key,10⟩)

/-- The four vote; the third signature has a timestamp far in the future. -/
def committeeCommit : Commit Digest where
  height := 1
  round := 0
  blockID := blockID firstBlock
  signatures := [(4,1003),(2,1001),(3,9000000),(1,1000)].map
    (fun vote => ⟨.commit,List.replicate 20 vote.1,vote.2,List.replicate 64 7⟩)

/-- One of the four can not push the median time past the others. -/
theorem committee_medianTime :
    ∃ earliest ∈ countedVotes committee committeeCommit.signatures,
      ∃ latest ∈ countedVotes committee committeeCommit.signatures,
        decide (9000 ≤ earliest.1.timestamp) = false ∧
        decide (9000 ≤ latest.1.timestamp) = false ∧
        earliest.1.timestamp ≤ medianTime (symbolic []) committeeCommit committee ∧
        medianTime (symbolic []) committeeCommit committee ≤ latest.1.timestamp :=
  medianTime_between (Symbolic.scanRules []) (by decide) (by decide) (by decide)
    (fun cs => decide (9000 ≤ cs.timestamp)) (by decide)

end Sample
end Landslide
