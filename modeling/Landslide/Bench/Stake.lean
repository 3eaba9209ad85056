import Landslide.Bench.Runs
import Mathlib.Algebra.BigOperators.Group.Finset.Basic
import Mathlib.Algebra.Order.BigOperators.Group.Finset

/-! # The benched stake

As long as the validators stay the same, the stake on the bench never exceeds the configured part
of the total stake: a node is put on the bench only if its stake still fits, and a node that is
taken off makes it less.
-/
namespace Landslide.Bench.State
open Validators
variable {S N P T : Type} [DecidableEq S] [DecidableEq N] [Inhabited N] {c : Config S}
  {m : Manager S N P T} {s s' : State N}

/-- More stake exceeds what less stake exceeds: the conversion to a float is monotone. -/
def MonotoneMax (c : Config S) : Prop :=
  ∀ stake more total, stake ≤ more → c.exceedsMax stake total = true →
    c.exceedsMax more total = true

def stakeOf (c : Config S) (m : Manager S N P T) (nodes : Finset N) : ℕ :=
  ∑ n ∈ nodes, m.weightOf c.subnetID n

def Bounded (c : Config S) (m : Manager S N P T) (nodes : Finset N) : Prop :=
  nodes.Nonempty → ∃ stake total, stake.toNat = stakeOf c m nodes ∧
    m.totalWeight c.subnetID = .ok total ∧ c.exceedsMax stake total = false

omit [Inhabited N] in
theorem Bounded.subset (hmono : MonotoneMax c) {nodes fewer : Finset N} (h : Bounded c m nodes)
    (hsubset : fewer ⊆ nodes) : Bounded c m fewer := by
  intro hne
  obtain ⟨stake,total,hstake,htotal,hmax⟩ := h (hne.mono hsubset)
  have hle : stakeOf c m fewer ≤ stakeOf c m nodes := Finset.sum_le_sum_of_subset hsubset
  have hlt : stakeOf c m fewer < 2 ^ 64 := by
    have hlt := stake.toNat_lt
    omega
  have hfewer : (UInt64.ofNat (stakeOf c m fewer)).toNat = stakeOf c m fewer :=
    UInt64.toNat_ofNat_of_lt' hlt
  refine ⟨UInt64.ofNat (stakeOf c m fewer),total,hfewer,htotal,?_⟩
  have hfits : UInt64.ofNat (stakeOf c m fewer) ≤ stake := by
    rw [UInt64.le_iff_toNat_le,hfewer,hstake]
    exact hle
  by_contra hexceeds
  have hmore := hmono _ _ total hfits (by simpa using hexceeds)
  rw [hmax] at hmore
  cases hmore

omit [Inhabited N] in
theorem getWeight_toNat (m : Manager S N P T) (subnetID : S) (nodeID : N) :
    (m.getWeight subnetID nodeID).toNat = m.weightOf subnetID nodeID := by
  unfold Manager.getWeight Manager.weightOf Manager.members
  cases m.subnetToVdrs.lookup subnetID with
  | none => rfl
  | some set => exact Manager.getWeight_toNat set nodeID

omit [Inhabited N] in
theorem sum_order {order : List N} {nodes : Finset N} (hnodup : order.Nodup)
    (horder : ∀ n, n ∈ order ↔ n ∈ nodes) :
    (order.map (m.weightOf c.subnetID)).sum = stakeOf c m nodes := by
  have hnodes : nodes = order.toFinset := by
    ext n
    rw [List.mem_toFinset,horder]
  rw [stakeOf,hnodes,List.sum_toFinset _ hnodup]

theorem Step.bounded (hmono : MonotoneMax c) (hinv : Inv c s) (hstep : Step c (· = m) s s')
    (h : Bounded c m s.benchlist.benchlistSet) : Bounded c m s'.benchlist.benchlistSet := by
  cases hstep with
  | failure nodeID now hlock hnow hcall =>
    obtain ⟨_,_,hset,_⟩ := hinv.good.registerFailure hnow hcall
    rwa [hset]
  | @bench nodeID r now jitter b hlock hweight hsubset htotal hnodup horder hjitter hcall =>
    obtain ⟨hfree,hdue⟩ := hinv.failing nodeID hlock
    rcases s.benchlist.bench_cases c r now jitter nodeID with
      hsame | ⟨benched,new,total,hbenched,hnew,htotal',hmax,hput⟩
    · rw [hsame] at hcall
      cases hcall
      exact h
    · obtain ⟨_,hok,_,_,hset,_⟩ := hinv.good.putOnBench now hfree hdue hjitter
      rw [hput,hok] at hcall
      cases hcall
      rw [hset]
      rw [hsubset] at hbenched
      rw [hweight] at hnew
      rw [htotal] at htotal'
      -- the new stake is the stake of the larger set
      have hnot : nodeID ∉ s.benchlist.benchlistSet := by simp [hinv.good.set,hfree]
      have hsum := (Manager.subsetWeight_spec m c.subnetID r.order).1 benched |>.mp hbenched
      rw [sum_order hnodup horder] at hsum
      have hadd := add64_eq_some_iff.mp hnew
      rw [hsum,getWeight_toNat] at hadd
      refine fun _ => ⟨new,total,?_,htotal',hmax⟩
      rw [hadd,stakeOf,stakeOf,Finset.sum_insert hnot,Nat.add_comm]
  | remove hplace hlock hremove =>
    obtain ⟨_,_,hok,_,_,hset,_⟩ := hinv.good.removedExpiredNodes _
    rw [hok] at hremove
    cases hremove
    exact h.subset hmono hset
  | _ => exact h

theorem Reachable.bounded (hmono : MonotoneMax c) (h : Reachable c (· = m) s) :
    Bounded c m s.benchlist.benchlistSet := by
  induction h with
  | start => exact fun hne => absurd hne Finset.not_nonempty_empty
  | step hs hstep ih => exact hstep.bounded hmono hs.inv ih

/-- While the validators do not change, `SubsetWeight` of the benched nodes is returned, in
whatever order they are visited, and does not exceed the part of `TotalWeight` that may be
benched. -/
theorem benched_stake_bounded (hmono : MonotoneMax c) (h : Reachable c (· = m) s)
    (hne : s.benchlist.benchlistSet.Nonempty) : ∃ stake total,
    (∀ order : List N, order.Nodup → (∀ n, n ∈ order ↔ s.benchlist.isBenched n = true) →
      m.subsetWeight c.subnetID order = .ok stake) ∧
    m.totalWeight c.subnetID = .ok total ∧ c.exceedsMax stake total = false := by
  obtain ⟨stake,total,hstake,htotal,hmax⟩ := h.bounded hmono hne
  refine ⟨stake,total,fun order hnodup horder => ?_,htotal,hmax⟩
  rw [(Manager.subsetWeight_spec m c.subnetID order).1 stake,hstake]
  refine (sum_order hnodup fun n => ?_).symm
  rw [horder,Benchlist.isBenched,decide_eq_true_eq]

namespace Sample

theorem config_monotone : MonotoneMax config := by
  intro stake more total hle hexceeds
  rw [UInt64.le_iff_toNat_le] at hle
  simp only [config,decide_eq_true_eq] at hexceeds ⊢
  omega

theorem benched_bounded : ∃ (s : State ℕ) (stake : UInt64), Reachable config (· = vdrs) s ∧
    s.benchlist.benchlistSet = {7} ∧ vdrs.subsetWeight 0 [7] = .ok stake ∧
    config.exceedsMax stake 100 = false := by
  obtain ⟨s,hs,_,_,_,_,hset,_⟩ := benched_reachable
  obtain ⟨stake,total,hstake,htotal,hmax⟩ := benched_stake_bounded config_monotone hs
    (hset ▸ Finset.singleton_nonempty 7)
  have hhundred : vdrs.totalWeight 0 = .ok 100 := by decide +kernel
  rw [show config.subnetID = 0 from rfl,hhundred] at htotal
  cases htotal
  refine ⟨s,stake,hs,hset,hstake [7] (List.nodup_singleton 7) ?_,hmax⟩
  simp [Benchlist.isBenched,hset]

end Sample
end Landslide.Bench.State
