import Landslide.Net.GossipRuns

/-! # The IPs in the bloom filter

A node may add a number of IPs to the filter between two resets. An IP that is recorded while the
node has additions left is in the filter from then on, also if the filter is made anew while the IP
is recorded.
-/
namespace Landslide.Net
variable {N S : Type} [DecidableEq N] {P : Params} {env : Env N S}

/-! ## A new filter -/

def Succeeds (P : Params) (env : Env N S) : Prop :=
  ∀ tracked, ∃ state, newBloom P env tracked = .ok state

namespace IPTracker
variable {t t' t₁ : IPTracker N S} {n : N} {ip : ClaimedIPPort N}

structure Quiet (t t' : IPTracker N S) : Prop where
  bloom : t'.toBloomState = t.toBloomState
  ips : ∀ n ip, t'.ipOf n = some ip → t.ipOf n = some ip

theorem Quiet.refl (t : IPTracker N S) : Quiet t t := ⟨rfl,fun _ _ h => h⟩

/-- The newest IP of the node was recorded, between two states, when the node had already used
its allowance, and since then neither the IP has changed nor the count has been reset. -/
def UsedUp (n : N) (states : List (IPTracker N S)) : Prop :=
  ∃ newer after before older, states = newer ++ after :: before :: older ∧
    after.ipOf n ≠ before.ipOf n ∧ maxIPEntriesPerNode ≤ before.additions n ∧
    (∀ t ∈ newer ++ [after], maxIPEntriesPerNode ≤ t.additions n) ∧
    ∀ t ∈ newer, t.ipOf n = after.ipOf n

section
variable {t t' : IPTracker N S} {earlier : List (IPTracker N S)} {n : N}

theorem UsedUp.head (h : UsedUp n (t :: earlier)) : maxIPEntriesPerNode ≤ t.additions n := by
  obtain ⟨newer,after,before,older,heq,_,_,hcount,_⟩ := h
  cases newer with
  | nil =>
    cases heq
    exact hcount t (List.mem_singleton_self t)
  | cons u newer =>
    cases heq
    exact hcount t List.mem_cons_self

theorem UsedUp.extend (h : UsedUp n (t :: earlier)) (hcount : maxIPEntriesPerNode ≤ t'.additions n)
    (hip : t'.ipOf n = t.ipOf n) : UsedUp n (t' :: t :: earlier) := by
  obtain ⟨newer,after,before,older,heq,hchanged,hfull,hcounts,hsame⟩ := h
  have hhead : t.ipOf n = after.ipOf n := by
    cases newer with
    | nil =>
      cases heq
      rfl
    | cons u newer =>
      cases heq
      exact hsame t List.mem_cons_self
  refine ⟨t' :: newer,after,before,older,by rw [heq,List.cons_append],hchanged,hfull,?_,?_⟩
  · intro u hu
    rcases List.mem_cons.mp hu with rfl | hu
    · exact hcount
    · exact hcounts u hu
  · intro u hu
    rcases List.mem_cons.mp hu with rfl | hu
    · exact hip.trans hhead
    · exact hsame u hu

end

section
variable [DecidableEq S]

variable [Inhabited S]

/-- The states that a run has visited, the last one first. Filters can be made all along. -/
inductive Visited (P : Params) : List (IPTracker N S) → Prop
  | start {env : Env N S} {trackedSubnets : Finset S} {t : IPTracker N S}
    (hsucceeds : Succeeds P env) (h : newIPTracker P env trackedSubnets = .ok t) : Visited P [t]
  | call {t t' : IPTracker N S} {earlier : List (IPTracker N S)} {env : Env N S} {op : Op N S}
    (h : Visited P (t :: earlier)) (hsucceeds : Succeeds P env)
    (hexec : t.exec P env op = .ok t') : Visited P (t' :: t :: earlier)

omit [DecidableEq S] [Inhabited S] in
theorem connection_nodeID {ops : List (Op N S)} {peer : ConnectedNode N S}
    (h : connection ops n = some peer) : peer.ip.nodeID = n := by
  induction ops with
  | nil => cases h
  | cons op ops ih =>
    cases op with
    | connected ip subnets =>
      rw [connection] at h
      split at h
      · next heq =>
        cases h
        exact heq.symm
      · exact ih h
    | disconnected m =>
      rw [connection] at h
      split at h
      · cases h
      · exact ih h
    | _ => exact ih h

theorem Visited.connection {states : List (IPTracker N S)} (h : Visited P states) :
    ∃ t earlier, states = t :: earlier ∧
      ∃ ops, ∀ n, t.connected.lookup n = IPTracker.connection ops n := by
  induction h with
  | start hsucceeds h =>
    exact ⟨_,_,rfl,[],fun n => by rw [(newIPTracker_records h).2.1]; rfl⟩
  | call h hsucceeds hexec ih =>
    obtain ⟨_,_,heq,ops,hops⟩ := ih
    cases heq
    exact ⟨_,_,rfl,_,exec_connected hops hexec⟩

theorem Visited.connectedID {t : IPTracker N S} {earlier : List (IPTracker N S)}
    (h : Visited P (t :: earlier)) (n : N) (peer : ConnectedNode N S)
    (hpeer : t.connected.lookup n = some peer) : peer.ip.nodeID = n := by
  obtain ⟨_,_,heq,ops,hops⟩ := h.connection
  cases heq
  exact connection_nodeID ((hops n).symm.trans hpeer)

end

namespace Sample

end Sample
end IPTracker
end Landslide.Net
