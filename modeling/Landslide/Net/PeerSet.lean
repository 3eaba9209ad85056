import Landslide.Lib.Exec
import Landslide.Lib.Positions
import Landslide.Sampler.Uniform

/-! # The set of peers

The peers are kept in a slice, with a map from the ID of a peer to its place there. A peer that is
removed leaves its place to the last one. A sample asks the sampler for one place after the
other and keeps the peers that a predicate accepts; the predicate may change its own state.
-/
namespace Landslide.Net
variable {N S ρ σ : Type}

structure Peer (N S : Type) where
  id : N
  trackedSubnets : List S
  deriving DecidableEq

structure PeerSet (N S : Type) [DecidableEq N] where
  peersMap : Finmap fun _ : N => ℕ
  peersSlice : List (Peer N S)
  positions : Positions Peer.id peersMap peersSlice

namespace PeerSet
variable [DecidableEq N]

def newSet : PeerSet N S := ⟨∅,[],.empty _⟩

def add (s : PeerSet N S) (peer : Peer N S) : PeerSet N S :=
  match h : s.peersMap.lookup peer.id with
  | none => ⟨s.peersMap.insert peer.id s.peersSlice.length,s.peersSlice ++ [peer],
      s.positions.append h⟩
  | some index => ⟨s.peersMap,s.peersSlice.set index peer,s.positions.set h⟩

def getByID (s : PeerSet N S) (nodeID : N) : Option (Peer N S) := do
  let index ← s.peersMap.lookup nodeID
  s.peersSlice[index]?

/-- The loop of `Sample`. Nothing stands for turns, or rounds of the sampler, that were not
enough. -/
def sampleFrom (src : Sampler.Source ρ) (rounds : ℕ) (slice : List (Peer N S)) (n : ℤ)
    (precondition : σ → Peer N S → Bool × σ) :
    ℕ → Sampler.UniformReplacer → ρ → σ → List (Peer N S) →
      Option (Outcome Empty (List (Peer N S)))
  | 0, _, _, _, _ => none
  | turns + 1, sampler, r, state, peers =>
    if peers.length < n then do
      let (value,sampler,r) ← sampler.next src rounds r
      match value with
      -- We have run out of peers to attempt to sample.
      | none => some (.ok peers)
      | some index => match slice[index]? with
        | none => some (.panic "index out of range")
        | some peer =>
          let (accepted,state) := precondition state peer
          sampleFrom src rounds slice n precondition turns sampler r state
            (if accepted then peers ++ [peer] else peers)
    else some (.ok peers)

def sample (s : PeerSet N S) (src : Sampler.Source ρ) (rounds : ℕ) (r : ρ) (n : ℤ)
    (precondition : σ → Peer N S → Bool × σ) (state : σ) :
    Option (Outcome Empty (List (Peer N S))) :=
  if n ≤ 0 then some (.ok [])
  else sampleFrom src rounds s.peersSlice n precondition (s.peersSlice.length + 1)
    (.start (.ofNat s.peersSlice.length)) r state []

/-! ## The set as a map -/

theorem getByID_eq_some_iff (s : PeerSet N S) (nodeID : N) (peer : Peer N S) :
    s.getByID nodeID = some peer ↔ peer ∈ s.peersSlice ∧ peer.id = nodeID := by
  unfold getByID
  constructor
  · intro h
    obtain ⟨i,hi,hpeer⟩ := Option.bind_eq_some_iff.mp h
    obtain ⟨p,hp,hid⟩ := s.positions.getElem? hi
    rw [hpeer] at hp
    cases hp
    exact ⟨List.mem_of_getElem? hpeer,hid⟩
  · rintro ⟨hmem,rfl⟩
    obtain ⟨i,hi⟩ := List.mem_iff_getElem?.mp hmem
    exact Option.bind_eq_some_iff.mpr ⟨i,s.positions.lookup hi,hi⟩

/-! ## Samples -/

section
variable {src : Sampler.Source ρ} {rounds : ℕ} {precondition : σ → Peer N S → Bool × σ} {n : ℤ}

def DrawnFrom (slice : List (Peer N S)) (values : List ℕ) (peers : List (Peer N S)) : Prop :=
  ∀ p ∈ peers, ∃ v ∈ values, slice[v]? = some p

/-- The rule of invariants for a sample: every peer of the set is given to the predicate at most
once. -/
theorem sampleFrom_invariant (s : PeerSet N S) {I : σ → List (Peer N S) → Prop}
    (hstep : ∀ state peers p, I state peers → (∀ q ∈ peers, q ∈ s.peersSlice) →
      p ∈ s.peersSlice → p ∉ peers → I (precondition state p).2
        (if (precondition state p).1 then peers ++ [p] else peers))
    {turns : ℕ} {sampler : Sampler.UniformReplacer} {r : ρ} {state : σ}
    {peers : List (Peer N S)} {values : List ℕ} {x : Outcome Empty (List (Peer N S))}
    (hlength : sampler.length ≤ s.peersSlice.length) (hdrawn : sampler.Drawn values)
    (hfrom : DrawnFrom s.peersSlice values peers) (hI : I state peers)
    (hx : sampleFrom src rounds s.peersSlice n precondition turns sampler r state peers = some x) :
    ∃ sampled state', x = .ok sampled ∧ I state' sampled ∧
      ∀ q ∈ sampled, q ∈ s.peersSlice := by
  have hmem : ∀ q ∈ peers, q ∈ s.peersSlice := by
    intro q hq
    obtain ⟨v,_,hv⟩ := hfrom q hq
    exact List.mem_of_getElem? hv
  induction turns generalizing sampler r state peers values with
  | zero => cases hx
  | succ turns ih =>
    rw [sampleFrom] at hx
    split at hx
    case isFalse =>
      cases hx
      exact ⟨peers,state,rfl,hI,hmem⟩
    obtain ⟨⟨value,sampler',r'⟩,hnext,hx⟩ := Option.bind_eq_some_iff.mp hx
    obtain ⟨hsame,⟨rfl,_,_⟩ | ⟨v,rfl,hdrawn'⟩⟩ := hdrawn.next hnext
    · cases hx
      exact ⟨peers,state,rfl,hI,hmem⟩
    have hnodup := (hdrawn'.perm.nodup_iff.mpr List.nodup_range).of_append_left
    have hv : v < s.peersSlice.length := by
      have hin := hdrawn'.perm.subset (List.mem_append_left _ (List.mem_append_right _
        (List.mem_singleton_self v)))
      rw [List.mem_range,hsame] at hin
      omega
    obtain ⟨p,hp⟩ : ∃ p, s.peersSlice[v]? = some p := ⟨_,List.getElem?_eq_getElem hv⟩
    dsimp only at hx
    rw [hp] at hx
    have hfresh : p ∉ peers := by
      intro hin
      obtain ⟨u,hu,hpu⟩ := hfrom p hin
      obtain rfl := s.positions.key_inj hpu hp rfl
      exact (List.nodup_append.mp hnodup).2.2 u hu u (List.mem_singleton_self u) rfl
    have hfrom' : DrawnFrom s.peersSlice (values ++ [v])
        (if (precondition state p).1 then peers ++ [p] else peers) := by
      intro q hq
      have hcase : q ∈ peers ∨ q = p := by
        split at hq
        · simpa using hq
        · exact .inl hq
      rcases hcase with hq | rfl
      · obtain ⟨u,hu,hqu⟩ := hfrom q hq
        exact ⟨u,List.mem_append_left _ hu,hqu⟩
      · exact ⟨v,List.mem_append_right _ (List.mem_singleton_self v),hp⟩
    refine ih (hsame.le.trans hlength) hdrawn' hfrom'
      (hstep state peers p hI hmem (List.mem_of_getElem? hp) hfresh) hx ?_
    intro q hq
    obtain ⟨u,_,hu⟩ := hfrom' q hq
    exact List.mem_of_getElem? hu

theorem sample_invariant (s : PeerSet N S) {I : σ → List (Peer N S) → Prop}
    (hstep : ∀ state peers p, I state peers → (∀ q ∈ peers, q ∈ s.peersSlice) →
      p ∈ s.peersSlice → p ∉ peers → I (precondition state p).2
        (if (precondition state p).1 then peers ++ [p] else peers))
    {r : ρ} {state : σ} {x : Outcome Empty (List (Peer N S))} (hI : I state [])
    (hx : s.sample src rounds r n precondition state = some x) :
    ∃ sampled state', x = .ok sampled ∧ I state' sampled ∧
      ∀ q ∈ sampled, q ∈ s.peersSlice := by
  unfold sample at hx
  split at hx
  · cases hx
    exact ⟨[],state,rfl,hI,by simp⟩
  · refine s.sampleFrom_invariant hstep ?_ (Sampler.UniformReplacer.start_drawn _) ?_ hI hx
    · exact (UInt64.toNat_ofNat').le.trans (Nat.mod_le _ _)
    · intro p hp
      cases hp

theorem sample_returns (s : PeerSet N S) (hnext : ∀ (sampler : Sampler.UniformReplacer) r,
      ∃ x, sampler.next src rounds r = some x) (r : ρ) (state : σ) :
    ∃ x, s.sample src rounds r n precondition state = some x := by
  have hloop : ∀ turns (sampler : Sampler.UniformReplacer) values r state peers,
      sampler.Drawn values → sampler.length - values.length < turns →
      ∃ x, sampleFrom src rounds s.peersSlice n precondition turns sampler r state peers =
        some x := by
    intro turns
    induction turns with
    | zero =>
      intro sampler values r state peers _ hturns
      omega
    | succ turns ih =>
      intro sampler values r state peers hdrawn hturns
      rw [sampleFrom]
      split
      case isFalse => exact ⟨_,rfl⟩
      obtain ⟨⟨value,sampler',r'⟩,hx⟩ := hnext sampler r
      rw [hx]
      obtain ⟨hsame,⟨rfl,_,_⟩ | ⟨v,rfl,hdrawn'⟩⟩ := hdrawn.next hx
      · exact ⟨_,rfl⟩
      · dsimp only [Option.bind_eq_bind,Option.bind_some]
        split
        · exact ⟨_,rfl⟩
        · have hle := hdrawn'.le
          refine ih sampler' _ r' _ _ hdrawn' ?_
          rw [List.length_append,List.length_singleton] at hle ⊢
          omega
  unfold sample
  split
  · exact ⟨_,rfl⟩
  · refine hloop _ _ [] r state [] (Sampler.UniformReplacer.start_drawn _) ?_
    have hle : (UInt64.ofNat s.peersSlice.length).toNat ≤ s.peersSlice.length :=
      (UInt64.toNat_ofNat').le.trans (Nat.mod_le _ _)
    exact Nat.lt_succ_of_le hle

end
end PeerSet
end Landslide.Net
