import Landslide.Net.PeerSet
import Landslide.Validators.Manager

/-! # Sending a message

A message goes to the connected peers that the configuration names, and to a sample of the others
that has a number of validators, of non-validators and of peers of either kind. An allower says
whether a node may take part in the subnet, given whether it is a validator.
-/
namespace Landslide.Net
variable {N S P T ρ : Type}

/-- `SendConfig`. The node IDs are a set, in the order in which the loop visits them. -/
structure SendConfig (N : Type) where
  nodeIDs : List N
  validators : ℤ
  nonValidators : ℤ
  peers : ℤ
  nodup : nodeIDs.Nodup

structure Quota where
  numValidatorsToSample : ℤ
  nonValidators : ℤ
  peers : ℤ

structure Sent (N S : Type) where
  handed : List (Peer N S)
  sentTo : List N

structure Network (S N P T : Type) [DecidableEq N] where
  connectedPeers : PeerSet N S
  validators : Validators.Manager S N P T

namespace Network
variable [DecidableEq N] [DecidableEq S]

def areTheyAValidator (net : Network S N P T) (subnetID : S) (nodeID : N) : Bool :=
  (net.validators.getValidator subnetID nodeID).isSome

/-- The ID that is all zero, `ids.Empty`, is the default one. -/
def getPeers [Inhabited S] (net : Network S N P T) (isAllowed : N → Bool → Bool) :
    List N → List (Peer N S)
  | [] => []
  | nodeID :: nodeIDs => match net.connectedPeers.getByID nodeID with
    | none => getPeers net isAllowed nodeIDs
    | some peer =>
      if isAllowed nodeID (net.areTheyAValidator default nodeID) = false then
        getPeers net isAllowed nodeIDs
      else peer :: getPeers net isAllowed nodeIDs

/-- The predicate of `samplePeers`. -/
def precondition (net : Network S N P T) (nodeIDs : List N) (subnetID : S)
    (isAllowed : N → Bool → Bool) (q : Quota) (p : Peer N S) : Bool × Quota :=
  let validator := net.areTheyAValidator subnetID p.id
  if p.trackedSubnets.contains subnetID = false then (false,q)
  -- if the peer was already explicitly included, don't include in the sample
  else if nodeIDs.contains p.id then (false,q)
  else if isAllowed p.id validator = false then (false,q)
  else if q.peers > 0 then (true,{ q with peers := q.peers - 1 })
  else if validator then
    (decide (q.numValidatorsToSample - 1 ≥ 0),
      { q with numValidatorsToSample := q.numValidatorsToSample - 1 })
  else (decide (q.nonValidators - 1 ≥ 0),{ q with nonValidators := q.nonValidators - 1 })

def quota (net : Network S N P T) (config : SendConfig N) (subnetID : S) : Quota :=
  ⟨min config.validators (net.validators.numValidators subnetID),config.nonValidators,
    config.peers⟩

def samplePeers (net : Network S N P T) (src : Sampler.Source ρ) (rounds : ℕ) (r : ρ)
    (config : SendConfig N) (subnetID : S) (isAllowed : N → Bool → Bool) :
    Option (Outcome Empty (List (Peer N S))) :=
  let q := net.quota config subnetID
  net.connectedPeers.sample src rounds r
    ((q.numValidatorsToSample + q.nonValidators + q.peers).bmod (2 ^ 64))
    (net.precondition config.nodeIDs subnetID isAllowed) q

/-- Whether a peer takes the message is up to the peer. -/
def send [Inhabited S] (net : Network S N P T) (src : Sampler.Source ρ) (rounds : ℕ) (r : ρ)
    (takes : Peer N S → Bool) (config : SendConfig N) (subnetID : S)
    (isAllowed : N → Bool → Bool) : Option (Outcome Empty (Sent N S)) := do
  let namedPeers := net.getPeers isAllowed config.nodeIDs
  let sampled ← net.samplePeers src rounds r config subnetID isAllowed
  some do
    let sampledPeers ← sampled
    let handed := namedPeers ++ sampledPeers
    .ok ⟨handed,(handed.filter takes).map Peer.id⟩

end Network

/-! ## Whom a message reaches -/

section
variable [DecidableEq N] [DecidableEq S]

def SendConfig.unnamed (config : SendConfig N) (peers : List (Peer N S)) : List (Peer N S) :=
  peers.filter fun p => !config.nodeIDs.contains p.id

/-- The message is handed to connected and allowed peers only, to each of them once, and to not
more unnamed ones than the configuration asks for. -/
structure OnlyAllowed (net : Network S N P T) (config : SendConfig N) (subnetID : S)
    (isAllowed : N → Bool → Bool) (handed : List (Peer N S)) : Prop where
  connected : ∀ p ∈ handed, net.connectedPeers.getByID p.id = some p
  allowed : ∀ p ∈ handed, isAllowed p.id (net.areTheyAValidator subnetID p.id) = true
  once : (handed.map Peer.id).Nodup
  total : (config.unnamed handed).length ≤
    config.validators + config.nonValidators + config.peers
  validators : (config.unnamed handed).countP (fun p => net.areTheyAValidator subnetID p.id) ≤
    config.validators + config.peers
  nonValidators :
    (config.unnamed handed).countP (fun p => !net.areTheyAValidator subnetID p.id) ≤
      config.nonValidators + config.peers
  tracking : ∀ p ∈ config.unnamed handed, p.trackedSubnets.contains subnetID = true

end

namespace Network
variable [DecidableEq N] [DecidableEq S]

/-! ## Named peers -/

section
variable [Inhabited S] (net : Network S N P T) (isAllowed : N → Bool → Bool)

theorem mem_getPeers (nodeIDs : List N) (p : Peer N S) : p ∈ net.getPeers isAllowed nodeIDs ↔
    p.id ∈ nodeIDs ∧ net.connectedPeers.getByID p.id = some p ∧
      isAllowed p.id (net.areTheyAValidator default p.id) = true := by
  induction nodeIDs with
  | nil => simp [getPeers]
  | cons nodeID nodeIDs ih =>
    rw [getPeers,List.mem_cons]
    cases hpeer : net.connectedPeers.getByID nodeID with
    | none =>
      dsimp only
      rw [ih]
      refine ⟨fun h => ⟨.inr h.1,h.2⟩,?_⟩
      rintro ⟨rfl | hin,hconnected,hallowed⟩
      · rw [hpeer] at hconnected
        cases hconnected
      · exact ⟨hin,hconnected,hallowed⟩
    | some peer =>
      have hid := ((net.connectedPeers.getByID_eq_some_iff nodeID peer).mp hpeer).2
      subst hid
      dsimp only
      split
      · next hnot =>
        rw [ih]
        refine ⟨fun h => ⟨.inr h.1,h.2⟩,?_⟩
        rintro ⟨heq | hin,hconnected,hallowed⟩
        · rw [heq,hnot] at hallowed
          cases hallowed
        · exact ⟨hin,hconnected,hallowed⟩
      · next hallowed =>
        rw [List.mem_cons,ih]
        constructor
        · rintro (rfl | h)
          · exact ⟨.inl rfl,hpeer,Bool.not_eq_false _ ▸ hallowed⟩
          · exact ⟨.inr h.1,h.2⟩
        · rintro ⟨heq | hin,hconnected,h⟩
          · rw [heq,hpeer] at hconnected
            exact .inl (Option.some.inj hconnected).symm
          · exact .inr ⟨hin,hconnected,h⟩

theorem getPeers_nodup {nodeIDs : List N} (hnodup : nodeIDs.Nodup) :
    ((net.getPeers isAllowed nodeIDs).map Peer.id).Nodup := by
  induction nodeIDs with
  | nil => exact List.nodup_nil
  | cons nodeID nodeIDs ih =>
    obtain ⟨hnew,hrest⟩ := List.nodup_cons.mp hnodup
    rw [getPeers]
    cases hpeer : net.connectedPeers.getByID nodeID with
    | none => exact ih hrest
    | some peer =>
      have hid := ((net.connectedPeers.getByID_eq_some_iff nodeID peer).mp hpeer).2
      subst hid
      dsimp only
      split
      · exact ih hrest
      · rw [List.map_cons,List.nodup_cons]
        refine ⟨fun hin => ?_,ih hrest⟩
        obtain ⟨p,hp,hid⟩ := List.mem_map.mp hin
        rw [← hid] at hnew
        exact hnew ((mem_getPeers net isAllowed nodeIDs p).mp hp).1

end

/-! ## Sampled peers -/

section
variable (net : Network S N P T) (config : SendConfig N) (subnetID : S)
  (isAllowed : N → Bool → Bool)

structure Eligible (p : Peer N S) : Prop where
  tracking : p.trackedSubnets.contains subnetID = true
  unnamed : config.nodeIDs.contains p.id = false
  allowed : isAllowed p.id (net.areTheyAValidator subnetID p.id) = true

/-- Everything that the predicate can do. -/
inductive Judged (q : Quota) (p : Peer N S) : Bool × Quota → Prop
  | refused : Judged q p (false,q)
  | anyPeer (h : Eligible net config subnetID isAllowed p) (hleft : 0 < q.peers) :
    Judged q p (true,{ q with peers := q.peers - 1 })
  | validator (h : Eligible net config subnetID isAllowed p)
    (hvalidator : net.areTheyAValidator subnetID p.id = true) :
    Judged q p (decide (q.numValidatorsToSample - 1 ≥ 0),
      { q with numValidatorsToSample := q.numValidatorsToSample - 1 })
  | nonValidator (h : Eligible net config subnetID isAllowed p)
    (hvalidator : net.areTheyAValidator subnetID p.id = false) :
    Judged q p (decide (q.nonValidators - 1 ≥ 0),
      { q with nonValidators := q.nonValidators - 1 })

theorem precondition_judged (q : Quota) (p : Peer N S) : Judged net config subnetID isAllowed q p
    (net.precondition config.nodeIDs subnetID isAllowed q p) := by
  unfold precondition
  dsimp only
  split
  · exact .refused
  next htracking =>
  split
  · exact .refused
  next hunnamed =>
  split
  · exact .refused
  next hallowed =>
  have heligible : Eligible net config subnetID isAllowed p :=
    ⟨by simpa using htracking,by simpa using hunnamed,by simpa using hallowed⟩
  split
  · next hleft => exact .anyPeer heligible hleft
  split
  · next hvalidator => exact .validator heligible hvalidator
  · next hvalidator => exact .nonValidator heligible (by simpa using hvalidator)

/-- The peers of a sample, sorted by the counter that paid for them: `anyV` validators and `anyW`
others for the peers of either kind, `v` and `w` for the counter of their own kind. -/
structure Paid (q₀ q : Quota) (peers : List (Peer N S)) (anyV v anyW w : ℕ) : Prop where
  validators : peers.countP (fun p => net.areTheyAValidator subnetID p.id) = anyV + v
  nonValidators : peers.countP (fun p => !net.areTheyAValidator subnetID p.id) = anyW + w
  peersLeft : anyV + anyW + q.peers = q₀.peers
  peers_nonneg : 0 ≤ q.peers
  validatorsLeft : v + max q.numValidatorsToSample 0 = q₀.numValidatorsToSample
  nonValidatorsLeft : w + max q.nonValidators 0 = q₀.nonValidators

structure Sampled (q₀ q : Quota) (peers : List (Peer N S)) : Prop where
  paid : ∃ anyV v anyW w, Paid net subnetID q₀ q peers anyV v anyW w
  eligible : ∀ p ∈ peers, Eligible net config subnetID isAllowed p
  once : (peers.map Peer.id).Nodup

variable {net config subnetID isAllowed} {q₀ q : Quota} {peers : List (Peer N S)} {p : Peer N S}

theorem Sampled.append (h : Sampled net config subnetID isAllowed q₀ q peers) {q' : Quota}
    (heligible : Eligible net config subnetID isAllowed p) (hnew : p.id ∉ peers.map Peer.id)
    (hpaid : ∃ anyV v anyW w, Paid net subnetID q₀ q' (peers ++ [p]) anyV v anyW w) :
    Sampled net config subnetID isAllowed q₀ q' (peers ++ [p]) := by
  refine ⟨hpaid,?_,?_⟩
  · intro p' hp'
    rcases List.mem_append.mp hp' with hold | hlast
    · exact h.eligible p' hold
    · rwa [List.mem_singleton.mp hlast]
  · rw [List.map_append,List.map_singleton,List.nodup_append]
    refine ⟨h.once,List.nodup_singleton _,?_⟩
    intro a ha b hb
    rw [List.mem_singleton.mp hb]
    rintro rfl
    exact hnew ha

theorem Sampled.step (h : Sampled net config subnetID isAllowed q₀ q peers)
    (hnew : p.id ∉ peers.map Peer.id) {x : Bool × Quota}
    (hx : Judged net config subnetID isAllowed q p x) :
    Sampled net config subnetID isAllowed q₀ x.2 (if x.1 then peers ++ [p] else peers) := by
  obtain ⟨anyV,v,anyW,w,hpaid⟩ := h.paid
  obtain ⟨hv,hw,hpeers,hnonneg,hvleft,hwleft⟩ := hpaid
  have hcountV : (peers ++ [p]).countP (fun p => net.areTheyAValidator subnetID p.id) =
      anyV + v + if net.areTheyAValidator subnetID p.id then 1 else 0 := by
    rw [List.countP_append,List.countP_singleton,hv]
  have hcountW : (peers ++ [p]).countP (fun p => !net.areTheyAValidator subnetID p.id) =
      anyW + w + if !net.areTheyAValidator subnetID p.id then 1 else 0 := by
    rw [List.countP_append,List.countP_singleton,hw]
  cases hx with
  | refused => exact h
  | anyPeer heligible hleft =>
    refine h.append heligible hnew ?_
    cases hvalidator : net.areTheyAValidator subnetID p.id with
    | true =>
      simp only [hvalidator,Bool.not_true,if_true,Bool.false_eq_true,if_false] at hcountV hcountW
      refine ⟨anyV + 1,v,anyW,w,by omega,by omega,?_,?_,hvleft,hwleft⟩
      · dsimp only
        omega
      · dsimp only
        omega
    | false =>
      simp only [hvalidator,Bool.not_false,if_true,Bool.false_eq_true,if_false] at hcountV hcountW
      refine ⟨anyV,v,anyW + 1,w,by omega,by omega,?_,?_,hvleft,hwleft⟩
      · dsimp only
        omega
      · dsimp only
        omega
  | validator heligible hvalidator =>
    simp only [hvalidator,Bool.not_true,if_true,Bool.false_eq_true,if_false] at hcountV hcountW
    by_cases hleft : q.numValidatorsToSample - 1 ≥ 0
    · simp only [decide_eq_true hleft,if_true]
      refine h.append heligible hnew
        ⟨anyV,v + 1,anyW,w,by omega,by omega,hpeers,hnonneg,?_,hwleft⟩
      dsimp only
      omega
    · simp only [decide_eq_false hleft,Bool.false_eq_true,if_false]
      refine ⟨⟨anyV,v,anyW,w,hv,hw,hpeers,hnonneg,?_,hwleft⟩,h.eligible,h.once⟩
      dsimp only
      omega
  | nonValidator heligible hvalidator =>
    simp only [hvalidator,Bool.not_false,if_true,Bool.false_eq_true,if_false] at hcountV hcountW
    by_cases hleft : q.nonValidators - 1 ≥ 0
    · simp only [decide_eq_true hleft,if_true]
      refine h.append heligible hnew
        ⟨anyV,v,anyW,w + 1,by omega,by omega,hpeers,hnonneg,hvleft,?_⟩
      dsimp only
      omega
    · simp only [decide_eq_false hleft,Bool.false_eq_true,if_false]
      refine ⟨⟨anyV,v,anyW,w,hv,hw,hpeers,hnonneg,hvleft,?_⟩,h.eligible,h.once⟩
      dsimp only
      omega

theorem samplePeers_spec {src : Sampler.Source ρ} {rounds : ℕ} {r : ρ}
    {x : Outcome Empty (List (Peer N S))} (hvalidators : 0 ≤ config.validators)
    (hnonValidators : 0 ≤ config.nonValidators) (hpeers : 0 ≤ config.peers)
    (hx : net.samplePeers src rounds r config subnetID isAllowed = some x) :
    ∃ sampled q, x = .ok sampled ∧
      Sampled net config subnetID isAllowed (net.quota config subnetID) q sampled ∧
      ∀ p ∈ sampled, p ∈ net.connectedPeers.peersSlice := by
  refine net.connectedPeers.sample_invariant
    (I := Sampled net config subnetID isAllowed (net.quota config subnetID)) ?_ ?_ hx
  · intro state peers p h hmem hp hnew
    refine h.step ?_ (precondition_judged net config subnetID isAllowed state p)
    intro hin
    obtain ⟨p',hp',hid⟩ := List.mem_map.mp hin
    obtain rfl := net.connectedPeers.positions.member_inj (hmem p' hp') hp hid
    exact hnew hp'
  · refine ⟨⟨0,0,0,0,by simp,by simp,by simp,hpeers,?_,?_⟩,by simp,List.nodup_nil⟩
    · simp only [quota]
      omega
    · simp only [quota]
      omega

end

/-! ## All peers -/

section
variable [Inhabited S]

theorem unnamed_getPeers (net : Network S N P T) (config : SendConfig N)
    (isAllowed : N → Bool → Bool) : config.unnamed (net.getPeers isAllowed config.nodeIDs) = [] := by
  rw [SendConfig.unnamed,List.filter_eq_nil_iff]
  intro p hp
  have hin := ((mem_getPeers net isAllowed config.nodeIDs p).mp hp).1
  simpa using hin

theorem onlyAllowed_append {net : Network S N P T} {config : SendConfig N} {subnetID : S}
    {isAllowed : N → Bool → Bool} {sampled : List (Peer N S)} {q : Quota}
    (hsampled : Sampled net config subnetID isAllowed (net.quota config subnetID) q sampled)
    (hmem : ∀ p ∈ sampled, p ∈ net.connectedPeers.peersSlice)
    (hnamed : ∀ p ∈ net.getPeers isAllowed config.nodeIDs,
      isAllowed p.id (net.areTheyAValidator subnetID p.id) = true) :
    OnlyAllowed net config subnetID isAllowed
      (net.getPeers isAllowed config.nodeIDs ++ sampled) := by
  have hunnamed : config.unnamed (net.getPeers isAllowed config.nodeIDs ++ sampled) = sampled := by
    have hsame : config.unnamed sampled = sampled := by
      rw [SendConfig.unnamed,List.filter_eq_self]
      intro p hp
      simpa using (hsampled.eligible p hp).unnamed
    rw [SendConfig.unnamed,List.filter_append]
    change config.unnamed _ ++ config.unnamed _ = _
    rw [unnamed_getPeers,hsame,List.nil_append]
  obtain ⟨anyV,v,anyW,w,hv,hw,hpeers,hnonneg,hvleft,hwleft⟩ := hsampled.paid
  simp only [quota] at hpeers hvleft hwleft
  have hall := List.length_eq_countP_add_countP
    (fun p : Peer N S => net.areTheyAValidator subnetID p.id) (l := sampled)
  have hnot : sampled.countP (fun p => !net.areTheyAValidator subnetID p.id) =
      sampled.countP (fun p => ¬net.areTheyAValidator subnetID p.id = true) := by
    refine List.countP_congr fun p _ => ?_
    simp
  refine ⟨?_,?_,?_,?_,?_,?_,?_⟩
  · intro p hp
    rcases List.mem_append.mp hp with hp | hp
    · exact ((mem_getPeers net isAllowed config.nodeIDs p).mp hp).2.1
    · exact (net.connectedPeers.getByID_eq_some_iff p.id p).mpr ⟨hmem p hp,rfl⟩
  · intro p hp
    rcases List.mem_append.mp hp with hp | hp
    · exact hnamed p hp
    · exact (hsampled.eligible p hp).allowed
  · rw [List.map_append,List.nodup_append]
    refine ⟨getPeers_nodup net isAllowed config.nodup,hsampled.once,?_⟩
    intro a ha b hb heq
    obtain ⟨p,hp,rfl⟩ := List.mem_map.mp ha
    obtain ⟨p',hp',rfl⟩ := List.mem_map.mp hb
    have hin := ((mem_getPeers net isAllowed config.nodeIDs p).mp hp).1
    have hout := (hsampled.eligible p' hp').unnamed
    rw [← heq] at hout
    simp [hin] at hout
  · rw [hunnamed]
    omega
  · rw [hunnamed]
    omega
  · rw [hunnamed]
    omega
  · rw [hunnamed]
    exact fun p hp => (hsampled.eligible p hp).tracking

/-- A source that gives zeros: every call returns after one round. -/
def zeros : Sampler.Source Unit := ⟨fun r => (0,r)⟩

theorem zeros_next (sampler : Sampler.UniformReplacer) (r : Unit) :
    ∃ x, sampler.next zeros 1 r = some x := by
  have hretry : ∀ limit (next : UInt64 → ℕ), next 0 = 0 →
      zeros.retry limit next 1 r = some (0,r) := by
    intro limit next hzero
    rw [Sampler.Source.retry]
    change (if next 0 > limit then _ else some (next 0,r)) = _
    rw [hzero,if_neg (Nat.not_lt_zero limit)]
  have hdraw : ∀ n, ∃ x, zeros.uint64Inclusive 1 r n = some x := by
    intro n
    unfold Sampler.Source.uint64Inclusive
    split
    · exact ⟨_,rfl⟩
    split
    · exact ⟨_,hretry n UInt64.toNat rfl⟩
    · rw [hretry _ Sampler.Source.uint63 (Nat.zero_and _)]
      exact ⟨_,rfl⟩
  unfold Sampler.UniformReplacer.next
  split
  · exact ⟨_,rfl⟩
  · obtain ⟨x,hx⟩ := hdraw (sampler.length - 1 - sampler.drawsCount)
    rw [hx]
    exact ⟨_,rfl⟩

/-- Only allowed peers are reached exactly if every connected peer that is named and allowed with
its standing on the primary network is also allowed with its standing on the subnet. -/
theorem send_onlyAllowed_iff (net : Network S N P T) (config : SendConfig N) (subnetID : S)
    (isAllowed : N → Bool → Bool) (hvalidators : 0 ≤ config.validators)
    (hnonValidators : 0 ≤ config.nonValidators) (hpeers : 0 ≤ config.peers) :
    (∀ (ρ : Type) (src : Sampler.Source ρ) rounds r takes x,
      net.send src rounds r takes config subnetID isAllowed = some x →
      ∃ sent, x = .ok sent ∧ OnlyAllowed net config subnetID isAllowed sent.handed) ↔
    ∀ nodeID ∈ config.nodeIDs, (net.connectedPeers.getByID nodeID).isSome →
      isAllowed nodeID (net.areTheyAValidator default nodeID) = true →
      isAllowed nodeID (net.areTheyAValidator subnetID nodeID) = true := by
  constructor
  · intro hsend nodeID hnamed hconnected hallowed
    have hreturns : ∃ x, net.samplePeers zeros 1 () config subnetID isAllowed = some x :=
      net.connectedPeers.sample_returns zeros_next () (net.quota config subnetID)
    obtain ⟨x,hx⟩ := hreturns
    obtain ⟨sampled,q,rfl,_,_⟩ := samplePeers_spec hvalidators hnonValidators hpeers hx
    obtain ⟨sent,hsent,honly⟩ := hsend Unit zeros 1 () (fun _ => true) _
      (Option.bind_eq_some_iff.mpr ⟨_,hx,rfl⟩)
    cases hsent
    obtain ⟨peer,hpeer⟩ := Option.isSome_iff_exists.mp hconnected
    have hid := ((net.connectedPeers.getByID_eq_some_iff nodeID peer).mp hpeer).2
    subst hid
    exact honly.allowed peer (List.mem_append_left _
      ((mem_getPeers net isAllowed config.nodeIDs peer).mpr ⟨hnamed,hpeer,hallowed⟩))
  · intro hcond ρ src rounds r takes x hx
    obtain ⟨y,hy,hx⟩ := Option.bind_eq_some_iff.mp hx
    obtain ⟨sampled,q,rfl,hsampled,hmem⟩ :=
      samplePeers_spec hvalidators hnonValidators hpeers hy
    cases hx
    refine ⟨_,rfl,onlyAllowed_append hsampled hmem ?_⟩
    intro p hp
    obtain ⟨hnamed,hconnected,hallowed⟩ := (mem_getPeers net isAllowed config.nodeIDs p).mp hp
    exact hcond p.id hnamed (by rw [hconnected]; rfl) hallowed

end
end Network

namespace Sample

/-- Node 7 is connected. It validates the primary network, but not the subnet 1. -/
def primaryOnly : Network ℕ ℕ ℕ ℕ where
  connectedPeers := PeerSet.newSet.add ⟨7,[1]⟩
  validators := (Validators.Manager.newManager.addStaker 0 7 none 0 5).manager

def namesSeven : SendConfig ℕ := ⟨[7],0,0,0,List.nodup_singleton 7⟩

def validatorsOnly (_ : ℕ) (isValidator : Bool) : Bool := isValidator

theorem primaryOnly_reached :
    primaryOnly.send Network.zeros 1 () (fun _ => true) namesSeven 1 validatorsOnly =
      some (.ok ⟨[⟨7,[1]⟩],[7]⟩) ∧
    validatorsOnly 7 (primaryOnly.areTheyAValidator 1 7) = false := ⟨rfl,rfl⟩

/-- On the primary network node 7 is a validator for both lookups. -/
theorem primaryOnly_allowed :
    primaryOnly.send Network.zeros 1 () (fun _ => true) namesSeven 0 validatorsOnly =
      some (.ok ⟨[⟨7,[1]⟩],[7]⟩) ∧
    OnlyAllowed primaryOnly namesSeven 0 validatorsOnly [⟨7,[1]⟩] := by
  obtain ⟨sent,heq,hallowed⟩ := (Network.send_onlyAllowed_iff primaryOnly namesSeven 0
    validatorsOnly le_rfl le_rfl le_rfl).mpr (fun _ _ _ h => h) Unit Network.zeros 1 ()
    (fun _ => true) (.ok ⟨[⟨7,[1]⟩],[7]⟩) rfl
  cases heq
  exact ⟨rfl,hallowed⟩

end Sample
end Landslide.Net
