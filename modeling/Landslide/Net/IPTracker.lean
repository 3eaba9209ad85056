import Landslide.Bloom.Filter
import Landslide.Lib.Positions
import Landslide.Lib.Updates
import Mathlib.Data.Finset.Basic

/-! # The IP tracker

The tracker knows which nodes are wanted, which are connected, and for every subnet which nodes
may be gossiped and which IPs are. A bloom filter holds the IPs that are known. It is made anew
with another salt when it has got too full, and then filled with the newest IPs.
-/
namespace Landslide.Net
variable {N S : Type}

def saltSize : ℕ := 32
def minCountEstimate : ℕ := 128
def maxIPEntriesPerNode : ℕ := 2

structure ClaimedIPPort (N : Type) where
  nodeID : N
  timestamp : UInt64
  gossipID : Bytes
  deriving DecidableEq

structure TrackedNode (N S : Type) where
  manuallyTracked : Bool
  validatedSubnets : Finset S
  trackedSubnets : Finset S
  ip : Option (ClaimedIPPort N)

namespace TrackedNode

def wantsConnection (node : TrackedNode N S) : Bool :=
  node.manuallyTracked || decide (node.trackedSubnets.card > 0)

def canDelete (node : TrackedNode N S) : Bool :=
  !node.manuallyTracked && decide (node.validatedSubnets.card = 0)

end TrackedNode

structure ConnectedNode (N S : Type) where
  trackedSubnets : Finset S
  ip : ClaimedIPPort N

/-! ## The gossip of a subnet -/

structure GossipableSubnet (N : Type) [DecidableEq N] where
  manuallyGossipable : Finset N
  gossipableIDs : Finset N
  gossipableIndices : Finmap fun _ : N => ℕ
  gossipableIPs : List (ClaimedIPPort N)
  positions : Positions ClaimedIPPort.nodeID gossipableIndices gossipableIPs

namespace GossipableSubnet
variable [DecidableEq N]

def empty : GossipableSubnet N := ⟨∅,∅,∅,[],.empty _⟩

def setGossipableIP (g : GossipableSubnet N) (ip : ClaimedIPPort N) : GossipableSubnet N :=
  match h : g.gossipableIndices.lookup ip.nodeID with
  | some index => { g with
      gossipableIPs := g.gossipableIPs.set index ip
      positions := g.positions.set h }
  | none => { g with
      gossipableIndices := g.gossipableIndices.insert ip.nodeID g.gossipableIPs.length
      gossipableIPs := g.gossipableIPs ++ [ip]
      positions := g.positions.append h }

def removeGossipableIP (g : GossipableSubnet N) (nodeID : N) : GossipableSubnet N :=
  match h : g.gossipableIndices.lookup nodeID with
  | none => g
  | some indexToRemove => match hlast : g.gossipableIPs.getLast? with
    | none => g
    | some replacementIP =>
      -- If we aren't removing the last IP, the last one takes its place.
      if hmove : g.gossipableIPs.length - 1 ≠ indexToRemove then { g with
        gossipableIndices :=
          (g.gossipableIndices.insert replacementIP.nodeID indexToRemove).erase nodeID
        gossipableIPs := swapRemove g.gossipableIPs indexToRemove replacementIP
        positions := g.positions.swapRemove h hlast }
      else { g with
        gossipableIndices := g.gossipableIndices.erase nodeID
        gossipableIPs := swapRemove g.gossipableIPs indexToRemove replacementIP
        positions := g.positions.swapRemove_last h hlast (not_not.mp hmove) }

/-- The part of `addGossipableID` for IDs that are gossiped manually. -/
def markManual (g : GossipableSubnet N) (manuallyGossiped : Bool) (nodeID : N) :
    GossipableSubnet N :=
  if manuallyGossiped then { g with manuallyGossipable := insert nodeID g.manuallyGossipable } else g

def canDelete (g : GossipableSubnet N) : Bool := decide (g.gossipableIDs.card = 0)

def Lists (g : GossipableSubnet N) (nodeID : N) : Prop := ∃ ip ∈ g.gossipableIPs, ip.nodeID = nodeID

section
variable {g g' : GossipableSubnet N} {ip : ClaimedIPPort N} {nodeID n : N}

theorem lists_of_put (h : ∀ ip', ip' ∈ g'.gossipableIPs ↔
      ip' = ip ∨ (ip' ∈ g.gossipableIPs ∧ ip'.nodeID ≠ ip.nodeID)) :
    g'.Lists n ↔ n = ip.nodeID ∨ g.Lists n := by
  unfold Lists
  simp only [h]
  constructor
  · rintro ⟨ip',rfl | ⟨hin,_⟩,rfl⟩
    · exact .inl rfl
    · exact .inr ⟨ip',hin,rfl⟩
  · rintro (rfl | ⟨ip',hin,rfl⟩)
    · exact ⟨ip,.inl rfl,rfl⟩
    · by_cases hsame : ip'.nodeID = ip.nodeID
      · exact ⟨ip,.inl rfl,hsame.symm⟩
      · exact ⟨ip',.inr ⟨hin,hsame⟩,rfl⟩

theorem lists_of_removed (h : ∀ ip, ip ∈ g'.gossipableIPs ↔
      ip ∈ g.gossipableIPs ∧ ip.nodeID ≠ nodeID) : g'.Lists n ↔ g.Lists n ∧ n ≠ nodeID := by
  unfold Lists
  simp only [h]
  constructor
  · rintro ⟨ip,⟨hin,hne⟩,rfl⟩
    exact ⟨⟨ip,hin,rfl⟩,hne⟩
  · rintro ⟨⟨ip,hin,rfl⟩,hne⟩
    exact ⟨ip,⟨hin,hne⟩,rfl⟩

end

section
variable (g : GossipableSubnet N) (ip ip' : ClaimedIPPort N) (nodeID n : N)

@[simp] theorem markManual_gossipableIDs (manuallyGossiped : Bool) :
    (g.markManual manuallyGossiped nodeID).gossipableIDs = g.gossipableIDs := by
  unfold markManual
  split <;> rfl

@[simp] theorem markManual_gossipableIPs (manuallyGossiped : Bool) :
    (g.markManual manuallyGossiped nodeID).gossipableIPs = g.gossipableIPs := by
  unfold markManual
  split <;> rfl

theorem markManual_manuallyGossipable (manuallyGossiped : Bool) :
    (g.markManual manuallyGossiped nodeID).manuallyGossipable =
      if manuallyGossiped then insert nodeID g.manuallyGossipable else g.manuallyGossipable := by
  unfold markManual
  split <;> rfl

@[simp] theorem setGossipableIP_gossipableIDs :
    (g.setGossipableIP ip).gossipableIDs = g.gossipableIDs := by
  unfold setGossipableIP
  split <;> rfl

@[simp] theorem setGossipableIP_manuallyGossipable :
    (g.setGossipableIP ip).manuallyGossipable = g.manuallyGossipable := by
  unfold setGossipableIP
  split <;> rfl

theorem mem_setGossipableIP : ip' ∈ (g.setGossipableIP ip).gossipableIPs ↔
    ip' = ip ∨ (ip' ∈ g.gossipableIPs ∧ ip'.nodeID ≠ ip.nodeID) := by
  unfold setGossipableIP
  split
  · next index h => exact g.positions.mem_set h ip'
  · next h => exact g.positions.mem_append h ip'

theorem lists_setGossipableIP :
    (g.setGossipableIP ip).Lists n ↔ n = ip.nodeID ∨ g.Lists n :=
  lists_of_put fun ip' => g.mem_setGossipableIP ip ip'

@[simp] theorem removeGossipableIP_gossipableIDs :
    (g.removeGossipableIP nodeID).gossipableIDs = g.gossipableIDs := by
  unfold removeGossipableIP
  split
  · rfl
  split
  · rfl
  split <;> rfl

@[simp] theorem removeGossipableIP_manuallyGossipable :
    (g.removeGossipableIP nodeID).manuallyGossipable = g.manuallyGossipable := by
  unfold removeGossipableIP
  split
  · rfl
  split
  · rfl
  split <;> rfl

theorem mem_removeGossipableIP : ip ∈ (g.removeGossipableIP nodeID).gossipableIPs ↔
    ip ∈ g.gossipableIPs ∧ ip.nodeID ≠ nodeID := by
  unfold removeGossipableIP
  split
  · next h =>
    refine ⟨fun hin => ⟨hin,fun heq => ?_⟩,And.left⟩
    have hsome := g.positions.lookup_isSome_iff.mpr ⟨ip,hin,heq⟩
    rw [h] at hsome
    cases hsome
  · next index h =>
    have hlt := g.positions.lt_length h
    split
    · next hlast =>
      rw [List.getLast?_eq_none_iff.mp hlast] at hlt
      cases hlt
    · next replacementIP hlast =>
      split
      · exact g.positions.mem_swapRemove h hlast ip
      · exact g.positions.mem_swapRemove h hlast ip

end
end GossipableSubnet

/-! ## The tracker -/

/-- The hash function, and the parameters of filters that are computed with floats. -/
structure Params where
  sha256 : Bytes → Bytes
  /-- `OptimalParameters` for the target probability: the number of hashes and of bytes. -/
  optimalParameters : ℕ → ℤ × ℤ
  /-- `EstimateCount` for the maximal probability. -/
  estimateCount : ℤ → ℤ → ℤ

def Params.hash (P : Params) (key salt : Bytes) : UInt64 :=
  Bloom.uint64At (P.sha256 (key ++ salt)) 0

structure BloomState (N : Type) where
  bloom : Bloom.Filter
  bloomAdditions : Finmap fun _ : N => ℕ
  bloomSalt : Bytes
  maxBloomCount : ℤ

structure IPTracker (N S : Type) [DecidableEq N] extends BloomState N where
  trackedSubnets : Finset S
  tracked : Finmap fun _ : N => TrackedNode N S
  connected : Finmap fun _ : N => ConnectedNode N S
  subnets : Finmap fun _ : S => GossipableSubnet N

/-- What a call meets: the random bytes of a new filter and the orders in which its loops
visit maps and sets. No call makes more than one filter. -/
structure Env (N S : Type) where
  salt : Except String { bytes : Bytes // bytes.length = saltSize }
  seeds : Bloom.Random
  trackedOrder : (Finmap fun _ : N => TrackedNode N S) → List N
  mem_trackedOrder : ∀ m n, n ∈ trackedOrder m ↔ n ∈ m
  subnetOrder : Finset S → List S
  mem_subnetOrder : ∀ subnets s, s ∈ subnetOrder subnets ↔ s ∈ subnets
  nodup_subnetOrder : ∀ subnets, (subnetOrder subnets).Nodup

inductive TimestampComparison where
  | untracked
  | older
  | same
  | newer
  | new
  deriving DecidableEq

def TimestampComparison.toInt : TimestampComparison → ℤ
  | untracked => -2
  | older => -1
  | same => 0
  | newer => 1
  | new => 2

section
variable [DecidableEq N] (P : Params) (env : Env N S)

def refill (salt : Bytes) (tracked : Finmap fun _ : N => TrackedNode N S) :
    List N → Bloom.Filter → (Finmap fun _ : N => ℕ) → Bloom.Filter × Finmap fun _ : N => ℕ
  | [], filter, additions => (filter,additions)
  | nodeID :: order, filter, additions => match (tracked.lookup nodeID).bind TrackedNode.ip with
    | none => refill salt tracked order filter additions
    | some ip => refill salt tracked order (filter.add (P.hash ip.gossipID salt))
        (additions.insert nodeID 1)

def newBloom (tracked : Finmap fun _ : N => TrackedNode N S) :
    Outcome Bloom.BloomError (BloomState N) :=
  match env.salt with
  | .error e => .error (.random e)
  | .ok newSalt =>
    let count := max (maxIPEntriesPerNode * tracked.keys.card) minCountEstimate
    let (numHashes,numEntries) := P.optimalParameters count
    match Bloom.newFilter env.seeds numHashes numEntries with
    | .error e => .error e
    | .panic p => .panic p
    | .ok newFilter =>
      let (filter,additions) := refill P newSalt.1 tracked (env.trackedOrder tracked) newFilter ∅
      .ok ⟨filter,additions,newSalt.1,P.estimateCount numHashes numEntries⟩

def newIPTracker (trackedSubnets : Finset S) : Outcome Bloom.BloomError (IPTracker N S) := do
  let state ← newBloom P env ∅
  .ok ⟨state,trackedSubnets,∅,∅,∅⟩

end

namespace IPTracker
section
variable [DecidableEq N] (P : Params) (env : Env N S)

def additions (t : IPTracker N S) (nodeID : N) : ℕ := (t.bloomAdditions.lookup nodeID).getD 0

/-- The tracker after the call: an error leaves it as it is. -/
def resetBloom (t : IPTracker N S) : Outcome Empty (IPTracker N S) :=
  match newBloom P env t.tracked with
  | .ok state => .ok { t with toBloomState := state }
  | .error _ => .ok t
  | .panic p => .panic p

def updateMostRecentTrackedIP (t : IPTracker N S) (nodeID : N) (node : TrackedNode N S)
    (ip : ClaimedIPPort N) : Outcome Empty (IPTracker N S) :=
  let t := { t with tracked := t.tracked.insert nodeID { node with ip := some ip } }
  let oldCount := t.additions ip.nodeID
  if oldCount ≥ maxIPEntriesPerNode then .ok t
  -- If the validator set is growing rapidly, we should increase the size of the bloom filter.
  else if (t.bloom.count : ℤ) ≥ t.maxBloomCount then t.resetBloom P env
  else .ok { t with
    bloomAdditions := t.bloomAdditions.insert ip.nodeID (oldCount + 1)
    bloom := t.bloom.add (P.hash ip.gossipID t.bloomSalt) }

/-- The lower case `addIP`. -/
def addIP (t : IPTracker N S) (ip : ClaimedIPPort N) :
    Outcome Empty (TimestampComparison × IPTracker N S) :=
  match t.tracked.lookup ip.nodeID with
  | none => .ok (.untracked,t)
  | some node => match node.ip with
    | none => do
      let t ← t.updateMostRecentTrackedIP P env ip.nodeID node ip
      .ok (.new,t)
    | some known =>
      if known.timestamp > ip.timestamp then .ok (.older,t)
      else if known.timestamp = ip.timestamp then .ok (.same,t)
      else do
        let t ← t.updateMostRecentTrackedIP P env ip.nodeID node ip
        .ok (.newer,t)

end

section
variable [DecidableEq N] [DecidableEq S]

/-- The loop of the tracker's `setGossipableIP`. An IP that is nil is read as soon as a subnet is
there. -/
def setGossipableIP (ip : Option (ClaimedIPPort N)) :
    List S → (Finmap fun _ : S => GossipableSubnet N) →
      Outcome Empty (Finmap fun _ : S => GossipableSubnet N)
  | [], subnets => .ok subnets
  | subnetID :: order, subnets => match subnets.lookup subnetID with
    | none => setGossipableIP ip order subnets
    | some g => match ip with
      | none => .panic "nil pointer dereference"
      | some ip' =>
        if ip'.nodeID ∈ g.gossipableIDs then
          setGossipableIP ip order (subnets.insert subnetID (g.setGossipableIP ip'))
        else setGossipableIP ip order subnets

def ipOf (t : IPTracker N S) (nodeID : N) : Option (ClaimedIPPort N) :=
  (t.tracked.lookup nodeID).bind TrackedNode.ip

variable (P : Params) (env : Env N S)

def onAddIP (t : IPTracker N S) (ip : ClaimedIPPort N) : Outcome Empty (Bool × IPTracker N S) := do
  let (comparison,t) ← t.addIP P env ip
  if comparison.toInt ≤ TimestampComparison.same.toInt then .ok (false,t)
  else
    let subnets ← match t.connected.lookup ip.nodeID with
      | none => .ok t.subnets
      | some node =>
        setGossipableIP (t.ipOf ip.nodeID) (env.subnetOrder node.trackedSubnets) t.subnets
    .ok (((t.tracked.lookup ip.nodeID).map TrackedNode.wantsConnection).getD false,
      { t with subnets := subnets })

def onConnected (t : IPTracker N S) (ip : ClaimedIPPort N) (trackedSubnets : Finset S) :
    Outcome Empty (IPTracker N S) := do
  let t := { t with connected := t.connected.insert ip.nodeID ⟨trackedSubnets,ip⟩ }
  let (comparison,t) ← t.addIP P env ip
  let (_,t) ← t.addIP P env ip
  if comparison ≠ .untracked then
    let subnets ← setGossipableIP (t.ipOf ip.nodeID) (env.subnetOrder trackedSubnets) t.subnets
    .ok { t with subnets := subnets }
  else .ok t

def onDisconnected (t : IPTracker N S) (nodeID : N) : IPTracker N S :=
  match t.connected.lookup nodeID with
  | none => t
  | some node => { t with
      connected := t.connected.erase nodeID
      subnets := modifyAll (·.removeGossipableIP nodeID) (env.subnetOrder node.trackedSubnets)
        t.subnets }

variable [Inhabited S]

/-- Whether the subnet is the primary network, whose ID is all zero, or is tracked. -/
def onTracked (t : IPTracker N S) (subnetID : S) : Bool :=
  decide (subnetID = default) || decide (subnetID ∈ t.trackedSubnets)

def mark (t : IPTracker N S) (node : TrackedNode N S) : Option S → TrackedNode N S
  | none => { node with manuallyTracked := true }
  | some subnetID => { node with
      validatedSubnets := insert subnetID node.validatedSubnets
      trackedSubnets := if t.onTracked subnetID then insert subnetID node.trackedSubnets
        else node.trackedSubnets }

def addTrackableID (t : IPTracker N S) (nodeID : N) (subnetID : Option S) :
    Outcome Empty (IPTracker N S) :=
  match t.tracked.lookup nodeID with
  | some node => .ok { t with tracked := t.tracked.insert nodeID (t.mark node subnetID) }
  | none =>
    let node := t.mark ⟨false,∅,∅,none⟩ subnetID
    let t := { t with tracked := t.tracked.insert nodeID node }
    match t.connected.lookup nodeID with
    | none => .ok t
    -- Because we previously weren't tracking this nodeID, the IP from the connection is
    -- guaranteed to be the most up-to-date IP that we know.
    | some peer => t.updateMostRecentTrackedIP P env nodeID node peer.ip

def addGossipableID (t : IPTracker N S) (nodeID : N) (subnetID : S) (manuallyGossiped : Bool) :
    Outcome Empty (IPTracker N S) :=
  let g := ((t.subnets.lookup subnetID).getD .empty).markManual manuallyGossiped nodeID
  if nodeID ∈ g.gossipableIDs then .ok { t with subnets := t.subnets.insert subnetID g }
  else
    let g := { g with gossipableIDs := insert nodeID g.gossipableIDs }
    match t.connected.lookup nodeID with
    | none => .ok { t with subnets := t.subnets.insert subnetID g }
    | some peer =>
      if subnetID ∉ peer.trackedSubnets then .ok { t with subnets := t.subnets.insert subnetID g }
      else match t.tracked.lookup nodeID with
        | none => .ok { t with subnets := t.subnets.insert subnetID g }
        | some node => match node.ip with
          | none => .panic "nil pointer dereference"
          | some ip => .ok { t with subnets := t.subnets.insert subnetID (g.setGossipableIP ip) }

def manuallyTrack (t : IPTracker N S) (nodeID : N) : Outcome Empty (IPTracker N S) :=
  t.addTrackableID P env nodeID none

def manuallyGossip (t : IPTracker N S) (subnetID : S) (nodeID : N) :
    Outcome Empty (IPTracker N S) := do
  let t ← if t.onTracked subnetID then t.addTrackableID P env nodeID none else .ok t
  let t ← t.addTrackableID P env nodeID (some subnetID)
  t.addGossipableID nodeID subnetID true

def onValidatorAdded (t : IPTracker N S) (subnetID : S) (nodeID : N) :
    Outcome Empty (IPTracker N S) := do
  let t ← t.addTrackableID P env nodeID (some subnetID)
  t.addGossipableID nodeID subnetID false

def untrack (tracked : Finmap fun _ : N => TrackedNode N S) (subnetID : S) (nodeID : N) :
    Finmap fun _ : N => TrackedNode N S :=
  match tracked.lookup nodeID with
  | none => tracked
  | some node =>
    let node := { node with
      validatedSubnets := node.validatedSubnets.erase subnetID
      trackedSubnets := node.trackedSubnets.erase subnetID }
    if node.canDelete then tracked.erase nodeID else tracked.insert nodeID node

def onValidatorRemoved (t : IPTracker N S) (subnetID : S) (nodeID : N) : IPTracker N S :=
  match t.subnets.lookup subnetID with
  | none => t
  | some g =>
    if nodeID ∈ g.manuallyGossipable then t
    else
      let g := { g with gossipableIDs := g.gossipableIDs.erase nodeID }
      let g := g.removeGossipableIP nodeID
      { t with
        subnets := if g.canDelete then t.subnets.erase subnetID else t.subnets.insert subnetID g
        tracked := untrack t.tracked subnetID nodeID }

end

/-! ## Runs -/

inductive Op (N S : Type) where
  | manuallyTrack (nodeID : N)
  | manuallyGossip (subnetID : S) (nodeID : N)
  | addIP (ip : ClaimedIPPort N)
  | connected (ip : ClaimedIPPort N) (trackedSubnets : Finset S)
  | disconnected (nodeID : N)
  | onValidatorAdded (subnetID : S) (nodeID : N)
  | onValidatorRemoved (subnetID : S) (nodeID : N)
  | resetBloom

section
variable [DecidableEq N] [DecidableEq S] [Inhabited S] (P : Params)

def exec (env : Env N S) (t : IPTracker N S) : Op N S → Outcome Empty (IPTracker N S)
  | .manuallyTrack nodeID => t.manuallyTrack P env nodeID
  | .manuallyGossip subnetID nodeID => t.manuallyGossip P env subnetID nodeID
  | .addIP ip => do
    let (_,t) ← t.onAddIP P env ip
    .ok t
  | .connected ip trackedSubnets => t.onConnected P env ip trackedSubnets
  | .disconnected nodeID => .ok (t.onDisconnected env nodeID)
  | .onValidatorAdded subnetID nodeID => t.onValidatorAdded P env subnetID nodeID
  | .onValidatorRemoved subnetID nodeID => .ok (t.onValidatorRemoved subnetID nodeID)
  | .resetBloom => t.resetBloom P env

/-- A node that is connected does not connect before it has been disconnected. -/
def Allowed (t : IPTracker N S) : Op N S → Prop
  | .connected ip _ => t.connected.lookup ip.nodeID = none
  | _ => True

end
end IPTracker
end Landslide.Net
