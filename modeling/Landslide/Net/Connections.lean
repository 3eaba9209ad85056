import Landslide.Net.GossipRuns

/-! # Connections of the network

The network keeps the peers in two sets: those that are shaking hands and those that are
connected. Each peer has three goroutines; the last one that ends takes the peer out of the sets.
Other goroutines dial the nodes that are wanted. A step is what one goroutine does while it holds
a lock, or one call to the tracker or the router, and the goroutines take their steps in any
order. Peers and dials are numbered in the order in which they start. How long a dial sleeps is
left out, since a timer may fire at any time.
-/
namespace Landslide.Net
variable {N S : Type}

namespace IPTracker
variable [DecidableEq N]

def wantsConnection (t : IPTracker N S) (nodeID : N) : Bool :=
  ((t.tracked.lookup nodeID).map TrackedNode.wantsConnection).getD false

def shouldVerifyIP (t : IPTracker N S) (ip : ClaimedIPPort N) (trackAllSubnets : Bool) : Bool :=
  match t.tracked.lookup ip.nodeID with
  | none => false
  | some node =>
    if !trackAllSubnets && !node.wantsConnection then false
    else match node.ip with
      | none => true
      | some known => decide (known.timestamp < ip.timestamp)

def getIP (t : IPTracker N S) (nodeID : N) : Option (ClaimedIPPort N) × Bool :=
  match t.tracked.lookup nodeID with
  | none => (none,false)
  | some node => match node.ip with
    | none => (none,false)
    | some ip => (some ip,node.wantsConnection)

end IPTracker

/-! ## Peers -/

inductive Role where
  | reader
  | writer
  | sender
  deriving DecidableEq

/-- Where a goroutine of a peer is. All but the first and the last two are places of the reader
in `handlePeerList`. -/
inductive Place (N S : Type) where
  | running
  /-- `Connected` has moved this peer from one set to the other. -/
  | moved (peer : ℕ)
  /-- The tracker knows the connection of this peer. -/
  | recorded (peer : ℕ)
  /-- The router knows the connection, and is to be told about these subnets too. -/
  | announcing (subnets : List S)
  /-- These IPs of a peer list are still to be tracked. -/
  | tracking (ips : List (ClaimedIPPort N))
  | verified (ip : ClaimedIPPort N) (ips : List (ClaimedIPPort N))
  | leaving
  | exited

inductive Closer where
  | idle
  | disconnecting
  | fromConnecting (connected : Bool)
  | fromConnected
  | toldTracker
  | toldRouter
  | removed
  | closed
  deriving DecidableEq

structure PeerState (N S : Type) where
  id : N
  ip : Option (ClaimedIPPort N)
  trackedSubnets : Finset S
  gotHandshake : Bool
  finishedHandshake : Bool
  closing : Bool
  numExecuting : ℤ
  place : Role → Place N S
  closer : Closer

namespace PeerState

def start (id : N) : PeerState N S :=
  ⟨id,none,∅,false,false,false,3,fun _ => .running,.idle⟩

def move (p : PeerState N S) (r : Role) (place : Place N S) : PeerState N S :=
  { p with place := Function.update p.place r place }

/-- The body of `startClosingOnce`; a second call changes nothing. -/
def startClose (p : PeerState N S) : PeerState N S := { p with closing := true }

/-- `close`: the goroutine that brings the counter to zero goes on to `Disconnected`. -/
def close (p : PeerState N S) (r : Role) : PeerState N S :=
  { p.move r .exited with
    numExecuting := p.numExecuting - 1
    closer := if p.numExecuting - 1 ≠ 0 then p.closer else .disconnecting }

def handshake [DecidableEq S] [Inhabited S] (p : PeerState N S) (timestamp : UInt64)
    (gossipID : Bytes) (subnets : Finset S) : PeerState N S :=
  { p with
    ip := some ⟨p.id,timestamp,gossipID⟩
    trackedSubnets := insert default (p.trackedSubnets ∪ subnets)
    gotHandshake := true }

end PeerState

/-! ## The network -/

inductive Upgraded where
  | shuttingDown
  | alreadyConnecting
  | alreadyConnected
  | started
  deriving DecidableEq

inductive Exit (N : Type) where
  /-- The network is closing, or the IP is not tracked any more. -/
  | stopped
  | unwanted
  | busy
  /-- The connection was to this node itself or is not allowed. -/
  | dropped
  | upgraded (nodeID : N) (result : Upgraded)

inductive DialPlace (N : Type) where
  | waiting
  | dialing
  /-- The connection turned out to be to this node. -/
  | upgrading (nodeID : N)
  | exited (why : Exit N)

/-- A `trackedIP` with the goroutine of its `dial`. -/
structure Dial (N A : Type) where
  nodeID : N
  ip : A
  stopped : Bool
  place : DialPlace N

inductive Event (N S : Type) where
  | connected (nodeID : N) (subnetID : S)
  | disconnected (nodeID : N)
  | handleInbound (nodeID : N)

structure Config (N S A : Type) where
  myNodeID : N
  requireValidatorToConnect : Bool
  mySubnets : Finset S
  addrPort : ClaimedIPPort N → A

structure Connections (N S A : Type) [DecidableEq N] where
  tracker : IPTracker N S
  trackedIPs : Finmap fun _ : N => ℕ
  connectingPeers : Finmap fun _ : N => ℕ
  connectedPeers : Finmap fun _ : N => ℕ
  closing : Bool
  started : ℕ
  peers : ℕ → PeerState N S
  dialed : ℕ
  dials : ℕ → Dial N A
  inbound : List N
  /-- Calls of `ManuallyTrack` that wait for the lock. -/
  manual : List (N × A)
  events : List (Event N S)

namespace Connections
variable {A : Type} [DecidableEq N]

def setPeer (s : Connections N S A) (i : ℕ) (p : PeerState N S) : Connections N S A :=
  { s with peers := Function.update s.peers i p }

def setDial (s : Connections N S A) (d : ℕ) (dial : Dial N A) : Connections N S A :=
  { s with dials := Function.update s.dials d dial }

def exitDial (s : Connections N S A) (d : ℕ) (why : Exit N) : Connections N S A :=
  s.setDial d { s.dials d with place := .exited why }

def stopTracking (s : Connections N S A) (d : ℕ) : Connections N S A :=
  s.setDial d { s.dials d with stopped := true }

def dial (s : Connections N S A) (nodeID : N) (ip : A) : Connections N S A :=
  { s with
    trackedIPs := s.trackedIPs.insert nodeID s.dialed
    dialed := s.dialed + 1
    dials := Function.update s.dials s.dialed ⟨nodeID,ip,false,.waiting⟩ }

def forget (s : Connections N S A) (nodeID : N) : Connections N S A :=
  match s.trackedIPs.lookup nodeID with
  | none => s
  | some d => { s.stopTracking d with trackedIPs := s.trackedIPs.erase nodeID }

def connected (s : Connections N S A) (nodeID : N) : Option (ℕ × Connections N S A) :=
  match s.connectingPeers.lookup nodeID with
  | none => none
  | some peer =>
    let s := s.forget nodeID
    some (peer,{ s with
      connectingPeers := s.connectingPeers.erase nodeID
      connectedPeers := s.connectedPeers.insert nodeID peer })

/-- `AllowConnection`, given whether this node is a validator of the primary network. -/
def allowConnection (s : Connections N S A) (c : Config N S A) (validator : Bool) (nodeID : N) :
    Bool :=
  !c.requireValidatorToConnect || validator || s.tracker.wantsConnection nodeID

def disconnectedFromConnecting (s : Connections N S A) (nodeID : N) : Connections N S A :=
  let s := { s with connectingPeers := s.connectingPeers.erase nodeID }
  match s.trackedIPs.lookup nodeID with
  | none => s
  | some d =>
    if s.tracker.wantsConnection nodeID then (s.stopTracking d).dial nodeID (s.dials d).ip
    else s.forget nodeID

def disconnectedFromConnected (s : Connections N S A) (c : Config N S A) (nodeID : N) :
    Connections N S A :=
  let s := { s with connectedPeers := s.connectedPeers.erase nodeID }
  match s.tracker.getIP nodeID with
  | (some ip,true) => s.dial nodeID (c.addrPort ip)
  | _ => s

def manuallyTrack (s : Connections N S A) (nodeID : N) (ip : A) : Connections N S A :=
  if (s.connectedPeers.lookup nodeID).isSome then s
  else if (s.trackedIPs.lookup nodeID).isSome then s
  else s.dial nodeID ip

/-- The part of `track` that holds the lock, after the tracker has added the IP. -/
def trackIP (s : Connections N S A) (c : Config N S A) (ip : ClaimedIPPort N) (added : Bool) :
    Connections N S A :=
  if !added then s
  else if (s.connectedPeers.lookup ip.nodeID).isSome then s
  else match s.trackedIPs.lookup ip.nodeID with
    | some d => (s.stopTracking d).dial ip.nodeID (c.addrPort ip)
    | none => s.dial ip.nodeID (c.addrPort ip)

def upgrade (s : Connections N S A) (nodeID : N) : Upgraded × Connections N S A :=
  if s.closing then (.shuttingDown,s)
  else if (s.connectingPeers.lookup nodeID).isSome then (.alreadyConnecting,s)
  else if (s.connectedPeers.lookup nodeID).isSome then (.alreadyConnected,s)
  else (.started,{ s with
    connectingPeers := s.connectingPeers.insert nodeID s.started
    started := s.started + 1
    peers := Function.update s.peers s.started (.start nodeID) })

/-- A dial wakes up: it ends if the node is not wanted, or is in one of the sets. -/
def wake (s : Connections N S A) (d : ℕ) : Connections N S A :=
  let nodeID := (s.dials d).nodeID
  if !s.tracker.wantsConnection nodeID then (s.forget nodeID).exitDial d .unwanted
  else if (s.connectingPeers.lookup nodeID).isSome || (s.connectedPeers.lookup nodeID).isSome then
    s.exitDial d .busy
  else s.setDial d { s.dials d with place := .dialing }

/-- The loops of `StartClose` over the peers of a set. -/
def closePeers (set : Finmap fun _ : N => ℕ) : List N → (ℕ → PeerState N S) → ℕ → PeerState N S
  | [], peers => peers
  | nodeID :: order, peers => match set.lookup nodeID with
    | none => closePeers set order peers
    | some i => closePeers set order (Function.update peers i (peers i).startClose)

def startClose (s : Connections N S A) (ips connecting connected : List N) : Connections N S A :=
  let s := ips.foldl forget { s with closing := true }
  { s with
    peers := closePeers s.connectedPeers connected
      (closePeers s.connectingPeers connecting s.peers) }

def lookUp (s : Connections N S A) (nodeID : N) : Closer :=
  let connected := (s.connectedPeers.lookup nodeID).isSome
  if (s.connectingPeers.lookup nodeID).isSome then .fromConnecting connected
  else if connected then .fromConnected
  else .removed

end Connections

/-! ## Steps -/

/-- The calls of the tracker that do not come from the network or its peers. -/
def IPTracker.Op.outside : IPTracker.Op N S → Bool
  | .manuallyGossip _ _ | .onValidatorAdded _ _ | .onValidatorRemoved _ _ | .resetBloom => true
  | _ => false

namespace Connections
variable {A : Type} [DecidableEq N] [DecidableEq S] [Inhabited S]

def Initial (P : Params) (s : Connections N S A) : Prop :=
  ∃ env trackedSubnets t, newIPTracker P env trackedSubnets = .ok t ∧ ∃ peers dials,
    s = ⟨t,∅,∅,∅,false,0,peers,0,dials,[],[],[]⟩

inductive PeerStep (P : Params) (c : Config N S A) (s : Connections N S A) (i : ℕ)
    (p : PeerState N S) : Connections N S A → Prop
  /-- A handshake that is refused may have left its IP and its subnets. -/
  | refused (h : p.place .reader = .running) (hgot : p.gotHandshake = false)
      (ip : Option (ClaimedIPPort N)) (subnets : Finset S) :
      PeerStep P c s i p (s.setPeer i
        { p.startClose with ip := ip, trackedSubnets := p.trackedSubnets ∪ subnets })
  | handshake (h : p.place .reader = .running) (hgot : p.gotHandshake = false) (timestamp : UInt64)
      (gossipID : Bytes) (subnets : Finset S) :
      PeerStep P c s i p (s.setPeer i (p.handshake timestamp gossipID subnets))
  /-- A message that is malformed, or an answer that cannot be sent. -/
  | malformed (h : p.place .reader = .running) : PeerStep P c s i p (s.setPeer i p.startClose)
  | connected (h : p.place .reader = .running) (hgot : p.gotHandshake = true)
      (hfinished : p.finishedHandshake = false) {peer : ℕ} {s' : Connections N S A}
      (hconnected : s.connected p.id = some (peer,s')) :
      PeerStep P c s i p (s'.setPeer i (p.move .reader (.moved peer)))
  /-- `Connected` returns if the peer is not in the set. -/
  | unexpected (h : p.place .reader = .running) (hgot : p.gotHandshake = true)
      (hfinished : p.finishedHandshake = false) (hconnected : s.connected p.id = none) :
      PeerStep P c s i p (s.setPeer i (p.move .reader (.announcing [])))
  | record {peer : ℕ} (h : p.place .reader = .moved peer) {ip : ClaimedIPPort N}
      (hip : (s.peers peer).ip = some ip) {env : Env N S} {t : IPTracker N S}
      (hexec : s.tracker.exec P env (.connected ip (s.peers peer).trackedSubnets) = .ok t) :
      PeerStep P c s i p ({ s with tracker := t }.setPeer i (p.move .reader (.recorded peer)))
  | announce {peer : ℕ} (h : p.place .reader = .recorded peer) (subnets : List S)
      (hsubnets : ∀ subnetID ∈ subnets,
        subnetID ∈ c.mySubnets ∧ subnetID ∈ (s.peers peer).trackedSubnets) :
      PeerStep P c s i p ({ s with events := .connected p.id default :: s.events }.setPeer i
        (p.move .reader (.announcing subnets)))
  | announceSubnet {subnetID : S} {subnets : List S}
      (h : p.place .reader = .announcing (subnetID :: subnets)) :
      PeerStep P c s i p ({ s with events := .connected p.id subnetID :: s.events }.setPeer i
        (p.move .reader (.announcing subnets)))
  | finish (h : p.place .reader = .announcing []) (ips : List (ClaimedIPPort N)) :
      PeerStep P c s i p (s.setPeer i
        { p.move .reader (.tracking ips) with finishedHandshake := true })
  | peerList (h : p.place .reader = .running) (hfinished : p.finishedHandshake = true)
      (ips : List (ClaimedIPPort N)) :
      PeerStep P c s i p (s.setPeer i (p.move .reader (.tracking ips)))
  | handleInbound (h : p.place .reader = .running) (hfinished : p.finishedHandshake = true) :
      PeerStep P c s i p { s with events := .handleInbound p.id :: s.events }
  | skip {ip : ClaimedIPPort N} {ips : List (ClaimedIPPort N)}
      (h : p.place .reader = .tracking (ip :: ips)) {trackAllSubnets : Bool}
      (hskip : s.tracker.shouldVerifyIP ip trackAllSubnets = false) :
      PeerStep P c s i p (s.setPeer i (p.move .reader (.tracking ips)))
  | verify {ip : ClaimedIPPort N} {ips : List (ClaimedIPPort N)}
      (h : p.place .reader = .tracking (ip :: ips)) {trackAllSubnets : Bool}
      (hverify : s.tracker.shouldVerifyIP ip trackAllSubnets = true) :
      PeerStep P c s i p (s.setPeer i (p.move .reader (.verified ip ips)))
  /-- The signature is not valid. -/
  | forged {ip : ClaimedIPPort N} {ips : List (ClaimedIPPort N)}
      (h : p.place .reader = .tracking (ip :: ips)) {trackAllSubnets : Bool}
      (hverify : s.tracker.shouldVerifyIP ip trackAllSubnets = true) :
      PeerStep P c s i p (s.setPeer i (p.startClose.move .reader .running))
  | track {ip : ClaimedIPPort N} {ips : List (ClaimedIPPort N)}
      (h : p.place .reader = .verified ip ips) {env : Env N S} {added : Bool} {t : IPTracker N S}
      (hadd : s.tracker.onAddIP P env ip = .ok (added,t)) :
      PeerStep P c s i p (({ s with tracker := t }.trackIP c ip added).setPeer i
        (p.move .reader (.tracking ips)))
  | tracked (h : p.place .reader = .tracking []) :
      PeerStep P c s i p (s.setPeer i (p.move .reader .running))
  /-- The loop of a goroutine ends, and `StartClose` is called. -/
  | leave {r : Role} (h : p.place r = .running) :
      PeerStep P c s i p (s.setPeer i (p.startClose.move r .leaving))
  | close {r : Role} (h : p.place r = .leaving) : PeerStep P c s i p (s.setPeer i (p.close r))
  | lookUp (h : p.closer = .disconnecting) :
      PeerStep P c s i p (s.setPeer i { p with closer := s.lookUp p.id })
  | leaveConnecting {connected : Bool} (h : p.closer = .fromConnecting connected) :
      PeerStep P c s i p ((s.disconnectedFromConnecting p.id).setPeer i
        { p with closer := if connected then .fromConnected else .removed })
  | tellTracker (h : p.closer = .fromConnected) (env : Env N S) :
      PeerStep P c s i p ({ s with tracker := s.tracker.onDisconnected env p.id }.setPeer i
        { p with closer := .toldTracker })
  | tellRouter (h : p.closer = .toldTracker) :
      PeerStep P c s i p ({ s with events := .disconnected p.id :: s.events }.setPeer i
        { p with closer := .toldRouter })
  | leaveConnected (h : p.closer = .toldRouter) :
      PeerStep P c s i p ((s.disconnectedFromConnected c p.id).setPeer i
        { p with closer := .removed })
  | closed (h : p.closer = .removed) : PeerStep P c s i p (s.setPeer i { p with closer := .closed })

inductive DialStep (c : Config N S A) (s : Connections N S A) (d : ℕ) (dial : Dial N A) :
    Connections N S A → Prop
  | stop (h : dial.place = .waiting) (hstop : s.closing ∨ dial.stopped) :
      DialStep c s d dial (s.exitDial d .stopped)
  | wake (h : dial.place = .waiting) : DialStep c s d dial (s.wake d)
  /-- The IP is private, nobody answers, or the upgrade fails. -/
  | retry (h : dial.place = .dialing) :
      DialStep c s d dial (s.setDial d { dial with place := .waiting })
  | drop (h : dial.place = .dialing) {nodeID : N} {validator : Bool}
      (hdrop : nodeID = c.myNodeID ∨ s.allowConnection c validator nodeID = false) :
      DialStep c s d dial (s.exitDial d .dropped)
  | allow (h : dial.place = .dialing) {nodeID : N} {validator : Bool} (hme : nodeID ≠ c.myNodeID)
      (hallow : s.allowConnection c validator nodeID = true) :
      DialStep c s d dial (s.setDial d { dial with place := .upgrading nodeID })
  | upgrade {nodeID : N} (h : dial.place = .upgrading nodeID) :
      DialStep c s d dial ((s.upgrade nodeID).2.exitDial d (.upgraded nodeID (s.upgrade nodeID).1))

inductive Step (P : Params) (c : Config N S A) (s : Connections N S A) : Connections N S A → Prop
  | peer {i : ℕ} (hi : i < s.started) {s' : Connections N S A}
      (h : PeerStep P c s i (s.peers i) s') : Step P c s s'
  | dial {d : ℕ} (hd : d < s.dialed) {s' : Connections N S A}
      (h : DialStep c s d (s.dials d) s') : Step P c s s'
  | outside {env : Env N S} {op : IPTracker.Op N S} (hop : op.outside = true) {t : IPTracker N S}
      (hexec : s.tracker.exec P env op = .ok t) : Step P c s { s with tracker := t }
  | manuallyTrack {env : Env N S} (nodeID : N) (ip : A) {t : IPTracker N S}
      (hexec : s.tracker.exec P env (.manuallyTrack nodeID) = .ok t) :
      Step P c s { s with tracker := t, manual := (nodeID,ip) :: s.manual }
  | manuallyDial {nodeID : N} {ip : A} {manual : List (N × A)}
      (h : s.manual.Perm ((nodeID,ip) :: manual)) :
      Step P c s { s.manuallyTrack nodeID ip with manual := manual }
  | accept {nodeID : N} {validator : Bool} (hme : nodeID ≠ c.myNodeID)
      (hallow : s.allowConnection c validator nodeID = true) :
      Step P c s { s with inbound := nodeID :: s.inbound }
  | upgrade {nodeID : N} {inbound : List N} (h : s.inbound.Perm (nodeID :: inbound)) :
      Step P c s { (s.upgrade nodeID).2 with inbound := inbound }
  | startClose (hopen : s.closing = false) {ips connecting connected : List N}
      (hips : ∀ n, n ∈ ips ↔ n ∈ s.trackedIPs)
      (hconnecting : ∀ n, n ∈ connecting ↔ n ∈ s.connectingPeers)
      (hconnected : ∀ n, n ∈ connected ↔ n ∈ s.connectedPeers) :
      Step P c s (s.startClose ips connecting connected)

inductive Reachable (P : Params) (c : Config N S A) : Connections N S A → Prop
  | initial {s : Connections N S A} (h : Initial P s) : Reachable P c s
  | step {s s' : Connections N S A} (hs : Reachable P c s) (h : Step P c s s') : Reachable P c s'

end Connections
end Landslide.Net
