import Landslide.Net.PeerLifecycle

/-! # Runs of the network

Whatever the goroutines do and in whichever order, what the sets, the tracker and the router hold
for a node is what the phase of its peer says. So the calls of the tracker are the ones it
expects, and the router hears of connections and their ends in turn.
-/
namespace Landslide.Net
variable {N S A : Type} [DecidableEq N]

/-! ## The router -/

def online (n : N) : List (Event N S) → Bool
  | [] => false
  | .connected m _ :: events => if m = n then true else online n events
  | .disconnected m :: events => if m = n then false else online n events
  | .handleInbound _ :: events => online n events

/-- A node connects on the primary network, then on other subnets of this node; only nodes that
are connected send messages and disconnect. -/
def InTurn [Inhabited S] (mySubnets : Finset S) : List (Event N S) → Prop
  | [] => True
  | .connected m subnetID :: events => InTurn mySubnets events ∧
      if online m events then subnetID ∈ mySubnets else subnetID = default
  | .disconnected m :: events => InTurn mySubnets events ∧ online m events = true
  | .handleInbound m :: events => InTurn mySubnets events ∧ online m events = true

/-! ## What peers depend on -/

structure Core (N S : Type) [DecidableEq N] where
  tracker : IPTracker N S
  connectingPeers : Finmap fun _ : N => ℕ
  connectedPeers : Finmap fun _ : N => ℕ
  started : ℕ
  peers : ℕ → PeerState N S
  events : List (Event N S)

def Core.view (k : Core N S) (n : N) : View :=
  ⟨k.connectingPeers.lookup n,k.connectedPeers.lookup n,
    (k.tracker.connected.lookup n).isSome,Net.online n k.events⟩

namespace Connections

def core (s : Connections N S A) : Core N S :=
  ⟨s.tracker,s.connectingPeers,s.connectedPeers,s.started,s.peers,s.events⟩

section
variable (s : Connections N S A) (n : N) (d : ℕ)

@[simp] theorem core_forget : (s.forget n).core = s.core := by
  unfold forget
  split <;> rfl

@[simp] theorem core_dial (ip : A) : (s.dial n ip).core = s.core := rfl

@[simp] theorem core_stopTracking : (s.stopTracking d).core = s.core := rfl

@[simp] theorem core_exitDial (why : Exit N) : (s.exitDial d why).core = s.core := rfl

@[simp] theorem core_setDial (dial : Dial N A) : (s.setDial d dial).core = s.core := rfl

@[simp] theorem core_wake : (s.wake d).core = s.core := by
  simp only [wake]
  split_ifs <;> simp

@[simp] theorem core_manuallyTrack (ip : A) : (s.manuallyTrack n ip).core = s.core := by
  unfold manuallyTrack
  split_ifs <;> simp

@[simp] theorem core_trackIP (c : Config N S A) (ip : ClaimedIPPort N) (added : Bool) :
    (s.trackIP c ip added).core = s.core := by
  unfold trackIP
  split_ifs
  · rfl
  · rfl
  split <;> simp

theorem core_setPeer (i : ℕ) (p : PeerState N S) :
    (s.setPeer i p).core = { s.core with peers := Function.update s.core.peers i p } := rfl

@[simp] theorem setPeer_peers_self (i : ℕ) (p : PeerState N S) : (s.setPeer i p).peers i = p := by
  simp [setPeer]

theorem core_disconnectedFromConnecting : (s.disconnectedFromConnecting n).core =
    { s.core with connectingPeers := s.core.connectingPeers.erase n } := by
  simp only [disconnectedFromConnecting]
  split
  · rfl
  split
  · rfl
  · exact core_forget _ n

theorem core_disconnectedFromConnected (c : Config N S A) :
    (s.disconnectedFromConnected c n).core =
      { s.core with connectedPeers := s.core.connectedPeers.erase n } := by
  simp only [disconnectedFromConnected]
  split <;> rfl

theorem core_startClose (ips connecting connected : List N) :
    (s.startClose ips connecting connected).core = { s.core with
      peers := closePeers s.connectedPeers connected
        (closePeers s.connectingPeers connecting s.peers) } := by
  have hfold : ∀ (ips : List N) (s : Connections N S A), (ips.foldl forget s).core = s.core := by
    intro ips
    induction ips with
    | nil => exact fun s => rfl
    | cons n ips ih => exact fun s => (ih (s.forget n)).trans (core_forget s n)
  have hcore := hfold ips { s with closing := true }
  simp only [core,Core.mk.injEq] at hcore
  obtain ⟨htracker,hconnecting,hconnected,hstarted,hpeers,hevents⟩ := hcore
  simp only [startClose,core,htracker,hconnecting,hconnected,hstarted,hpeers,hevents]

end

theorem connected_eq_some {s s' : Connections N S A} {n : N} {peer : ℕ}
    (h : s.connected n = some (peer,s')) : s.core.connectingPeers.lookup n = some peer ∧
      s'.core = { s.core with
        connectingPeers := s.core.connectingPeers.erase n
        connectedPeers := s.core.connectedPeers.insert n peer } := by
  unfold connected at h
  split at h
  · cases h
  · next i hi =>
    cases h
    refine ⟨hi,?_⟩
    have hcore := core_forget s n
    simp only [core,Core.mk.injEq] at hcore
    obtain ⟨htracker,hconnecting,hconnected,hstarted,hpeers,hevents⟩ := hcore
    simp only [core,htracker,hconnecting,hconnected,hstarted,hpeers,hevents]

omit [DecidableEq N] in
theorem startClose_or {p q r : PeerState N S} (hr : r = q ∨ r = q.startClose)
    (hq : q = p ∨ q = p.startClose) : r = p ∨ r = p.startClose := by
  rcases hr with rfl | rfl
  · exact hq
  · rcases hq with rfl | rfl
    · exact .inr rfl
    · exact .inr rfl

theorem closePeers_apply (set : Finmap fun _ : N => ℕ) (order : List N)
    (peers : ℕ → PeerState N S) (i : ℕ) : closePeers set order peers i = peers i ∨
      closePeers set order peers i = (peers i).startClose := by
  induction order generalizing peers with
  | nil => exact .inl rfl
  | cons n order ih =>
    cases hlookup : set.lookup n with
    | none =>
      simp only [closePeers,hlookup]
      exact ih peers
    | some j =>
      simp only [closePeers,hlookup]
      refine startClose_or (ih _) ?_
      by_cases hij : i = j
      · rw [hij,Function.update_self]
        exact .inr rfl
      · exact .inl (Function.update_of_ne hij ..)

theorem closePeers_closePeers (s : Connections N S A) (connecting connected : List N) (i : ℕ) :
    closePeers s.connectedPeers connected (closePeers s.connectingPeers connecting s.peers) i =
        s.peers i ∨
      closePeers s.connectedPeers connected (closePeers s.connectingPeers connecting s.peers) i =
        (s.peers i).startClose :=
  startClose_or (closePeers_apply ..) (closePeers_apply ..)

end Connections

/-! ## The invariant -/

variable [DecidableEq S] [Inhabited S]

/-- The calls of the tracker were allowed, the router was told in turn, and what is held for the
node of a peer is what the phase of the peer says. -/
structure Core.Inv (P : Params) (c : Config N S A) (k : Core N S) : Prop where
  runs : ∃ ops, IPTracker.Run P ops k.tracker
  inTurn : InTurn c.mySubnets k.events
  ok : ∀ i < k.started, (k.peers i).Ok c.mySubnets i
  phases : ∀ i < k.started, (k.peers i).phase.Matches i (k.view (k.peers i).id)
  owned : ∀ n i, ((k.view n).connecting = some i ∨ (k.view n).connected = some i) →
    i < k.started ∧ (k.peers i).id = n
  empty : ∀ n, (k.view n).connecting = none → (k.view n).connected = none → k.view n = .none

namespace Core.Inv
variable {P : Params} {c : Config N S A} {k k' : Core N S} {i : ℕ} {p' : PeerState N S}

theorem gone_of_ne (h : k.Inv P c) {j : ℕ} (hi : i < k.started) (hj : j < k.started)
    (hlive : (k.peers i).phase ≠ .gone) (hne : j ≠ i) (hid : (k.peers j).id = (k.peers i).id) :
    (k.peers j).phase = .gone := by
  by_contra hlive'
  exact hne ((h.phases i hi).owner (hid ▸ (h.phases j hj).isSome hlive') hlive)

theorem live (h : k.Inv P c) {n : N}
    (hi : (k.view n).connecting = some i ∨ (k.view n).connected = some i) : i < k.started ∧
      (k.peers i).id = n ∧ (k.peers i).phase ≠ .gone ∧ (k.peers i).phase.Matches i (k.view n) := by
  obtain ⟨hlt,hid⟩ := h.owned n i hi
  have hphase := h.phases i hlt
  rw [hid] at hphase
  refine ⟨hlt,hid,fun hgone => ?_,hphase⟩
  rw [hgone] at hphase
  exact hi.elim hphase.1 hphase.2

theorem owner (h : k.Inv P c) (n : N) : k.view n = .none ∨ ∃ i < k.started, (k.peers i).id = n ∧
    (k.peers i).phase ≠ .gone ∧ (k.peers i).phase.Matches i (k.view n) := by
  cases hconnecting : (k.view n).connecting with
  | some i => exact .inr ⟨i,h.live (.inl hconnecting)⟩
  | none => cases hconnected : (k.view n).connected with
    | some i => exact .inr ⟨i,h.live (.inr hconnected)⟩
    | none => exact .inl (h.empty n hconnecting hconnected)

theorem update (h : k.Inv P c) (hi : i < k.started) (hlive : (k.peers i).phase ≠ .gone)
    (hpeers : k'.peers = Function.update k.peers i p') (hstarted : k'.started = k.started)
    (hid : p'.id = (k.peers i).id)
    (hview : ∀ n, n ≠ (k.peers i).id → k'.view n = k.view n)
    (hruns : ∃ ops, IPTracker.Run P ops k'.tracker) (hturn : InTurn c.mySubnets k'.events)
    (hok : p'.Ok c.mySubnets i) (hmatch : p'.phase.Matches i (k'.view (k.peers i).id))
    (hgone : p'.phase = .gone → k'.view (k.peers i).id = .none) : k'.Inv P c := by
  have hself : k'.peers i = p' := by rw [hpeers,Function.update_self]
  have hother : ∀ j, j ≠ i → k'.peers j = k.peers j := fun j hj => by
    rw [hpeers,Function.update_of_ne hj]
  have howner : ∀ j, ((k'.view (k.peers i).id).connecting = some j ∨
      (k'.view (k.peers i).id).connected = some j) → j = i := by
    intro j hj
    by_cases hphase : p'.phase = .gone
    · rw [hgone hphase] at hj
      rcases hj with hj | hj <;> cases hj
    · exact hmatch.owner hj hphase
  refine ⟨hruns,hturn,?_,?_,?_,?_⟩
  · intro j hj
    by_cases hji : j = i
    · rwa [hji,hself]
    · rw [hother j hji]
      exact h.ok j (hstarted ▸ hj)
  · intro j hj
    rw [hstarted] at hj
    by_cases hji : j = i
    · rwa [hji,hself,hid]
    · rw [hother j hji]
      by_cases hsame : (k.peers j).id = (k.peers i).id
      · rw [h.gone_of_ne hi hj hlive hji hsame,hsame]
        exact ⟨fun hj => hji (howner j (.inl hj)),fun hj => hji (howner j (.inr hj))⟩
      · rw [hview _ hsame]
        exact h.phases j hj
  · intro n j hj
    rw [hstarted]
    by_cases hn : n = (k.peers i).id
    · rw [hn] at hj ⊢
      rw [howner j hj,hself]
      exact ⟨hi,hid⟩
    · rw [hview n hn] at hj
      obtain ⟨hlt,hid'⟩ := h.owned n j hj
      have hji : j ≠ i := by
        rintro rfl
        exact hn hid'.symm
      exact ⟨hlt,by rwa [hother j hji]⟩
  · intro n hconnecting hconnected
    by_cases hn : n = (k.peers i).id
    · rw [hn] at hconnecting hconnected ⊢
      by_cases hphase : p'.phase = .gone
      · exact hgone hphase
      · rcases hmatch.isSome hphase with hsome | hsome
        · rw [hsome] at hconnecting
          cases hconnecting
        · rw [hsome] at hconnected
          cases hconnected
    · rw [hview n hn] at hconnecting hconnected ⊢
      exact h.empty n hconnecting hconnected

theorem quietly (h : k.Inv P c) {peers : ℕ → PeerState N S}
    (hid : ∀ j, (peers j).id = (k.peers j).id) (hphase : ∀ j, (peers j).phase = (k.peers j).phase)
    (hok : ∀ j < k.started, (peers j).Ok c.mySubnets j) : { k with peers := peers }.Inv P c where
  runs := h.runs
  inTurn := h.inTurn
  ok := hok
  phases j hj := by
    change (peers j).phase.Matches j (k.view (peers j).id)
    rw [hphase,hid]
    exact h.phases j hj
  owned n j hj := by
    obtain ⟨hlt,hn⟩ := h.owned n j hj
    exact ⟨hlt,(hid j).trans hn⟩
  empty := h.empty

theorem quiet (h : k.Inv P c) (hid : p'.id = (k.peers i).id)
    (hphase : p'.phase = (k.peers i).phase) (hok : p'.Ok c.mySubnets i) :
    { k with peers := Function.update k.peers i p' }.Inv P c := by
  refine h.quietly (fun j => ?_) (fun j => ?_) (fun j hj => ?_)
  · by_cases hj : j = i
    · rw [hj,Function.update_self,hid]
    · rw [Function.update_of_ne hj]
  · by_cases hj : j = i
    · rw [hj,Function.update_self,hphase]
    · rw [Function.update_of_ne hj]
  · by_cases hji : j = i
    · rwa [hji,Function.update_self]
    · rw [Function.update_of_ne hji]
      exact h.ok j hj

theorem of_view (h : k.Inv P c) (hview : k'.view = k.view) (hpeers : k'.peers = k.peers)
    (hstarted : k'.started = k.started) (hruns : ∃ ops, IPTracker.Run P ops k'.tracker)
    (hturn : InTurn c.mySubnets k'.events) : k'.Inv P c := by
  obtain ⟨_,_,hok,hphases,howned,hempty⟩ := h
  rw [← hpeers,← hstarted] at hok hphases howned
  rw [← hview] at hphases howned hempty
  exact ⟨hruns,hturn,hok,hphases,howned,hempty⟩

theorem call (h : k.Inv P c) (op : IPTracker.Op N S) {env : Env N S} {t : IPTracker N S}
    (hallowed : k.tracker.Allowed op)
    (hop : ∀ (ops : List (IPTracker.Op N S)) n,
      IPTracker.connection (op :: ops) n = IPTracker.connection ops n)
    (hexec : k.tracker.exec P env op = .ok t) : { k with tracker := t }.Inv P c := by
  obtain ⟨ops,hrun⟩ := h.runs
  have hrun' := hrun.call hallowed hexec
  have hlookup : ∀ n, t.connected.lookup n = k.tracker.connected.lookup n := fun n => by
    rw [hrun'.sound.2.1,hrun.sound.2.1,hop]
  refine h.of_view ?_ rfl rfl ⟨_,hrun'⟩ h.inTurn
  funext n
  simp only [view,hlookup]

theorem start (h : k.Inv P c) {n : N} (hconnecting : k.connectingPeers.lookup n = none)
    (hconnected : k.connectedPeers.lookup n = none) :
    { k with
      connectingPeers := k.connectingPeers.insert n k.started
      started := k.started + 1
      peers := Function.update k.peers k.started (.start n) }.Inv P c := by
  have hnone := h.empty n hconnecting hconnected
  simp only [view,View.none,View.mk.injEq] at hnone
  obtain ⟨_,_,hrecorded,honline⟩ := hnone
  have hself : (Function.update k.peers k.started (.start n)) k.started = .start n :=
    Function.update_self ..
  have hold : ∀ j < k.started,
      (Function.update k.peers k.started (.start n)) j = k.peers j := fun j hj =>
    Function.update_of_ne hj.ne ..
  refine ⟨h.runs,h.inTurn,?_,?_,?_,?_⟩
  · intro j hj
    rcases Nat.lt_succ_iff_lt_or_eq.mp hj with hj | rfl
    · simp only [hold j hj]
      exact h.ok j hj
    · simp only [hself]
      exact .start _ _ _
  · intro j hj
    rcases Nat.lt_succ_iff_lt_or_eq.mp hj with hj | rfl
    · simp only [hold j hj]
      by_cases hid : (k.peers j).id = n
      · have hgone : (k.peers j).phase = .gone := by
          by_contra hlive
          rcases (h.phases j hj).isSome hlive with hsome | hsome
          · rw [hid,view,hconnecting] at hsome
            cases hsome
          · rw [hid,view,hconnected] at hsome
            cases hsome
        rw [hgone,hid]
        refine ⟨?_,?_⟩
        · simp only [view,Finmap.lookup_insert,ne_eq,Option.some.injEq]
          exact hj.ne'
        · simp only [view,hconnected]
          exact (Option.some_ne_none j).symm
      · have hphase := h.phases j hj
        simp only [view] at hphase ⊢
        rwa [Finmap.lookup_insert_of_ne _ hid]
    · simp only [hself]
      change _ = _
      simp only [view,PeerState.start,Finmap.lookup_insert,hconnected,hrecorded,honline]
  · intro m j hj
    simp only [view,lookup_insert_eq_ite] at hj
    by_cases hm : m = n
    · rw [hm,hconnected,if_pos rfl] at hj
      rcases hj with hj | hj
      · cases hj
        exact ⟨Nat.lt_succ_self _,by simp only [hself,hm]; rfl⟩
      · cases hj
    · rw [if_neg hm] at hj
      obtain ⟨hlt,hid⟩ := h.owned m j hj
      exact ⟨Nat.lt_succ_of_lt hlt,by simpa only [hold j hlt] using hid⟩
  · intro m hconnecting' hconnected'
    simp only [view,lookup_insert_eq_ite] at hconnecting' hconnected' ⊢
    split_ifs at hconnecting' with hm
    rw [if_neg hm]
    exact h.empty m hconnecting' hconnected'

/-! ## Steps of a peer -/

theorem holds (h : k.Inv P c) (hi : i < k.started) {phase : Phase}
    (hphase : (k.peers i).phase = phase) : phase.Matches i (k.view (k.peers i).id) :=
  hphase ▸ h.phases i hi

theorem phase_running (h : k.Inv P c) (hi : i < k.started)
    (hlive : ((k.peers i).place .reader).live = 1)
    (hrunning : ¬ ((k.peers i).place .reader).Joining) : (k.peers i).phase =
      if (k.peers i).finishedHandshake then .online else .fresh :=
  PeerState.phase_of_idle ((h.ok i hi).idle hlive) hrunning

theorem moveOut (h : k.Inv P c) (hi : i < k.started) {place : Place N S}
    (hlive : ((k.peers i).place .reader).live = 1)
    (hrunning : ¬ ((k.peers i).place .reader).Joining) (hplace : place.live = 1)
    (hout : ¬ place.Joining) :
    { k with peers := Function.update k.peers i ((k.peers i).move .reader place) }.Inv P c := by
  have hidle := (h.ok i hi).idle hlive
  refine h.quiet rfl ?_ ((h.ok i hi).moveOut hlive hplace hout)
  have hself : ¬ (((k.peers i).move .reader place).place .reader).Joining := by simpa using hout
  rw [PeerState.phase_of_idle hidle hrunning]
  exact PeerState.phase_of_idle hidle hself

theorem startClose (h : k.Inv P c) (hi : i < k.started) :
    { k with peers := Function.update k.peers i (k.peers i).startClose }.Inv P c :=
  h.quiet rfl rfl (h.ok i hi).startClose

theorem connecting_self (h : k.Inv P c) (hi : i < k.started)
    (hrunning : (k.peers i).place .reader = .running)
    (hfinished : (k.peers i).finishedHandshake = false) : (k.peers i).phase = .fresh ∧
      k.connectingPeers.lookup (k.peers i).id = some i ∧
      k.connectedPeers.lookup (k.peers i).id = none ∧
      k.tracker.connected.lookup (k.peers i).id = none ∧
      Net.online (k.peers i).id k.events = false := by
  have hphase := h.phase_running hi (by rw [hrunning]; rfl) (by rw [hrunning]; exact id)
  rw [hfinished] at hphase
  have hview := h.holds hi hphase
  simp only [Bool.false_eq_true,if_false,Phase.Matches,view,View.mk.injEq,
    Option.isSome_eq_false_iff,Option.isNone_iff_eq_none] at hview
  exact ⟨by simpa using hphase,hview⟩

theorem connected (h : k.Inv P c) (hi : i < k.started)
    (hrunning : (k.peers i).place .reader = .running) (hgot : (k.peers i).gotHandshake = true)
    (hfinished : (k.peers i).finishedHandshake = false) :
    { k with
      connectingPeers := k.connectingPeers.erase (k.peers i).id
      connectedPeers := k.connectedPeers.insert (k.peers i).id i
      peers := Function.update k.peers i ((k.peers i).move .reader (.moved i)) }.Inv P c := by
  obtain ⟨hphase,_,_,hrecorded,honline⟩ := h.connecting_self hi hrunning hfinished
  have hlive : ((k.peers i).place .reader).live = 1 := by rw [hrunning]; rfl
  have hidle := (h.ok i hi).idle hlive
  have hmoved : ((k.peers i).move .reader (.moved i)).phase = .moved :=
    PeerState.phase_move hidle _
  refine h.update hi (by rw [hphase]; decide) rfl rfl rfl ?_ h.runs h.inTurn ?_ ?_ ?_
  · intro n hn
    simp only [view]
    rw [Finmap.lookup_erase_ne hn,Finmap.lookup_insert_of_ne _ hn]
  · refine (h.ok i hi).moveReader hlive rfl (fun _ => ⟨hgot,hfinished⟩) ?_ ?_
    · rintro j (heq | heq)
      · cases heq
        rfl
      · cases heq
    · rintro l heq
      cases heq
  · rw [hmoved]
    simp only [Phase.Matches,view,Finmap.lookup_erase,Finmap.lookup_insert,hrecorded,honline]
    rfl
  · rw [hmoved]
    exact fun h => by cases h

theorem unrecorded (h : k.Inv P c) (hi : i < k.started) {peer : ℕ}
    (hplace : (k.peers i).place .reader = .moved peer) {ip : ClaimedIPPort N}
    (hip : (k.peers peer).ip = some ip) : peer = i ∧ ip.nodeID = (k.peers i).id ∧
      (k.peers i).phase = .moved ∧ k.tracker.connected.lookup ip.nodeID = none := by
  have hok := h.ok i hi
  obtain rfl := hok.peer peer (.inl hplace)
  have hidle := hok.idle (by rw [hplace]; rfl)
  obtain ⟨ip',hip',hnode⟩ := hok.greeted (hok.joining (by rw [hplace]; trivial)).1
  rw [hip] at hip'
  cases hip'
  have hphase : (k.peers peer).phase = .moved := PeerState.phase_of_place hidle hplace
  have hrecorded := (View.mk.inj (h.holds hi hphase)).2.2.1
  rw [hnode]
  exact ⟨rfl,rfl,hphase,by simpa using hrecorded⟩

theorem record (h : k.Inv P c) (hi : i < k.started) {peer : ℕ}
    (hplace : (k.peers i).place .reader = .moved peer) {ip : ClaimedIPPort N}
    (hip : (k.peers peer).ip = some ip) {env : Env N S} {t : IPTracker N S}
    (hexec : k.tracker.exec P env (.connected ip (k.peers peer).trackedSubnets) = .ok t) :
    { k with
      tracker := t
      peers := Function.update k.peers i ((k.peers i).move .reader (.recorded peer)) }.Inv P c := by
  have hok := h.ok i hi
  obtain ⟨rfl,hnode,hphase,hallowed⟩ := h.unrecorded hi hplace hip
  have hlive : ((k.peers peer).place .reader).live = 1 := by rw [hplace]; rfl
  have hidle := hok.idle hlive
  obtain ⟨hgot,hfinished⟩ := hok.joining (by rw [hplace]; trivial)
  obtain ⟨hconnecting,hconnected,_,honline⟩ := View.mk.inj (h.holds hi hphase)
  obtain ⟨ops,hrun⟩ := h.runs
  have hrun' := hrun.call (show k.tracker.Allowed (.connected ip _) from hallowed) hexec
  have hlookup := hrun'.sound.2.1
  simp only [IPTracker.connection,hnode,← hrun.sound.2.1] at hlookup
  have hnew : ((k.peers peer).move .reader (.recorded peer)).phase = .recorded :=
    PeerState.phase_move hidle _
  refine h.update hi (by rw [hphase]; decide) rfl rfl rfl ?_ ⟨_,hrun'⟩ h.inTurn ?_ ?_ ?_
  · intro n hn
    simp only [view,hlookup,if_neg hn]
  · refine hok.moveReader hlive rfl (fun _ => ⟨hgot,hfinished⟩) ?_ ?_
    · rintro j (heq | heq)
      · cases heq
      · cases heq
        rfl
    · rintro l heq
      cases heq
  · rw [hnew]
    simp only [Phase.Matches,view,hlookup,if_true,hconnecting,hconnected,honline]
    rfl
  · rw [hnew]
    exact fun h => by cases h

theorem announce (h : k.Inv P c) (hi : i < k.started) {peer : ℕ}
    (hplace : (k.peers i).place .reader = .recorded peer) {subnets : List S}
    (hsubnets : ∀ subnetID ∈ subnets, subnetID ∈ c.mySubnets) :
    { k with
      events := .connected (k.peers i).id default :: k.events
      peers := Function.update k.peers i ((k.peers i).move .reader (.announcing subnets)) }.Inv
        P c := by
  have hok := h.ok i hi
  have hlive : ((k.peers i).place .reader).live = 1 := by rw [hplace]; rfl
  have hidle := hok.idle hlive
  have hphase : (k.peers i).phase = .recorded := PeerState.phase_of_place hidle hplace
  obtain ⟨hconnecting,hconnected,hrecorded,honline⟩ := View.mk.inj (h.holds hi hphase)
  have hnew : ((k.peers i).move .reader (.announcing subnets)).phase = .online :=
    PeerState.phase_move hidle _
  refine h.update hi (by rw [hphase]; decide) rfl rfl rfl ?_ h.runs ?_ ?_ ?_ ?_
  · intro n hn
    simp only [view,Net.online,if_neg hn.symm]
  · refine ⟨h.inTurn,?_⟩
    simp [honline]
  · refine hok.moveReader hlive rfl (fun _ => hok.joining (by rw [hplace]; trivial)) ?_ ?_
    · rintro j (heq | heq) <;> cases heq
    · rintro l heq
      cases heq
      exact hsubnets
  · rw [hnew]
    simp only [Phase.Matches,view,Net.online,if_true,hconnecting,hconnected,hrecorded]
  · rw [hnew]
    exact fun h => by cases h

theorem online_self (h : k.Inv P c) (hi : i < k.started) (hphase : (k.peers i).phase = .online) :
    Net.online (k.peers i).id k.events = true := (View.mk.inj (h.holds hi hphase)).2.2.2

theorem hear (h : k.Inv P c) (event : Event N S)
    (hturn : InTurn c.mySubnets k.events → InTurn c.mySubnets (event :: k.events))
    (hsame : ∀ n, Net.online n (event :: k.events) = Net.online n k.events) :
    { k with events := event :: k.events }.Inv P c := by
  refine h.of_view ?_ rfl rfl h.runs (hturn h.inTurn)
  funext n
  simp only [view,hsame]

theorem announceSubnet (h : k.Inv P c) (hi : i < k.started) {subnetID : S} {subnets : List S}
    (hplace : (k.peers i).place .reader = .announcing (subnetID :: subnets)) :
    { k with
      events := .connected (k.peers i).id subnetID :: k.events
      peers := Function.update k.peers i ((k.peers i).move .reader (.announcing subnets)) }.Inv
        P c := by
  have hok := h.ok i hi
  have hlive : ((k.peers i).place .reader).live = 1 := by rw [hplace]; rfl
  have hidle := hok.idle hlive
  have hphase : (k.peers i).phase = .online := PeerState.phase_of_place hidle hplace
  have honline := h.online_self hi hphase
  have hsubnets := hok.subnets _ hplace
  have hheard := h.hear (.connected (k.peers i).id subnetID)
    (fun hturn => ⟨hturn,by rw [honline]; exact hsubnets subnetID List.mem_cons_self⟩)
    (fun n => by
      rw [Net.online]
      split_ifs with heq
      · rw [← heq,honline]
      · rfl)
  refine hheard.quiet (i := i) rfl ?_ ?_
  · exact (PeerState.phase_move hidle _).trans hphase.symm
  · refine hok.moveReader hlive rfl (fun _ => hok.joining (by rw [hplace]; trivial)) ?_ ?_
    · rintro j (heq | heq) <;> cases heq
    · rintro l heq
      cases heq
      exact fun s hs => hsubnets s (List.mem_cons_of_mem _ hs)

theorem finish (h : k.Inv P c) (hi : i < k.started)
    (hplace : (k.peers i).place .reader = .announcing []) (ips : List (ClaimedIPPort N)) :
    { k with
      peers := Function.update k.peers i
        { (k.peers i).move .reader (.tracking ips) with finishedHandshake := true } }.Inv P c := by
  have hok := h.ok i hi
  have hlive : ((k.peers i).place .reader).live = 1 := by rw [hplace]; rfl
  have hidle := hok.idle hlive
  have hmove : ((k.peers i).move .reader (.tracking ips)).Ok c.mySubnets i :=
    hok.moveOut hlive rfl id
  have hself : ((k.peers i).move .reader (.tracking ips)).place .reader = .tracking ips :=
    PeerState.move_place_self ..
  refine h.quiet rfl ?_ ⟨hmove.count,hmove.last,hmove.greeted,?_,hmove.peer,hmove.subnets,
    PeerState.Ok.stage_of_idle hidle⟩
  · rw [PeerState.phase_of_place hidle hplace]
    exact PeerState.phase_of_place
      (p := { (k.peers i).move .reader (.tracking ips) with finishedHandshake := true }) hidle hself
  · dsimp only
    rw [hself]
    exact False.elim

/-! ## The end of a peer -/

theorem lookUp {s : Connections N S A} (h : s.core.Inv P c) (hi : i < s.started)
    (hcloser : (s.peers i).closer = .disconnecting) :
    (s.setPeer i { s.peers i with closer := s.lookUp (s.peers i).id }).core.Inv P c := by
  have hok : (s.peers i).Ok c.mySubnets i := h.ok i hi
  have hne : (s.peers i).closer ≠ .idle := by rw [hcloser]; decide
  have hreader := hok.last hne .reader
  have hphase := PeerState.phase_of_exited hreader (.inl hcloser)
  by_cases hfinished : (s.peers i).finishedHandshake = true
  · rw [if_pos hfinished] at hphase
    obtain ⟨hconnecting,hconnected,_⟩ := View.mk.inj (h.holds hi hphase)
    have hlookup : s.lookUp (s.peers i).id = .fromConnected := by
      simp only [Connections.core] at hconnecting hconnected
      simp [Connections.lookUp,hconnecting,hconnected]
    rw [hlookup]
    refine h.quiet rfl ?_ (hok.setCloser hne hfinished)
    refine (PeerState.phase_of_exited (p := { s.peers i with closer := .fromConnected }) hreader
      (.inr (.inl rfl))).trans ?_
    exact (if_pos hfinished).trans hphase.symm
  · rw [if_neg hfinished] at hphase
    obtain ⟨hconnecting,hconnected,_⟩ := View.mk.inj (h.holds hi hphase)
    have hlookup : s.lookUp (s.peers i).id = .fromConnecting false := by
      simp only [Connections.core] at hconnecting hconnected
      simp [Connections.lookUp,hconnecting,hconnected]
    rw [hlookup]
    refine h.quiet rfl ?_ (hok.setCloser hne ⟨rfl,Bool.eq_false_iff.mpr hfinished⟩)
    refine (PeerState.phase_of_exited (p := { s.peers i with closer := .fromConnecting false })
      hreader (.inr (.inr ⟨false,rfl⟩))).trans ?_
    exact (if_neg hfinished).trans hphase.symm

theorem phase_fromConnecting (h : k.Inv P c) (hi : i < k.started) {connected : Bool}
    (hcloser : (k.peers i).closer = .fromConnecting connected) :
    connected = false ∧ (k.peers i).phase = .fresh := by
  have hok := h.ok i hi
  have hne : (k.peers i).closer ≠ .idle := by simp [hcloser]
  have hstage := hok.stage
  simp only [PeerState.Stage,hcloser] at hstage
  obtain ⟨rfl,hfinished⟩ := hstage
  rw [PeerState.phase_of_exited (hok.last hne .reader) (.inr (.inr ⟨false,hcloser⟩)),hfinished]
  exact ⟨rfl,rfl⟩

theorem leaveConnecting (h : k.Inv P c) (hi : i < k.started) {connected : Bool}
    (hcloser : (k.peers i).closer = .fromConnecting connected) :
    { k with
      connectingPeers := k.connectingPeers.erase (k.peers i).id
      peers := Function.update k.peers i { k.peers i with
        closer := if connected then .fromConnected else .removed } }.Inv P c := by
  have hok := h.ok i hi
  have hne : (k.peers i).closer ≠ .idle := by simp [hcloser]
  obtain ⟨rfl,hphase⟩ := h.phase_fromConnecting hi hcloser
  obtain ⟨_,hconnected,hrecorded,honline⟩ := View.mk.inj (h.holds hi hphase)
  have hnone : (Core.view { k with
      connectingPeers := k.connectingPeers.erase (k.peers i).id } (k.peers i).id) = .none := by
    simp only [view,Finmap.lookup_erase,hconnected,hrecorded,honline]
    rfl
  refine h.update hi (by rw [hphase]; decide) rfl rfl rfl ?_ h.runs h.inTurn
    (hok.setCloser hne trivial) ?_ fun _ => hnone
  · intro n hn
    simp only [view]
    rw [Finmap.lookup_erase_ne hn]
  · change Phase.gone.Matches i (Core.view _ _)
    exact hnone ▸ Phase.gone_matches_none i

theorem tellTracker (h : k.Inv P c) (hi : i < k.started)
    (hcloser : (k.peers i).closer = .fromConnected) (env : Env N S) :
    { k with
      tracker := k.tracker.onDisconnected env (k.peers i).id
      peers := Function.update k.peers i { k.peers i with closer := .toldTracker } }.Inv P c := by
  have hok := h.ok i hi
  have hne : (k.peers i).closer ≠ .idle := by rw [hcloser]; decide
  have hfinished : (k.peers i).finishedHandshake = true := by
    have hstage := hok.stage
    simpa only [PeerState.Stage,hcloser] using hstage
  have hphase : (k.peers i).phase = .online := by
    rw [PeerState.phase_of_exited (hok.last hne .reader) (.inr (.inl hcloser)),hfinished]
    rfl
  obtain ⟨hconnecting,hconnected,_,honline⟩ := View.mk.inj (h.holds hi hphase)
  obtain ⟨ops,hrun⟩ := h.runs
  have hrun' : IPTracker.Run P (.disconnected (k.peers i).id :: ops)
      (k.tracker.onDisconnected env (k.peers i).id) :=
    .call hrun trivial (show k.tracker.exec P env (.disconnected (k.peers i).id) = _ from rfl)
  have hlookup := hrun'.sound.2.1
  simp only [IPTracker.connection,← hrun.sound.2.1] at hlookup
  refine h.update hi (by rw [hphase]; decide) rfl rfl rfl ?_ ⟨_,hrun'⟩ h.inTurn
    (hok.setCloser hne hfinished) ?_ fun h => by cases h
  · intro n hn
    simp only [view,hlookup,if_neg hn]
  · change _ = _
    simp only [view,hlookup,if_true,hconnecting,hconnected,honline]
    rfl

theorem tellRouter (h : k.Inv P c) (hi : i < k.started)
    (hcloser : (k.peers i).closer = .toldTracker) :
    { k with
      events := .disconnected (k.peers i).id :: k.events
      peers := Function.update k.peers i { k.peers i with closer := .toldRouter } }.Inv P c := by
  have hok := h.ok i hi
  have hne : (k.peers i).closer ≠ .idle := by rw [hcloser]; decide
  have hfinished : (k.peers i).finishedHandshake = true := by
    have hstage := hok.stage
    simpa only [PeerState.Stage,hcloser] using hstage
  have hphase : (k.peers i).phase = .untracked := by simp only [PeerState.phase,hcloser]
  obtain ⟨hconnecting,hconnected,hrecorded,honline⟩ := View.mk.inj (h.holds hi hphase)
  refine h.update hi (by rw [hphase]; decide) rfl rfl rfl ?_ h.runs ⟨h.inTurn,honline⟩
    (hok.setCloser hne hfinished) ?_ fun h => by cases h
  · intro n hn
    simp only [view,Net.online,if_neg hn.symm]
  · change _ = _
    simp only [view,Net.online,if_true,hconnecting,hconnected,hrecorded]

theorem leaveConnected (h : k.Inv P c) (hi : i < k.started)
    (hcloser : (k.peers i).closer = .toldRouter) :
    { k with
      connectedPeers := k.connectedPeers.erase (k.peers i).id
      peers := Function.update k.peers i { k.peers i with closer := .removed } }.Inv P c := by
  have hok := h.ok i hi
  have hne : (k.peers i).closer ≠ .idle := by rw [hcloser]; decide
  have hphase : (k.peers i).phase = .offline := by simp only [PeerState.phase,hcloser]
  obtain ⟨hconnecting,_,hrecorded,honline⟩ := View.mk.inj (h.holds hi hphase)
  have hnone : (Core.view { k with
      connectedPeers := k.connectedPeers.erase (k.peers i).id } (k.peers i).id) = .none := by
    simp only [view,Finmap.lookup_erase,hconnecting,hrecorded,honline]
    rfl
  refine h.update hi (by rw [hphase]; decide) rfl rfl rfl ?_ h.runs h.inTurn
    (hok.setCloser hne trivial) ?_ fun _ => hnone
  · intro n hn
    simp only [view]
    rw [Finmap.lookup_erase_ne hn]
  · change Phase.gone.Matches i (Core.view _ _)
    exact hnone ▸ Phase.gone_matches_none i

end Core.Inv

/-! ## Every run -/

namespace Connections
variable {P : Params} {c : Config N S A} {s s' : Connections N S A}

theorem Initial.inv (h : Initial P s) : s.core.Inv P c := by
  obtain ⟨env,trackedSubnets,t,hnew,peers,dials,rfl⟩ := h
  have hrun : IPTracker.Run P [] t := .start hnew
  have hview : ∀ n, Core.view (core ⟨t,∅,∅,∅,false,0,peers,0,dials,[],[],[]⟩) n = .none := by
    intro n
    simp only [Core.view,core,hrun.sound.2.1]
    rfl
  refine ⟨⟨[],hrun⟩,trivial,fun i hi => absurd hi (Nat.not_lt_zero i),
    fun i hi => absurd hi (Nat.not_lt_zero i),?_,fun n _ _ => hview n⟩
  intro n i hi
  rw [hview] at hi
  rcases hi with hi | hi <;> cases hi

theorem PeerStep.inv (h : s.core.Inv P c) {i : ℕ} (hi : i < s.started)
    (hstep : PeerStep P c s i (s.peers i) s') : s'.core.Inv P c := by
  have hok : (s.peers i).Ok c.mySubnets i := h.ok i hi
  have hrunning : ∀ {place : Place N S}, (s.peers i).place .reader = place → place.live = 1 →
      ((s.peers i).place .reader).live = 1 := fun heq hlive => heq ▸ hlive
  have hout : ∀ {place : Place N S}, (s.peers i).place .reader = place → ¬ place.Joining →
      ¬ ((s.peers i).place .reader).Joining := fun heq hout => heq ▸ hout
  cases hstep with
  | refused hplace hgot ip subnets =>
    exact h.quiet rfl rfl ⟨hok.count,hok.last,fun hgot' => absurd (hgot.symm.trans hgot')
      Bool.false_ne_true,hok.joining,hok.peer,hok.subnets,hok.stage⟩
  | handshake hplace hgot timestamp gossipID subnets =>
    refine h.quiet rfl rfl ⟨hok.count,hok.last,fun _ => ⟨_,rfl,rfl⟩,fun hin => ?_,hok.peer,
      hok.subnets,hok.stage⟩
    exact absurd hin (hout hplace id)
  | malformed hplace => exact h.startClose hi
  | connected hplace hgot hfinished hconnected =>
    obtain ⟨hlookup,hcore⟩ := connected_eq_some hconnected
    obtain ⟨_,hself,_⟩ := h.connecting_self hi hplace hfinished
    obtain rfl := Option.some.inj (hself.symm.trans hlookup)
    rw [core_setPeer,hcore]
    exact h.connected hi hplace hgot hfinished
  | unexpected hplace hgot hfinished hconnected =>
    obtain ⟨_,hself,_⟩ := h.connecting_self hi hplace hfinished
    have hself' : s.connectingPeers.lookup (s.peers i).id = some i := hself
    simp only [Connections.connected,hself'] at hconnected
    cases hconnected
  | record hplace hip hexec => exact h.record hi hplace hip hexec
  | announce hplace subnets hsubnets =>
    exact h.announce hi hplace fun subnetID hmem => (hsubnets subnetID hmem).1
  | announceSubnet hplace => exact h.announceSubnet hi hplace
  | finish hplace ips => exact h.finish hi hplace ips
  | peerList hplace hfinished ips =>
    exact h.moveOut hi (hrunning hplace rfl) (hout hplace id) rfl id
  | handleInbound hplace hfinished =>
    have hphase := h.phase_running hi (hrunning hplace rfl) (hout hplace id)
    rw [show (s.core.peers i).finishedHandshake = true from hfinished,if_pos rfl] at hphase
    exact h.hear _ (fun hturn => ⟨hturn,h.online_self hi hphase⟩) fun n => rfl
  | skip hplace _ => exact h.moveOut hi (hrunning hplace rfl) (hout hplace id) rfl id
  | verify hplace _ => exact h.moveOut hi (hrunning hplace rfl) (hout hplace id) rfl id
  | forged hplace _ =>
    have hlive := hrunning hplace rfl
    refine h.quiet rfl ?_ (hok.startClose.moveOut hlive rfl id)
    refine (PeerState.phase_move (p := (s.peers i).startClose) (hok.idle hlive) .running).trans ?_
    exact (PeerState.phase_of_place (hok.idle hlive) hplace).symm
  | @track ip ips hplace env added t hadd =>
    have hexec : s.tracker.exec P env (.addIP ip) = .ok t := by
      rw [IPTracker.exec,hadd]
      rfl
    have hcalled := h.call (.addIP ip) trivial (fun ops n => rfl) hexec
    rw [core_setPeer,core_trackIP]
    exact hcalled.moveOut hi (hrunning hplace rfl) (hout hplace id) rfl id
  | tracked hplace => exact h.moveOut hi (hrunning hplace rfl) (hout hplace id) rfl id
  | leave hplace => exact h.quiet rfl (PeerState.phase_leave hok hplace) (hok.leave hplace)
  | close hplace => exact h.quiet rfl (PeerState.phase_close hok hplace) (hok.close hplace)
  | lookUp hcloser => exact h.lookUp hi hcloser
  | leaveConnecting hcloser =>
    rw [core_setPeer,core_disconnectedFromConnecting]
    exact h.leaveConnecting hi hcloser
  | tellTracker hcloser env => exact h.tellTracker hi hcloser env
  | tellRouter hcloser => exact h.tellRouter hi hcloser
  | leaveConnected hcloser =>
    rw [core_setPeer,core_disconnectedFromConnected]
    exact h.leaveConnected hi hcloser
  | closed hcloser =>
    have hcloser' : (s.peers i).closer ≠ .idle := by rw [hcloser]; decide
    refine h.quiet rfl ?_ (hok.setCloser hcloser' trivial)
    change _ = (s.peers i).phase
    simp only [PeerState.phase,hcloser]

theorem upgrade_inv (h : s.core.Inv P c) (nodeID : N) : (s.upgrade nodeID).2.core.Inv P c := by
  unfold upgrade
  split_ifs with hclosing hconnecting hconnected
  · exact h
  · exact h
  · exact h
  · exact h.start (Option.not_isSome_iff_eq_none.mp hconnecting)
      (Option.not_isSome_iff_eq_none.mp hconnected)

theorem Step.inv (h : s.core.Inv P c) (hstep : Step P c s s') : s'.core.Inv P c := by
  cases hstep with
  | peer hi hstep => exact hstep.inv h hi
  | dial hd hstep =>
    cases hstep with
    | stop | wake | retry | drop | allow => simpa using h
    | upgrade hplace => exact upgrade_inv h _
  | @outside env op hop t hexec =>
    refine h.call op ?_ ?_ hexec
    · cases op <;> first | exact trivial | cases hop
    · cases op <;> first | exact fun ops n => rfl | cases hop
  | manuallyTrack nodeID ip hexec =>
    exact h.call (.manuallyTrack nodeID) trivial (fun ops n => rfl) hexec
  | @manuallyDial nodeID ip manual hperm =>
    have hcore := core_manuallyTrack s nodeID ip
    rw [← hcore] at h
    exact h
  | accept hme hallow => exact h
  | upgrade hperm => exact upgrade_inv h _
  | @startClose hopen ips connecting connected hips hconnecting hconnected =>
    rw [core_startClose]
    have hclose := closePeers_closePeers s connecting connected
    refine h.quietly (fun i => ?_) (fun i => ?_) (fun i hi => ?_)
    · rcases hclose i with heq | heq <;> rw [heq] <;> rfl
    · rcases hclose i with heq | heq <;> rw [heq] <;> rfl
    · rcases hclose i with heq | heq
      · rw [heq]
        exact h.ok i hi
      · rw [heq]
        exact (h.ok i hi).startClose

theorem Reachable.inv (h : Reachable P c s) : s.core.Inv P c := by
  induction h with
  | initial h => exact h.inv
  | step _ hstep ih => exact hstep.inv ih

def Present (s : Connections N S A) (i : ℕ) : Prop :=
  i < s.started ∧ (s.peers i).closer ≠ .removed ∧ (s.peers i).closer ≠ .closed

/-- The network calls the tracker as the tracker expects it: a peer that is about to call its
`Connected` is of a node that the tracker does not hold. The nodes that the tracker holds as
connected are connected peers. -/
theorem tracker_runs (h : Reachable P c s) : (∃ ops, IPTracker.Run P ops s.tracker) ∧
    (∀ i < s.started, ∀ peer ip, (s.peers i).place .reader = .moved peer →
      (s.peers peer).ip = some ip → s.tracker.connected.lookup ip.nodeID = none) ∧
    ∀ n, (s.tracker.connected.lookup n).isSome → (s.connectedPeers.lookup n).isSome := by
  have hinv : s.core.Inv P c := h.inv
  refine ⟨hinv.runs,fun i hi peer ip hplace hip => (hinv.unrecorded hi hplace hip).2.2.2,
    fun n hrecorded => ?_⟩
  have hrecorded' : (s.core.view n).recorded = true := hrecorded
  change (s.core.view n).connected.isSome
  rcases hinv.owner n with hnone | ⟨i,_,_,hlive,hphase⟩
  · rw [hnone] at hrecorded'
    cases hrecorded'
  · exact hphase.connected_of_told hlive (.inl hrecorded')

/-- The router hears of connections and their ends in turn, and of messages only in between. The
nodes that it counts as connected are connected peers. -/
theorem router_inTurn (h : Reachable P c s) : InTurn c.mySubnets s.events ∧
    ∀ n, online n s.events = true → (s.connectedPeers.lookup n).isSome := by
  have hinv : s.core.Inv P c := h.inv
  refine ⟨hinv.inTurn,fun n honline => ?_⟩
  have honline' : (s.core.view n).online = true := honline
  change (s.core.view n).connected.isSome
  rcases hinv.owner n with hnone | ⟨i,_,_,hlive,hphase⟩
  · rw [hnone] at honline'
    cases honline'
  · exact hphase.connected_of_told hlive (.inr honline')

omit [DecidableEq S] [Inhabited S] in
theorem Present.phase_ne {i : ℕ} (h : s.Present i) : (s.peers i).phase ≠ .gone := fun hgone =>
  (PeerState.phase_eq_gone_iff.mp hgone).elim h.2.1 h.2.2

theorem present_iff (h : s.core.Inv P c) (n : N) (i : ℕ) :
    s.connectingPeers.lookup n = some i ∨ s.connectedPeers.lookup n = some i ↔
      s.Present i ∧ (s.peers i).id = n := by
  constructor
  · intro hi
    obtain ⟨hlt,hid,hne,_⟩ := h.live hi
    rw [ne_eq,PeerState.phase_eq_gone_iff,not_or] at hne
    exact ⟨⟨hlt,hne⟩,hid⟩
  · rintro ⟨hi,rfl⟩
    exact (h.phases i hi.1).isSome hi.phase_ne

/-- A peer is in one of the sets until it is taken out, a node is never in both, and no node has
two peers at a time. -/
theorem one_peer_per_node (h : Reachable P c s) :
    (∀ n, s.connectingPeers.lookup n = none ∨ s.connectedPeers.lookup n = none) ∧
    (∀ n i, s.connectingPeers.lookup n = some i ∨ s.connectedPeers.lookup n = some i ↔
      s.Present i ∧ (s.peers i).id = n) ∧
    ∀ i j, s.Present i → s.Present j → (s.peers i).id = (s.peers j).id → i = j := by
  have hinv : s.core.Inv P c := h.inv
  refine ⟨fun n => ?_,present_iff hinv,fun i j hi hj hid => ?_⟩
  · rcases hinv.owner n with hnone | ⟨i,_,_,hlive,hphase⟩
    · exact .inl (View.mk.inj hnone).1
    · exact hphase.apart hlive
  · by_contra hne
    exact hj.phase_ne (hinv.gone_of_ne hi.1 hj.1 hi.phase_ne (Ne.symm hne) hid.symm)

namespace Sample
open IPTracker.Sample

def config : Config ℕ ℕ ℕ := ⟨0,false,∅,fun _ => 0⟩

def peer : PeerState ℕ ℕ := (PeerState.start 7).handshake 1 [] ∅

theorem greeted_reachable : ∃ s : Connections ℕ ℕ ℕ, Reachable params config s ∧
    0 < s.started ∧ s.peers 0 = peer := by
  obtain ⟨t,hnew⟩ : ∃ t, newIPTracker params zeroEnv ∅ = .ok t := ⟨_,rfl⟩
  let s₀ : Connections ℕ ℕ ℕ :=
    ⟨t,∅,∅,∅,false,0,fun _ => .start 0,0,fun _ => ⟨0,0,false,.waiting⟩,[],[],[]⟩
  have h₀ : Reachable params config s₀ := .initial ⟨_,_,t,hnew,_,_,rfl⟩
  have hme : (7 : ℕ) ≠ config.myNodeID := by decide
  have hallow : s₀.allowConnection config false 7 = true := rfl
  have h₁ := h₀.step (.accept hme hallow)
  have h₂ := h₁.step (.upgrade (List.Perm.refl [7]))
  exact ⟨_,h₂.step (.peer Nat.zero_lt_one (.handshake rfl rfl 1 [] ∅)),Nat.zero_lt_one,rfl⟩

theorem moved_reachable : ∃ s : Connections ℕ ℕ ℕ, Reachable params config s ∧
    0 < s.started ∧ s.peers 0 = peer.move .reader (.moved 0) := by
  obtain ⟨s,hs,hstarted,hpeer⟩ := greeted_reachable
  have hplace : (s.peers 0).place .reader = .running := by rw [hpeer]; rfl
  have hgot : (s.peers 0).gotHandshake = true := by rw [hpeer]; rfl
  have hfinished : (s.peers 0).finishedHandshake = false := by rw [hpeer]; rfl
  have hself : s.connectingPeers.lookup (s.peers 0).id = some 0 :=
    (hs.inv.connecting_self hstarted hplace hfinished).2.1
  obtain ⟨s',hs'⟩ : ∃ s', s.connected (s.peers 0).id = some (0,s') := by
    simp only [Connections.connected,hself]
    exact ⟨_,rfl⟩
  refine ⟨_,hs.step (.peer hstarted (.connected hplace hgot hfinished hs')),?_,?_⟩
  · have hcore := congrArg Core.started (connected_eq_some hs').2
    exact lt_of_lt_of_eq hstarted hcore.symm
  · rw [← hpeer]
    exact setPeer_peers_self ..

theorem recorded_reachable : ∃ s : Connections ℕ ℕ ℕ, Reachable params config s ∧
    0 < s.started ∧ (s.peers 0).place .reader = .recorded 0 ∧ (s.peers 0).id = 7 := by
  obtain ⟨s,hs,hstarted,hpeer⟩ := moved_reachable
  obtain ⟨ops,hrun⟩ := hs.inv.runs
  obtain ⟨⟨_,_,_,hsound⟩,_⟩ := hrun.sound
  obtain ⟨t,ht⟩ := hsound.exec_returns (fun m => (rfl : (newBloom params zeroEnv m).isPanic = false))
    (.connected ⟨7,1,[]⟩ (s.peers 0).trackedSubnets)
  have hplace : (s.peers 0).place .reader = .moved 0 := by
    rw [hpeer]
    exact PeerState.move_place_self ..
  have hip : (s.peers 0).ip = some ⟨7,1,[]⟩ := by rw [hpeer]; rfl
  refine ⟨_,hs.step (.peer hstarted (.record hplace hip ht)),hstarted,?_,?_⟩
  · rw [setPeer_peers_self]
    exact PeerState.move_place_self ..
  · rw [setPeer_peers_self,hpeer]
    rfl

theorem online_reachable : ∃ s : Connections ℕ ℕ ℕ, Reachable params config s ∧
    online 7 s.events = true := by
  obtain ⟨s,hs,hstarted,hplace,hid⟩ := recorded_reachable
  refine ⟨_,hs.step (.peer hstarted (.announce hplace [] fun _ h => by cases h)),?_⟩
  exact if_pos hid

theorem moved_tracker_runs : ∃ s : Connections ℕ ℕ ℕ, Reachable params config s ∧
    (s.peers 0).place .reader = .moved 0 ∧ s.tracker.connected.lookup 7 = none ∧
    ∃ ops, IPTracker.Run params ops s.tracker := by
  obtain ⟨s,hs,hstarted,hpeer⟩ := moved_reachable
  have hplace : (s.peers 0).place .reader = .moved 0 := by
    rw [hpeer]
    exact PeerState.move_place_self ..
  have hip : (s.peers 0).ip = some ⟨7,1,[]⟩ := by rw [hpeer]; rfl
  obtain ⟨hruns,hfree,_⟩ := tracker_runs hs
  exact ⟨s,hs,hplace,hfree 0 hstarted 0 ⟨7,1,[]⟩ hplace hip,hruns⟩

theorem online_inTurn : ∃ s : Connections ℕ ℕ ℕ, Reachable params config s ∧
    InTurn ∅ s.events ∧ (s.connectedPeers.lookup 7).isSome := by
  obtain ⟨s,hs,honline⟩ := online_reachable
  exact ⟨s,hs,(router_inTurn hs).1,(router_inTurn hs).2 7 honline⟩

theorem online_one_peer : ∃ s : Connections ℕ ℕ ℕ, Reachable params config s ∧
    online 7 s.events = true ∧ ∀ i j, s.Present i → s.Present j →
      (s.peers i).id = (s.peers j).id → i = j := by
  obtain ⟨s,hs,honline⟩ := online_reachable
  exact ⟨s,hs,honline,(one_peer_per_node hs).2.2⟩

end Sample
end Connections
end Landslide.Net
