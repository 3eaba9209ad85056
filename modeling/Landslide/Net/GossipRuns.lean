import Landslide.Net.Gossip
import Mathlib.Data.Finset.Basic

/-! # Runs of the IP tracker

Every call keeps the links between the maps, and so does every run. What a run leaves in the
lists of the subnets is what should be gossiped.
-/
namespace Landslide.Net.IPTracker
variable {N S : Type} [DecidableEq N] [DecidableEq S] {P : Params} {env : Env N S}

structure Sound (manual : N → Prop) (pending : S → N → Prop) (t : IPTracker N S) : Prop where
  consistent : Consistent manual pending t.tracked t.connected t.subnets
  shown : Shown (fun _ => False) t.tracked t.connected t.subnets

section
variable {manual : N → Prop} {pending : S → N → Prop} {t t' : IPTracker N S} {n : N}
  {ip : ClaimedIPPort N}

theorem Sound.not_lists (h : Sound manual pending t)
    (hpeer : t.connected.lookup n = none) (s : S) (g : GossipableSubnet N)
    (hg : t.subnets.lookup s = some g) : ¬ g.Lists n := by
  intro hlists
  obtain ⟨_,peer,hpeer',_⟩ := (h.shown.entries s g n hg id).mp hlists
  rw [hpeer] at hpeer'
  cases hpeer'

theorem Sound.resetBloom (h : Sound manual pending t)
    (hreset : t.resetBloom P env = .ok t') :
    Sound manual pending t' ∧ Advances t.tracked t'.tracked := by
  obtain ⟨htracked,hconnected,hsubnets⟩ := resetBloom_records hreset
  refine ⟨⟨?_,?_⟩,?_⟩
  · rw [htracked,hconnected,hsubnets]
    exact h.consistent
  · rw [htracked,hconnected,hsubnets]
    exact h.shown
  · rw [htracked]
    exact Advances.refl _

/-! ## IPs and connections -/

theorem Sound.setIP (h : Sound manual pending t) {node : TrackedNode N S}
    (hnode : t.tracked.lookup ip.nodeID = some node)
    (hnewer : ∀ known, node.ip = some known → known.timestamp < ip.timestamp)
    {tracked : Finmap fun _ : N => TrackedNode N S}
    (htracked : tracked = t.tracked.insert ip.nodeID { node with ip := some ip }) :
    Consistent manual pending tracked t.connected t.subnets ∧
      Shown (· = ip.nodeID) tracked t.connected t.subnets ∧ Advances t.tracked tracked :=
  ⟨htracked ▸ h.consistent.setIP hnode rfl,htracked ▸ h.shown.setIP ip.nodeID _,
    htracked ▸ Advances.setIP hnode hnewer⟩

theorem Sound.onAddIP (h : Sound manual pending t) {b : Bool}
    (hadd : t.onAddIP P env ip = .ok (b,t')) :
    Sound manual pending t' ∧ Advances t.tracked t'.tracked := by
  obtain ⟨⟨c,t₁⟩,hadded,hrest⟩ := Outcome.bind_eq_ok_iff.mp hadd
  dsimp only at hrest
  cases addIP_added hadded with
  | untracked hnode =>
    rw [if_pos (by decide)] at hrest
    cases hrest
    exact ⟨h,Advances.refl _⟩
  | kept hnode hknown hle hc =>
    rw [if_pos (by rcases hc with rfl | rfl <;> decide)] at hrest
    cases hrest
    exact ⟨h,Advances.refl _⟩
  | @recorded node _ _ hnode hnewer hc hup =>
    rw [if_neg (by rcases hc with rfl | rfl <;> decide)] at hrest
    obtain ⟨htracked,hconnected,hsubnets⟩ := updateMostRecentTrackedIP_records hup
    obtain ⟨hconsistent,hstale,hadvances⟩ := h.setIP hnode hnewer htracked
    rw [hconnected,hsubnets] at hrest
    split at hrest
    · next hpeer =>
      cases hrest
      refine ⟨⟨hconsistent,?_⟩,hadvances⟩
      refine hstale.unskip (h.not_lists hpeer) ?_
      rintro s g hg ⟨_,peer,hpeer',_⟩
      rw [hpeer] at hpeer'
      cases hpeer'
    · next peer hpeer =>
      have hnow : t₁.tracked.lookup ip.nodeID = some { node with ip := some ip } := by
        rw [htracked,Finmap.lookup_insert]
      have hipOf : t₁.ipOf ip.nodeID = some ip := by rw [ipOf,hnow,Option.bind_some]
      rw [hipOf,setGossipableIP_eq,Outcome.ok_bind] at hrest
      cases hrest
      have hnodup := env.nodup_subnetOrder peer.trackedSubnets
      refine ⟨⟨hconsistent.same (setGossipableIP_sameIDs (setGossipableIP_eq ..)),?_⟩,hadvances⟩
      refine hstale.gossip hnow rfl hpeer (fun s g hg hlists => ?_) hnodup
        (env.mem_subnetOrder peer.trackedSubnets)
      obtain ⟨hid,peer',hpeer',hs⟩ := (h.shown.entries s g ip.nodeID hg id).mp hlists
      rw [hpeer] at hpeer'
      cases hpeer'
      exact ⟨hid,hs⟩

theorem Sound.connectTracked (h : Sound manual pending t) (env : Env N S)
    (hpeer : t.connected.lookup n = none) {tracked : Finmap fun _ : N => TrackedNode N S}
    (hconsistent : Consistent manual pending tracked t.connected t.subnets)
    (hstale : Shown (· = n) tracked t.connected t.subnets) {node : TrackedNode N S}
    (hnode : tracked.lookup n = some node) (hip : node.ip = some ip) (peer : ConnectedNode N S)
    (hID : peer.ip.nodeID = n) :
    Consistent manual pending tracked (t.connected.insert n peer) (modifyAll
      (fun g => if ip.nodeID ∈ g.gossipableIDs then g.setGossipableIP ip else g)
      (env.subnetOrder peer.trackedSubnets) t.subnets) ∧
    Shown (fun _ => False) tracked (t.connected.insert n peer) (modifyAll
      (fun g => if ip.nodeID ∈ g.gossipableIDs then g.setGossipableIP ip else g)
      (env.subnetOrder peer.trackedSubnets) t.subnets) := by
  have hipID := hconsistent.trackedID n node ip hnode hip
  have hnodup := env.nodup_subnetOrder peer.trackedSubnets
  constructor
  · refine (hconsistent.connect hID fun node' hnode' => ?_).same
      (setGossipableIP_sameIDs (setGossipableIP_eq ..))
    rw [hnode] at hnode'
    cases hnode'
    exact ⟨ip,hip⟩
  · have hconnect := hstale.connect (fun n' hn' => hn') peer
    rw [← hipID] at hconnect hnode ⊢
    refine hconnect.gossip hnode hip (Finmap.lookup_insert _) (fun s g hg hlists => ?_) hnodup
      (env.mem_subnetOrder peer.trackedSubnets)
    rw [hipID] at hlists
    exact absurd hlists (h.not_lists hpeer s g hg)

theorem Sound.onConnected (h : Sound manual pending t) {trackedSubnets : Finset S}
    (hpeer : t.connected.lookup ip.nodeID = none)
    (hconnect : t.onConnected P env ip trackedSubnets = .ok t') :
    Sound manual pending t' ∧ Advances t.tracked t'.tracked := by
  obtain ⟨⟨c,t₁⟩,hfirst,hrest⟩ := Outcome.bind_eq_ok_iff.mp hconnect
  have hadded := addIP_added hfirst
  obtain ⟨c',hagain⟩ := hadded.again
  dsimp only at hrest hagain
  rw [hagain,Outcome.ok_bind] at hrest
  dsimp only at hrest
  cases hadded with
  | untracked hnode =>
    rw [if_neg (by simp)] at hrest
    cases hrest
    dsimp only at hnode
    refine ⟨⟨h.consistent.connect rfl fun node hnode' => ?_,?_⟩,Advances.refl _⟩
    · rw [hnode] at hnode'
      cases hnode'
    · refine (h.shown.connect (fun n' hn' => hn'.elim) _).unskip (h.not_lists hpeer) ?_
      rintro s g hg ⟨hid,_⟩
      obtain ⟨node,hnode'⟩ := h.consistent.gossipable s g ip.nodeID hg hid
      rw [hnode] at hnode'
      cases hnode'
  | @kept node known _ hnode hknown hle hc =>
    rw [if_pos (by rcases hc with rfl | rfl <;> decide)] at hrest
    dsimp only at hnode hrest
    have hipOf : (t.tracked.lookup ip.nodeID).bind TrackedNode.ip = some known := by
      rw [hnode,Option.bind_some,hknown]
    rw [ipOf,hipOf,setGossipableIP_eq,Outcome.ok_bind] at hrest
    cases hrest
    have hstale : Shown (· = ip.nodeID) t.tracked t.connected t.subnets :=
      ⟨fun s g n' hg _ => h.shown.entries s g n' hg id,
        fun s g ip' hg hin _ => h.shown.recorded s g ip' hg hin id⟩
    obtain ⟨hconsistent,hshown⟩ := h.connectTracked env hpeer h.consistent hstale hnode hknown
      ⟨trackedSubnets,ip⟩ rfl
    exact ⟨⟨hconsistent,hshown⟩,Advances.refl _⟩
  | @recorded node _ _ hnode hnewer hc hup =>
    rw [if_pos (by rcases hc with rfl | rfl <;> decide)] at hrest
    obtain ⟨htracked,hconnected,hsubnets⟩ := updateMostRecentTrackedIP_records hup
    dsimp only at hnode hrest htracked hconnected hsubnets
    have hnow : t₁.tracked.lookup ip.nodeID = some { node with ip := some ip } := by
      rw [htracked,Finmap.lookup_insert]
    have hipOf : t₁.ipOf ip.nodeID = some ip := by rw [ipOf,hnow,Option.bind_some]
    rw [hipOf,setGossipableIP_eq,Outcome.ok_bind] at hrest
    cases hrest
    obtain ⟨hconsistent,hstale,hadvances⟩ := h.setIP hnode hnewer htracked
    obtain ⟨hconsistent,hshown⟩ := h.connectTracked env hpeer hconsistent hstale hnow rfl
      ⟨trackedSubnets,ip⟩ rfl
    refine ⟨⟨?_,?_⟩,hadvances⟩
    · dsimp only
      rw [hconnected,hsubnets]
      exact hconsistent
    · dsimp only
      rw [hconnected,hsubnets]
      exact hshown

theorem sameIDs_removeGossipableIP {subnets : Finmap fun _ : S => GossipableSubnet N} (n : N)
    {order : List S} (hnodup : order.Nodup) :
    SameIDs subnets (modifyAll (·.removeGossipableIP n) order subnets) :=
  sameIDs_modifyAll (fun g => Prod.ext (g.removeGossipableIP_gossipableIDs n)
    (g.removeGossipableIP_manuallyGossipable n)) hnodup

theorem Sound.onDisconnected (h : Sound manual pending t) (n : N) :
    Sound manual pending (t.onDisconnected env n) ∧
      Advances t.tracked (t.onDisconnected env n).tracked := by
  unfold IPTracker.onDisconnected
  split
  · exact ⟨h,Advances.refl _⟩
  · next peer hpeer =>
    have hnodup := env.nodup_subnetOrder peer.trackedSubnets
    refine ⟨⟨?_,?_⟩,Advances.refl _⟩
    · exact (h.consistent.disconnect n).same (sameIDs_removeGossipableIP n hnodup)
    · exact h.shown.disconnect hpeer hnodup (env.mem_subnetOrder peer.trackedSubnets)

/-! ## IDs -/

theorem Sound.addGossipableID (h : Sound manual pending t) {s : S} {manually : Bool}
    (hpending : ∀ s' n', pending s' n' ↔ s' = s ∧ n' = n)
    (hnode : ∃ node, t.tracked.lookup n = some node)
    (hadd : t.addGossipableID n s manually = .ok t') :
    Sound manual (fun _ _ => False) t' ∧ t'.tracked = t.tracked := by
  obtain ⟨node,hnode⟩ := hnode
  obtain ⟨g',rfl,hg'⟩ := addGossipableID_records hadd
  exact ⟨⟨h.consistent.addID hpending hnode hg',h.shown.addID h.consistent hnode hg'⟩,rfl⟩

theorem Sound.onValidatorRemoved (h : Sound manual (fun _ _ => False) t) (s : S) (n : N) :
    Sound manual (fun _ _ => False) (t.onValidatorRemoved s n) ∧
      Advances t.tracked (t.onValidatorRemoved s n).tracked := by
  cases hs : t.subnets.lookup s with
  | none =>
    rw [IPTracker.onValidatorRemoved,hs]
    exact ⟨h,Advances.refl _⟩
  | some g =>
    by_cases hn : n ∈ g.manuallyGossipable
    · rw [IPTracker.onValidatorRemoved,hs]
      dsimp only
      rw [if_pos hn]
      exact ⟨h,Advances.refl _⟩
    · obtain ⟨hconnected,hremoved⟩ := onValidatorRemoved_removed t hs hn
      have hconsistent := h.consistent.remove hremoved hs hn
      have hshown := h.shown.remove hconsistent hremoved hs
      rw [← hconnected] at hconsistent hshown
      exact ⟨⟨hconsistent,hshown⟩,Advances.remove hremoved⟩

theorem addGossipableID_connected {s : S} {manually : Bool}
    (h : t.addGossipableID n s manually = .ok t') : t'.connected = t.connected := by
  obtain ⟨g',rfl,_⟩ := addGossipableID_records h
  rfl

/-- Behind the lower case `addIP` the call changes nothing but entries. -/
theorem onAddIP_addIP {b : Bool} (h : t.onAddIP P env ip = .ok (b,t')) :
    ∃ c t₁ subnets, t.addIP P env ip = .ok (c,t₁) ∧ t' = { t₁ with subnets := subnets } ∧
      SameIDs t₁.subnets subnets := by
  obtain ⟨⟨c,t₁⟩,hadded,hrest⟩ := Outcome.bind_eq_ok_iff.mp h
  dsimp only at hrest
  split at hrest
  · cases hrest
    exact ⟨c,_,_,hadded,rfl,fun _ => rfl⟩
  split at hrest
  · cases hrest
    exact ⟨c,_,_,hadded,rfl,fun _ => rfl⟩
  · obtain ⟨subnets,hset,hrest⟩ := Outcome.bind_eq_ok_iff.mp hrest
    cases hrest
    exact ⟨c,t₁,subnets,hadded,rfl,setGossipableIP_sameIDs hset⟩

theorem onConnected_addIP {trackedSubnets : Finset S}
    (h : t.onConnected P env ip trackedSubnets = .ok t') :
    ∃ c t₁ subnets, ({ t with connected := t.connected.insert ip.nodeID ⟨trackedSubnets,ip⟩ } :
        IPTracker N S).addIP P env ip = .ok (c,t₁) ∧ t' = { t₁ with subnets := subnets } ∧
      SameIDs t₁.subnets subnets := by
  obtain ⟨⟨c,t₁⟩,hfirst,hrest⟩ := Outcome.bind_eq_ok_iff.mp h
  obtain ⟨c',hagain⟩ := (addIP_added hfirst).again
  dsimp only at hrest hagain
  rw [hagain,Outcome.ok_bind] at hrest
  dsimp only at hrest
  split at hrest
  · obtain ⟨subnets,hset,hrest⟩ := Outcome.bind_eq_ok_iff.mp hrest
    cases hrest
    exact ⟨c,t₁,subnets,hfirst,rfl,setGossipableIP_sameIDs hset⟩
  · cases hrest
    exact ⟨c,_,_,hfirst,rfl,fun _ => rfl⟩

theorem onDisconnected_sameIDs (t : IPTracker N S) (n : N) :
    SameIDs t.subnets (t.onDisconnected env n).subnets := by
  unfold IPTracker.onDisconnected
  split
  · exact fun _ => rfl
  · exact sameIDs_removeGossipableIP n (env.nodup_subnetOrder _)

theorem onValidatorRemoved_connected (t : IPTracker N S) (s : S) (n : N) :
    (t.onValidatorRemoved s n).connected = t.connected := by
  unfold IPTracker.onValidatorRemoved
  split
  · rfl
  split
  · rfl
  · rfl

variable [Inhabited S]

theorem mem_mark_validatedSubnets (t : IPTracker N S) (node : TrackedNode N S)
    (subnetID : Option S) (s : S) : s ∈ (t.mark node subnetID).validatedSubnets ↔
      subnetID = some s ∨ s ∈ node.validatedSubnets := by
  cases subnetID with
  | none => simp [mark]
  | some s' => simp only [mark,Finset.mem_insert,Option.some.injEq,eq_comm]

theorem mark_manuallyTracked (t : IPTracker N S) (node : TrackedNode N S)
    (subnetID : Option S) : (t.mark node subnetID).manuallyTracked = true ↔
      node.manuallyTracked = true ∨ subnetID = none := by
  cases subnetID <;> simp [mark]

theorem Sound.addTrackableID {subnetID : Option S}
    (h : Sound manual (fun _ _ => False) t) (manual' : N → Prop) (pending' : S → N → Prop)
    (hmanual : ∀ n', manual' n' ↔ manual n' ∨ (subnetID = none ∧ n' = n))
    (hpending : ∀ s n', pending' s n' ↔ subnetID = some s ∧ n' = n)
    (hadd : t.addTrackableID P env n subnetID = .ok t') :
    Sound manual' pending' t' ∧ Advances t.tracked t'.tracked ∧
      ∀ n', (n' = n ∨ ∃ node, t.tracked.lookup n' = some node) →
        ∃ node, t'.tracked.lookup n' = some node := by
  obtain ⟨hconnected,hsubnets,hcases⟩ := addTrackableID_records hadd
  -- both cases insert a node that has the IP of before, if there was one
  have hinsert : ∃ node, t'.tracked = t.tracked.insert n node ∧
      (∀ before, t.tracked.lookup n = some before → node.ip = before.ip) ∧
      Consistent manual' pending' (t.tracked.insert n node) t.connected t.subnets := by
    rcases hcases with ⟨node,hnode,htracked⟩ | ⟨hnone,htracked⟩
    · refine ⟨_,htracked,fun before hbefore => ?_,?_⟩
      · rw [hnode] at hbefore
        cases hbefore
        exact mark_ip t node subnetID
      · refine h.consistent.track hmanual hpending (fun ip hip => ?_) (fun peer hpeer => ?_)
          (fun s => ?_) ?_
        · rw [mark_ip] at hip
          exact h.consistent.trackedID n node ip hnode hip
        · rw [mark_ip]
          exact h.consistent.known n node peer hnode hpeer
        · rw [mem_mark_validatedSubnets,h.consistent.validated s n node hnode,false_or]
        · rw [mark_manuallyTracked,h.consistent.flags n node hnode]
    · refine ⟨_,htracked,fun before hbefore => ?_,?_⟩
      · rw [hnone] at hbefore
        cases hbefore
      · refine h.consistent.track hmanual hpending (fun ip hip => ?_) (fun peer hpeer => ?_)
          (fun s => ?_) ?_
        · obtain ⟨peer,hpeer,rfl⟩ := Option.map_eq_some_iff.mp hip
          exact h.consistent.connectedID n peer hpeer
        · exact ⟨peer.ip,by rw [hpeer]; rfl⟩
        · refine (mem_mark_validatedSubnets t _ subnetID s).trans (or_congr_right ?_)
          refine iff_of_false (Finset.notMem_empty s) ?_
          rintro ⟨g,hg,hin⟩
          obtain ⟨node,hnode⟩ := h.consistent.gossipable s g n hg hin
          rw [hnone] at hnode
          cases hnode
        · refine (mark_manuallyTracked t _ subnetID).trans (or_congr_left ?_)
          refine iff_of_false Bool.false_ne_true fun hm => ?_
          obtain ⟨node,hnode⟩ := h.consistent.manuallyTracked n hm
          rw [hnone] at hnode
          cases hnode
  obtain ⟨node,htracked,hsame,hconsistent⟩ := hinsert
  have hshown := h.shown.track hsame
  have hadvances := Advances.track hsame
  refine ⟨⟨?_,?_⟩,htracked ▸ hadvances,fun n' hor => ?_⟩
  · rw [htracked,hconnected,hsubnets]
    exact hconsistent
  · rw [htracked,hconnected,hsubnets]
    exact hshown
  · rw [htracked,lookup_insert_eq_ite]
    split
    · exact ⟨node,rfl⟩
    · next hne => exact hor.resolve_left hne

/-! ## Calls -/

theorem Sound.manuallyTrack (h : Sound manual (fun _ _ => False) t)
    (hexec : t.manuallyTrack P env n = .ok t') :
    Sound (fun n' => manual n' ∨ n' = n) (fun _ _ => False) t' ∧
      Advances t.tracked t'.tracked := by
  obtain ⟨hsound,hadvances,_⟩ := h.addTrackableID (fun n' => manual n' ∨ n' = n)
    (fun _ _ => False) (fun n' => by simp) (fun s n' => by simp) hexec
  exact ⟨hsound,hadvances⟩

theorem Sound.addID {s : S} {manually : Bool} {t₁ : IPTracker N S}
    (h : Sound manual (fun _ _ => False) t)
    (htrack : t.addTrackableID P env n (some s) = .ok t₁)
    (hgossip : t₁.addGossipableID n s manually = .ok t') :
    Sound manual (fun _ _ => False) t' ∧ Advances t.tracked t'.tracked := by
  obtain ⟨hsound,hadvances,hthere⟩ := h.addTrackableID manual (fun s' n' => s' = s ∧ n' = n)
    (fun n' => by simp) (fun s' n' => by rw [Option.some.injEq,eq_comm (a := s')]) htrack
  obtain ⟨hsound,htracked⟩ := hsound.addGossipableID (fun s' n' => Iff.rfl)
    (hthere n (.inl rfl)) hgossip
  exact ⟨hsound,htracked ▸ hadvances⟩

theorem Sound.onValidatorAdded {s : S} (h : Sound manual (fun _ _ => False) t)
    (hexec : t.onValidatorAdded P env s n = .ok t') :
    Sound manual (fun _ _ => False) t' ∧ Advances t.tracked t'.tracked := by
  obtain ⟨t₁,htrack,hgossip⟩ := Outcome.bind_eq_ok_iff.mp hexec
  exact h.addID htrack hgossip

theorem Sound.manuallyGossip {s : S} (h : Sound manual (fun _ _ => False) t)
    (hexec : t.manuallyGossip P env s n = .ok t') :
    ∃ manual' : N → Prop, (∀ n', manual n' → manual' n') ∧
      (∀ n', manual' n' → manual n' ∨ n' = n) ∧
      Sound manual' (fun _ _ => False) t' ∧ Advances t.tracked t'.tracked := by
  rw [IPTracker.manuallyGossip] at hexec
  split at hexec
  · obtain ⟨t₁,hfirst,hexec⟩ := Outcome.bind_eq_ok_iff.mp hexec
    obtain ⟨t₂,htrack,hgossip⟩ := Outcome.bind_eq_ok_iff.mp hexec
    obtain ⟨hsound,hadvances,hthere⟩ := h.addTrackableID (fun n' => manual n' ∨ n' = n)
      (fun _ _ => False) (fun n' => by simp) (fun s n' => by simp) hfirst
    obtain ⟨hsound,hadvances'⟩ := hsound.addID htrack hgossip
    refine ⟨_,fun n' => .inl,fun n' => id,hsound,hadvances.trans hadvances' fun n' node hnode => ?_⟩
    exact hthere n' (.inr ⟨node,hnode⟩)
  · rw [Outcome.ok_bind] at hexec
    obtain ⟨t₂,htrack,hgossip⟩ := Outcome.bind_eq_ok_iff.mp hexec
    obtain ⟨hsound,hadvances⟩ := h.addID htrack hgossip
    exact ⟨manual,fun n' => id,fun n' => .inl,hsound,hadvances⟩

/-- Every call keeps the links, with what it adds to the nodes that are tracked manually. -/
theorem Sound.exec {op : Op N S} (h : Sound manual (fun _ _ => False) t)
    (hallowed : t.Allowed op) (hexec : t.exec P env op = .ok t') :
    ∃ manual' : N → Prop, (∀ n', manual n' ∨ op = .manuallyTrack n' → manual' n') ∧
      (∀ n', manual' n' → manual n' ∨ op = .manuallyTrack n' ∨ ∃ s, op = .manuallyGossip s n') ∧
      Sound manual' (fun _ _ => False) t' ∧ Advances t.tracked t'.tracked := by
  have hplain : (∀ n', op ≠ .manuallyTrack n') →
      Sound manual (fun _ _ => False) t' ∧ Advances t.tracked t'.tracked →
      ∃ manual' : N → Prop, (∀ n', manual n' ∨ op = .manuallyTrack n' → manual' n') ∧
        (∀ n', manual' n' → manual n' ∨ op = .manuallyTrack n' ∨ ∃ s, op = .manuallyGossip s n') ∧
        Sound manual' (fun _ _ => False) t' ∧ Advances t.tracked t'.tracked := fun htrack hboth =>
    ⟨manual,fun n' hor => hor.resolve_right (htrack n'),fun n' => .inl,hboth⟩
  cases op with
  | manuallyTrack n =>
    obtain ⟨hsound,hadvances⟩ := h.manuallyTrack hexec
    refine ⟨_,fun n' hor => ?_,fun n' hor => ?_,hsound,hadvances⟩
    · exact hor.imp id fun heq => by cases heq; rfl
    · exact hor.imp id fun heq => .inl (by rw [heq])
  | manuallyGossip s n =>
    obtain ⟨manual',hold,hnew,hsound,hadvances⟩ := h.manuallyGossip hexec
    refine ⟨manual',fun n' hor => ?_,fun n' hm => ?_,hsound,hadvances⟩
    · exact hold n' (hor.resolve_right fun heq => by cases heq)
    · exact (hnew n' hm).imp id fun heq => .inr ⟨s,by rw [heq]⟩
  | addIP ip =>
    obtain ⟨⟨b,t₁⟩,hadd,heq⟩ := Outcome.bind_eq_ok_iff.mp hexec
    cases heq
    exact hplain (fun n' heq => by cases heq) (h.onAddIP hadd)
  | connected ip trackedSubnets =>
    exact hplain (fun n' heq => by cases heq) (h.onConnected hallowed hexec)
  | disconnected n =>
    cases hexec
    exact hplain (fun n' heq => by cases heq) (h.onDisconnected n)
  | onValidatorAdded s n => exact hplain (fun n' heq => by cases heq) (h.onValidatorAdded hexec)
  | onValidatorRemoved s n =>
    cases hexec
    exact hplain (fun n' heq => by cases heq) (h.onValidatorRemoved s n)
  | resetBloom => exact hplain (fun n' heq => by cases heq) (h.resetBloom hexec)

/-! ## Connections -/

def connection : List (Op N S) → N → Option (ConnectedNode N S)
  | [], _ => none
  | .connected ip trackedSubnets :: ops, n =>
    if n = ip.nodeID then some ⟨trackedSubnets,ip⟩ else connection ops n
  | .disconnected nodeID :: ops, n => if n = nodeID then none else connection ops n
  | _ :: ops, n => connection ops n

theorem addTrackableID_connected {subnetID : Option S}
    (h : t.addTrackableID P env n subnetID = .ok t') : t'.connected = t.connected :=
  (addTrackableID_records h).1

theorem manuallyGossip_added {s : S} (h : t.manuallyGossip P env s n = .ok t') :
    ∃ t₂ : IPTracker N S, t₂.connected = t.connected ∧ t₂.subnets = t.subnets ∧
      t₂.addGossipableID n s true = .ok t' := by
  rw [IPTracker.manuallyGossip] at h
  split at h
  · obtain ⟨t₁,hfirst,h⟩ := Outcome.bind_eq_ok_iff.mp h
    obtain ⟨t₂,htrack,hgossip⟩ := Outcome.bind_eq_ok_iff.mp h
    obtain ⟨hconnected,hsubnets,_⟩ := addTrackableID_records htrack
    obtain ⟨hconnected₁,hsubnets₁,_⟩ := addTrackableID_records hfirst
    exact ⟨t₂,hconnected.trans hconnected₁,hsubnets.trans hsubnets₁,hgossip⟩
  · rw [Outcome.ok_bind] at h
    obtain ⟨t₂,htrack,hgossip⟩ := Outcome.bind_eq_ok_iff.mp h
    obtain ⟨hconnected,hsubnets,_⟩ := addTrackableID_records htrack
    exact ⟨t₂,hconnected,hsubnets,hgossip⟩

theorem exec_connected {ops : List (Op N S)} {op : Op N S}
    (h : ∀ n, t.connected.lookup n = connection ops n) (hexec : t.exec P env op = .ok t') (n : N) :
    t'.connected.lookup n = connection (op :: ops) n := by
  cases op with
  | manuallyTrack m => exact (addTrackableID_connected hexec) ▸ h n
  | manuallyGossip s m =>
    obtain ⟨t₂,hconnected,_,hgossip⟩ := manuallyGossip_added hexec
    rw [addGossipableID_connected hgossip,hconnected]
    exact h n
  | addIP ip =>
    obtain ⟨⟨b,t₁⟩,hadd,heq⟩ := Outcome.bind_eq_ok_iff.mp hexec
    cases heq
    obtain ⟨_,_,_,hadded,rfl,_⟩ := onAddIP_addIP hadd
    exact (addIP_added hadded).records.1 ▸ h n
  | connected ip trackedSubnets =>
    obtain ⟨_,_,_,hadded,rfl,_⟩ := onConnected_addIP hexec
    dsimp only
    rw [(addIP_added hadded).records.1,lookup_insert_eq_ite,connection,h]
  | disconnected m =>
    cases hexec
    rw [connection,IPTracker.onDisconnected]
    split
    · next hnone =>
      split
      · next heq => rw [heq,hnone]
      · exact h n
    · dsimp only
      rw [lookup_erase_eq_ite,h]
  | onValidatorAdded s m =>
    obtain ⟨t₁,htrack,hgossip⟩ := Outcome.bind_eq_ok_iff.mp hexec
    rw [addGossipableID_connected hgossip,addTrackableID_connected htrack]
    exact h n
  | onValidatorRemoved s m =>
    cases hexec
    rw [onValidatorRemoved_connected]
    exact h n
  | resetBloom => exact (resetBloom_records hexec).2.1 ▸ h n

/-! ## Who is gossiped -/

/-- Whom the calls have made gossipable in a subnet. `OnValidatorRemoved` passes over a node that
was gossiped manually. -/
def gossiping : List (Op N S) → S → N → Prop
  | [], _, _ => False
  | .manuallyGossip s' n' :: ops, s, n => (s = s' ∧ n = n') ∨ gossiping ops s n
  | .onValidatorAdded s' n' :: ops, s, n => (s = s' ∧ n = n') ∨ gossiping ops s n
  | .onValidatorRemoved s' n' :: ops, s, n =>
    gossiping ops s n ∧ (s = s' ∧ n = n' → .manuallyGossip s n ∈ ops)
  | _ :: ops, s, n => gossiping ops s n

structure Recorded (ops : List (Op N S)) (subnets : Finmap fun _ : S => GossipableSubnet N) :
    Prop where
  ids : ∀ s n, (∃ g, subnets.lookup s = some g ∧ n ∈ g.gossipableIDs) ↔ gossiping ops s n
  manual : ∀ s n, (∃ g, subnets.lookup s = some g ∧ n ∈ g.manuallyGossipable) ↔
    .manuallyGossip s n ∈ ops

section
variable {ops : List (Op N S)} {subnets subnets' : Finmap fun _ : S => GossipableSubnet N}

omit [Inhabited S] in
theorem Recorded.same (h : Recorded ops subnets) (hsame : SameIDs subnets subnets') :
    Recorded ops subnets' :=
  ⟨fun s n => (hsame.exists_iff (fun ids => n ∈ ids.1) s).trans (h.ids s n),
    fun s n => (hsame.exists_iff (fun ids => n ∈ ids.2) s).trans (h.manual s n)⟩

omit [Inhabited S] in
theorem Recorded.add (h : Recorded ops subnets) {s : S} {manually : Bool}
    {g' : GossipableSubnet N} (hg' : Gossiped t n s manually ((subnets.lookup s).getD .empty) g') :
    Recorded ((if manually then .manuallyGossip s n else .onValidatorAdded s n) :: ops)
      (subnets.insert s g') := by
  constructor
  · intro s' n'
    have hstep : gossiping ((if manually then .manuallyGossip s n else .onValidatorAdded s n) :: ops)
        s' n' ↔ (s' = s ∧ n' = n) ∨ gossiping ops s' n' := by
      cases manually with
      | true => rfl
      | false => rfl
    rw [hstep,← h.ids,lookup_insert_eq_ite]
    by_cases hs : s' = s
    · subst hs
      simp [hg'.mem_ids]
    · simp [hs]
  · intro s' n'
    rw [List.mem_cons,← h.manual,lookup_insert_eq_ite]
    by_cases hs : s' = s
    · subst hs
      cases manually with
      | true => simp [hg'.mem_manual,eq_comm]
      | false => simp [hg'.mem_manual]
    · cases manually with
      | true => simp [hs]
      | false => simp [hs]

omit [Inhabited S] in
theorem Recorded.remove (h : Recorded ops t.subnets)
    (hmanual : ∀ s g, t.subnets.lookup s = some g → g.manuallyGossipable ⊆ g.gossipableIDs)
    (s : S) (n : N) :
    Recorded (.onValidatorRemoved s n :: ops) (t.onValidatorRemoved s n).subnets := by
  have hplain : (¬(∃ g, t.subnets.lookup s = some g ∧ n ∈ g.gossipableIDs) ∨
      .manuallyGossip s n ∈ ops) → Recorded (.onValidatorRemoved s n :: ops) t.subnets := by
    refine fun hor => ⟨fun s' n' => ?_,fun s' n' => by simpa using h.manual s' n'⟩
    rw [h.ids,gossiping]
    refine ⟨fun hin => ⟨hin,?_⟩,And.left⟩
    rintro ⟨rfl,rfl⟩
    exact hor.resolve_left fun hnot => hnot ((h.ids _ _).mpr hin)
  cases hs : t.subnets.lookup s with
  | none =>
    rw [IPTracker.onValidatorRemoved,hs]
    exact hplain (.inl (by simp [hs]))
  | some g =>
    by_cases hn : n ∈ g.manuallyGossipable
    · rw [IPTracker.onValidatorRemoved,hs]
      dsimp only
      rw [if_pos hn]
      exact hplain (.inr ((h.manual s n).mp ⟨g,hs,hn⟩))
    · obtain ⟨_,hremoved⟩ := onValidatorRemoved_removed t hs hn
      have hnot : .manuallyGossip s n ∉ ops := fun hin => by
        obtain ⟨g₀,hg₀,hin⟩ := (h.manual s n).mpr hin
        rw [hs] at hg₀
        cases hg₀
        exact hn hin
      refine ⟨fun s' n' => ?_,fun s' n' => ?_⟩
      · rw [hremoved.mem_ids hs,h.ids,gossiping]
        refine and_congr_right fun _ => ⟨fun hne heq => absurd heq hne,?_⟩
        rintro hstays ⟨rfl,rfl⟩
        exact hnot (hstays ⟨rfl,rfl⟩)
      · rw [hremoved.mem_manual hs hn (hmanual s g hs),h.manual]
        simp

theorem Recorded.exec {op : Op N S} (h : Recorded ops t.subnets)
    (hmanual : ∀ s g, t.subnets.lookup s = some g → g.manuallyGossipable ⊆ g.gossipableIDs)
    (hexec : t.exec P env op = .ok t') : Recorded (op :: ops) t'.subnets := by
  have hkept : ∀ subnets, Recorded ops subnets → gossiping (op :: ops) = gossiping ops →
      (∀ s n, op ≠ .manuallyGossip s n) → Recorded (op :: ops) subnets := by
    refine fun subnets hsame hold hne => ⟨fun s n => by rw [hold,hsame.ids],fun s n => ?_⟩
    rw [hsame.manual,List.mem_cons,or_iff_right (hne s n).symm]
  cases op with
  | manuallyTrack m =>
    exact hkept _ ((addTrackableID_records hexec).2.1 ▸ h) rfl (fun s n heq => by cases heq)
  | manuallyGossip s m =>
    obtain ⟨t₂,_,hsubnets,hgossip⟩ := manuallyGossip_added hexec
    obtain ⟨g',rfl,hg'⟩ := addGossipableID_records hgossip
    rw [hsubnets] at hg' ⊢
    exact h.add hg'
  | addIP ip =>
    obtain ⟨⟨b,t₁⟩,hadd,heq⟩ := Outcome.bind_eq_ok_iff.mp hexec
    cases heq
    obtain ⟨_,_,_,hadded,rfl,hsame⟩ := onAddIP_addIP hadd
    rw [(addIP_added hadded).records.2] at hsame
    exact hkept _ (h.same hsame) rfl (fun s n heq => by cases heq)
  | connected ip trackedSubnets =>
    obtain ⟨_,_,_,hadded,rfl,hsame⟩ := onConnected_addIP hexec
    rw [(addIP_added hadded).records.2] at hsame
    exact hkept _ (h.same hsame) rfl (fun s n heq => by cases heq)
  | disconnected m =>
    cases hexec
    exact hkept _ (h.same (onDisconnected_sameIDs t m)) rfl (fun s n heq => by cases heq)
  | onValidatorAdded s m =>
    obtain ⟨t₁,htrack,hgossip⟩ := Outcome.bind_eq_ok_iff.mp hexec
    obtain ⟨g',rfl,hg'⟩ := addGossipableID_records hgossip
    rw [(addTrackableID_records htrack).2.1] at hg' ⊢
    exact h.add hg'
  | onValidatorRemoved s m =>
    cases hexec
    exact h.remove hmanual s m
  | resetBloom =>
    exact hkept _ ((resetBloom_records hexec).2.2 ▸ h) rfl (fun s n heq => by cases heq)

end
end

/-! ## Calls that return -/

section
variable {manual : N → Prop} {pending : S → N → Prop} {t t' : IPTracker N S} {n : N}
  {ip : ClaimedIPPort N}

theorem onAddIP_isPanic (hbloom : ∀ m, (newBloom P env m).isPanic = false) (t : IPTracker N S)
    (ip : ClaimedIPPort N) : (t.onAddIP P env ip).isPanic = false := by
  refine Outcome.isPanic_bind (addIP_isPanic hbloom t ip) ?_
  rintro ⟨c,t₁⟩ hadded
  dsimp only
  split
  · rfl
  · next hc =>
    rcases (addIP_added hadded).ipOf with huntracked | ⟨ip',hip'⟩
    · cases huntracked
      exact absurd (by decide) hc
    · dsimp only at hip'
      rw [hip']
      split
      · rfl
      · rw [setGossipableIP_eq]
        rfl

theorem onConnected_isPanic (hbloom : ∀ m, (newBloom P env m).isPanic = false)
    (t : IPTracker N S) (ip : ClaimedIPPort N) (trackedSubnets : Finset S) :
    (t.onConnected P env ip trackedSubnets).isPanic = false := by
  refine Outcome.isPanic_bind (addIP_isPanic hbloom _ ip) ?_
  rintro ⟨c,t₁⟩ hadded
  have hfirst := addIP_added hadded
  obtain ⟨c',hagain⟩ := hfirst.again
  dsimp only at hagain ⊢
  rw [hagain,Outcome.ok_bind]
  split
  · next hc =>
    rcases hfirst.ipOf with huntracked | ⟨ip',hip'⟩
    · exact absurd huntracked hc
    · dsimp only at hip' ⊢
      rw [hip',setGossipableIP_eq]
      rfl
  · rfl

theorem Sound.addGossipableID_isPanic (h : Sound manual pending t) (n : N) (s : S)
    (manually : Bool) : (t.addGossipableID n s manually).isPanic = false := by
  unfold IPTracker.addGossipableID
  dsimp only
  split
  · rfl
  split
  · rfl
  next peer hpeer =>
  split
  · rfl
  split
  · rfl
  next node hnode =>
  obtain ⟨ip,hip⟩ := h.consistent.known n node peer hnode hpeer
  rw [hip]
  rfl

variable [Inhabited S]

theorem addTrackableID_isPanic (hbloom : ∀ m, (newBloom P env m).isPanic = false)
    (t : IPTracker N S) (n : N) (subnetID : Option S) :
    (t.addTrackableID P env n subnetID).isPanic = false := by
  unfold addTrackableID
  split
  · rfl
  dsimp only
  split
  · rfl
  · exact updateMostRecentTrackedIP_isPanic hbloom _ _ _ _

theorem Sound.addID_isPanic (h : Sound manual (fun _ _ => False) t)
    (hbloom : ∀ m, (newBloom P env m).isPanic = false) (n : N) (s : S) (manually : Bool) :
    (do let t ← t.addTrackableID P env n (some s)
        t.addGossipableID n s manually).isPanic = false := by
  refine Outcome.isPanic_bind (addTrackableID_isPanic hbloom t n (some s)) fun t₁ htrack => ?_
  obtain ⟨hsound,_⟩ := h.addTrackableID manual (fun s' n' => s' = s ∧ n' = n)
    (fun n' => by simp) (fun s' n' => by rw [Option.some.injEq,eq_comm (a := s')]) htrack
  exact hsound.addGossipableID_isPanic n s manually

theorem Sound.exec_returns (h : Sound manual (fun _ _ => False) t)
    (hbloom : ∀ m, (newBloom P env m).isPanic = false) (op : Op N S) :
    ∃ t', t.exec P env op = .ok t' := by
  refine Outcome.exists_ok ?_
  cases op with
  | manuallyTrack n => exact addTrackableID_isPanic hbloom t n none
  | manuallyGossip s n =>
    rw [IPTracker.exec,IPTracker.manuallyGossip]
    split
    · refine Outcome.isPanic_bind (addTrackableID_isPanic hbloom t n none) fun t₁ hfirst => ?_
      obtain ⟨hsound,_⟩ := h.manuallyTrack hfirst
      exact hsound.addID_isPanic hbloom n s true
    · exact h.addID_isPanic hbloom n s true
  | addIP ip => exact Outcome.isPanic_bind (onAddIP_isPanic hbloom t ip) fun _ _ => rfl
  | connected ip trackedSubnets => exact onConnected_isPanic hbloom t ip trackedSubnets
  | disconnected n => rfl
  | onValidatorAdded s n => exact h.addID_isPanic hbloom n s false
  | onValidatorRemoved s n => rfl
  | resetBloom => exact resetBloom_isPanic hbloom t

end

/-! ## Runs -/

section
def gossipableIDs (t : IPTracker N S) (s : S) : Finset N :=
  ((t.subnets.lookup s).map GossipableSubnet.gossipableIDs).getD ∅

def gossipableIPs (t : IPTracker N S) (s : S) : List (ClaimedIPPort N) :=
  ((t.subnets.lookup s).map GossipableSubnet.gossipableIPs).getD []

theorem mem_gossipableIDs (t : IPTracker N S) (s : S) (n : N) : n ∈ t.gossipableIDs s ↔
    ∃ g, t.subnets.lookup s = some g ∧ n ∈ g.gossipableIDs := by
  unfold gossipableIDs
  cases t.subnets.lookup s with
  | none => simp
  | some g => simp

variable [Inhabited S]

inductive Run (P : Params) : List (Op N S) → IPTracker N S → Prop
  | start {env : Env N S} {trackedSubnets : Finset S} {t : IPTracker N S}
    (h : newIPTracker P env trackedSubnets = .ok t) : Run P [] t
  | call {ops : List (Op N S)} {t t' : IPTracker N S} {env : Env N S} {op : Op N S}
    (h : Run P ops t) (hallowed : t.Allowed op) (hexec : t.exec P env op = .ok t') :
    Run P (op :: ops) t'

theorem Run.sound {ops : List (Op N S)} {t : IPTracker N S} (h : Run P ops t) :
    (∃ manual : N → Prop, (∀ n, .manuallyTrack n ∈ ops → manual n) ∧
      (∀ n, manual n → .manuallyTrack n ∈ ops ∨ ∃ s, .manuallyGossip s n ∈ ops) ∧
      Sound manual (fun _ _ => False) t) ∧
    (∀ n, t.connected.lookup n = connection ops n) ∧ Recorded ops t.subnets := by
  induction h with
  | start hnew =>
    obtain ⟨htracked,hconnected,hsubnets⟩ := newIPTracker_records hnew
    refine ⟨⟨fun _ => False,by simp,by simp,⟨?_,?_⟩⟩,?_,?_⟩
    · rw [htracked,hconnected,hsubnets]
      constructor <;> simp
    · rw [htracked,hconnected,hsubnets]
      constructor <;> simp
    · intro n
      rw [hconnected]
      rfl
    · rw [hsubnets]
      constructor <;> simp [gossiping]
  | call h hallowed hexec ih =>
    obtain ⟨⟨manual,htrack,hmanual,hsound⟩,hconnected,hrecorded⟩ := ih
    obtain ⟨manual',hold,hnew,hsound',_⟩ := hsound.exec hallowed hexec
    refine ⟨⟨manual',fun n hn => ?_,fun n hn => ?_,hsound'⟩,
      exec_connected hconnected hexec,hrecorded.exec hsound.consistent.manualIDs hexec⟩
    · rcases List.mem_cons.mp hn with heq | hn
      · exact hold n (.inr heq.symm)
      · exact hold n (.inl (htrack n hn))
    · rcases hnew n hn with hn | heq | ⟨s,heq⟩
      · rcases hmanual n hn with hin | ⟨s,hin⟩
        · exact .inl (List.mem_cons_of_mem _ hin)
        · exact .inr ⟨s,List.mem_cons_of_mem _ hin⟩
      · exact .inl (List.mem_cons.mpr (.inl heq.symm))
      · exact .inr ⟨s,List.mem_cons.mpr (.inl heq.symm)⟩

structure Gossips (P : Params) (ops : List (Op N S)) (t : IPTracker N S) : Prop where
  entries : ∀ s n, (∃ ip ∈ t.gossipableIPs s, ip.nodeID = n) ↔ n ∈ t.gossipableIDs s ∧
    ∃ peer, connection ops n = some peer ∧ s ∈ peer.trackedSubnets
  ids : ∀ s n, n ∈ t.gossipableIDs s ↔ gossiping ops s n
  indices : ∀ s g, t.subnets.lookup s = some g → ∀ n i, g.gossipableIndices.lookup n = some i ↔
    ∃ ip, g.gossipableIPs[i]? = some ip ∧ ip.nodeID = n
  recorded : ∀ s, ∀ ip ∈ t.gossipableIPs s,
    ∃ node, t.tracked.lookup ip.nodeID = some node ∧ node.ip = some ip
  records : ∀ s, (∃ g, t.subnets.lookup s = some g) ↔ (t.gossipableIDs s).Nonempty
  tracked : ∀ n, (∃ node, t.tracked.lookup n = some node) ↔
    .manuallyTrack n ∈ ops ∨ ∃ s, n ∈ t.gossipableIDs s
  timestamps : ∀ env op t', t.Allowed op → t.exec P env op = .ok t' → Advances t.tracked t'.tracked
  returns : ∀ env op, (∀ m, (newBloom P env m).isPanic = false) → ∃ t', t.exec P env op = .ok t'

/-- After every run the entries of a subnet are those of its IDs that are connected and reported
the subnet, the IDs are those that the calls have made gossipable, and the other maps are as they
should be. -/
theorem gossip_invariant {ops : List (Op N S)} {t : IPTracker N S} (h : Run P ops t) :
    Gossips P ops t := by
  obtain ⟨⟨manual,htrack,hmanual,hsound⟩,hconnected,hrecorded⟩ := h.sound
  have hconsistent := hsound.consistent
  constructor
  case entries =>
    intro s n
    rw [mem_gossipableIDs,← hconnected]
    unfold gossipableIPs
    cases hs : t.subnets.lookup s with
    | none => simp
    | some g => simpa [GossipableSubnet.Lists] using hsound.shown.entries s g n hs id
  case ids => exact fun s n => (mem_gossipableIDs t s n).trans (hrecorded.ids s n)
  case indices => exact fun s g _ => g.positions
  case recorded =>
    intro s ip hin
    unfold gossipableIPs at hin
    cases hs : t.subnets.lookup s with
    | none =>
      rw [hs] at hin
      cases hin
    | some g =>
      rw [hs] at hin
      exact hsound.shown.recorded s g ip hs hin id
  case records =>
    intro s
    constructor
    · rintro ⟨g,hg⟩
      obtain ⟨n,hn⟩ := hconsistent.nonempty s g hg
      exact ⟨n,(mem_gossipableIDs t s n).mpr ⟨g,hg,hn⟩⟩
    · rintro ⟨n,hn⟩
      obtain ⟨g,hg,_⟩ := (mem_gossipableIDs t s n).mp hn
      exact ⟨g,hg⟩
  case tracked =>
    intro n
    constructor
    · rintro ⟨node,hnode⟩
      have hwanted := hconsistent.wanted n node hnode
      by_cases hflag : node.manuallyTracked = true
      · rcases hmanual n ((hconsistent.flags n node hnode).mp hflag) with hin | ⟨s,hin⟩
        · exact .inl hin
        · obtain ⟨g,hg,hn⟩ := (hrecorded.manual s n).mpr hin
          exact .inr ⟨s,(mem_gossipableIDs t s n).mpr ⟨g,hg,hconsistent.manualIDs s g hg hn⟩⟩
      · have hne : node.validatedSubnets.Nonempty := by
          rw [Finset.nonempty_iff_ne_empty]
          intro hempty
          simp [TrackedNode.canDelete,hflag,hempty] at hwanted
        obtain ⟨s,hs⟩ := hne
        have hid := ((hconsistent.validated s n node hnode).mp hs).resolve_left id
        exact .inr ⟨s,(mem_gossipableIDs t s n).mpr hid⟩
    · rintro (hin | ⟨s,hn⟩)
      · exact hconsistent.manuallyTracked n (htrack n hin)
      · obtain ⟨g,hg,hn⟩ := (mem_gossipableIDs t s n).mp hn
        exact hconsistent.gossipable s g n hg hn
  case timestamps =>
    intro env op t' hallowed hexec
    obtain ⟨_,_,_,_,hadvances⟩ := hsound.exec hallowed hexec
    exact hadvances
  case returns => exact fun env op hbloom => hsound.exec_returns hbloom op

end

namespace Sample

def params : Params := ⟨fun _ => [],fun _ => (1,1),fun _ _ => 10⟩

noncomputable def zeroEnv : Env ℕ ℕ where
  salt := Bloom.Sample.zeros saltSize
  seeds := Bloom.Sample.zeros
  trackedOrder m := m.keys.toList
  mem_trackedOrder m n := by rw [Finset.mem_toList,Finmap.mem_keys]
  subnetOrder subnets := subnets.toList
  mem_subnetOrder subnets s := Finset.mem_toList
  nodup_subnetOrder subnets := subnets.nodup_toList

def ops : List (Op ℕ ℕ) := [.connected ⟨7,1,[]⟩ {3},.onValidatorAdded 3 7]

theorem ops_run : ∃ t, Run params ops t := by
  have hnew : ∃ t, newIPTracker params zeroEnv ∅ = .ok t := ⟨_,rfl⟩
  obtain ⟨t₀,hnew⟩ := hnew
  have hstart : Run params [] t₀ := .start hnew
  have hbloom : ∀ m, (newBloom params zeroEnv m).isPanic = false := fun m => rfl
  obtain ⟨⟨_,_,_,hsound⟩,hconnected⟩ := hstart.sound
  obtain ⟨t₁,hadded⟩ := hsound.exec_returns hbloom (.onValidatorAdded 3 7)
  have hfirst : Run params [.onValidatorAdded 3 7] t₁ := .call hstart trivial hadded
  obtain ⟨⟨_,_,_,hsound⟩,hconnected⟩ := hfirst.sound
  obtain ⟨t₂,hdone⟩ := hsound.exec_returns hbloom (.connected ⟨7,1,[]⟩ {3})
  exact ⟨t₂,.call hfirst (hconnected.1 7) hdone⟩

theorem ops_gossiped : ∃ t, Run params ops t ∧ ∃ ip ∈ t.gossipableIPs 3, ip.nodeID = 7 := by
  obtain ⟨t,ht⟩ := ops_run
  have hgossips := gossip_invariant ht
  have hid : 7 ∈ t.gossipableIDs 3 := (hgossips.ids 3 7).mpr (.inl ⟨rfl,rfl⟩)
  exact ⟨t,ht,(hgossips.entries 3 7).mpr ⟨hid,⟨{3},⟨7,1,[]⟩⟩,rfl,Finset.mem_singleton_self 3⟩⟩

end Sample
end Landslide.Net.IPTracker
