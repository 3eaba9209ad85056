import Landslide.Net.IPTracker

/-! # What the IP tracker gossips

The maps of the tracker are linked: the subnets that a node validates, the IDs that a subnet may
gossip, the nodes that are connected and the entries of the subnets. A call changes several of
them one after the other, so that in between a node may be due to a subnet, or its entries may be
out of date. The invariant has parameters for both.
-/
namespace Landslide.Net.IPTracker
variable {N S : Type} [DecidableEq N] {P : Params} {env : Env N S}

/-! ## What a call does to the maps -/

section
variable {t t' : IPTracker N S} {ip : ClaimedIPPort N} {nodeID : N} {node : TrackedNode N S}

theorem resetBloom_records (h : t.resetBloom P env = .ok t') :
    t'.tracked = t.tracked ∧ t'.connected = t.connected ∧ t'.subnets = t.subnets := by
  unfold resetBloom at h
  split at h
  · cases h
    exact ⟨rfl,rfl,rfl⟩
  · cases h
    exact ⟨rfl,rfl,rfl⟩
  · cases h

theorem updateMostRecentTrackedIP_records
    (h : t.updateMostRecentTrackedIP P env nodeID node ip = .ok t') :
    t'.tracked = t.tracked.insert nodeID { node with ip := some ip } ∧
      t'.connected = t.connected ∧ t'.subnets = t.subnets := by
  unfold updateMostRecentTrackedIP at h
  dsimp only at h
  split at h
  · cases h
    exact ⟨rfl,rfl,rfl⟩
  split at h
  · exact resetBloom_records h
  · cases h
    exact ⟨rfl,rfl,rfl⟩

/-- What `addIP` can do: the node is not tracked, its IP is as new, or the IP is recorded. -/
inductive Added (P : Params) (env : Env N S) (t : IPTracker N S) (ip : ClaimedIPPort N) :
    TimestampComparison × IPTracker N S → Prop
  | untracked (hnode : t.tracked.lookup ip.nodeID = none) : Added P env t ip (.untracked,t)
  | kept {node : TrackedNode N S} {known : ClaimedIPPort N} {c : TimestampComparison}
    (hnode : t.tracked.lookup ip.nodeID = some node) (hknown : node.ip = some known)
    (hle : ip.timestamp ≤ known.timestamp) (hc : c = .older ∨ c = .same) : Added P env t ip (c,t)
  | recorded {node : TrackedNode N S} {c : TimestampComparison} {t' : IPTracker N S}
    (hnode : t.tracked.lookup ip.nodeID = some node)
    (hnewer : ∀ known, node.ip = some known → known.timestamp < ip.timestamp)
    (hc : c = .newer ∨ c = .new)
    (hup : t.updateMostRecentTrackedIP P env ip.nodeID node ip = .ok t') : Added P env t ip (c,t')

theorem addIP_added {x : TimestampComparison × IPTracker N S} (h : t.addIP P env ip = .ok x) :
    Added P env t ip x := by
  unfold addIP at h
  split at h
  · next hnode =>
    cases h
    exact .untracked hnode
  · next node hnode =>
    split at h
    · next hnone =>
      obtain ⟨t',hup,h⟩ := Outcome.bind_eq_ok_iff.mp h
      cases h
      refine .recorded hnode (fun known hknown => ?_) (.inr rfl) hup
      rw [hnone] at hknown
      cases hknown
    · next known hknown =>
      split at h
      · next holder =>
        cases h
        exact .kept hnode hknown (UInt64.le_of_lt holder) (.inl rfl)
      · next holder =>
        split at h
        · next hsame =>
          cases h
          exact .kept hnode hknown (hsame ▸ UInt64.le_refl _) (.inr rfl)
        · next hsame =>
          obtain ⟨t',hup,h⟩ := Outcome.bind_eq_ok_iff.mp h
          cases h
          refine .recorded hnode (fun known' hknown' => ?_) (.inl rfl) hup
          rw [hknown] at hknown'
          cases hknown'
          exact UInt64.lt_of_le_of_ne (UInt64.not_lt.mp holder) hsame

theorem Added.records {x : TimestampComparison × IPTracker N S} (h : Added P env t ip x) :
    x.2.connected = t.connected ∧ x.2.subnets = t.subnets := by
  cases h with
  | untracked hnode => exact ⟨rfl,rfl⟩
  | kept hnode hknown hle hc => exact ⟨rfl,rfl⟩
  | recorded hnode hnewer hc hup => exact (updateMostRecentTrackedIP_records hup).2

theorem Added.again {x : TimestampComparison × IPTracker N S} (h : Added P env t ip x) :
    ∃ c, x.2.addIP P env ip = .ok (c,x.2) := by
  unfold addIP
  cases h with
  | untracked hnode =>
    dsimp only
    rw [hnode]
    exact ⟨.untracked,rfl⟩
  | kept hnode hknown hle hc =>
    next node known c =>
    dsimp only
    rw [hnode]
    dsimp only
    rw [hknown]
    by_cases holder : known.timestamp > ip.timestamp
    · exact ⟨.older,if_pos holder⟩
    · refine ⟨.same,(if_neg holder).trans (if_pos ?_)⟩
      exact UInt64.le_antisymm (UInt64.not_lt.mp holder) hle
  | recorded hnode hnewer hc hup =>
    next node c t' =>
    dsimp only
    rw [(updateMostRecentTrackedIP_records hup).1,Finmap.lookup_insert]
    refine ⟨.same,(if_neg ?_).trans (if_pos rfl)⟩
    exact UInt64.lt_irrefl _

theorem newIPTracker_records {trackedSubnets : Finset S} {t : IPTracker N S}
    (h : newIPTracker P env trackedSubnets = .ok t) :
    t.tracked = ∅ ∧ t.connected = ∅ ∧ t.subnets = ∅ := by
  obtain ⟨state,_,h⟩ := Outcome.bind_eq_ok_iff.mp h
  cases h
  exact ⟨rfl,rfl,rfl⟩

theorem resetBloom_isPanic (hbloom : ∀ m, (newBloom P env m).isPanic = false)
    (t : IPTracker N S) : (t.resetBloom P env).isPanic = false := by
  have hnew := hbloom t.tracked
  unfold resetBloom
  split
  · rfl
  · rfl
  · next heq =>
    rw [heq] at hnew
    cases hnew

theorem updateMostRecentTrackedIP_isPanic (hbloom : ∀ m, (newBloom P env m).isPanic = false)
    (t : IPTracker N S) (n : N) (node : TrackedNode N S) (ip : ClaimedIPPort N) :
    (t.updateMostRecentTrackedIP P env n node ip).isPanic = false := by
  unfold updateMostRecentTrackedIP
  dsimp only
  split
  · rfl
  split
  · exact resetBloom_isPanic hbloom _
  · rfl

theorem addIP_isPanic (hbloom : ∀ m, (newBloom P env m).isPanic = false) (t : IPTracker N S)
    (ip : ClaimedIPPort N) : (t.addIP P env ip).isPanic = false := by
  unfold addIP
  split
  · rfl
  split
  · exact Outcome.isPanic_bind (updateMostRecentTrackedIP_isPanic hbloom _ _ _ _) fun _ _ => rfl
  split
  · rfl
  split
  · rfl
  · exact Outcome.isPanic_bind (updateMostRecentTrackedIP_isPanic hbloom _ _ _ _) fun _ _ => rfl

theorem Added.ipOf {x : TimestampComparison × IPTracker N S} (h : Added P env t ip x) :
    x.1 = .untracked ∨ ∃ ip', x.2.ipOf ip.nodeID = some ip' := by
  cases h with
  | untracked hnode => exact .inl rfl
  | @kept node known _ hnode hknown hle hc =>
    exact .inr ⟨known,by rw [IPTracker.ipOf,hnode,Option.bind_some,hknown]⟩
  | recorded hnode hnewer hc hup =>
    refine .inr ⟨ip,?_⟩
    rw [IPTracker.ipOf,(updateMostRecentTrackedIP_records hup).1,Finmap.lookup_insert,
      Option.bind_some]

variable [DecidableEq S]

theorem setGossipableIP_eq (ip : ClaimedIPPort N) (order : List S)
    (subnets : Finmap fun _ : S => GossipableSubnet N) :
    setGossipableIP (some ip) order subnets = .ok (modifyAll
      (fun g => if ip.nodeID ∈ g.gossipableIDs then g.setGossipableIP ip else g) order subnets) := by
  induction order generalizing subnets with
  | nil => rfl
  | cons s order ih =>
    rw [setGossipableIP]
    cases hs : subnets.lookup s with
    | none =>
      have hstep : modifyAt (fun g => if ip.nodeID ∈ g.gossipableIDs then g.setGossipableIP ip
          else g) subnets s = subnets := by rw [modifyAt,hs]
      dsimp only
      rw [ih,modifyAll,modifyAll,List.foldl_cons,hstep]
    | some g =>
      have hstep : modifyAt (fun g => if ip.nodeID ∈ g.gossipableIDs then g.setGossipableIP ip
          else g) subnets s = if ip.nodeID ∈ g.gossipableIDs then
            subnets.insert s (g.setGossipableIP ip) else subnets := by
        rw [modifyAt,hs]
        dsimp only
        split
        · rfl
        · refine Finmap.ext_lookup fun s' => ?_
          rw [lookup_insert_eq_ite]
          split
          · next heq => rw [heq,hs]
          · rfl
      dsimp only
      rw [modifyAll,List.foldl_cons,hstep]
      split
      · exact ih _
      · exact ih _

structure Gossiped (t : IPTracker N S) (nodeID : N) (subnetID : S) (manuallyGossiped : Bool)
    (g g' : GossipableSubnet N) : Prop where
  manual : g'.manuallyGossipable =
    if manuallyGossiped then insert nodeID g.manuallyGossipable else g.manuallyGossipable
  ids : g'.gossipableIDs = insert nodeID g.gossipableIDs
  ips : (g'.gossipableIPs = g.gossipableIPs ∧ (nodeID ∈ g.gossipableIDs ∨
      ∀ peer, t.connected.lookup nodeID = some peer → subnetID ∈ peer.trackedSubnets →
        t.tracked.lookup nodeID = none)) ∨
    ∃ peer node ip, t.connected.lookup nodeID = some peer ∧ subnetID ∈ peer.trackedSubnets ∧
      t.tracked.lookup nodeID = some node ∧ node.ip = some ip ∧
      ∀ ip', ip' ∈ g'.gossipableIPs ↔
        ip' = ip ∨ (ip' ∈ g.gossipableIPs ∧ ip'.nodeID ≠ ip.nodeID)

theorem addGossipableID_records {subnetID : S} {manuallyGossiped : Bool}
    (h : t.addGossipableID nodeID subnetID manuallyGossiped = .ok t') :
    ∃ g', t' = { t with subnets := t.subnets.insert subnetID g' } ∧
      Gossiped t nodeID subnetID manuallyGossiped
        ((t.subnets.lookup subnetID).getD .empty) g' := by
  unfold addGossipableID at h
  generalize (t.subnets.lookup subnetID).getD .empty = g at h ⊢
  have hids := g.markManual_gossipableIDs nodeID manuallyGossiped
  have hips := g.markManual_gossipableIPs nodeID manuallyGossiped
  have hmanual := g.markManual_manuallyGossipable nodeID manuallyGossiped
  generalize g.markManual manuallyGossiped nodeID = g₁ at h hids hips hmanual
  dsimp only at h
  split at h
  · next hin =>
    cases h
    rw [hids] at hin
    exact ⟨g₁,rfl,hmanual,by rw [hids,Finset.insert_eq_of_mem hin],.inl ⟨hips,.inl hin⟩⟩
  split at h
  · next hpeer =>
    cases h
    refine ⟨_,rfl,hmanual,by rw [← hids],.inl ⟨hips,.inr fun peer hpeer' => ?_⟩⟩
    rw [hpeer] at hpeer'
    cases hpeer'
  next peer hpeer =>
  split at h
  · next hnot =>
    cases h
    refine ⟨_,rfl,hmanual,by rw [← hids],.inl ⟨hips,.inr fun peer' hpeer' hin => ?_⟩⟩
    rw [hpeer] at hpeer'
    cases hpeer'
    exact absurd hin hnot
  next hsubnet =>
  split at h
  · next hnode =>
    cases h
    exact ⟨_,rfl,hmanual,by rw [← hids],.inl ⟨hips,.inr fun _ _ _ => hnode⟩⟩
  next node hnode =>
  split at h
  · cases h
  · next ip hip =>
    cases h
    refine ⟨_,rfl,?_,?_,.inr ⟨peer,node,ip,hpeer,not_not.mp hsubnet,hnode,hip,fun ip' => ?_⟩⟩
    · rw [GossipableSubnet.setGossipableIP_manuallyGossipable]
      exact hmanual
    · rw [GossipableSubnet.setGossipableIP_gossipableIDs,← hids]
    · rw [GossipableSubnet.mem_setGossipableIP,← hips]

variable [Inhabited S]

@[simp] theorem mark_ip (t : IPTracker N S) (node : TrackedNode N S) (subnetID : Option S) :
    (t.mark node subnetID).ip = node.ip := by
  cases subnetID <;> rfl

theorem addTrackableID_records {subnetID : Option S}
    (h : t.addTrackableID P env nodeID subnetID = .ok t') :
    t'.connected = t.connected ∧ t'.subnets = t.subnets ∧
      ((∃ node, t.tracked.lookup nodeID = some node ∧
        t'.tracked = t.tracked.insert nodeID (t.mark node subnetID)) ∨
      (t.tracked.lookup nodeID = none ∧ t'.tracked = t.tracked.insert nodeID
        { t.mark ⟨false,∅,∅,none⟩ subnetID with
          ip := (t.connected.lookup nodeID).map ConnectedNode.ip })) := by
  unfold addTrackableID at h
  split at h
  · next node hnode =>
    cases h
    exact ⟨rfl,rfl,.inl ⟨node,hnode,rfl⟩⟩
  · next hnode =>
    dsimp only at h
    split at h
    · next hpeer =>
      cases h
      refine ⟨rfl,rfl,.inr ⟨hnode,?_⟩⟩
      rw [hpeer]
      cases subnetID <;> rfl
    · next peer hpeer =>
      obtain ⟨htracked,hconnected,hsubnets⟩ := updateMostRecentTrackedIP_records h
      refine ⟨hconnected,hsubnets,.inr ⟨hnode,?_⟩⟩
      rw [htracked,hpeer,Finmap.insert_insert]
      rfl

end

/-! ## The invariant -/

/-- The links between the maps, apart from the entries. `manual` are the nodes that are tracked
manually, `pending` the nodes that are about to become IDs of a subnet. -/
structure Consistent [DecidableEq S] (manual : N → Prop) (pending : S → N → Prop)
    (tracked : Finmap fun _ : N => TrackedNode N S)
    (connected : Finmap fun _ : N => ConnectedNode N S)
    (subnets : Finmap fun _ : S => GossipableSubnet N) : Prop where
  trackedID : ∀ n node ip, tracked.lookup n = some node → node.ip = some ip → ip.nodeID = n
  connectedID : ∀ n peer, connected.lookup n = some peer → peer.ip.nodeID = n
  known : ∀ n node peer, tracked.lookup n = some node → connected.lookup n = some peer →
    ∃ ip, node.ip = some ip
  validated : ∀ s n node, tracked.lookup n = some node → (s ∈ node.validatedSubnets ↔
    pending s n ∨ ∃ g, subnets.lookup s = some g ∧ n ∈ g.gossipableIDs)
  gossipable : ∀ s g n, subnets.lookup s = some g → n ∈ g.gossipableIDs →
    ∃ node, tracked.lookup n = some node
  nonempty : ∀ s g, subnets.lookup s = some g → g.gossipableIDs.Nonempty
  manualIDs : ∀ s g, subnets.lookup s = some g → g.manuallyGossipable ⊆ g.gossipableIDs
  flags : ∀ n node, tracked.lookup n = some node → (node.manuallyTracked = true ↔ manual n)
  manuallyTracked : ∀ n, manual n → ∃ node, tracked.lookup n = some node
  wanted : ∀ n node, tracked.lookup n = some node → node.canDelete = false

structure Shown [DecidableEq S] (skip : N → Prop)
    (tracked : Finmap fun _ : N => TrackedNode N S)
    (connected : Finmap fun _ : N => ConnectedNode N S)
    (subnets : Finmap fun _ : S => GossipableSubnet N) : Prop where
  entries : ∀ s g n, subnets.lookup s = some g → ¬ skip n → (g.Lists n ↔
    n ∈ g.gossipableIDs ∧ ∃ peer, connected.lookup n = some peer ∧ s ∈ peer.trackedSubnets)
  recorded : ∀ s g ip, subnets.lookup s = some g → ip ∈ g.gossipableIPs → ¬ skip ip.nodeID →
    ∃ node, tracked.lookup ip.nodeID = some node ∧ node.ip = some ip

/-- No timestamp goes back. -/
def Advances (tracked tracked' : Finmap fun _ : N => TrackedNode N S) : Prop :=
  ∀ n node node' ip, tracked.lookup n = some node → tracked'.lookup n = some node' →
    node.ip = some ip → ∃ ip', node'.ip = some ip' ∧ ip.timestamp ≤ ip'.timestamp

section
variable {tracked : Finmap fun _ : N => TrackedNode N S} {n : N} {node : TrackedNode N S}
  {ip : ClaimedIPPort N}

theorem Advances.refl (tracked : Finmap fun _ : N => TrackedNode N S) :
    Advances tracked tracked := by
  intro n node node' ip hnode hnode' hip
  rw [hnode] at hnode'
  cases hnode'
  exact ⟨ip,hip,UInt64.le_refl _⟩

theorem Advances.track (hsame : ∀ before, tracked.lookup n = some before → node.ip = before.ip) :
    Advances tracked (tracked.insert n node) := by
  intro n' before after known hbefore hafter hknown
  rw [lookup_insert_eq_ite] at hafter
  split at hafter
  · next heq =>
    subst heq
    cases hafter
    exact ⟨known,(hsame before hbefore).trans hknown,UInt64.le_refl _⟩
  · exact Advances.refl tracked n' before after known hbefore hafter hknown

theorem Advances.trans {tracked₁ tracked₂ : Finmap fun _ : N => TrackedNode N S}
    (h₁ : Advances tracked tracked₁) (h₂ : Advances tracked₁ tracked₂)
    (hkeep : ∀ n node, tracked.lookup n = some node → ∃ node₁, tracked₁.lookup n = some node₁) :
    Advances tracked tracked₂ := by
  intro n node node₂ ip hnode hnode₂ hip
  obtain ⟨node₁,hnode₁⟩ := hkeep n node hnode
  obtain ⟨ip₁,hip₁,hle₁⟩ := h₁ n node node₁ ip hnode hnode₁ hip
  obtain ⟨ip₂,hip₂,hle₂⟩ := h₂ n node₁ node₂ ip₁ hnode₁ hnode₂ hip₁
  exact ⟨ip₂,hip₂,UInt64.le_trans hle₁ hle₂⟩

theorem Advances.setIP (hnode : tracked.lookup n = some node)
    (hnewer : ∀ known, node.ip = some known → known.timestamp < ip.timestamp) :
    Advances tracked (tracked.insert n { node with ip := some ip }) := by
  intro n' before after known hbefore hafter hknown
  rw [lookup_insert_eq_ite] at hafter
  split at hafter
  · next heq =>
    subst heq
    rw [hnode] at hbefore
    cases hbefore
    cases hafter
    exact ⟨ip,rfl,UInt64.le_of_lt (hnewer known hknown)⟩
  · exact Advances.refl tracked n' before after known hbefore hafter hknown

end

section
variable [DecidableEq S] {manual : N → Prop} {pending : S → N → Prop} {skip : N → Prop}
  {tracked : Finmap fun _ : N => TrackedNode N S}
  {connected : Finmap fun _ : N => ConnectedNode N S}
  {subnets : Finmap fun _ : S => GossipableSubnet N} {n : N} {node : TrackedNode N S}
  {ip : ClaimedIPPort N} {peer : ConnectedNode N S}

/-! ## A newer IP -/

theorem Consistent.setIP (h : Consistent manual pending tracked connected subnets)
    (hnode : tracked.lookup n = some node) (hip : ip.nodeID = n) :
    Consistent manual pending (tracked.insert n { node with ip := some ip }) connected
      subnets := by
  -- every field but `ip` is as before
  have hold : ∀ n' node', (tracked.insert n { node with ip := some ip }).lookup n' = some node' →
      ∃ before, tracked.lookup n' = some before ∧
        node'.manuallyTracked = before.manuallyTracked ∧
        node'.validatedSubnets = before.validatedSubnets ∧
        ((n' = n ∧ node'.ip = some ip) ∨ node'.ip = before.ip) := by
    intro n' node' h'
    rw [lookup_insert_eq_ite] at h'
    split at h'
    · next heq =>
      cases h'
      exact ⟨node,heq ▸ hnode,rfl,rfl,.inl ⟨heq,rfl⟩⟩
    · exact ⟨node',h',rfl,rfl,.inr rfl⟩
  have hnew : ∀ n' node', tracked.lookup n' = some node' →
      ∃ after, (tracked.insert n { node with ip := some ip }).lookup n' = some after := by
    intro n' node' h'
    rw [lookup_insert_eq_ite]
    split
    · exact ⟨_,rfl⟩
    · exact ⟨node',h'⟩
  refine ⟨?_,h.connectedID,?_,?_,?_,h.nonempty,h.manualIDs,?_,?_,?_⟩
  · intro n' node' ip' h' hip'
    obtain ⟨before,hbefore,_,_,⟨rfl,hnow⟩ | hsame⟩ := hold n' node' h'
    · rw [hnow] at hip'
      cases hip'
      exact hip
    · exact h.trackedID n' before ip' hbefore (hsame ▸ hip')
  · intro n' node' peer' h' hpeer'
    obtain ⟨before,hbefore,_,_,⟨rfl,hnow⟩ | hsame⟩ := hold n' node' h'
    · exact ⟨ip,hnow⟩
    · rw [hsame]
      exact h.known n' before peer' hbefore hpeer'
  · intro s n' node' h'
    obtain ⟨before,hbefore,_,hsubnets,_⟩ := hold n' node' h'
    rw [hsubnets]
    exact h.validated s n' before hbefore
  · intro s g n' hg hin
    obtain ⟨before,hbefore⟩ := h.gossipable s g n' hg hin
    exact hnew n' before hbefore
  · intro n' node' h'
    obtain ⟨before,hbefore,hflag,_,_⟩ := hold n' node' h'
    rw [hflag]
    exact h.flags n' before hbefore
  · intro n' hmanual
    obtain ⟨before,hbefore⟩ := h.manuallyTracked n' hmanual
    exact hnew n' before hbefore
  · intro n' node' h'
    obtain ⟨before,hbefore,hflag,hsubnets,_⟩ := hold n' node' h'
    rw [TrackedNode.canDelete,hflag,hsubnets]
    exact h.wanted n' before hbefore

theorem Shown.setIP (h : Shown (fun _ => False) tracked connected subnets)
    (n : N) (node : TrackedNode N S) :
    Shown (· = n) (tracked.insert n node) connected subnets := by
  refine ⟨fun s g n' hg _ => h.entries s g n' hg id,fun s g ip' hg hin hskip => ?_⟩
  rw [lookup_insert_eq_ite,if_neg hskip]
  exact h.recorded s g ip' hg hin id

/-! ## Loops over subnets -/

/-- The IDs of a subnet, and those of them that `OnValidatorRemoved` passes over. -/
def idsOf (g : GossipableSubnet N) : Finset N × Finset N := (g.gossipableIDs,g.manuallyGossipable)

/-- The same IDs in every subnet, whatever the entries. -/
def SameIDs (subnets subnets' : Finmap fun _ : S => GossipableSubnet N) : Prop :=
  ∀ s, (subnets'.lookup s).map idsOf = (subnets.lookup s).map idsOf

section
variable {subnets' : Finmap fun _ : S => GossipableSubnet N}

theorem SameIDs.exists_lookup (h : SameIDs subnets subnets') {s : S} {g' : GossipableSubnet N}
    (hg' : subnets'.lookup s = some g') : ∃ g, subnets.lookup s = some g ∧ idsOf g = idsOf g' := by
  have hs := h s
  rw [hg',Option.map_some] at hs
  exact Option.map_eq_some_iff.mp hs.symm

theorem SameIDs.exists_iff (h : SameIDs subnets subnets') (p : Finset N × Finset N → Prop) (s : S) :
    (∃ g, subnets'.lookup s = some g ∧ p (idsOf g)) ↔
      ∃ g, subnets.lookup s = some g ∧ p (idsOf g) := by
  constructor
  · rintro ⟨g',hg',hp⟩
    obtain ⟨g,hg,heq⟩ := h.exists_lookup hg'
    exact ⟨g,hg,heq ▸ hp⟩
  · rintro ⟨g,hg,hp⟩
    obtain ⟨g',hg',heq⟩ := SameIDs.exists_lookup (fun s => (h s).symm) hg
    exact ⟨g',hg',heq ▸ hp⟩

theorem sameIDs_modifyAll {f : GossipableSubnet N → GossipableSubnet N}
    (hf : ∀ g, idsOf (f g) = idsOf g) {order : List S} (hnodup : order.Nodup) :
    SameIDs subnets (modifyAll f order subnets) := by
  intro s
  rw [lookup_modifyAll f hnodup]
  split
  · rw [Option.map_map]
    exact congrArg (Option.map · _) (funext hf)
  · rfl

theorem setGossipableIP_sameIDs {ip : Option (ClaimedIPPort N)} {order : List S}
    (h : setGossipableIP ip order subnets = .ok subnets') : SameIDs subnets subnets' := by
  induction order generalizing subnets with
  | nil =>
    cases h
    exact fun _ => rfl
  | cons s order ih =>
    rw [setGossipableIP] at h
    split at h
    · exact ih h
    next g hg =>
    split at h
    · cases h
    next ip' =>
    split at h
    · intro s'
      rw [ih h s',lookup_insert_eq_ite]
      split
      · next heq =>
        rw [heq,hg]
        exact congrArg some (Prod.ext (g.setGossipableIP_gossipableIDs ip')
          (g.setGossipableIP_manuallyGossipable ip'))
      · rfl
    · exact ih h

theorem Consistent.same (h : Consistent manual pending tracked connected subnets)
    (hsame : SameIDs subnets subnets') :
    Consistent manual pending tracked connected subnets' := by
  refine ⟨h.trackedID,h.connectedID,h.known,?_,?_,?_,?_,h.flags,h.manuallyTracked,h.wanted⟩
  · intro s n node hnode
    rw [h.validated s n node hnode]
    exact or_congr_right (hsame.exists_iff (fun ids => n ∈ ids.1) s).symm
  · intro s g' n hg' hin
    obtain ⟨g,hg,hin⟩ := (hsame.exists_iff (fun ids => n ∈ ids.1) s).mp ⟨g',hg',hin⟩
    exact h.gossipable s g n hg hin
  · intro s g' hg'
    obtain ⟨g,hg,heq⟩ := hsame.exists_lookup hg'
    have hids : g.gossipableIDs = g'.gossipableIDs := congrArg Prod.fst heq
    exact hids ▸ h.nonempty s g hg
  · intro s g' hg'
    obtain ⟨g,hg,heq⟩ := hsame.exists_lookup hg'
    obtain ⟨hids,hmanual⟩ := Prod.ext_iff.mp heq
    exact (hmanual ▸ hids ▸ h.manualIDs s g hg : (idsOf g').2 ⊆ (idsOf g').1)

end

/-- The loop brings the entries of the node up to date, if it had none outside the subnets that
its connection reported. -/
theorem Shown.gossip (h : Shown (· = ip.nodeID) tracked connected subnets)
    (hnode : tracked.lookup ip.nodeID = some node) (hip : node.ip = some ip)
    (hpeer : connected.lookup ip.nodeID = some peer)
    (hbound : ∀ s g, subnets.lookup s = some g → g.Lists ip.nodeID →
      ip.nodeID ∈ g.gossipableIDs ∧ s ∈ peer.trackedSubnets)
    {order : List S} (hnodup : order.Nodup) (horder : ∀ s, s ∈ order ↔ s ∈ peer.trackedSubnets) :
    Shown (fun _ => False) tracked connected (modifyAll
      (fun g => if ip.nodeID ∈ g.gossipableIDs then g.setGossipableIP ip else g) order subnets) := by
  -- a record either got the IP or has no entry of the node to get
  have hrecord : ∀ s g', (modifyAll (fun g => if ip.nodeID ∈ g.gossipableIDs then
      g.setGossipableIP ip else g) order subnets).lookup s = some g' → ∃ g,
      subnets.lookup s = some g ∧ ((g' = g.setGossipableIP ip ∧ ip.nodeID ∈ g.gossipableIDs ∧
        s ∈ peer.trackedSubnets) ∨
      (g' = g ∧ ¬ (ip.nodeID ∈ g.gossipableIDs ∧ s ∈ peer.trackedSubnets))) := by
    intro s g' hg'
    rw [lookup_modifyAll _ hnodup] at hg'
    split at hg'
    · next hs =>
      obtain ⟨g,hg,rfl⟩ := Option.map_eq_some_iff.mp hg'
      refine ⟨g,hg,?_⟩
      split
      · next hin => exact .inl ⟨rfl,hin,(horder s).mp hs⟩
      · next hout => exact .inr ⟨rfl,fun hboth => hout hboth.1⟩
    · next hs => exact ⟨g',hg',.inr ⟨rfl,fun hboth => hs ((horder s).mpr hboth.2)⟩⟩
  refine ⟨fun s g' n hg' _ => ?_,fun s g' ip' hg' hin _ => ?_⟩
  · obtain ⟨g,hg,⟨rfl,hid,hs⟩ | ⟨rfl,hnone⟩⟩ := hrecord s g' hg'
    · rw [GossipableSubnet.lists_setGossipableIP,GossipableSubnet.setGossipableIP_gossipableIDs]
      by_cases hn : n = ip.nodeID
      · subst hn
        exact iff_of_true (.inl rfl) ⟨hid,peer,hpeer,hs⟩
      · rw [h.entries s g n hg hn]
        exact ⟨fun hor => hor.resolve_left hn,.inr⟩
    · by_cases hn : n = ip.nodeID
      · subst hn
        refine iff_of_false (fun hlists => hnone (hbound s g' hg hlists)) ?_
        rintro ⟨hid,peer',hpeer',hs⟩
        rw [hpeer] at hpeer'
        cases hpeer'
        exact hnone ⟨hid,hs⟩
      · exact h.entries s g' n hg hn
  · obtain ⟨g,hg,⟨rfl,hid,hs⟩ | ⟨rfl,hnone⟩⟩ := hrecord s g' hg'
    · rcases (GossipableSubnet.mem_setGossipableIP g ip ip').mp hin with rfl | ⟨hin,hne⟩
      · exact ⟨node,hnode,hip⟩
      · exact h.recorded s g ip' hg hin hne
    · by_cases hn : ip'.nodeID = ip.nodeID
      · exact absurd (hbound s g' hg ⟨ip',hin,hn⟩) hnone
      · exact h.recorded s g' ip' hg hin hn

theorem Shown.disconnect (h : Shown (fun _ => False) tracked connected subnets)
    (hpeer : connected.lookup n = some peer) {order : List S} (hnodup : order.Nodup)
    (horder : ∀ s, s ∈ order ↔ s ∈ peer.trackedSubnets) :
    Shown (fun _ => False) tracked (connected.erase n)
      (modifyAll (·.removeGossipableIP n) order subnets) := by
  have hrecord : ∀ s g', (modifyAll (·.removeGossipableIP n) order subnets).lookup s = some g' →
      ∃ g, subnets.lookup s = some g ∧ g'.gossipableIDs = g.gossipableIDs ∧
        ∀ ip', ip' ∈ g'.gossipableIPs ↔ ip' ∈ g.gossipableIPs ∧ ip'.nodeID ≠ n := by
    intro s g' hg'
    rw [lookup_modifyAll _ hnodup] at hg'
    split at hg'
    · obtain ⟨g,hg,rfl⟩ := Option.map_eq_some_iff.mp hg'
      exact ⟨g,hg,g.removeGossipableIP_gossipableIDs n,fun ip' => g.mem_removeGossipableIP ip' n⟩
    · next hs =>
      -- the connection did not report the subnet, so the node has no entry in it
      refine ⟨g',hg',rfl,fun ip' => ⟨fun hin => ⟨hin,?_⟩,And.left⟩⟩
      rintro rfl
      obtain ⟨_,peer',hpeer',hs'⟩ := (h.entries s g' ip'.nodeID hg' id).mp ⟨ip',hin,rfl⟩
      rw [hpeer] at hpeer'
      cases hpeer'
      exact hs ((horder s).mpr hs')
  refine ⟨fun s g' n' hg' _ => ?_,fun s g' ip' hg' hin _ => ?_⟩
  · obtain ⟨g,hg,hids,hips⟩ := hrecord s g' hg'
    rw [GossipableSubnet.lists_of_removed hips,h.entries s g n' hg id,hids,lookup_erase_eq_ite]
    by_cases hn : n' = n
    · simp [hn]
    · simp [hn]
  · obtain ⟨g,hg,_,hips⟩ := hrecord s g' hg'
    exact h.recorded s g ip' hg ((hips ip').mp hin).1 id

theorem Consistent.disconnect (h : Consistent manual pending tracked connected subnets)
    (n : N) : Consistent manual pending tracked (connected.erase n) subnets := by
  have hold : ∀ n' peer', (connected.erase n).lookup n' = some peer' →
      connected.lookup n' = some peer' := by
    intro n' peer' hpeer'
    rw [lookup_erase_eq_ite] at hpeer'
    split at hpeer'
    · cases hpeer'
    · exact hpeer'
  exact ⟨h.trackedID,fun n' peer' hpeer' => h.connectedID n' peer' (hold n' peer' hpeer'),
    fun n' node peer' hnode hpeer' => h.known n' node peer' hnode (hold n' peer' hpeer'),
    h.validated,h.gossipable,h.nonempty,h.manualIDs,h.flags,h.manuallyTracked,h.wanted⟩

/-! ## A new connection -/

theorem Consistent.connect (h : Consistent manual pending tracked connected subnets)
    (hip : peer.ip.nodeID = n)
    (hknown : ∀ node, tracked.lookup n = some node → ∃ ip, node.ip = some ip) :
    Consistent manual pending tracked (connected.insert n peer) subnets := by
  refine ⟨h.trackedID,?_,?_,h.validated,h.gossipable,h.nonempty,h.manualIDs,h.flags,
    h.manuallyTracked,h.wanted⟩
  · intro n' peer' hpeer'
    rw [lookup_insert_eq_ite] at hpeer'
    split at hpeer'
    · next heq =>
      cases hpeer'
      exact hip.trans heq.symm
    · exact h.connectedID n' peer' hpeer'
  · intro n' node' peer' hnode' hpeer'
    rw [lookup_insert_eq_ite] at hpeer'
    split at hpeer'
    · next heq => exact hknown node' (heq ▸ hnode')
    · exact h.known n' node' peer' hnode' hpeer'

theorem Shown.connect (h : Shown skip tracked connected subnets)
    (hskip : ∀ n', skip n' → n' = n) (peer : ConnectedNode N S) :
    Shown (· = n) tracked (connected.insert n peer) subnets := by
  refine ⟨fun s g n' hg hn => ?_,
    fun s g ip' hg hin hn => h.recorded s g ip' hg hin fun hs => hn (hskip _ hs)⟩
  rw [lookup_insert_eq_ite,if_neg hn]
  exact h.entries s g n' hg fun hs => hn (hskip _ hs)

theorem Shown.unskip (h : Shown (· = n) tracked connected subnets)
    (hlists : ∀ s g, subnets.lookup s = some g → ¬ g.Lists n)
    (hout : ∀ s g, subnets.lookup s = some g → ¬ (n ∈ g.gossipableIDs ∧
      ∃ peer, connected.lookup n = some peer ∧ s ∈ peer.trackedSubnets)) :
    Shown (fun _ => False) tracked connected subnets := by
  refine ⟨fun s g n' hg _ => ?_,fun s g ip' hg hin _ => ?_⟩
  · by_cases hn : n' = n
    · subst hn
      exact iff_of_false (hlists s g hg) (hout s g hg)
    · exact h.entries s g n' hg hn
  · by_cases hn : ip'.nodeID = n
    · exact absurd ⟨ip',hin,hn⟩ (hlists s g hg)
    · exact h.recorded s g ip' hg hin hn

/-! ## A node to be tracked -/

theorem Consistent.track {manual' : N → Prop} {pending' : S → N → Prop} {subnetID : Option S}
    (h : Consistent manual (fun _ _ => False) tracked connected subnets)
    (hmanual : ∀ n', manual' n' ↔ manual n' ∨ (subnetID = none ∧ n' = n))
    (hpending : ∀ s n', pending' s n' ↔ subnetID = some s ∧ n' = n)
    (hID : ∀ ip, node.ip = some ip → ip.nodeID = n)
    (hknown : ∀ peer, connected.lookup n = some peer → ∃ ip, node.ip = some ip)
    (hvalidated : ∀ s, s ∈ node.validatedSubnets ↔ subnetID = some s ∨
      ∃ g, subnets.lookup s = some g ∧ n ∈ g.gossipableIDs)
    (hflag : node.manuallyTracked = true ↔ manual n ∨ subnetID = none) :
    Consistent manual' pending' (tracked.insert n node) connected subnets := by
  have hcases : ∀ n' node', (tracked.insert n node).lookup n' = some node' →
      (n' = n ∧ node' = node) ∨ (n' ≠ n ∧ tracked.lookup n' = some node') := by
    intro n' node' h'
    rw [lookup_insert_eq_ite] at h'
    split at h'
    · next heq => exact .inl ⟨heq,(Option.some.inj h').symm⟩
    · next hne => exact .inr ⟨hne,h'⟩
  have hthere : ∀ n', (n' = n ∨ ∃ node', tracked.lookup n' = some node') →
      ∃ node', (tracked.insert n node).lookup n' = some node' := by
    intro n' hor
    rw [lookup_insert_eq_ite]
    split
    · exact ⟨node,rfl⟩
    · next hne => exact hor.resolve_left hne
  refine ⟨?_,h.connectedID,?_,?_,?_,h.nonempty,h.manualIDs,?_,?_,?_⟩
  · intro n' node' ip' h' hip'
    obtain ⟨rfl,rfl⟩ | ⟨_,h'⟩ := hcases n' node' h'
    · exact hID ip' hip'
    · exact h.trackedID n' node' ip' h' hip'
  · intro n' node' peer' h' hpeer'
    obtain ⟨rfl,rfl⟩ | ⟨_,h'⟩ := hcases n' node' h'
    · exact hknown peer' hpeer'
    · exact h.known n' node' peer' h' hpeer'
  · intro s n' node' h'
    rw [hpending]
    obtain ⟨rfl,rfl⟩ | ⟨hne,h'⟩ := hcases n' node' h'
    · rw [hvalidated,and_iff_left rfl]
    · rw [h.validated s n' node' h']
      simp [hne]
  · intro s g n' hg hin
    exact hthere n' (.inr (h.gossipable s g n' hg hin))
  · intro n' node' h'
    rw [hmanual]
    obtain ⟨rfl,rfl⟩ | ⟨hne,h'⟩ := hcases n' node' h'
    · rw [hflag,and_iff_left rfl]
    · rw [h.flags n' node' h']
      simp [hne]
  · intro n' hm
    rcases (hmanual n').mp hm with hold | ⟨_,heq⟩
    · exact hthere n' (.inr (h.manuallyTracked n' hold))
    · exact hthere n' (.inl heq)
  · intro n' node' h'
    obtain ⟨rfl,rfl⟩ | ⟨_,h'⟩ := hcases n' node' h'
    · unfold TrackedNode.canDelete
      cases subnetID with
      | none => rw [hflag.mpr (.inr rfl)]; rfl
      | some s =>
        have hin := (hvalidated s).mpr (.inl rfl)
        simp [Finset.nonempty_iff_ne_empty.mp ⟨s,hin⟩]
    · exact h.wanted n' node' h'

theorem Shown.track (h : Shown (fun _ => False) tracked connected subnets)
    (hsame : ∀ before, tracked.lookup n = some before → node.ip = before.ip) :
    Shown (fun _ => False) (tracked.insert n node) connected subnets := by
  refine ⟨h.entries,fun s g ip' hg hin _ => ?_⟩
  obtain ⟨before,hbefore,hip⟩ := h.recorded s g ip' hg hin id
  rw [lookup_insert_eq_ite]
  split
  · next heq =>
    rw [heq] at hbefore
    exact ⟨node,rfl,(hsame before hbefore).trans hip⟩
  · exact ⟨before,hbefore,hip⟩

/-! ## An ID of a subnet -/

section
variable {t : IPTracker N S} {n : N} {s : S} {manually : Bool} {g' : GossipableSubnet N}
  {subnets : Finmap fun _ : S => GossipableSubnet N}

theorem Gossiped.mem_ids (h : Gossiped t n s manually ((subnets.lookup s).getD .empty) g') (n' : N) :
    n' ∈ g'.gossipableIDs ↔ n' = n ∨ ∃ g, subnets.lookup s = some g ∧ n' ∈ g.gossipableIDs := by
  rw [h.ids,Finset.mem_insert]
  refine or_congr_right ?_
  cases hs : subnets.lookup s with
  | none => simp [GossipableSubnet.empty]
  | some g => simp

theorem Gossiped.mem_manual (h : Gossiped t n s manually ((subnets.lookup s).getD .empty) g')
    (n' : N) : n' ∈ g'.manuallyGossipable ↔ (manually = true ∧ n' = n) ∨
      ∃ g, subnets.lookup s = some g ∧ n' ∈ g.manuallyGossipable := by
  have hold : n' ∈ ((subnets.lookup s).getD .empty).manuallyGossipable ↔
      ∃ g, subnets.lookup s = some g ∧ n' ∈ g.manuallyGossipable := by
    cases hs : subnets.lookup s with
    | none => simp [GossipableSubnet.empty]
    | some g => simp
  rw [h.manual,← hold]
  cases manually with
  | true => simp
  | false => simp

end

theorem Consistent.addID {s : S} {manually : Bool}
    {g' : GossipableSubnet N} {t : IPTracker N S}
    (h : Consistent manual pending tracked connected subnets)
    (hpending : ∀ s' n', pending s' n' ↔ s' = s ∧ n' = n)
    (hnode : tracked.lookup n = some node)
    (hg' : Gossiped t n s manually ((subnets.lookup s).getD .empty) g') :
    Consistent manual (fun _ _ => False) tracked connected (subnets.insert s g') := by
  have hids := hg'.mem_ids
  have hmanual := hg'.mem_manual
  have hcases : ∀ s' g₀, (subnets.insert s g').lookup s' = some g₀ →
      (s' = s ∧ g₀ = g') ∨ (s' ≠ s ∧ subnets.lookup s' = some g₀) := by
    intro s' g₀ h'
    rw [lookup_insert_eq_ite] at h'
    split at h'
    · next heq => exact .inl ⟨heq,(Option.some.inj h').symm⟩
    · next hne => exact .inr ⟨hne,h'⟩
  refine ⟨h.trackedID,h.connectedID,h.known,?_,?_,?_,?_,h.flags,h.manuallyTracked,h.wanted⟩
  · intro s' n' node' hnode'
    rw [h.validated s' n' node' hnode',hpending,false_or,lookup_insert_eq_ite]
    by_cases hs : s' = s
    · subst hs
      simp [hids]
    · simp [hs]
  · intro s' g₀ n' hg₀ hin
    obtain ⟨rfl,rfl⟩ | ⟨_,hold⟩ := hcases s' g₀ hg₀
    · rcases (hids n').mp hin with rfl | ⟨g,hg,hin⟩
      · exact ⟨node,hnode⟩
      · exact h.gossipable s' g n' hg hin
    · exact h.gossipable s' g₀ n' hold hin
  · intro s' g₀ hg₀
    obtain ⟨rfl,rfl⟩ | ⟨_,hold⟩ := hcases s' g₀ hg₀
    · exact ⟨n,(hids n).mpr (.inl rfl)⟩
    · exact h.nonempty s' g₀ hold
  · intro s' g₀ hg₀ n' hin
    obtain ⟨rfl,rfl⟩ | ⟨_,hold⟩ := hcases s' g₀ hg₀
    · rcases (hmanual n').mp hin with ⟨_,rfl⟩ | ⟨g,hg,hin⟩
      · exact (hids n').mpr (.inl rfl)
      · exact (hids n').mpr (.inr ⟨g,hg,h.manualIDs s' g hg hin⟩)
    · exact h.manualIDs s' g₀ hold hin

theorem Shown.addID {s : S} {manually : Bool} {g' : GossipableSubnet N} {t : IPTracker N S}
    (h : Shown (fun _ => False) t.tracked t.connected t.subnets)
    (hc : Consistent manual pending t.tracked t.connected t.subnets)
    (hnode : t.tracked.lookup n = some node)
    (hg' : Gossiped t n s manually ((t.subnets.lookup s).getD .empty) g') :
    Shown (fun _ => False) t.tracked t.connected (t.subnets.insert s g') := by
  -- the record before, a new one included
  have hentries : ∀ n', ((t.subnets.lookup s).getD .empty).Lists n' ↔
      n' ∈ ((t.subnets.lookup s).getD .empty).gossipableIDs ∧
        ∃ peer, t.connected.lookup n' = some peer ∧ s ∈ peer.trackedSubnets := by
    intro n'
    cases hs : t.subnets.lookup s with
    | none => simp [GossipableSubnet.empty,GossipableSubnet.Lists]
    | some g => exact h.entries s g n' hs id
  have hrecorded : ∀ ip' ∈ ((t.subnets.lookup s).getD .empty).gossipableIPs,
      ∃ node, t.tracked.lookup ip'.nodeID = some node ∧ node.ip = some ip' := by
    intro ip' hin
    cases hs : t.subnets.lookup s with
    | none =>
      rw [hs] at hin
      cases hin
    | some g =>
      rw [hs] at hin
      exact h.recorded s g ip' hs hin id
  generalize (t.subnets.lookup s).getD .empty = g at hg' hentries hrecorded
  refine ⟨fun s' g₀ n' hg₀ _ => ?_,fun s' g₀ ip' hg₀ hin _ => ?_⟩
  · rw [lookup_insert_eq_ite] at hg₀
    split at hg₀
    · next heq =>
      cases hg₀
      subst heq
      rw [hg'.ids,Finset.mem_insert]
      rcases hg'.ips with ⟨hips,hwhy⟩ | ⟨peer,node',ip,hpeer,hs,hnode',hip,hips⟩
      · have hlists : g'.Lists n' ↔ g.Lists n' := by
          rw [GossipableSubnet.Lists,hips]
          rfl
        rw [hlists,hentries]
        refine ⟨fun hboth => ⟨.inr hboth.1,hboth.2⟩,?_⟩
        rintro ⟨rfl | hid,peer,hpeer,hs⟩
        · refine ⟨hwhy.resolve_right fun hnone => ?_,peer,hpeer,hs⟩
          rw [hnone peer hpeer hs] at hnode
          cases hnode
        · exact ⟨hid,peer,hpeer,hs⟩
      · have hn := hc.trackedID n node' ip hnode' hip
        rw [GossipableSubnet.lists_of_put hips,hn,hentries]
        constructor
        · rintro (rfl | ⟨hid,hboth⟩)
          · exact ⟨.inl rfl,peer,hpeer,hs⟩
          · exact ⟨.inr hid,hboth⟩
        · rintro ⟨rfl | hid,hboth⟩
          · exact .inl rfl
          · exact .inr ⟨hid,hboth⟩
    · exact h.entries s' g₀ n' hg₀ id
  · rw [lookup_insert_eq_ite] at hg₀
    split at hg₀
    · cases hg₀
      rcases hg'.ips with ⟨hips,_⟩ | ⟨peer,node',ip,hpeer,hs,hnode',hip,hips⟩
      · exact hrecorded ip' (hips ▸ hin)
      · rcases (hips ip').mp hin with rfl | ⟨hin,_⟩
        · rw [hc.trackedID n node' ip' hnode' hip]
          exact ⟨node',hnode',hip⟩
        · exact hrecorded ip' hin
    · exact h.recorded s' g₀ ip' hg₀ hin id

/-! ## A validator that goes -/

/-- The maps after `OnValidatorRemoved`: the record of the subnet without the node, if it has
another ID, and the node without the subnet, if it is still wanted. -/
structure Removed (n : N) (s : S) (g : GossipableSubnet N)
    (tracked tracked' : Finmap fun _ : N => TrackedNode N S)
    (subnets subnets' : Finmap fun _ : S => GossipableSubnet N) : Prop where
  others : ∀ s', s' ≠ s → subnets'.lookup s' = subnets.lookup s'
  record : ∀ g', subnets'.lookup s = some g' →
    g'.gossipableIDs = g.gossipableIDs.erase n ∧ g'.manuallyGossipable = g.manuallyGossipable ∧
      g'.gossipableIDs.Nonempty ∧
      ∀ ip, ip ∈ g'.gossipableIPs ↔ ip ∈ g.gossipableIPs ∧ ip.nodeID ≠ n
  stays : (g.gossipableIDs.erase n).Nonempty → ∃ g', subnets'.lookup s = some g'
  otherNodes : ∀ n', n' ≠ n → tracked'.lookup n' = tracked.lookup n'
  node : ∀ node', tracked'.lookup n = some node' → ∃ node, tracked.lookup n = some node ∧
    node'.ip = node.ip ∧ node'.manuallyTracked = node.manuallyTracked ∧
    node'.validatedSubnets = node.validatedSubnets.erase s ∧ node'.canDelete = false
  nodeStays : ∀ node, tracked.lookup n = some node →
    (node.manuallyTracked = true ∨ (node.validatedSubnets.erase s).Nonempty) →
    ∃ node', tracked'.lookup n = some node'

theorem onValidatorRemoved_removed (t : IPTracker N S) {s : S} {g : GossipableSubnet N}
    (hg : t.subnets.lookup s = some g) (hn : n ∉ g.manuallyGossipable) :
    (t.onValidatorRemoved s n).connected = t.connected ∧
      Removed n s g t.tracked (t.onValidatorRemoved s n).tracked t.subnets
        (t.onValidatorRemoved s n).subnets := by
  unfold onValidatorRemoved
  rw [hg]
  dsimp only
  rw [if_neg hn]
  refine ⟨rfl,?_,?_,?_,?_,?_,?_⟩
  · intro s' hs'
    dsimp only
    split
    · rw [Finmap.lookup_erase_ne hs']
    · rw [Finmap.lookup_insert_of_ne _ hs']
  · intro g' hg'
    dsimp only at hg'
    split at hg'
    · rw [Finmap.lookup_erase] at hg'
      cases hg'
    · next hdelete =>
      rw [Finmap.lookup_insert] at hg'
      cases hg'
      rw [GossipableSubnet.removeGossipableIP_gossipableIDs,
        GossipableSubnet.removeGossipableIP_manuallyGossipable]
      refine ⟨rfl,rfl,?_,fun ip => GossipableSubnet.mem_removeGossipableIP _ ip n⟩
      rw [GossipableSubnet.canDelete,GossipableSubnet.removeGossipableIP_gossipableIDs] at hdelete
      exact Finset.card_ne_zero.mp fun hzero => hdelete (decide_eq_true hzero)
  · intro hne
    dsimp only
    rw [if_neg]
    · exact ⟨_,Finmap.lookup_insert _⟩
    · rw [GossipableSubnet.canDelete,GossipableSubnet.removeGossipableIP_gossipableIDs]
      simpa using Finset.nonempty_iff_ne_empty.mp hne
  · intro n' hn'
    dsimp only
    unfold untrack
    split
    · rfl
    · dsimp only
      split
      · rw [Finmap.lookup_erase_ne hn']
      · rw [Finmap.lookup_insert_of_ne _ hn']
  · intro node' hnode'
    dsimp only at hnode'
    unfold untrack at hnode'
    split at hnode'
    · next hnone =>
      rw [hnone] at hnode'
      cases hnode'
    · next node hnode =>
      dsimp only at hnode'
      split at hnode'
      · rw [Finmap.lookup_erase] at hnode'
        cases hnode'
      · next hdelete =>
        rw [Finmap.lookup_insert] at hnode'
        cases hnode'
        exact ⟨node,hnode,rfl,rfl,rfl,by simpa using hdelete⟩
  · intro node hnode hwanted
    dsimp only
    unfold untrack
    rw [hnode]
    dsimp only
    rw [if_neg]
    · exact ⟨_,Finmap.lookup_insert _⟩
    · rw [TrackedNode.canDelete]
      rcases hwanted with hflag | hne
      · simp [hflag]
      · simp [Finset.nonempty_iff_ne_empty.mp hne]

section
variable {s : S} {g : GossipableSubnet N} {tracked' : Finmap fun _ : N => TrackedNode N S}
  {subnets' : Finmap fun _ : S => GossipableSubnet N}

theorem Removed.mem_ids (hr : Removed n s g tracked tracked' subnets subnets')
    (hg : subnets.lookup s = some g) (s' : S) (n' : N) :
    (∃ g', subnets'.lookup s' = some g' ∧ n' ∈ g'.gossipableIDs) ↔
      (∃ g', subnets.lookup s' = some g' ∧ n' ∈ g'.gossipableIDs) ∧ ¬ (s' = s ∧ n' = n) := by
  by_cases hs : s' = s
  · subst hs
    constructor
    · rintro ⟨g',hg',hin⟩
      rw [(hr.record g' hg').1,Finset.mem_erase] at hin
      exact ⟨⟨g,hg,hin.2⟩,fun heq => hin.1 heq.2⟩
    · rintro ⟨⟨g₀,hg₀,hin⟩,hne⟩
      rw [hg] at hg₀
      cases hg₀
      have herase : n' ∈ g.gossipableIDs.erase n :=
        Finset.mem_erase.mpr ⟨fun heq => hne ⟨rfl,heq⟩,hin⟩
      obtain ⟨g',hg'⟩ := hr.stays ⟨n',herase⟩
      exact ⟨g',hg',(hr.record g' hg').1 ▸ herase⟩
  · rw [hr.others s' hs]
    simp [hs]

theorem Removed.mem_manual (hr : Removed n s g tracked tracked' subnets subnets')
    (hg : subnets.lookup s = some g) (hn : n ∉ g.manuallyGossipable)
    (hmanual : g.manuallyGossipable ⊆ g.gossipableIDs) (s' : S) (n' : N) :
    (∃ g', subnets'.lookup s' = some g' ∧ n' ∈ g'.manuallyGossipable) ↔
      ∃ g', subnets.lookup s' = some g' ∧ n' ∈ g'.manuallyGossipable := by
  by_cases hs : s' = s
  · subst hs
    constructor
    · rintro ⟨g',hg',hin⟩
      exact ⟨g,hg,(hr.record g' hg').2.1 ▸ hin⟩
    · rintro ⟨g₀,hg₀,hin⟩
      rw [hg] at hg₀
      cases hg₀
      have hne : n' ≠ n := fun heq => hn (heq ▸ hin)
      obtain ⟨g',hg'⟩ := hr.stays ⟨n',Finset.mem_erase.mpr ⟨hne,hmanual hin⟩⟩
      exact ⟨g',hg',(hr.record g' hg').2.1.symm ▸ hin⟩
  · rw [hr.others s' hs]

theorem Consistent.remove (h : Consistent manual (fun _ _ => False) tracked connected
      subnets) (hr : Removed n s g tracked tracked' subnets subnets')
    (hg : subnets.lookup s = some g) (hn : n ∉ g.manuallyGossipable) :
    Consistent manual (fun _ _ => False) tracked' connected subnets' := by
  have hback : ∀ n' node', tracked'.lookup n' = some node' → ∃ before,
      tracked.lookup n' = some before ∧ node'.ip = before.ip ∧
      node'.manuallyTracked = before.manuallyTracked ∧
      (∀ s', s' ∈ node'.validatedSubnets ↔ s' ∈ before.validatedSubnets ∧ ¬ (s' = s ∧ n' = n)) ∧
      node'.canDelete = false := by
    intro n' node' hnode'
    by_cases heq : n' = n
    · subst heq
      obtain ⟨before,hbefore,hip,hflag,hsubnets,hdelete⟩ := hr.node node' hnode'
      refine ⟨before,hbefore,hip,hflag,fun s' => ?_,hdelete⟩
      rw [hsubnets,Finset.mem_erase,and_iff_left rfl,and_comm]
    · rw [hr.otherNodes n' heq] at hnode'
      exact ⟨node',hnode',rfl,rfl,fun s' => by simp [heq],h.wanted n' node' hnode'⟩
  have hforth : ∀ n' before, tracked.lookup n' = some before → (before.manuallyTracked = true ∨
      ∃ s' g', subnets'.lookup s' = some g' ∧ n' ∈ g'.gossipableIDs) →
      ∃ node', tracked'.lookup n' = some node' := by
    intro n' before hbefore hor
    by_cases heq : n' = n
    · subst heq
      refine hr.nodeStays before hbefore (hor.imp id ?_)
      rintro ⟨s',hin⟩
      obtain ⟨hin,hne⟩ := (hr.mem_ids hg s' n').mp hin
      have hvalidated := (h.validated s' n' before hbefore).mpr (.inr hin)
      exact ⟨s',Finset.mem_erase.mpr ⟨fun hs => hne ⟨hs,rfl⟩,hvalidated⟩⟩
    · exact ⟨before,by rw [hr.otherNodes n' heq,hbefore]⟩
  refine ⟨?_,h.connectedID,?_,?_,?_,?_,?_,?_,?_,?_⟩
  · intro n' node' ip' hnode' hip'
    obtain ⟨before,hbefore,hip,_⟩ := hback n' node' hnode'
    exact h.trackedID n' before ip' hbefore (hip ▸ hip')
  · intro n' node' peer' hnode' hpeer'
    obtain ⟨before,hbefore,hip,_⟩ := hback n' node' hnode'
    rw [hip]
    exact h.known n' before peer' hbefore hpeer'
  · intro s' n' node' hnode'
    obtain ⟨before,hbefore,_,_,hsubnets,_⟩ := hback n' node' hnode'
    rw [hsubnets,h.validated s' n' before hbefore,false_or,false_or,hr.mem_ids hg]
  · intro s' g' n' hg' hin
    obtain ⟨⟨g₀,hg₀,hin₀⟩,_⟩ := (hr.mem_ids hg s' n').mp ⟨g',hg',hin⟩
    obtain ⟨before,hbefore⟩ := h.gossipable s' g₀ n' hg₀ hin₀
    exact hforth n' before hbefore (.inr ⟨s',g',hg',hin⟩)
  · intro s' g' hg'
    by_cases hs : s' = s
    · subst hs
      exact (hr.record g' hg').2.2.1
    · exact h.nonempty s' g' (by rw [← hr.others s' hs,hg'])
  · intro s' g' hg' n' hin
    by_cases hs : s' = s
    · subst hs
      obtain ⟨hids,hmanual,_,_⟩ := hr.record g' hg'
      rw [hmanual] at hin
      rw [hids,Finset.mem_erase]
      exact ⟨fun heq => hn (heq ▸ hin),h.manualIDs s' g hg hin⟩
    · exact h.manualIDs s' g' (by rw [← hr.others s' hs,hg']) hin
  · intro n' node' hnode'
    obtain ⟨before,hbefore,_,hflag,_⟩ := hback n' node' hnode'
    rw [hflag]
    exact h.flags n' before hbefore
  · intro n' hm
    obtain ⟨before,hbefore⟩ := h.manuallyTracked n' hm
    exact hforth n' before hbefore (.inl ((h.flags n' before hbefore).mpr hm))
  · intro n' node' hnode'
    obtain ⟨_,_,_,_,_,hdelete⟩ := hback n' node' hnode'
    exact hdelete

theorem Shown.remove (h : Shown (fun _ => False) tracked connected subnets)
    (hc : Consistent manual (fun _ _ => False) tracked' connected subnets')
    (hr : Removed n s g tracked tracked' subnets subnets') (hg : subnets.lookup s = some g) :
    Shown (fun _ => False) tracked' connected subnets' := by
  have hentries : ∀ s' g' n', subnets'.lookup s' = some g' → (g'.Lists n' ↔
      n' ∈ g'.gossipableIDs ∧
        ∃ peer, connected.lookup n' = some peer ∧ s' ∈ peer.trackedSubnets) := by
    intro s' g' n' hg'
    by_cases hs : s' = s
    · subst hs
      obtain ⟨hids,_,_,hips⟩ := hr.record g' hg'
      rw [GossipableSubnet.lists_of_removed hips,h.entries s' g n' hg id,hids,Finset.mem_erase]
      tauto
    · exact h.entries s' g' n' (by rw [← hr.others s' hs,hg']) id
  refine ⟨fun s' g' n' hg' _ => hentries s' g' n' hg',fun s' g' ip' hg' hin _ => ?_⟩
  -- a node with an entry is an ID of the subnet, so it is still tracked, with the same IP
  have hid := ((hentries s' g' ip'.nodeID hg').mp ⟨ip',hin,rfl⟩).1
  obtain ⟨node',hnode'⟩ := hc.gossipable s' g' ip'.nodeID hg' hid
  have hbefore : ∃ before, tracked.lookup ip'.nodeID = some before ∧ before.ip = some ip' := by
    by_cases hs : s' = s
    · subst hs
      exact h.recorded s' g ip' hg (((hr.record g' hg').2.2.2 ip').mp hin).1 id
    · exact h.recorded s' g' ip' (by rw [← hr.others s' hs,hg']) hin id
  obtain ⟨before,hbefore,hip⟩ := hbefore
  refine ⟨node',hnode',?_⟩
  by_cases heq : ip'.nodeID = n
  · rw [heq] at hnode' hbefore
    obtain ⟨node,hnode,hsame,_⟩ := hr.node node' hnode'
    rw [hnode] at hbefore
    cases hbefore
    exact hsame.trans hip
  · rw [hr.otherNodes _ heq,hbefore] at hnode'
    cases hnode'
    exact hip

theorem Advances.remove (hr : Removed n s g tracked tracked' subnets subnets') :
    Advances tracked tracked' := by
  intro n' before after ip' hbefore hafter hip
  by_cases heq : n' = n
  · subst heq
    obtain ⟨node,hnode,hsame,_⟩ := hr.node after hafter
    rw [hnode] at hbefore
    cases hbefore
    exact ⟨ip',hsame.trans hip,UInt64.le_refl _⟩
  · rw [hr.otherNodes n' heq] at hafter
    exact Advances.refl tracked n' before after ip' hbefore hafter hip

end
end
end Landslide.Net.IPTracker
