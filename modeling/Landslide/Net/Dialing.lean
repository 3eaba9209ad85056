import Landslide.Net.ConnectionRuns

/-! # Dials

A dial that was not stopped is the one that is tracked for its node, so no node is dialed twice
at a time, and a connected node is not dialed at all. A node that is tracked and has no peer is
being dialed, unless its dial got a connection to another node or one that is not allowed.
-/
namespace Landslide.Net
variable {N S A : Type} [DecidableEq N]

namespace Connections

/-- Why the dial of a tracked node may have ended. -/
def MayEnd (s : Connections N S A) (nodeID : N) : Exit N → Prop
  | .stopped => s.closing = true
  | .unwanted => False
  | .busy => (s.connectingPeers.lookup nodeID).isSome
  | .dropped => True
  | .upgraded m _ => m = nodeID → s.closing = true ∨ (s.connectingPeers.lookup nodeID).isSome

structure Dialing (s : Connections N S A) : Prop where
  entry : ∀ n d, s.trackedIPs.lookup n = some d →
    d < s.dialed ∧ (s.dials d).nodeID = n ∧ (s.dials d).stopped = false
  tracked : ∀ d < s.dialed, (s.dials d).stopped = false →
    s.trackedIPs.lookup (s.dials d).nodeID = some d
  connected : ∀ n, (s.connectedPeers.lookup n).isSome → s.trackedIPs.lookup n = none
  ended : ∀ d < s.dialed, (s.dials d).stopped = false → ∀ why, (s.dials d).place = .exited why →
    s.MayEnd (s.dials d).nodeID why

section
variable {s s' : Connections N S A} {n : N} {d : ℕ}

theorem MayEnd.mono {why : Exit N} (h : s.MayEnd n why)
    (hclosing : s.closing = true → s'.closing = true)
    (hkept : (s.connectingPeers.lookup n).isSome → (s'.connectingPeers.lookup n).isSome) :
    s'.MayEnd n why := by
  cases why with
  | stopped => exact hclosing h
  | unwanted => exact h
  | busy => exact hkept h
  | dropped => trivial
  | upgraded m result => exact fun hm => (h hm).imp hclosing hkept

theorem Dialing.frame (h : s.Dialing) (htracked : s'.trackedIPs = s.trackedIPs)
    (hdialed : s'.dialed = s.dialed) (hdials : s'.dials = s.dials)
    (hclosing : s.closing = true → s'.closing = true)
    (hconnecting : ∀ n, (s.connectingPeers.lookup n).isSome →
      (s'.connectingPeers.lookup n).isSome ∨ s.trackedIPs.lookup n = none)
    (hconnected : ∀ n, (s'.connectedPeers.lookup n).isSome →
      (s.connectedPeers.lookup n).isSome ∨ s.trackedIPs.lookup n = none) : s'.Dialing := by
  refine ⟨?_,?_,fun n hn => ?_,fun d hd hstopped why hwhy => ?_⟩
  · rw [htracked,hdialed,hdials]
    exact h.entry
  · rw [htracked,hdialed,hdials]
    exact h.tracked
  · rw [htracked]
    exact (hconnected n hn).elim (h.connected n) id
  · rw [hdialed] at hd
    rw [hdials] at hstopped hwhy ⊢
    have hentry := h.tracked d hd hstopped
    have hkept : (s.connectingPeers.lookup (s.dials d).nodeID).isSome →
        (s'.connectingPeers.lookup (s.dials d).nodeID).isSome := fun hsome => by
      refine (hconnecting _ hsome).elim id fun hnone => ?_
      rw [hnone] at hentry
      cases hentry
    exact (h.ended d hd hstopped why hwhy).mono hclosing hkept

theorem Dialing.of_eq (h : s.Dialing) (htracked : s'.trackedIPs = s.trackedIPs)
    (hdialed : s'.dialed = s.dialed) (hdials : s'.dials = s.dials)
    (hclosing : s'.closing = s.closing) (hconnecting : s'.connectingPeers = s.connectingPeers)
    (hconnected : s'.connectedPeers = s.connectedPeers) : s'.Dialing :=
  h.frame htracked hdialed hdials (hclosing ▸ id) (fun _ hn => .inl (hconnecting ▸ hn))
    fun _ hn => .inl (hconnected ▸ hn)

theorem forget_trackedIPs (s : Connections N S A) (n : N) :
    (s.forget n).trackedIPs = s.trackedIPs.erase n := by
  unfold forget
  split
  · next hnone =>
    refine Finmap.ext_lookup fun m => ?_
    rw [lookup_erase_eq_ite]
    split_ifs with hm
    · rw [hm,hnone]
    · rfl
  · rfl

theorem forget_dialed (s : Connections N S A) (n : N) : (s.forget n).dialed = s.dialed := by
  unfold forget
  split <;> rfl

theorem forget_closing (s : Connections N S A) (n : N) : (s.forget n).closing = s.closing := by
  unfold forget
  split <;> rfl

theorem forget_dials (s : Connections N S A) (n : N) (d : ℕ) : (s.forget n).dials d =
    if s.trackedIPs.lookup n = some d then { s.dials d with stopped := true } else s.dials d := by
  unfold forget
  split
  · next hnone => simp [hnone]
  · next d' hd' =>
    simp only [stopTracking,setDial,hd',Option.some.injEq]
    by_cases hdd : d = d'
    · rw [hdd,Function.update_self,if_pos rfl]
    · rw [Function.update_of_ne hdd,if_neg (Ne.symm hdd)]

theorem forget_dials_nodeID (s : Connections N S A) (n : N) (d : ℕ) :
    ((s.forget n).dials d).nodeID = (s.dials d).nodeID := by
  rw [forget_dials]
  split_ifs <;> rfl

theorem forget_sets (s : Connections N S A) (n : N) :
    (s.forget n).connectingPeers = s.connectingPeers ∧
      (s.forget n).connectedPeers = s.connectedPeers := by
  unfold forget
  split
  · exact ⟨rfl,rfl⟩
  · exact ⟨rfl,rfl⟩

theorem Dialing.forget (h : s.Dialing) (n : N) : (s.forget n).Dialing := by
  obtain ⟨hconnecting,hconnected⟩ := forget_sets s n
  -- a dial that is still not stopped was not tracked for this node
  have hopen : ∀ d, ((s.forget n).dials d).stopped = false →
      s.trackedIPs.lookup n ≠ some d ∧ (s.dials d).stopped = false ∧
        (s.forget n).dials d = s.dials d := by
    intro d hstopped
    rw [forget_dials] at hstopped ⊢
    split_ifs at hstopped ⊢ with htracked
    exact ⟨htracked,hstopped,rfl⟩
  refine ⟨fun m d hm => ?_,fun d hd hstopped => ?_,fun m hm => ?_,fun d hd hstopped why hwhy => ?_⟩
  · rw [forget_trackedIPs,lookup_erase_eq_ite] at hm
    split_ifs at hm with hmn
    obtain ⟨hd,hnode,hstopped⟩ := h.entry m d hm
    have hne : s.trackedIPs.lookup n ≠ some d := fun hn =>
      hmn (hnode.symm.trans (h.entry n d hn).2.1)
    rw [forget_dialed,forget_dials,if_neg hne]
    exact ⟨hd,hnode,hstopped⟩
  · obtain ⟨hne,hstopped,heq⟩ := hopen d hstopped
    rw [forget_dialed] at hd
    have hentry := h.tracked d hd hstopped
    rw [heq,forget_trackedIPs,lookup_erase_eq_ite,if_neg,hentry]
    rintro hnode
    exact hne (hnode ▸ hentry)
  · rw [hconnected] at hm
    rw [forget_trackedIPs,lookup_erase_eq_ite]
    split_ifs
    · rfl
    · exact h.connected m hm
  · obtain ⟨_,hstopped,heq⟩ := hopen d hstopped
    rw [forget_dialed] at hd
    rw [heq] at hwhy ⊢
    refine (h.ended d hd hstopped why hwhy).mono (forget_closing s n).trans ?_
    rw [hconnecting]
    exact id

theorem Dialing.dial (h : s.Dialing) (ip : A) (hnone : s.trackedIPs.lookup n = none)
    (hconnected : s.connectedPeers.lookup n = none) : (s.dial n ip).Dialing := by
  have hself : (s.dial n ip).dials s.dialed = ⟨n,ip,false,.waiting⟩ := Function.update_self ..
  have hold : ∀ d < s.dialed, (s.dial n ip).dials d = s.dials d := fun d hd =>
    Function.update_of_ne hd.ne ..
  have htracked : ∀ m, (s.dial n ip).trackedIPs.lookup m =
      if m = n then some s.dialed else s.trackedIPs.lookup m := fun m =>
    lookup_insert_eq_ite ..
  refine ⟨fun m d hm => ?_,fun d hd hstopped => ?_,fun m hm => ?_,fun d hd hstopped why hwhy => ?_⟩
  · rw [htracked] at hm
    split_ifs at hm with hmn
    · cases hm
      rw [hself]
      exact ⟨Nat.lt_succ_self _,hmn.symm,rfl⟩
    · obtain ⟨hd,hnode,hstopped⟩ := h.entry m d hm
      rw [hold d hd]
      exact ⟨Nat.lt_succ_of_lt hd,hnode,hstopped⟩
  · rcases Nat.lt_succ_iff_lt_or_eq.mp hd with hd | rfl
    · rw [hold d hd] at hstopped ⊢
      have hentry := h.tracked d hd hstopped
      rw [htracked,if_neg,hentry]
      rintro hnode
      rw [hnode,hnone] at hentry
      cases hentry
    · rw [hself,htracked,if_pos rfl]
  · rw [htracked,if_neg]
    · exact h.connected m hm
    · rintro rfl
      rw [show (s.dial m ip).connectedPeers.lookup m = none from hconnected] at hm
      cases hm
  · rcases Nat.lt_succ_iff_lt_or_eq.mp hd with hd | rfl
    · rw [hold d hd] at hstopped hwhy ⊢
      exact h.ended d hd hstopped why hwhy
    · rw [hself] at hwhy
      cases hwhy

theorem Dialing.setPlace (h : s.Dialing) (place : DialPlace N)
    (hplace : (s.dials d).stopped = false → d < s.dialed → ∀ why, place = .exited why →
      s.MayEnd (s.dials d).nodeID why) :
    (s.setDial d { s.dials d with place := place }).Dialing := by
  have hdials : ∀ d', (s.setDial d { s.dials d with place := place }).dials d' =
      if d' = d then { s.dials d with place := place } else s.dials d' := fun d' => by
    simp only [setDial,Function.update_apply]
  have hnode : ∀ d', ((s.setDial d { s.dials d with place := place }).dials d').nodeID =
      (s.dials d').nodeID := fun d' => by
    rw [hdials]
    split_ifs with heq
    · rw [heq]
    · rfl
  have hstop : ∀ d', ((s.setDial d { s.dials d with place := place }).dials d').stopped =
      (s.dials d').stopped := fun d' => by
    rw [hdials]
    split_ifs with heq
    · rw [heq]
    · rfl
  refine ⟨fun m d' hm => ?_,fun d' hd' hstopped => ?_,h.connected,fun d' hd' hstopped why hwhy => ?_⟩
  · rw [hnode,hstop]
    exact h.entry m d' hm
  · rw [hnode]
    rw [hstop] at hstopped
    exact h.tracked d' hd' hstopped
  · rw [hnode]
    rw [hstop] at hstopped
    rw [hdials] at hwhy
    split_ifs at hwhy with heq
    · subst heq
      exact hplace hstopped hd' why hwhy
    · exact h.ended d' hd' hstopped why hwhy

theorem stopTracking_dial (hd : s.trackedIPs.lookup n = some d) (ip : A) :
    (s.stopTracking d).dial n ip = (s.forget n).dial n ip := by
  have hinsert : (s.trackedIPs.erase n).insert n s.dialed = s.trackedIPs.insert n s.dialed := by
    refine Finmap.ext_lookup fun m => ?_
    rw [lookup_insert_eq_ite,lookup_insert_eq_ite,lookup_erase_eq_ite]
    split_ifs <;> rfl
  unfold Connections.forget Connections.dial
  rw [hd]
  simp only [stopTracking,setDial,hinsert]

theorem forget_lookup_self (s : Connections N S A) (n : N) :
    (s.forget n).trackedIPs.lookup n = none := by
  rw [forget_trackedIPs,Finmap.lookup_erase]

theorem Dialing.redial (h : s.Dialing) (ip : A) (hconnected : s.connectedPeers.lookup n = none) :
    ((s.forget n).dial n ip).Dialing :=
  (h.forget n).dial ip (forget_lookup_self s n) ((forget_sets s n).2 ▸ hconnected)

theorem Dialing.trackIP (h : s.Dialing) (c : Config N S A) (ip : ClaimedIPPort N) (added : Bool) :
    (s.trackIP c ip added).Dialing := by
  unfold Connections.trackIP
  split_ifs with hadded hconnected
  · exact h
  · exact h
  · have hnone := Option.not_isSome_iff_eq_none.mp hconnected
    split
    · next d hd =>
      rw [stopTracking_dial hd]
      exact h.redial _ hnone
    · next htracked => exact h.dial _ htracked hnone

theorem Dialing.manuallyTrack (h : s.Dialing) (n : N) (ip : A) : (s.manuallyTrack n ip).Dialing := by
  unfold Connections.manuallyTrack
  split_ifs with hconnected htracked
  · exact h
  · exact h
  · exact h.dial ip (Option.not_isSome_iff_eq_none.mp htracked)
      (Option.not_isSome_iff_eq_none.mp hconnected)

theorem Dialing.connect (h : s.Dialing) {peer : ℕ} (hs : s.connected n = some (peer,s')) :
    s'.Dialing := by
  unfold Connections.connected at hs
  split at hs
  · cases hs
  · cases hs
    refine (h.forget n).frame rfl rfl rfl id (fun m hm => ?_) fun m hm => ?_
    · rw [lookup_erase_eq_ite]
      split_ifs with hmn
      · rw [hmn]
        exact .inr (forget_lookup_self s n)
      · exact .inl hm
    · rw [lookup_insert_eq_ite] at hm
      split_ifs at hm with hmn
      · rw [hmn]
        exact .inr (forget_lookup_self s n)
      · exact .inl hm

theorem Dialing.disconnectedFromConnecting (h : s.Dialing)
    (hconnected : s.connectedPeers.lookup n = none) :
    (s.disconnectedFromConnecting n).Dialing := by
  have hleft : ({ s.forget n with connectingPeers := s.connectingPeers.erase n } :
      Connections N S A).Dialing := by
    refine (h.forget n).frame rfl rfl rfl id (fun m hm => ?_) fun m hm => .inl hm
    rw [(forget_sets s n).1] at hm
    rw [lookup_erase_eq_ite]
    split_ifs with hmn
    · rw [hmn]
      exact .inr (forget_lookup_self s n)
    · exact .inl hm
  cases htracked : s.trackedIPs.lookup n with
  | none =>
    have hforget : s.forget n = s := by
      unfold Connections.forget
      rw [htracked]
    rw [hforget] at hleft
    simpa only [Connections.disconnectedFromConnecting,htracked] using hleft
  | some d =>
    have hforget : ({ s with connectingPeers := s.connectingPeers.erase n } :
        Connections N S A).forget n =
          { s.forget n with connectingPeers := s.connectingPeers.erase n } := by
      unfold Connections.forget
      simp only [htracked]
      rfl
    simp only [Connections.disconnectedFromConnecting,htracked]
    split_ifs
    · rw [stopTracking_dial (by exact htracked),hforget]
      refine hleft.dial _ (forget_lookup_self s n) ?_
      exact (forget_sets s n).2 ▸ hconnected
    · rw [hforget]
      exact hleft

theorem Dialing.disconnectedFromConnected (h : s.Dialing) (c : Config N S A)
    (hconnected : (s.connectedPeers.lookup n).isSome) :
    (s.disconnectedFromConnected c n).Dialing := by
  have hleft : ({ s with connectedPeers := s.connectedPeers.erase n } :
      Connections N S A).Dialing := by
    refine h.frame rfl rfl rfl id (fun m hm => .inl hm) fun m hm => ?_
    rw [lookup_erase_eq_ite] at hm
    split_ifs at hm
    · cases hm
    · exact .inl hm
  simp only [Connections.disconnectedFromConnected]
  split
  · exact hleft.dial _ (h.connected n hconnected) (Finmap.lookup_erase ..)
  · exact hleft

theorem Dialing.upgrade (h : s.Dialing) (n : N) : (s.upgrade n).2.Dialing := by
  unfold Connections.upgrade
  split_ifs
  · exact h
  · exact h
  · exact h
  · refine h.frame rfl rfl rfl id (fun m hm => .inl ?_) fun m hm => .inl hm
    rw [lookup_insert_eq_ite]
    split_ifs
    · rfl
    · exact hm

theorem Dialing.wake (h : s.Dialing) (d : ℕ) : (s.wake d).Dialing := by
  simp only [Connections.wake]
  split_ifs with hwants hbusy
  · -- the dial that is tracked for the node has been stopped
    refine (h.forget _).setPlace (.exited .unwanted) fun hstopped hd why hwhy => ?_
    have hentry := (h.forget (s.dials d).nodeID).tracked d hd hstopped
    rw [forget_dials_nodeID,forget_lookup_self] at hentry
    cases hentry
  · refine h.setPlace (.exited .busy) fun hstopped hd why hwhy => ?_
    cases hwhy
    rcases (Bool.or_eq_true _ _).mp hbusy with hconnecting | hconnected
    · exact hconnecting
    · have hentry := h.tracked d hd hstopped
      rw [h.connected _ hconnected] at hentry
      cases hentry
  · exact h.setPlace .dialing fun _ _ why hwhy => by cases hwhy

theorem upgrade_present (s : Connections N S A) (m : N) : (s.upgrade m).2.closing = true ∨
    ((s.upgrade m).2.connectingPeers.lookup m).isSome ∨
    ((s.upgrade m).2.connectedPeers.lookup m).isSome := by
  unfold Connections.upgrade
  split_ifs with hclosing hconnecting hconnected
  · exact .inl hclosing
  · exact .inr (.inl hconnecting)
  · exact .inr (.inr hconnected)
  · exact .inr (.inl (by rw [Finmap.lookup_insert]; rfl))

theorem Dialing.exitUpgraded (h : s.Dialing) (d : ℕ) (m : N) :
    ((s.upgrade m).2.exitDial d (.upgraded m (s.upgrade m).1)).Dialing := by
  have hafter := h.upgrade m
  refine hafter.setPlace _ fun hstopped hd why hwhy => ?_
  cases hwhy
  intro hnode
  have hentry := hafter.tracked d hd hstopped
  rw [← hnode] at hentry ⊢
  rcases upgrade_present s m with hclosing | hconnecting | hconnected
  · exact .inl hclosing
  · exact .inr hconnecting
  · rw [hafter.connected m hconnected] at hentry
    cases hentry

theorem Dialing.startClose (h : s.Dialing) (ips connecting connected : List N) :
    (s.startClose ips connecting connected).Dialing := by
  have hfold : ∀ (ips : List N) (s : Connections N S A), s.Dialing →
      (ips.foldl Connections.forget s).Dialing := by
    intro ips
    induction ips with
    | nil => exact fun s h => h
    | cons n ips ih => exact fun s h => ih _ (h.forget n)
  have hclosing : ({ s with closing := true } : Connections N S A).Dialing :=
    h.frame rfl rfl rfl (fun _ => rfl) (fun _ hm => .inl hm) fun _ hm => .inl hm
  exact (hfold ips _ hclosing).of_eq rfl rfl rfl rfl rfl rfl

end

/-! ## Every run -/

variable {P : Params} {c : Config N S A} {s s' : Connections N S A}

theorem Initial.dialing (h : Initial P s) : s.Dialing := by
  obtain ⟨env,trackedSubnets,t,hnew,peers,dials,rfl⟩ := h
  refine ⟨fun n d hn => ?_,fun d hd => absurd hd (Nat.not_lt_zero d),fun n hn => rfl,
    fun d hd => absurd hd (Nat.not_lt_zero d)⟩
  cases hn

theorem DialStep.dialing (h : s.Dialing) {d : ℕ} (hstep : DialStep c s d (s.dials d) s') :
    s'.Dialing := by
  cases hstep with
  | stop hplace hstop =>
    refine h.setPlace (.exited .stopped) fun hstopped _ why hwhy => ?_
    cases hwhy
    rcases hstop with hclosing | hstop
    · exact hclosing
    · rw [hstopped] at hstop
      cases hstop
  | wake hplace => exact h.wake d
  | retry hplace => exact h.setPlace .waiting fun _ _ why hwhy => by cases hwhy
  | drop hplace hdrop =>
    refine h.setPlace (.exited .dropped) fun _ _ why hwhy => ?_
    cases hwhy
    trivial
  | allow hplace hme hallow => exact h.setPlace _ fun _ _ why hwhy => by cases hwhy
  | upgrade hplace => exact h.exitUpgraded d _

variable [DecidableEq S] [Inhabited S]

theorem PeerStep.dialing (h : s.Dialing) (hinv : s.core.Inv P c) {i : ℕ} (hi : i < s.started)
    (hstep : PeerStep P c s i (s.peers i) s') : s'.Dialing := by
  cases hstep with
  | connected hplace hgot hfinished hconnected =>
    exact (h.connect hconnected).of_eq rfl rfl rfl rfl rfl rfl
  | @track ip ips hplace env added t hadd =>
    have htracker : ({ s with tracker := t } : Connections N S A).Dialing :=
      h.of_eq rfl rfl rfl rfl rfl rfl
    exact (htracker.trackIP c ip added).of_eq rfl rfl rfl rfl rfl rfl
  | leaveConnecting hcloser =>
    obtain ⟨_,hphase⟩ := hinv.phase_fromConnecting hi hcloser
    have hconnected := (View.mk.inj (hinv.holds hi hphase)).2.1
    exact (h.disconnectedFromConnecting hconnected).of_eq rfl rfl rfl rfl rfl rfl
  | leaveConnected hcloser =>
    have hphase : (s.core.peers i).phase = .offline := by
      simp only [PeerState.phase,show (s.core.peers i).closer = .toldRouter from hcloser]
    have hconnected := (View.mk.inj (hinv.holds hi hphase)).2.1
    have hsome : (s.connectedPeers.lookup (s.peers i).id).isSome :=
      Option.isSome_iff_exists.mpr ⟨i,hconnected⟩
    exact (h.disconnectedFromConnected c hsome).of_eq rfl rfl rfl rfl rfl rfl
  | refused | handshake | malformed | unexpected | record | announce | announceSubnet | finish
  | peerList | handleInbound | skip | verify | forged | tracked | leave | close | lookUp
  | tellTracker | tellRouter | closed => exact h.of_eq rfl rfl rfl rfl rfl rfl

theorem Step.dialing (h : s.Dialing) (hinv : s.core.Inv P c) (hstep : Step P c s s') :
    s'.Dialing := by
  cases hstep with
  | peer hi hstep => exact hstep.dialing h hinv hi
  | dial hd hstep => exact hstep.dialing h
  | outside | manuallyTrack | accept => exact h.of_eq rfl rfl rfl rfl rfl rfl
  | manuallyDial hperm => exact (h.manuallyTrack _ _).of_eq rfl rfl rfl rfl rfl rfl
  | upgrade hperm => exact (h.upgrade _).of_eq rfl rfl rfl rfl rfl rfl
  | startClose hopen hips hconnecting hconnected => exact h.startClose _ _ _

theorem Reachable.dialing (h : Reachable P c s) : s.Dialing := by
  induction h with
  | initial h => exact h.dialing
  | step hs hstep ih => exact hstep.dialing ih hs.inv

/-- The dials that were not stopped are those that are tracked for their nodes, and none of them
is for a connected node. -/
theorem one_dial_per_node (h : Reachable P c s) :
    (∀ n d, s.trackedIPs.lookup n = some d ↔
      d < s.dialed ∧ (s.dials d).nodeID = n ∧ (s.dials d).stopped = false) ∧
    ∀ n, (s.connectedPeers.lookup n).isSome → s.trackedIPs.lookup n = none := by
  have hdialing := h.dialing
  refine ⟨fun n d => ⟨hdialing.entry n d,?_⟩,hdialing.connected⟩
  rintro ⟨hd,rfl,hstopped⟩
  exact hdialing.tracked d hd hstopped

/-- Before the network closes, a tracked node without a peer is being dialed, unless its dial got
a connection to another node or one that was dropped. -/
theorem tracked_is_dialed (h : Reachable P c s) (hopen : s.closing = false) {n : N} {d : ℕ}
    (htracked : s.trackedIPs.lookup n = some d) (hconnecting : s.connectingPeers.lookup n = none) :
    (∀ why, (s.dials d).place ≠ .exited why) ∨ (s.dials d).place = .exited .dropped ∨
      ∃ m result, m ≠ n ∧ (s.dials d).place = .exited (.upgraded m result) := by
  have hdialing := h.dialing
  obtain ⟨hd,rfl,hstopped⟩ := hdialing.entry n d htracked
  cases hplace : (s.dials d).place with
  | waiting | dialing | upgrading => exact .inl fun why h => by cases h
  | exited why =>
    have hend := hdialing.ended d hd hstopped why hplace
    cases why with
    | stopped =>
      rw [show s.closing = true from hend] at hopen
      cases hopen
    | unwanted => exact hend.elim
    | busy =>
      rw [MayEnd,hconnecting] at hend
      cases hend
    | dropped => exact .inr (.inl rfl)
    | upgraded m result =>
      refine .inr (.inr ⟨m,result,fun hm => ?_,rfl⟩)
      rcases hend hm with hclosing | hsome
      · rw [hclosing] at hopen
        cases hopen
      · rw [hconnecting] at hsome
        cases hsome

namespace Sample
open IPTracker.Sample

theorem dialed_reachable : ∃ s : Connections ℕ ℕ ℕ, Reachable params config s ∧
    s.closing = false ∧ s.trackedIPs.lookup 7 = some 0 ∧ s.connectingPeers.lookup 7 = none := by
  obtain ⟨t,hnew⟩ : ∃ t, newIPTracker params zeroEnv ∅ = .ok t := ⟨_,rfl⟩
  have h₀ : Reachable params config (⟨t,∅,∅,∅,false,0,fun _ => .start 0,0,
      fun _ => ⟨0,0,false,.waiting⟩,[],[],[]⟩ : Connections ℕ ℕ ℕ) :=
    .initial ⟨_,_,t,hnew,_,_,rfl⟩
  obtain ⟨ops,hrun⟩ := h₀.inv.runs
  obtain ⟨⟨_,_,_,hsound⟩,_⟩ := hrun.sound
  obtain ⟨t',ht'⟩ := hsound.exec_returns
    (fun m => (rfl : (newBloom params zeroEnv m).isPanic = false)) (.manuallyTrack 7)
  have h₁ := h₀.step (.manuallyTrack 7 1 ht')
  exact ⟨_,h₁.step (.manuallyDial (List.Perm.refl [(7,1)])),rfl,Finmap.lookup_insert ..,rfl⟩

theorem dialed_once : ∃ s : Connections ℕ ℕ ℕ, Reachable params config s ∧
    s.trackedIPs.lookup 7 = some 0 ∧ 0 < s.dialed ∧ (s.dials 0).nodeID = 7 := by
  obtain ⟨s,hs,_,htracked,_⟩ := dialed_reachable
  obtain ⟨hd,hnode,_⟩ := ((one_dial_per_node hs).1 7 0).mp htracked
  exact ⟨s,hs,htracked,hd,hnode⟩

theorem dialed_runs : ∃ s : Connections ℕ ℕ ℕ, Reachable params config s ∧
    s.trackedIPs.lookup 7 = some 0 ∧
    ((∀ why, (s.dials 0).place ≠ .exited why) ∨ (s.dials 0).place = .exited .dropped ∨
      ∃ m result, m ≠ 7 ∧ (s.dials 0).place = .exited (.upgraded m result)) := by
  obtain ⟨s,hs,hopen,htracked,hconnecting⟩ := dialed_reachable
  exact ⟨s,hs,htracked,tracked_is_dialed hs hopen htracked hconnecting⟩

end Sample
end Connections
end Landslide.Net
