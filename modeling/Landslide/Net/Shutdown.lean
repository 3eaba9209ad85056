import Landslide.Net.Dialing

/-! # The end of the network

`StartClose` tells every peer in the sets to close. No peer starts after it, so all peers that are
left are about to end.
-/
namespace Landslide.Net
variable {N S A : Type} [DecidableEq N]

namespace Connections

def Closing (s : Connections N S A) : Prop :=
  s.closing = true → ∀ n i,
    (s.connectingPeers.lookup n = some i ∨ s.connectedPeers.lookup n = some i) →
    (s.peers i).closing = true

structure Keeps (s s' : Connections N S A) : Prop where
  closing : s'.closing = s.closing
  started : s'.started = s.started
  sets : ∀ n i, (s'.connectingPeers.lookup n = some i ∨ s'.connectedPeers.lookup n = some i) →
    s.connectingPeers.lookup n = some i ∨ s.connectedPeers.lookup n = some i
  peers : ∀ i, (s.peers i).closing = true → (s'.peers i).closing = true

section
variable {s s' s'' : Connections N S A} {n : N} {i : ℕ} {p : PeerState N S}

theorem Closing.of_keeps (h : s.Closing) (hkeeps : s.Keeps s') : s'.Closing := by
  intro hclosing n i hi
  exact hkeeps.peers i (h (hkeeps.closing ▸ hclosing) n i (hkeeps.sets n i hi))

theorem Keeps.refl (s : Connections N S A) : s.Keeps s := ⟨rfl,rfl,fun _ _ => id,fun _ => id⟩

theorem Keeps.trans (h : s.Keeps s') (h' : s'.Keeps s'') : s.Keeps s'' :=
  ⟨h'.closing.trans h.closing,h'.started.trans h.started,
    fun n i hi => h.sets n i (h'.sets n i hi),fun i hi => h'.peers i (h.peers i hi)⟩

theorem Keeps.of_core (hclosing : s'.closing = s.closing) (hcore : s'.core = s.core) :
    s.Keeps s' := by
  simp only [core,Core.mk.injEq] at hcore
  obtain ⟨_,hconnecting,hconnected,hstarted,hpeers,_⟩ := hcore
  refine ⟨hclosing,hstarted,fun n i hi => ?_,fun i hi => ?_⟩
  · rwa [hconnecting,hconnected] at hi
  · rwa [hpeers]

theorem Keeps.setPeer (h : s.Keeps s') (hpeers : s'.core.peers = s.core.peers)
    (hp : (s.peers i).closing = true → p.closing = true) : s.Keeps (s'.setPeer i p) := by
  refine ⟨h.closing,h.started,h.sets,fun j hj => ?_⟩
  by_cases hji : j = i
  · subst hji
    rw [setPeer_peers_self]
    exact hp hj
  · change (Function.update s'.core.peers i p j).closing = true
    rw [Function.update_of_ne hji,hpeers]
    exact hj

theorem trackIP_keeps (s : Connections N S A) (c : Config N S A) (ip : ClaimedIPPort N)
    (added : Bool) : s.Keeps (s.trackIP c ip added) := by
  refine .of_core ?_ (core_trackIP s c ip added)
  unfold trackIP
  split_ifs
  · rfl
  · rfl
  · split <;> rfl

theorem manuallyTrack_keeps (s : Connections N S A) (n : N) (ip : A) :
    s.Keeps (s.manuallyTrack n ip) := by
  refine .of_core ?_ (core_manuallyTrack s n ip)
  unfold manuallyTrack
  split_ifs <;> rfl

theorem wake_keeps (s : Connections N S A) (d : ℕ) : s.Keeps (s.wake d) := by
  refine .of_core ?_ (core_wake s d)
  simp only [wake]
  split_ifs
  · exact forget_closing s _
  · rfl
  · rfl

theorem Keeps.of_sets {connecting connected : Finmap fun _ : N => ℕ}
    (hclosing : s'.closing = s.closing)
    (hcore : s'.core = { s.core with connectingPeers := connecting, connectedPeers := connected })
    (hsets : ∀ n i, (connecting.lookup n = some i ∨ connected.lookup n = some i) →
      s.connectingPeers.lookup n = some i ∨ s.connectedPeers.lookup n = some i) : s.Keeps s' := by
  simp only [core,Core.mk.injEq] at hcore
  obtain ⟨_,rfl,rfl,hstarted,hpeers,_⟩ := hcore
  exact ⟨hclosing,hstarted,hsets,fun i hi => by rwa [hpeers]⟩

theorem connected_keeps {peer : ℕ} (h : s.connected n = some (peer,s')) : s.Keeps s' := by
  obtain ⟨hlookup,hcore⟩ := connected_eq_some h
  have hclosing : s'.closing = s.closing := by
    unfold connected at h
    split at h
    · cases h
    · cases h
      exact forget_closing s n
  refine .of_sets hclosing hcore fun m i hi => ?_
  rw [lookup_erase_eq_ite,lookup_insert_eq_ite] at hi
  by_cases hmn : m = n
  · rw [if_pos hmn,if_pos hmn] at hi
    rcases hi with hi | hi
    · cases hi
    · cases hi
      rw [hmn]
      exact .inl hlookup
  · rwa [if_neg hmn,if_neg hmn] at hi

theorem disconnectedFromConnecting_keeps (s : Connections N S A) (n : N) :
    s.Keeps (s.disconnectedFromConnecting n) := by
  have hclosing : (s.disconnectedFromConnecting n).closing = s.closing := by
    simp only [disconnectedFromConnecting]
    split
    · rfl
    split_ifs
    · rfl
    · exact forget_closing _ n
  refine .of_sets hclosing (core_disconnectedFromConnecting s n) fun m i hi => ?_
  rw [lookup_erase_eq_ite] at hi
  split_ifs at hi
  · exact hi.elim (fun h => by cases h) .inr
  · exact hi

theorem disconnectedFromConnected_keeps (s : Connections N S A) (c : Config N S A) (n : N) :
    s.Keeps (s.disconnectedFromConnected c n) := by
  have hclosing : (s.disconnectedFromConnected c n).closing = s.closing := by
    simp only [disconnectedFromConnected]
    split <;> rfl
  refine .of_sets hclosing (core_disconnectedFromConnected s n c) fun m i hi => ?_
  rw [lookup_erase_eq_ite] at hi
  split_ifs at hi
  · exact hi.elim .inl fun h => by cases h
  · exact hi

theorem closePeers_closing (set : Finmap fun _ : N => ℕ) (order : List N)
    (peers : ℕ → PeerState N S) (i : ℕ)
    (h : (peers i).closing = true ∨ ∃ n ∈ order, set.lookup n = some i) :
    (closePeers set order peers i).closing = true := by
  induction order generalizing peers with
  | nil =>
    rcases h with h | ⟨_,h,_⟩
    · exact h
    · cases h
  | cons n order ih =>
    cases hlookup : set.lookup n with
    | none =>
      simp only [closePeers,hlookup]
      refine ih peers (h.imp id ?_)
      rintro ⟨m,hm,hi⟩
      rcases List.mem_cons.mp hm with rfl | hm
      · rw [hlookup] at hi
        cases hi
      · exact ⟨m,hm,hi⟩
    | some j =>
      simp only [closePeers,hlookup]
      apply ih
      by_cases hij : i = j
      · subst hij
        rw [Function.update_self]
        exact .inl rfl
      · rw [Function.update_of_ne hij]
        refine h.imp id ?_
        rintro ⟨m,hm,hi⟩
        rcases List.mem_cons.mp hm with rfl | hm
        · rw [hlookup] at hi
          exact absurd (Option.some.inj hi).symm hij
        · exact ⟨m,hm,hi⟩

theorem startClose_closes (s : Connections N S A) (ips connecting connected : List N) :
    (s.startClose ips connecting connected).closing = true := by
  have hfold : ∀ (ips : List N) (s : Connections N S A),
      (ips.foldl forget s).closing = s.closing := by
    intro ips
    induction ips with
    | nil => exact fun s => rfl
    | cons n ips ih => exact fun s => (ih (s.forget n)).trans (forget_closing s n)
  exact hfold ips { s with closing := true }

theorem startClose_closing (s : Connections N S A) {ips connecting connected : List N}
    (hconnecting : ∀ n, n ∈ connecting ↔ n ∈ s.connectingPeers)
    (hconnected : ∀ n, n ∈ connected ↔ n ∈ s.connectedPeers) :
    (s.startClose ips connecting connected).Closing := by
  intro _ n i hi
  have hcore := core_startClose s ips connecting connected
  simp only [core,Core.mk.injEq] at hcore
  obtain ⟨_,hc,hd,_,hpeers,_⟩ := hcore
  rw [hc,hd] at hi
  rw [hpeers]
  apply closePeers_closing
  rcases hi with hi | hi
  · refine .inl (closePeers_closing _ _ _ _ (.inr ⟨n,?_,hi⟩))
    exact (hconnecting n).mpr (Finmap.mem_of_lookup_eq_some hi)
  · exact .inr ⟨n,(hconnected n).mpr (Finmap.mem_of_lookup_eq_some hi),hi⟩

theorem upgrade_of_closing (h : s.closing = true) (n : N) : (s.upgrade n).2 = s := by
  unfold upgrade
  rw [if_pos h]

theorem upgrade_closing (s : Connections N S A) (n : N) : (s.upgrade n).2.closing = s.closing := by
  unfold upgrade
  split_ifs <;> rfl

end

variable [DecidableEq S] [Inhabited S] {P : Params} {c : Config N S A} {s s' : Connections N S A}

theorem PeerStep.keeps {i : ℕ} (hstep : PeerStep P c s i (s.peers i) s') : s.Keeps s' := by
  have hself : ∀ p : PeerState N S, ((s.peers i).closing = true → p.closing = true) →
      s.Keeps (s.setPeer i p) := fun p hp => (Keeps.refl s).setPeer rfl hp
  cases hstep with
  | refused | malformed | forged | leave => exact hself _ fun _ => rfl
  | handshake | unexpected | finish | peerList | skip | verify | tracked | close | lookUp
  | closed => exact hself _ id
  | connected hplace hgot hfinished hconnected =>
    exact (connected_keeps hconnected).setPeer
      (by rw [(connected_eq_some hconnected).2]) id
  | record | announce | announceSubnet | tellTracker | tellRouter =>
    exact Keeps.setPeer ⟨rfl,rfl,fun _ _ => id,fun _ => id⟩ rfl id
  | handleInbound => exact ⟨rfl,rfl,fun _ _ => id,fun _ => id⟩
  | @track ip ips hplace env added t hadd =>
    have htracker : s.Keeps { s with tracker := t } := ⟨rfl,rfl,fun _ _ => id,fun _ => id⟩
    exact (htracker.trans (trackIP_keeps _ c ip added)).setPeer
      (by rw [core_trackIP]; rfl) id
  | leaveConnecting hcloser =>
    exact (disconnectedFromConnecting_keeps s _).setPeer
      (by rw [core_disconnectedFromConnecting]) id
  | leaveConnected hcloser =>
    exact (disconnectedFromConnected_keeps s c _).setPeer
      (by rw [core_disconnectedFromConnected]) id

/-- A step keeps the peers in the sets, closes the network, or is one of an open network. -/
theorem Step.keeps (hstep : Step P c s s') :
    s.Keeps s' ∨ s'.Closing ∧ (s.closing = true → s'.started = s.started) ∧
      (s.closing = true → s'.closing = true) := by
  have hupgrade : ∀ n (s'' : Connections N S A), (s.upgrade n).2.Keeps s'' →
      s.Keeps s'' ∨ s''.Closing ∧ (s.closing = true → s''.started = s.started) ∧
        (s.closing = true → s''.closing = true) := by
    intro n s'' hkeeps
    by_cases hclosing : s.closing = true
    · rw [upgrade_of_closing hclosing] at hkeeps
      exact .inl hkeeps
    · have hopen : s''.closing = s.closing := hkeeps.closing.trans (upgrade_closing s n)
      refine .inr ⟨fun h => ?_,fun h => absurd h hclosing,fun h => absurd h hclosing⟩
      rw [hopen] at h
      exact absurd h hclosing
  cases hstep with
  | peer hi hstep => exact .inl hstep.keeps
  | dial hd hstep =>
    cases hstep with
    | stop | retry | drop | allow => exact .inl (.of_core rfl rfl)
    | wake hplace => exact .inl (wake_keeps s _)
    | upgrade hplace => exact hupgrade _ _ (.of_core rfl rfl)
  | outside | manuallyTrack | accept => exact .inl ⟨rfl,rfl,fun _ _ => id,fun _ => id⟩
  | manuallyDial hperm =>
    exact .inl ((manuallyTrack_keeps s _ _).trans ⟨rfl,rfl,fun _ _ => id,fun _ => id⟩)
  | upgrade hperm => exact hupgrade _ _ ⟨rfl,rfl,fun _ _ => id,fun _ => id⟩
  | startClose hopen hips hconnecting hconnected =>
    refine .inr ⟨startClose_closing s hconnecting hconnected,fun h => ?_,fun h => ?_⟩
    · rw [hopen] at h
      cases h
    · rw [hopen] at h
      cases h

theorem Reachable.closing (h : Reachable P c s) : s.Closing := by
  induction h with
  | initial h =>
    obtain ⟨env,trackedSubnets,t,hnew,peers,dials,rfl⟩ := h
    intro hclosing
    cases hclosing
  | step _ hstep ih => exact hstep.keeps.elim ih.of_keeps And.left

/-- Once the network closes, every peer that was not taken out closes, and whatever happens then,
the network stays closed and no peer starts. -/
theorem shutdown_complete (h : Reachable P c s) (hclosing : s.closing = true) :
    (∀ i, s.Present i → (s.peers i).closing = true) ∧
    ∀ s', Relation.ReflTransGen (Step P c) s s' → s'.closing = true ∧ s'.started = s.started := by
  refine ⟨fun i hi => ?_,fun s' hsteps => ?_⟩
  · exact h.closing hclosing _ i ((present_iff h.inv (s.peers i).id i).mpr ⟨hi,rfl⟩)
  · induction hsteps with
    | refl => exact ⟨hclosing,rfl⟩
    | tail _ hstep ih =>
      rcases hstep.keeps with hkeeps | ⟨_,hstarted,hstays⟩
      · exact ⟨hkeeps.closing.trans ih.1,hkeeps.started.trans ih.2⟩
      · exact ⟨hstays ih.1,(hstarted ih.1).trans ih.2⟩

namespace Sample
open IPTracker.Sample

theorem online_shutdown : ∃ s : Connections ℕ ℕ ℕ, Reachable params config s ∧
    s.closing = true ∧ online 7 s.events = true ∧
    ∀ i, s.Present i → (s.peers i).closing = true := by
  obtain ⟨s,hs,honline⟩ := online_reachable
  by_cases hopen : s.closing = true
  · exact ⟨s,hs,hopen,honline,(shutdown_complete hs hopen).1⟩
  · have hclosed := hs.step (.startClose (Bool.eq_false_iff.mpr hopen)
      (fun n => by rw [Finset.mem_toList,Finmap.mem_keys])
      (fun n => by rw [Finset.mem_toList,Finmap.mem_keys])
      (fun n => by rw [Finset.mem_toList,Finmap.mem_keys]))
    have hclosing := startClose_closes s s.trackedIPs.keys.toList s.connectingPeers.keys.toList
      s.connectedPeers.keys.toList
    have hevents := congrArg Core.events (core_startClose s s.trackedIPs.keys.toList
      s.connectingPeers.keys.toList s.connectedPeers.keys.toList)
    exact ⟨_,hclosed,hclosing,(congrArg (online 7) hevents).trans honline,
      (shutdown_complete hclosed hclosing).1⟩

end Sample
end Connections
end Landslide.Net
