import Landslide.Uptime.Bounds

/-! # Exact uptime accounting

Under a clock that never goes back, what `CalculateUptime` returns grows by one second with
every second in which tracking is off or the node is connected and not paused, from the
validator's start on, and by nothing else. A call leaves it alone: it either settles what has
accrued into the stored uptime or does not touch the account.
-/
namespace Landslide.Uptime
open Warp (ID)

/-! ## Accounts -/

namespace ValidatorData

/-- The account is in order at this time, and its last update does not lie in the future
unless the validator has yet to start. -/
structure Punctual (d : ValidatorData) (now : Time) : Prop where
  accounted : d.Accounted
  within : now.toInt - d.getStartTime.toInt ≤ maxSeconds
  last_le : d.getLastUpdated.toInt ≤ now.toInt ∨ d.getLastUpdated = d.getStartTime

def total (d : ValidatorData) (startedTracking : Bool) (connection : Option Time) (now : Time) : ℤ :=
  d.upDuration.toInt + d.accrued startedTracking connection now * second

theorem Punctual.creditedUptime_toInt {d : ValidatorData} {now : Time} (h : d.Punctual now)
    (startedTracking : Bool) (connection : Option Time) :
    (d.creditedUptime startedTracking connection now).1.toInt =
      d.total startedTracking connection now :=
  h.accounted.creditedUptime_toInt startedTracking connection h.within

theorem accrued_of_settled {d : ValidatorData} {now : Time}
    (h : now.toInt ≤ d.getLastUpdated.toInt) (startedTracking : Bool) (connection : Option Time) :
    d.accrued startedTracking connection now = 0 := by
  have hle := d.accrued_le startedTracking connection now
  rw [max_eq_left h,sub_self] at hle
  exact le_antisymm hle (d.accrued_nonneg ..)

theorem settled_credit (d : ValidatorData) (startedTracking : Bool) (connection : Option Time)
    (now : Time) : now.toInt ≤ (d.credit startedTracking connection now).getLastUpdated.toInt := by
  rw [getLastUpdated_credit]
  exact le_max_right ..

theorem Punctual.total_credit {d : ValidatorData} {now : Time} (h : d.Punctual now)
    (startedTracking : Bool) (connection : Option Time) (startedTracking' : Bool)
    (connection' : Option Time) :
    (d.credit startedTracking connection now).total startedTracking' connection' now =
      d.total startedTracking connection now := by
  rw [total,accrued_of_settled (d.settled_credit startedTracking connection now),zero_mul,add_zero,
    upDuration_credit,h.creditedUptime_toInt]

theorem Punctual.later {d : ValidatorData} {now next : Time} (h : d.Punctual now)
    (hle : now.toInt ≤ next.toInt) (hwithin : next.toInt - d.getStartTime.toInt ≤ maxSeconds) :
    d.Punctual next :=
  ⟨h.accounted,hwithin,h.last_le.imp_left (le_trans · hle)⟩

theorem Punctual.credit_before {d : ValidatorData} {now last : Time} (h : d.Punctual last)
    (hle : now.toInt ≤ last.toInt) (startedTracking : Bool) (connection : Option Time) :
    (d.credit startedTracking connection now).Punctual last := by
  have hupdated := d.getLastUpdated_credit startedTracking connection now
  refine ⟨h.accounted.credit startedTracking connection (by have := h.within; omega),?_,?_⟩
  · rw [getStartTime_credit]
    exact h.within
  · rw [getStartTime_credit]
    rcases h.last_le with hlast | hstart
    · exact .inl (by rw [hupdated]; exact max_le hlast hle)
    · rcases le_total d.getLastUpdated.toInt now.toInt with hpast | hfuture
      · exact .inl (by rw [hupdated,max_eq_right hpast]; exact hle)
      · exact .inr (Int64.toInt_inj.mp (by rw [hupdated,max_eq_left hfuture,hstart]))

theorem Punctual.credit {d : ValidatorData} {now : Time} (h : d.Punctual now)
    (startedTracking : Bool) (connection : Option Time) :
    (d.credit startedTracking connection now).Punctual now :=
  h.credit_before le_rfl startedTracking connection

theorem total_untracked (d : ValidatorData) (connection connection' : Option Time) (now : Time) :
    d.total false connection now = d.total false connection' now := rfl

theorem total_connect (d : ValidatorData) (startedTracking : Bool) (now : Time) :
    d.total startedTracking (some now) now = d.total startedTracking none now := by
  cases startedTracking with
  | false => exact d.total_untracked ..
  | true =>
    have hzero : d.accrued true (some now) now = 0 := by
      rw [accrued]
      omega
    rw [total,total,hzero,accrued]

theorem Punctual.total_tick {d : ValidatorData} {now next : Time} (h : d.Punctual now)
    (hnext : next.toInt = now.toInt + 1) {startedTracking : Bool} {connection : Option Time}
    (hconnection : ∀ t, connection = some t → t.toInt ≤ now.toInt) :
    d.total startedTracking connection next = d.total startedTracking connection now +
      if d.getStartTime.toInt ≤ now.toInt ∧ (startedTracking = false ∨ connection.isSome) then second
      else 0 := by
  have hstart := h.accounted.start_le
  have hlast : d.getLastUpdated.toInt ≤ now.toInt ∨ d.getLastUpdated.toInt = d.getStartTime.toInt :=
    h.last_le.imp_right (congrArg Int64.toInt)
  have hsecond : second = 1000000000 := rfl
  unfold total accrued
  rw [hsecond,hnext]
  cases startedTracking with
  | false =>
    simp only [true_or,and_true]
    split <;> omega
  | true =>
    cases connection with
    | none => simp
    | some timeConnected =>
      have hle := hconnection timeConnected rfl
      simp only [Option.isSome_some,or_true,and_true]
      split <;> omega

theorem Punctual.of_eq {d d' : ValidatorData} {now : Time} (h : d.Punctual now)
    (hup : d'.upDuration = d.upDuration) (hlast : d'.lastUpdated = d.lastUpdated)
    (hstart : d'.startTime = d.startTime) : d'.Punctual now := by
  have haccounted := (grows_of_eq hup hlast hstart).accounted h.accounted
  have hlast : d'.getLastUpdated = d.getLastUpdated := by rw [getLastUpdated,getLastUpdated,hlast]
  have hstart : d'.getStartTime = d.getStartTime := by rw [getStartTime,getStartTime,hstart]
  refine ⟨haccounted,?_,?_⟩
  · rw [hstart]
    exact h.within
  · rw [hlast,hstart]
    exact h.last_le

theorem total_of_eq {d d' : ValidatorData} (hup : d'.upDuration = d.upDuration)
    (hlast : d'.lastUpdated = d.lastUpdated) (startedTracking : Bool) (connection : Option Time)
    (now : Time) : d'.total startedTracking connection now = d.total startedTracking connection now := by
  have hlast : d'.getLastUpdated = d.getLastUpdated := by rw [getLastUpdated,getLastUpdated,hlast]
  unfold total accrued
  rw [hup,hlast]

theorem punctual_new {vdr : Validator} {now : Time}
    (h : now.toInt - (new vdr).getStartTime.toInt ≤ maxSeconds) : (new vdr).Punctual now :=
  ⟨accounted_new vdr,h,.inr rfl⟩

end ValidatorData

/-! ## What a call leaves alone -/

namespace System

/-- What `CalculateUptime` returns for a validator. -/
def total (s : System) (now : Time) (d : ValidatorData) : ℤ :=
  d.total s.manager.startedTracking (s.manager.connections d.nodeID) now

def Kept (now : Time) (s s' : System) (d d' : ValidatorData) : Prop :=
  d.Punctual now → d'.Punctual now ∧ s'.total now d' = s.total now d

structure Keeps (now : Time) (s s' : System) : Prop where
  accounts : ∀ vID d', s'.state.data.lookup vID = some d' →
    ∃ d, s.state.data.lookup vID = some d ∧ Kept now s s' d d'
  connections : ∀ nodeID t, s'.manager.connections nodeID = some t →
    s.manager.connections nodeID = some t ∨ t = now

variable {now : Time}

theorem Keeps.trans {s s' s'' : System} (h : Keeps now s s') (h' : Keeps now s' s'') :
    Keeps now s s'' where
  accounts vID d'' hd'' := by
    obtain ⟨d',hd',hkept'⟩ := h'.accounts vID d'' hd''
    obtain ⟨d,hd,hkept⟩ := h.accounts vID d' hd'
    refine ⟨d,hd,fun hd => ?_⟩
    obtain ⟨hp',ht'⟩ := hkept hd
    obtain ⟨hp'',ht''⟩ := hkept' hp'
    exact ⟨hp'',ht''.trans ht'⟩
  connections nodeID t ht := by
    rcases h'.connections nodeID t ht with ht | ht
    · exact h.connections nodeID t ht
    · exact .inr ht

theorem keeps_of_eq {s s' : System} (hstate : s'.state = s.state)
    (htracking : s'.manager.startedTracking = s.manager.startedTracking)
    (hconnections : s'.manager.connections = s.manager.connections) : Keeps now s s' where
  accounts vID d hd := by
    rw [hstate] at hd
    refine ⟨d,hd,fun h => ⟨h,?_⟩⟩
    rw [total,total,htracking,hconnections]
  connections nodeID t ht := .inl (hconnections ▸ ht)

theorem Keeps.refl (s : System) : Keeps now s s := keeps_of_eq rfl rfl rfl

theorem keeps_of_state {s : System} {state : State}
    (h : ∀ vID d', state.data.lookup vID = some d' → ∃ d, s.state.data.lookup vID = some d ∧
      d'.upDuration = d.upDuration ∧ d'.lastUpdated = d.lastUpdated ∧ d'.startTime = d.startTime ∧
      d'.nodeID = d.nodeID) : Keeps now s { s with state } where
  accounts vID d' hd' := by
    obtain ⟨d,hd,hup,hlast,hstart,hnode⟩ := h vID d' hd'
    refine ⟨d,hd,fun hp => ⟨hp.of_eq hup hlast hstart,?_⟩⟩
    rw [total,total,hnode,ValidatorData.total_of_eq hup hlast]
  connections nodeID t ht := .inl ht

theorem managerDisconnect_keeps (s : System) (nodeID : NodeID) :
    Keeps now s (s.managerDisconnect nodeID now).2 := by
  have hmanager := s.managerDisconnect_manager nodeID now
  have hconnections : ∀ n, (s.managerDisconnect nodeID now).2.manager.connections n =
      if n = nodeID then none else s.manager.connections n := by
    intro n
    rw [hmanager]
    exact Function.update_apply ..
  refine ⟨fun v d' hd' => ?_,fun n t ht => ?_⟩
  · by_cases htracking : s.manager.startedTracking = true
    · -- the node is settled before its connection goes
      have hstate : (s.managerDisconnect nodeID now).2.state =
          (s.manager.updateUptime s.state nodeID now).2 := by
        rw [managerDisconnect,if_neg (by simp [htracking])]
      rw [hstate,Manager.updateUptime_lookup,Option.map_eq_some_iff] at hd'
      obtain ⟨d,hd,rfl⟩ := hd'
      refine ⟨d,hd,fun hp => ?_⟩
      unfold Manager.creditNode
      by_cases hn : d.nodeID = nodeID
      · rw [if_pos hn]
        refine ⟨hp.credit _ _,?_⟩
        rw [total,total,hp.total_credit,hn]
      · rw [if_neg hn]
        refine ⟨hp,?_⟩
        rw [total,total,hconnections,if_neg hn,hmanager]
        rfl
    · have htracking : s.manager.startedTracking = false := by simpa using htracking
      have hstate : (s.managerDisconnect nodeID now).2.state = s.state := by
        rw [managerDisconnect,if_pos (by simp [htracking])]
      rw [hstate] at hd'
      refine ⟨d',hd',fun hp => ⟨hp,?_⟩⟩
      have htracking' : (s.managerDisconnect nodeID now).2.manager.startedTracking = false := by
        rw [hmanager]
        exact htracking
      rw [total,total,htracking,htracking']
      exact d'.total_untracked ..
  · rw [hconnections] at ht
    split at ht
    · cases ht
    · exact .inl ht

theorem managerConnect_keeps {s : System} {nodeID : NodeID}
    (h : s.manager.connections nodeID = none) : Keeps now s (s.managerConnect nodeID now) := by
  have hconnections : ∀ n, (s.managerConnect nodeID now).manager.connections n =
      if n = nodeID then some now else s.manager.connections n :=
    fun n => Function.update_apply ..
  refine ⟨fun v d hd => ⟨d,hd,fun hp => ⟨hp,?_⟩⟩,fun n t ht => ?_⟩
  · rw [total,total,hconnections]
    split
    · next hn =>
      rw [hn,h]
      exact d.total_connect ..
    · rfl
  · rw [hconnections] at ht
    split at ht
    · cases ht
      exact .inr rfl
    · exact .inl ht

theorem connections_of_not_isConnected {m : Manager} {nodeID : NodeID}
    (h : (!m.isConnected nodeID) = true) : m.connections nodeID = none := by
  simpa [Manager.isConnected] using h

theorem pause_keeps (s : System) (nodeID : NodeID) : Keeps now s (s.pause nodeID now).2 := by
  have hpaused : Keeps now s (s.withPaused (insert nodeID s.manager.pausedVdrs)) :=
    keeps_of_eq rfl rfl rfl
  unfold pause
  dsimp only
  split
  · exact hpaused.trans (managerDisconnect_keeps _ nodeID)
  · exact hpaused

theorem resume_keeps (s : System) (nodeID : NodeID) : Keeps now s (s.resume nodeID now).2 := by
  have hpaused : Keeps now s (s.withPaused (s.manager.pausedVdrs.erase nodeID)) :=
    keeps_of_eq rfl rfl rfl
  unfold resume
  dsimp only
  split
  · next h => exact hpaused.trans (managerConnect_keeps (connections_of_not_isConnected h.2))
  · exact hpaused

theorem connect_keeps (s : System) (nodeID : NodeID) : Keeps now s (s.connect nodeID now).2 := by
  have hconnected : Keeps now s (s.withConnected (insert nodeID s.manager.connectedVdrs)) :=
    keeps_of_eq rfl rfl rfl
  unfold connect
  dsimp only
  split
  · next h =>
    exact hconnected.trans
      (managerConnect_keeps (connections_of_not_isConnected (Bool.and_eq_true_iff.mp h).2))
  · exact hconnected

theorem disconnect_keeps (s : System) (nodeID : NodeID) :
    Keeps now s (s.disconnect nodeID now).2 := by
  have hconnected : Keeps now s (s.withConnected (s.manager.connectedVdrs.erase nodeID)) :=
    keeps_of_eq rfl rfl rfl
  unfold disconnect
  dsimp only
  split
  · split
    · exact hconnected
    · exact hconnected.trans (managerDisconnect_keeps _ nodeID)
  · exact hconnected

theorem logged_keeps {s : System} {called : Called} (h : Keeps now s called.2) :
    Keeps now s (logged called) := by
  unfold logged
  split
  · exact h
  · exact h.trans (keeps_of_eq rfl rfl rfl)

theorem onValidatorAdded_keeps (nodeID : NodeID) (isActive : Bool) (s : System) :
    Keeps now s (onValidatorAdded nodeID isActive now s) := by
  unfold onValidatorAdded
  split
  · exact logged_keeps (s.pause_keeps nodeID)
  · exact .refl s

theorem onValidatorRemoved_keeps (nodeID : NodeID) (s : System) :
    Keeps now s (onValidatorRemoved nodeID now s) := by
  unfold onValidatorRemoved
  split
  · exact logged_keeps (s.resume_keeps nodeID)
  · exact .refl s

theorem onValidatorStatusUpdated_keeps (nodeID : NodeID) (isActive : Bool) (s : System) :
    Keeps now s (onValidatorStatusUpdated nodeID isActive now s) := by
  unfold onValidatorStatusUpdated
  cases isActive with
  | false => exact logged_keeps (s.pause_keeps nodeID)
  | true => exact logged_keeps (s.resume_keeps nodeID)

theorem notify_keeps {callback : System → System} (h : ∀ s, Keeps now s (callback s)) (s : System) :
    Keeps now s (notify callback s) := by
  have hrepeat : ∀ k, Keeps now s (callback^[k] s) := by
    intro k
    induction k with
    | zero => exact .refl s
    | succ k ih =>
      rw [Function.iterate_succ_apply']
      exact ih.trans (h _)
  exact hrepeat s.listeners

theorem setIsActive_keeps (s : System) (vID : ID) (isActive : Bool) :
    Keeps now s { s with state := s.state.setIsActive vID isActive } := by
  refine keeps_of_state fun v d' hd' => ?_
  rw [State.setIsActive_lookup,Option.map_eq_some_iff] at hd'
  obtain ⟨d,hd,rfl⟩ := hd'
  refine ⟨d,hd,?_⟩
  split <;> exact ⟨rfl,rfl,rfl,rfl⟩

theorem setWeight_keeps (s : System) (vID : ID) (weight : UInt64) :
    Keeps now s { s with state := s.state.setWeight vID weight } := by
  refine keeps_of_state fun v d' hd' => ?_
  rw [State.setWeight_lookup,Option.map_eq_some_iff] at hd'
  obtain ⟨d,hd,rfl⟩ := hd'
  refine ⟨d,hd,?_⟩
  split <;> exact ⟨rfl,rfl,rfl,rfl⟩

theorem eraseData_keeps (s : System) (vID : ID) :
    Keeps now s { s with state := s.state.eraseData vID } := by
  refine keeps_of_state fun v d hd => ⟨d,?_,rfl,rfl,rfl,rfl⟩
  by_cases hv : v = vID
  · rw [hv,State.eraseData_data,Finmap.lookup_erase] at hd
    cases hd
  · rwa [State.eraseData_data,Finmap.lookup_erase_ne hv] at hd

theorem mark_keeps (s : System) (vID : ID) (status : DbUpdateStatus) :
    Keeps now s { s with state := s.state.mark vID status } :=
  keeps_of_state fun _ d hd => ⟨d,hd,rfl,rfl,rfl,rfl⟩

theorem setStatus_keeps (s : System) (vID : ID) (isActive : Bool) :
    Keeps now s (s.setStatus vID isActive now).2 :=
  s.setStatus_cases vID isActive now (.refl s) fun d _ =>
    ((s.setIsActive_keeps vID isActive).trans (mark_keeps _ _ _)).trans
      (notify_keeps (onValidatorStatusUpdated_keeps d.nodeID isActive) _)

theorem deleteValidator_keeps (s : System) (vID : ID) :
    Keeps now s (s.deleteValidator vID now).2 :=
  s.deleteValidator_cases vID now (fun _ => .refl s) fun d _ =>
    ((s.eraseData_keeps d.validationID).trans (mark_keeps _ _ _)).trans
      (notify_keeps (onValidatorRemoved_keeps d.nodeID) _)

theorem updateValidator_keeps (s : System) (vdr : Validator) :
    Keeps now s (s.updateValidator vdr now).2 := by
  rcases s.updateValidator_cases vdr now (Keeps.refl s : Keeps now s s)
    (fun d _ => (s.setIsActive_keeps _ _).trans
      (notify_keeps (onValidatorStatusUpdated_keeps d.nodeID vdr.isActive) _))
    (fun t ht => ht.trans (t.setWeight_keeps _ _)) with heq | ⟨d,t,_,ht,heq⟩
  · rw [heq]
    exact .refl s
  · rw [heq]
    exact ht.trans (mark_keeps _ _ _)

/-! ## Switching tracking -/

def Settled (state : State) (nodes : List NodeID) (now : Time) : Prop :=
  ∀ vID d, state.data.lookup vID = some d → d.nodeID ∈ nodes → now.toInt ≤ d.getLastUpdated.toInt

theorem updateUptime_keeps (s : System) (nodeID : NodeID) :
    Keeps now s { s with state := (s.manager.updateUptime s.state nodeID now).2 } := by
  refine ⟨fun v d' hd' => ?_,fun n t ht => .inl ht⟩
  rw [Manager.updateUptime_lookup,Option.map_eq_some_iff] at hd'
  obtain ⟨d,hd,rfl⟩ := hd'
  refine ⟨d,hd,fun hp => ?_⟩
  unfold Manager.creditNode
  by_cases hn : d.nodeID = nodeID
  · rw [if_pos hn]
    refine ⟨hp.credit _ _,?_⟩
    rw [total,total,hp.total_credit,hn]
  · rw [if_neg hn]
    exact ⟨hp,rfl⟩

theorem updateUptime_settled (m : Manager) {state : State} {nodes : List NodeID}
    (h : Settled state nodes now) (nodeID : NodeID) :
    Settled (m.updateUptime state nodeID now).2 (nodeID :: nodes) now := by
  intro v d' hd' hmem
  rw [Manager.updateUptime_lookup,Option.map_eq_some_iff] at hd'
  obtain ⟨d,hd,rfl⟩ := hd'
  by_cases hn : d.nodeID = nodeID
  · rw [Manager.creditNode,if_pos hn]
    exact d.settled_credit ..
  · rw [Manager.creditNode,if_neg hn] at hmem ⊢
    exact h v d hd ((List.mem_cons.mp hmem).resolve_left hn)

theorem updateUptimes_settles (m : Manager) {nodes : List (NodeID × Time)}
    (hnow : ∀ entry ∈ nodes, entry.2 = now) {state : State} {settled : List NodeID}
    (h : Settled state settled now) (hnone : (m.updateUptimes state nodes).1 = none) :
    Settled (m.updateUptimes state nodes).2 ((nodes.map Prod.fst).reverse ++ settled) now := by
  induction nodes generalizing state settled with
  | nil => exact h
  | cons entry rest ih =>
    have hentry := hnow entry List.mem_cons_self
    have hone := updateUptime_settled m h entry.1
    rw [← hentry] at hone
    rw [Manager.updateUptimes] at hnone ⊢
    cases hupdate : m.updateUptime state entry.1 entry.2 with
    | mk err state' =>
      rw [hupdate] at hone hnone
      cases err with
      | some err => cases hnone
      | none =>
        rw [hentry] at hone
        have hrest := ih (fun e he => hnow e (List.mem_cons_of_mem _ he)) hone hnone
        simpa using hrest

theorem updateUptimes_keeps (s : System) {nodes : List (NodeID × Time)}
    (hnow : ∀ entry ∈ nodes, entry.2 = now) :
    Keeps now s { s with state := (s.manager.updateUptimes s.state nodes).2 } := by
  induction nodes generalizing s with
  | nil => exact .refl s
  | cons entry rest ih =>
    have hentry := hnow entry List.mem_cons_self
    have hone : Keeps now s { s with state := (s.manager.updateUptime s.state entry.1 now).2 } :=
      s.updateUptime_keeps entry.1
    rw [← hentry] at hone
    rw [Manager.updateUptimes]
    cases hupdate : s.manager.updateUptime s.state entry.1 entry.2 with
    | mk err state =>
      rw [hupdate,hentry] at hone
      cases err with
      | some err => exact hone
      | none =>
        exact hone.trans (ih { s with state } fun e he => hnow e (List.mem_cons_of_mem _ he))

theorem withTracking_keeps {s : System} {nodes : List NodeID} (h : Settled s.state nodes now)
    (hall : ∀ vID d, s.state.data.lookup vID = some d → d.nodeID ∈ nodes) (startedTracking : Bool) :
    Keeps now s (s.withTracking startedTracking) := by
  refine ⟨fun v d hd => ⟨d,hd,fun hp => ⟨hp,?_⟩⟩,fun n t ht => .inl ht⟩
  have hsettled := h v d hd (hall v d hd)
  rw [total,total,ValidatorData.total,ValidatorData.total,
    ValidatorData.accrued_of_settled hsettled,ValidatorData.accrued_of_settled hsettled]

/-- The nodes are those of all current validators. -/
def Covers (s : System) (nodes : List (NodeID × Time)) : Prop :=
  ∀ vID d, s.state.data.lookup vID = some d → d.nodeID ∈ nodes.map Prod.fst

instance (s : System) (nodes : List (NodeID × Time)) : Decidable (s.Covers nodes) :=
  decidable_of_iff' _ State.forall_lookup_iff

theorem track_keeps {s : System} {nodes : List (NodeID × Time)} (hall : s.Covers nodes)
    (hnow : ∀ entry ∈ nodes, entry.2 = now)
    (hnone : (s.manager.updateUptimes s.state nodes).1 = none) (startedTracking : Bool) :
    Keeps now s { s.withTracking startedTracking with
      state := (s.manager.updateUptimes s.state nodes).2 } := by
  have hkeeps := s.updateUptimes_keeps hnow
  have hempty : Settled s.state [] now := fun _ _ _ hmem => nomatch hmem
  have hsettled := updateUptimes_settles s.manager.toManager hnow hempty hnone
  refine hkeeps.trans (withTracking_keeps hsettled (fun v d' hd' => ?_) startedTracking)
  have hvalidator := Manager.updateUptimes_absorbed (R := fun s s' => s'.getValidator = s.getValidator)
    s.manager.toManager (fun _ => rfl) (fun entry (_ : entry ∈ nodes) => Absorbs.getValidator entry.2)
    s.state
  have hget := State.getValidator_of_lookup _ hd'
  rw [hvalidator] at hget
  obtain ⟨d,hd,hdd'⟩ := s.state.lookup_of_getValidator hget
  have hnode : d'.nodeID = d.nodeID := (congrArg Validator.nodeID hdd').symm
  rw [hnode,List.append_nil,List.mem_reverse]
  exact hall v d hd

/-! ## One call -/

structure Carries (now : Time) (s s' : System) : Prop where
  accounts : ∀ vID d', s'.state.data.lookup vID = some d' →
    (∃ d, s.state.data.lookup vID = some d ∧ Kept now s s' d d') ∨
      s.state.data.lookup vID = none ∧ d'.Punctual now
  connections : ∀ nodeID t, s'.manager.connections nodeID = some t →
    s.manager.connections nodeID = some t ∨ t = now

theorem Keeps.carries {s s' : System} (h : Keeps now s s') : Carries now s s' :=
  ⟨fun v d' hd' => .inl (h.accounts v d' hd'),h.connections⟩

theorem addValidator_carries (s : System) (vdr : Validator)
    (hnew : now.toInt - (ValidatorData.new vdr).getStartTime.toInt ≤ maxSeconds) :
    Carries now s (s.addValidator vdr now).2 := by
  refine s.addValidator_cases vdr now (Keeps.refl s).carries fun state hadd => ?_
  obtain ⟨hv,hn,rfl⟩ := s.state.addData_ok_iff.mp hadd
  set t : System := { s with state :=
    (s.state.insertData (.new vdr) hv hn).mark vdr.validationID .updatedStatus } with ht
  have hkeeps : Keeps now t (notify (onValidatorAdded vdr.nodeID vdr.isActive now) t) :=
    notify_keeps (onValidatorAdded_keeps vdr.nodeID vdr.isActive) t
  refine ⟨fun v d' hd' => ?_,hkeeps.connections⟩
  obtain ⟨d,hd,hkept⟩ := hkeeps.accounts v d' hd'
  rw [ht,State.mark_data,State.insertData_data] at hd
  by_cases hvID : v = (ValidatorData.new vdr).validationID
  · rw [hvID] at hd ⊢
    rw [Finmap.lookup_insert] at hd
    cases hd
    exact .inr ⟨Finmap.lookup_eq_none.mpr hv,(hkept (ValidatorData.punctual_new hnew)).1⟩
  · rw [Finmap.lookup_insert_of_ne _ hvID] at hd
    exact .inl ⟨d,hd,hkept⟩

/-- The clock does not go back during a call, a call that reads it once does so now, and tracking
is switched for all validators with success. -/
def Op.Permitted (s : System) (now : Time) (op : Op) : Prop :=
  (now :: op.readings).Pairwise (fun r r' => r.toInt ≤ r'.toInt) ∧
    s.state.Timely (op.readings.getLastD now) ∧
    match op with
    | .addValidator vdr r =>
      r = now ∧ now.toInt - (ValidatorData.new vdr).getStartTime.toInt ≤ maxSeconds
    | .updateValidator _ r | .deleteValidator _ r | .setStatus _ _ r | .connect _ r
    | .disconnect _ r => r = now
    | .startTracking nodes => s.Covers nodes ∧ (s.startTracking nodes).1 = none
    | .stopTracking nodes => s.Covers nodes ∧ (s.stopTracking nodes).1 = none
    | .registerListener _ => False

instance (s : System) (now : Time) (op : Op) : Decidable (op.Permitted s now) := by
  cases op <;> unfold Op.Permitted <;> infer_instance

/-- The call is over before the clock's second changes. -/
def Op.Prompt (now : Time) (op : Op) : Prop := ∀ r ∈ op.readings, r = now

instance (now : Time) (op : Op) : Decidable (op.Prompt now) :=
  List.decidableBAll (fun r => r = now) op.readings

theorem le_getLastD {now : Time} {readings : List Time}
    (h : (now :: readings).Pairwise fun r r' => r.toInt ≤ r'.toInt) :
    ∀ r ∈ now :: readings, r.toInt ≤ (readings.getLastD now).toInt := by
  induction readings generalizing now with
  | nil => exact fun r hr => (congrArg Int64.toInt (List.mem_singleton.mp hr)).le
  | cons next rest ih =>
    obtain ⟨hnow,hrest⟩ := List.pairwise_cons.mp h
    rw [List.getLastD_cons]
    refine List.forall_mem_cons.mpr ⟨?_,ih hrest⟩
    exact (hnow next List.mem_cons_self).trans (ih hrest next List.mem_cons_self)

/-- A call that has switched tracking for all validators. -/
structure Switches (s : System) (op : Op) (nodes : List (NodeID × Time)) (startedTracking : Bool) :
    Prop where
  readings : op.readings = nodes.map Prod.snd
  covers : s.Covers nodes
  updated : (s.manager.updateUptimes s.state nodes).1 = none
  step : s.step op = { s.withTracking startedTracking with
    state := (s.manager.updateUptimes s.state nodes).2 }

theorem switches_of_none {s : System} {op : Op} {nodes : List (NodeID × Time)}
    {startedTracking : Bool} (hreadings : op.readings = nodes.map Prod.snd) (hall : s.Covers nodes)
    (hcalled : s.call op = match s.manager.updateUptimes s.state nodes with
      | (some err,state) => (some err,{ s with state })
      | (none,state) => (none,{ s.withTracking startedTracking with state }))
    (hnone : (s.call op).1 = none) : s.Switches op nodes startedTracking := by
  obtain ⟨herr,hstate,hmanager,hlisteners,hcrashed⟩ := s.track_cases startedTracking nodes _ hcalled
  rw [if_pos hnone] at hmanager
  refine ⟨hreadings,hall,herr ▸ hnone,?_⟩
  rw [← hstate]
  exact System.ext rfl hmanager hlisteners hcrashed

theorem startTracking_switches {s : System} {nodes : List (NodeID × Time)}
    (h : (Op.startTracking nodes).Permitted s now) : s.Switches (.startTracking nodes) nodes true := by
  obtain ⟨_,_,hall,hnone⟩ := h
  by_cases hstarted : s.manager.startedTracking = true
  · rw [startTracking,if_pos hstarted] at hnone
    cases hnone
  · exact switches_of_none rfl hall (if_neg hstarted) hnone

theorem stopTracking_switches {s : System} {nodes : List (NodeID × Time)}
    (h : (Op.stopTracking nodes).Permitted s now) : s.Switches (.stopTracking nodes) nodes false := by
  obtain ⟨_,_,hall,hnone⟩ := h
  by_cases hstarted : (!s.manager.startedTracking) = true
  · rw [stopTracking,if_pos hstarted] at hnone
    cases hnone
  · exact switches_of_none rfl hall (if_neg hstarted) hnone

theorem Switches.carries {s : System} {op : Op} {nodes : List (NodeID × Time)}
    {startedTracking : Bool} (h : s.Switches op nodes startedTracking) (hprompt : op.Prompt now) :
    Carries now s (s.step op) := by
  rw [Op.Prompt,h.readings] at hprompt
  rw [h.step]
  exact (track_keeps h.covers (fun entry he => hprompt _ (List.mem_map_of_mem he)) h.updated
    startedTracking).carries

theorem step_carries {s : System} {op : Op} (h : op.Permitted s now) (hprompt : op.Prompt now) :
    Carries now s (s.step op) := by
  cases op with
  | addValidator vdr r =>
    obtain rfl := h.2.2.1
    exact s.addValidator_carries vdr h.2.2.2
  | updateValidator vdr r =>
    cases h.2.2
    exact (s.updateValidator_keeps vdr).carries
  | deleteValidator vID r =>
    cases h.2.2
    exact (s.deleteValidator_keeps vID).carries
  | setStatus vID isActive r =>
    cases h.2.2
    exact (s.setStatus_keeps vID isActive).carries
  | registerListener order => exact h.2.2.elim
  | connect nodeID r =>
    cases h.2.2
    exact (s.connect_keeps nodeID).carries
  | disconnect nodeID r =>
    cases h.2.2
    exact (s.disconnect_keeps nodeID).carries
  | startTracking nodes => exact (startTracking_switches h).carries hprompt
  | stopTracking nodes => exact (stopTracking_switches h).carries hprompt

theorem updateUptimes_punctual (m : Manager) {nodes : List (NodeID × Time)} {last : Time}
    (hle : ∀ entry ∈ nodes, entry.2.toInt ≤ last.toInt) {state : State}
    (h : ∀ vID d, state.data.lookup vID = some d → d.Punctual last) :
    ∀ vID d, (m.updateUptimes state nodes).2.data.lookup vID = some d → d.Punctual last := by
  induction nodes generalizing state with
  | nil => exact h
  | cons entry rest ih =>
    have hone : ∀ vID d, (m.updateUptime state entry.1 entry.2).2.data.lookup vID = some d →
        d.Punctual last := by
      intro vID d' hd'
      rw [Manager.updateUptime_lookup,Option.map_eq_some_iff] at hd'
      obtain ⟨d,hd,rfl⟩ := hd'
      unfold Manager.creditNode
      split
      · exact (h vID d hd).credit_before (hle entry List.mem_cons_self) _ _
      · exact h vID d hd
    rw [Manager.updateUptimes]
    cases hupdate : m.updateUptime state entry.1 entry.2 with
    | mk err state' =>
      rw [hupdate] at hone
      cases err with
      | some err => exact hone
      | none => exact ih (fun e he => hle e (List.mem_cons_of_mem _ he)) hone

/-! ## What the calls say -/

/-- What can be told from the calls alone: how often the manager was registered, whether tracking
was switched on, and the nodes whose last call was `Connect`. -/
structure Seen where
  registered : ℕ
  tracking : Bool
  connected : Finset NodeID

def Seen.after (v : Seen) : Op → Seen
  | .registerListener _ => { v with registered := v.registered + 1 }
  | .startTracking _ => { v with tracking := true }
  | .stopTracking _ => { v with tracking := false }
  | .connect nodeID _ => { v with connected := insert nodeID v.connected }
  | .disconnect nodeID _ => { v with connected := v.connected.erase nodeID }
  | _ => v

def seen (s : System) : Seen := ⟨s.listeners,s.manager.startedTracking,s.manager.connectedVdrs⟩

section
variable (s : System) (nodeID : NodeID) (isActive : Bool) (now : Time)

theorem seen_managerDisconnect : (s.managerDisconnect nodeID now).2.seen = s.seen := by
  unfold managerDisconnect
  split <;> rfl

theorem seen_logged (called : Called) : (logged called).seen = called.2.seen := by
  unfold logged
  split <;> rfl

theorem seen_pause : (logged (s.pause nodeID now)).seen = s.seen := by
  rw [seen_logged]
  unfold pause
  dsimp only
  split
  · exact seen_managerDisconnect _ _ _
  · rfl

theorem seen_resume : (logged (s.resume nodeID now)).seen = s.seen := by
  rw [seen_logged]
  unfold resume
  dsimp only
  split <;> rfl

theorem seen_notify {callback : System → System} (h : ∀ s, (callback s).seen = s.seen) :
    (notify callback s).seen = s.seen := by
  have hrepeat : ∀ k, (callback^[k] s).seen = s.seen := by
    intro k
    induction k with
    | zero => rfl
    | succ k ih => rw [Function.iterate_succ_apply',h,ih]
  exact hrepeat s.listeners

theorem seen_onValidatorAdded : (onValidatorAdded nodeID isActive now s).seen = s.seen := by
  unfold onValidatorAdded
  split
  · exact s.seen_pause nodeID now
  · rfl

theorem seen_onValidatorRemoved : (onValidatorRemoved nodeID now s).seen = s.seen := by
  unfold onValidatorRemoved
  split
  · exact s.seen_resume nodeID now
  · rfl

theorem seen_onValidatorStatusUpdated :
    (onValidatorStatusUpdated nodeID isActive now s).seen = s.seen := by
  cases isActive with
  | false => exact s.seen_pause nodeID now
  | true => exact s.seen_resume nodeID now

end

theorem step_seen {s : System} {op : Op} {now : Time} (h : op.Permitted s now) :
    (s.step op).seen = s.seen.after op := by
  cases op with
  | addValidator vdr r =>
    exact s.addValidator_cases (P := fun t => t.seen = s.seen) vdr r rfl
      fun _ _ => seen_notify _ fun t => t.seen_onValidatorAdded ..
  | updateValidator vdr r =>
    rcases s.updateValidator_cases vdr r (P := fun t => t.seen = s.seen) rfl
      (fun d _ => seen_notify _ fun t => t.seen_onValidatorStatusUpdated ..)
      (fun t ht => ht) with heq | ⟨d,t,_,ht,heq⟩
    · exact congrArg seen heq
    · exact (congrArg seen heq).trans ht
  | deleteValidator vID r =>
    exact s.deleteValidator_cases (P := fun t => t.seen = s.seen) vID r (fun _ => rfl)
      fun _ _ => seen_notify _ fun t => t.seen_onValidatorRemoved ..
  | setStatus vID isActive r =>
    exact s.setStatus_cases (P := fun t => t.seen = s.seen) vID isActive r rfl
      fun _ _ => seen_notify _ fun t => t.seen_onValidatorStatusUpdated ..
  | registerListener order => exact h.2.2.elim
  | connect nodeID r =>
    change (s.connect nodeID r).2.seen = _
    unfold connect
    dsimp only
    split <;> rfl
  | disconnect nodeID r =>
    change (s.disconnect nodeID r).2.seen = _
    unfold disconnect
    dsimp only
    split
    · split
      · rfl
      · exact seen_managerDisconnect _ _ _
    · rfl
  | startTracking nodes => exact congrArg seen (startTracking_switches h).step
  | stopTracking nodes => exact congrArg seen (stopTracking_switches h).step

/-! ## Runs under a clock -/

structure Moment where
  system : System
  seen : Seen
  now : Time

/-- A second passes, or a call is made. -/
inductive Event where
  | tick (next : Time)
  | call (op : Op)

namespace Moment

/-- A call ends at the last of its readings. -/
def step (m : Moment) : Event → Moment
  | .tick next => ⟨m.system,m.seen,next⟩
  | .call op => ⟨m.system.step op,m.seen.after op,op.readings.getLastD m.now⟩

theorem step_tick (m : Moment) (next : Time) : m.step (.tick next) = ⟨m.system,m.seen,next⟩ := rfl

/-- The clock does not go back, and durations can hold the time since every start. -/
def Allows (m : Moment) : Event → Prop
  | .tick next => next.toInt = m.now.toInt + 1 ∧ m.system.state.Timely next
  | .call op => op.Permitted m.system m.now

instance (m : Moment) (e : Event) : Decidable (m.Allows e) := by
  cases e <;> unfold Allows <;> infer_instance

def Prompt (m : Moment) : Event → Prop
  | .tick _ => True
  | .call op => op.Prompt m.now

instance (m : Moment) (e : Event) : Decidable (m.Prompt e) := by
  cases e <;> unfold Prompt <;> infer_instance

theorem now_of_prompt {m : Moment} {op : Op} (h : op.Prompt m.now) :
    (m.step (.call op)).now = m.now :=
  (List.mem_cons.mp List.getLastD_mem_cons).elim id (h _)

def Start (m : Moment) : Prop :=
  ∃ (state : State) (order : List (ID × Time)),
    (∀ vID d, state.data.lookup vID = some d → d.Punctual m.now) ∧
    (∀ vID, vID ∈ state.data → vID ∈ order.map Prod.fst) ∧ (∀ entry ∈ order, entry.2 = m.now) ∧
    m.system = (System.new state).registerListener order ∧ m.seen = ⟨1,false,∅⟩

def Reached (m : Moment) : Prop := Reaches Start Allows step m

structure InOrder (m : Moment) : Prop where
  inStep : m.system.InStep
  seen : m.system.seen = m.seen
  registered : 0 < m.seen.registered
  punctual : ∀ vID d, m.system.state.data.lookup vID = some d → d.Punctual m.now
  connections : ∀ nodeID t, m.system.manager.connections nodeID = some t → t.toInt ≤ m.now.toInt

theorem registerListener_keeps (s : System) {order : List (ID × Time)} {now : Time}
    (hnow : ∀ entry ∈ order, entry.2 = now) : Keeps now s (s.registerListener order) := by
  have hfold : ∀ t : System, Keeps now t
      (order.foldl (fun s entry => s.announce entry.1 entry.2) t) := by
    induction order with
    | nil => exact Keeps.refl
    | cons entry rest ih =>
      intro t
      have hone : Keeps now t (t.announce entry.1 entry.2) := by
        rw [hnow entry List.mem_cons_self,announce]
        cases t.state.data.lookup entry.1 with
        | none => exact .refl t
        | some d => exact onValidatorAdded_keeps ..
      exact hone.trans (ih (fun e he => hnow e (List.mem_cons_of_mem _ he)) _)
  have hlisteners : Keeps now s { s with listeners := s.listeners + 1 } := keeps_of_eq rfl rfl rfl
  exact hlisteners.trans (hfold _)

theorem Start.inOrder {m : Moment} (h : m.Start) : m.InOrder := by
  obtain ⟨state,order,hpunctual,horder,hnow,hsystem,hseen⟩ := h
  have hkeeps := registerListener_keeps (System.new state) hnow
  rw [← hsystem] at hkeeps
  have hfold : ∀ (order : List (ID × Time)) (t : System),
      (order.foldl (fun s entry => s.announce entry.1 entry.2) t).seen = t.seen := by
    intro order
    induction order with
    | nil => exact fun t => rfl
    | cons entry rest ih =>
      intro t
      refine (ih _).trans ?_
      change (t.announce entry.1 entry.2).seen = t.seen
      unfold announce
      split
      · rfl
      · exact t.seen_onValidatorAdded ..
  refine ⟨?_,?_,by rw [hseen]; exact Nat.one_pos,fun v d' hd' => ?_,fun n t ht => ?_⟩
  · rw [hsystem]
    exact registerListener_inStep (inStep_new state) horder
  · rw [hsystem,hseen]
    exact hfold order _
  · obtain ⟨d,hd,hkept⟩ := hkeeps.accounts v d' hd'
    exact (hkept (hpunctual v d hd)).1
  · rcases hkeeps.connections n t ht with hnew | rfl
    · cases hnew
    · exact le_rfl

theorem InOrder.track {m : Moment} (h : m.InOrder) {op : Op} (he : op.Permitted m.system m.now)
    {nodes : List (NodeID × Time)} {startedTracking : Bool}
    (hs : m.system.Switches op nodes startedTracking) :
    (∀ vID d, (m.system.step op).state.data.lookup vID = some d →
      d.Punctual (op.readings.getLastD m.now)) ∧
    ∀ nodeID t, (m.system.step op).manager.connections nodeID = some t →
      t.toInt ≤ (op.readings.getLastD m.now).toInt := by
  have hlast := le_getLastD he.1
  have hle := hlast m.now List.mem_cons_self
  rw [hs.step]
  refine ⟨?_,fun n t ht => (h.connections n t ht).trans hle⟩
  refine updateUptimes_punctual _ (fun entry hentry => ?_) fun vID d hd => ?_
  · exact hlast _ (List.mem_cons_of_mem _ (hs.readings ▸ List.mem_map_of_mem hentry))
  · exact (h.punctual vID d hd).later hle (he.2.1 vID d hd)

theorem InOrder.call {m : Moment} (h : m.InOrder) {op : Op} (he : op.Permitted m.system m.now) :
    (∀ vID d, (m.system.step op).state.data.lookup vID = some d →
      d.Punctual (op.readings.getLastD m.now)) ∧
    ∀ nodeID t, (m.system.step op).manager.connections nodeID = some t →
      t.toInt ≤ (op.readings.getLastD m.now).toInt := by
  have hprompt : op.Prompt m.now → (∀ vID d, (m.system.step op).state.data.lookup vID = some d →
      d.Punctual (op.readings.getLastD m.now)) ∧
      ∀ nodeID t, (m.system.step op).manager.connections nodeID = some t →
        t.toInt ≤ (op.readings.getLastD m.now).toInt := by
    intro hprompt
    have hcarries := step_carries he hprompt
    have hsame : op.readings.getLastD m.now = m.now := now_of_prompt hprompt
    rw [hsame]
    refine ⟨fun v d' hd' => ?_,fun n t ht => ?_⟩
    · rcases hcarries.accounts v d' hd' with ⟨d,hd,hkept⟩ | ⟨_,hnew⟩
      · exact (hkept (h.punctual v d hd)).1
      · exact hnew
    · rcases hcarries.connections n t ht with hold | rfl
      · exact h.connections n t hold
      · exact le_rfl
  have hone : ∀ {r : Time}, op.readings = [r] → r = m.now → op.Prompt m.now := by
    intro r hr hnow r' hr'
    rw [hr] at hr'
    exact (List.mem_singleton.mp hr').trans hnow
  cases op with
  | addValidator vdr r => exact hprompt (hone rfl he.2.2.1)
  | updateValidator vdr r => exact hprompt (hone rfl he.2.2)
  | deleteValidator vID r => exact hprompt (hone rfl he.2.2)
  | setStatus vID isActive r => exact hprompt (hone rfl he.2.2)
  | connect nodeID r => exact hprompt (hone rfl he.2.2)
  | disconnect nodeID r => exact hprompt (hone rfl he.2.2)
  | registerListener order => exact he.2.2.elim
  | startTracking nodes => exact h.track he (startTracking_switches he)
  | stopTracking nodes => exact h.track he (stopTracking_switches he)

theorem InOrder.step {m : Moment} (h : m.InOrder) {e : Event} (he : m.Allows e) :
    (m.step e).InOrder := by
  cases e with
  | tick next =>
    obtain ⟨hnext,htimely⟩ := he
    have hlater : m.now.toInt ≤ next.toInt := by omega
    refine ⟨h.inStep,h.seen,h.registered,fun v d hd => ?_,fun n t ht => ?_⟩
    · exact (h.punctual v d hd).later hlater (htimely v d hd)
    · exact (h.connections n t ht).trans hlater
  | call op =>
    have henumerates : op.Enumerates m.system := by
      cases op with
      | registerListener order => exact he.2.2.elim
      | _ => trivial
    have hregistered : 0 < (m.seen.after op).registered := by
      cases op with
      | registerListener order => exact he.2.2.elim
      | _ => exact h.registered
    obtain ⟨hpunctual,hconnections⟩ := h.call he
    exact ⟨step_inStep h.inStep henumerates,(step_seen he).trans (by rw [h.seen]; rfl),hregistered,
      hpunctual,hconnections⟩

theorem Reached.inOrder {m : Moment} (h : m.Reached) : m.InOrder :=
  Reaches.invariant (P := InOrder) (fun _ => Start.inOrder) (fun _ _ hm he => hm.step he) h

/-- The second that begins at this time counts for the validator, as far as the calls before it
say: it has started, and tracking is off or its node is connected and it is active. -/
def counts (m : Moment) (vID : ID) (time : ℤ) : Bool :=
  match m.system.state.data.lookup vID with
  | none => false
  | some d => d.getStartTime.toInt ≤ time &&
      (!m.seen.tracking || d.nodeID ∈ m.seen.connected && d.isActive)

/-- The number of seconds that count for a validator. While a call runs it has said nothing: the
managers switch tracking at its end. -/
def upSeconds (vID : ID) : Moment → List Event → ℕ
  | _,[] => 0
  | m,e :: es =>
    (List.range ((m.step e).now.toInt - m.now.toInt).toNat).countP
      (fun k => m.counts vID (m.now.toInt + k)) + upSeconds vID (m.step e) es

theorem InOrder.counts_iff {m : Moment} (h : m.InOrder) {vID : ID} {d : ValidatorData}
    (hd : m.system.state.data.lookup vID = some d) : m.counts vID m.now.toInt = true ↔
      d.getStartTime.toInt ≤ m.now.toInt ∧ (m.system.manager.startedTracking = false ∨
        (m.system.manager.connections d.nodeID).isSome = true) := by
  have hlinked := h.inStep.linked.isConnected_iff d.nodeID
  have hregistered : 0 < m.system.listeners := by
    change 0 < m.system.seen.registered
    rw [h.seen]
    exact h.registered
  have hpaused : d.nodeID ∉ m.system.manager.pausedVdrs ↔ d.isActive = true := by
    rw [h.inStep.paused_iff hregistered,State.inactive_iff,← Bool.not_eq_false,not_iff_not]
    constructor
    · rintro ⟨v,d',hd',hnode,hactive⟩
      have hsame := m.system.state.getData_of_lookup hd'
      rw [hnode,m.system.state.getData_of_lookup hd] at hsame
      cases hsame
      exact hactive
    · exact fun hactive => ⟨vID,d,hd,rfl,hactive⟩
  have hconnected : m.seen.connected = m.system.manager.connectedVdrs :=
    (congrArg Seen.connected h.seen).symm
  have htracking : m.seen.tracking = m.system.manager.startedTracking :=
    (congrArg Seen.tracking h.seen).symm
  rw [Manager.isConnected,hpaused,← hconnected] at hlinked
  rw [counts,hd,hlinked,← htracking]
  simp

theorem InOrder.total_step {m : Moment} (h : m.InOrder) {e : Event} (he : m.Allows e)
    (hprompt : m.Prompt e) {vID : ID} {d d' : ValidatorData}
    (hd : m.system.state.data.lookup vID = some d)
    (hd' : (m.step e).system.state.data.lookup vID = some d') :
    (m.step e).system.total (m.step e).now d' = m.system.total m.now d +
      upSeconds vID m [e] * second := by
  have hp := h.punctual vID d hd
  cases e with
  | tick next =>
    rw [step_tick] at hd' ⊢
    have hsame : d' = d := Option.some.inj (hd'.symm.trans hd)
    subst hsame
    have htick : m.system.total next d' = m.system.total m.now d' + _ :=
      hp.total_tick he.1 (h.connections d'.nodeID)
    have hunit : upSeconds vID m [.tick next] = if m.counts vID m.now.toInt then 1 else 0 := by
      have hone : ((m.step (.tick next)).now.toInt - m.now.toInt).toNat = 1 := by
        rw [step_tick,he.1]
        omega
      rw [upSeconds,hone]
      simp [upSeconds,List.countP_cons]
    rw [System.total] at htick ⊢
    rw [htick,hunit]
    by_cases hcounts : m.counts vID m.now.toInt = true
    · rw [if_pos ((h.counts_iff hd).mp hcounts),if_pos hcounts,Nat.cast_one,one_mul]
    · rw [if_neg fun hc => hcounts ((h.counts_iff hd).mpr hc),if_neg hcounts,Nat.cast_zero,zero_mul]
  | call op =>
    have hnow : (m.step (.call op)).now = m.now := now_of_prompt hprompt
    have hnone : upSeconds vID m [.call op] = 0 := by
      rw [upSeconds,hnow,sub_self]
      rfl
    rw [hnone,hnow,Nat.cast_zero,zero_mul,add_zero]
    rcases (step_carries he hprompt).accounts vID d' hd' with ⟨e,hde,hkept⟩ | ⟨hnew,_⟩
    · rw [hd] at hde
      cases hde
      exact (hkept hp).2
    · rw [hd] at hnew
      cases hnew

theorem upSeconds_cons (vID : ID) (m : Moment) (e : Event) (es : List Event) :
    upSeconds vID m (e :: es) = upSeconds vID m [e] + upSeconds vID (m.step e) es := rfl

theorem InOrder.total_steps {vID : ID} {m m' : Moment} {es : List Event} (h : m.InOrder)
    (hsteps : Steps (fun m e => m.Allows e ∧ m.Prompt e ∧ vID ∈ m.system.state.data) Moment.step
      m es m')
    {d d' : ValidatorData} (hd : m.system.state.data.lookup vID = some d)
    (hd' : m'.system.state.data.lookup vID = some d') :
    m'.system.total m'.now d' = m.system.total m.now d + upSeconds vID m es * second := by
  induction hsteps generalizing d with
  | nil m =>
    rw [Option.some.inj (hd'.symm.trans hd),upSeconds,Nat.cast_zero,zero_mul,add_zero]
  | @cons m m' e es he hrest ih =>
    have hmem : vID ∈ (m.step e).system.state.data := by
      cases hrest with
      | nil => exact Finmap.mem_of_lookup_eq_some hd'
      | cons hnext _ => exact hnext.2.2
    obtain ⟨d₁,hd₁⟩ := Finmap.mem_iff.mp hmem
    have hfirst := h.total_step he.1 he.2.1 hd hd₁
    have hlast := ih (h.step he.1) hd₁ hd'
    rw [upSeconds_cons,hlast,hfirst]
    push_cast
    ring

/-- `CalculateUptime` grows by exactly the seconds that count, if the calls in between are over
before the clock's second changes. -/
theorem uptime_exact {vID : ID} {m m' : Moment} {es : List Event} (h : m.Reached)
    (hsteps : Steps (fun m e => m.Allows e ∧ m.Prompt e ∧ vID ∈ m.system.state.data) Moment.step
      m es m')
    {d d' : ValidatorData} (hd : m.system.state.data.lookup vID = some d)
    (hd' : m'.system.state.data.lookup vID = some d') :
    ∃ uptime uptime' : Duration × Time,
      m.system.manager.calculateUptime m.system.state d.nodeID m.now = .ok uptime ∧
      m'.system.manager.calculateUptime m'.system.state d'.nodeID m'.now = .ok uptime' ∧
      uptime'.1.toInt - uptime.1.toInt = upSeconds vID m es * second := by
  have hreached' : m'.Reached := Reaches.steps (fun _ _ he => he.1) h hsteps
  have hp := h.inOrder.punctual vID d hd
  have hp' := hreached'.inOrder.punctual vID d' hd'
  have htotal := h.inOrder.total_steps hsteps hd hd'
  refine ⟨_,_,Manager.calculateUptime_of_lookup _ hd _,Manager.calculateUptime_of_lookup _ hd' _,?_⟩
  rw [hp.creditedUptime_toInt,hp'.creditedUptime_toInt]
  unfold System.total at htotal
  rw [htotal]
  ring

end Moment

/-! ## Two validators -/

namespace Sample

def begun : Moment := ⟨(new .empty).registerListener [],⟨1,false,∅⟩,epoch 0⟩

def added : Moment :=
  (begun.step (.call (.addValidator vdr (epoch 0)))).step (.call (.addValidator otherVdr (epoch 0)))

theorem added_reached : added.Reached := by
  have hbegun : begun.Start := by
    refine ⟨.empty,[],?_,?_,?_,rfl,rfl⟩
    · intro vID d h
      cases h
    · intro vID h
      exact absurd h Finmap.notMem_empty
    · intro entry h
      cases h
  exact .step (.step (.start hbegun) (by decide +kernel)) (by decide +kernel)

theorem added_lookup : added.system.state.data.lookup vdr.validationID = some (.new vdr) := rfl

def session : List Event :=
  [.call (.connect vdr.nodeID (epoch 0)),
    .call (.startTracking [(vdr.nodeID,epoch 0),(otherVdr.nodeID,epoch 0)]),.tick (epoch 1),
    .tick (epoch 2),.call (.disconnect vdr.nodeID (epoch 2)),.tick (epoch 3)]

theorem session_steps :
    Steps (fun m e => m.Allows e ∧ m.Prompt e ∧ vdr.validationID ∈ m.system.state.data)
      Moment.step added session (session.foldl Moment.step added) := by
  unfold session
  simp only [List.foldl_cons,List.foldl_nil]
  refine .cons ?_ (.cons ?_ (.cons ?_ (.cons ?_ (.cons ?_ (.cons ?_ (.nil _)))))) <;>
    decide +kernel

theorem uptime_exact_session : ∃ uptime uptime' : Duration × Time,
    added.system.manager.calculateUptime added.system.state vdr.nodeID added.now = .ok uptime ∧
    (session.foldl Moment.step added).system.manager.calculateUptime
      (session.foldl Moment.step added).system.state vdr.nodeID
      (session.foldl Moment.step added).now = .ok uptime' ∧
    uptime'.1.toInt - uptime.1.toInt = 2 * second := by
  have hlast : ((session.foldl Moment.step added).system.state.data.lookup
      vdr.validationID).map ValidatorData.nodeID = some vdr.nodeID := by decide +kernel
  obtain ⟨d',hd',hnode⟩ := Option.map_eq_some_iff.mp hlast
  obtain ⟨uptime,uptime',h,h',hdiff⟩ :=
    Moment.uptime_exact added_reached session_steps added_lookup hd'
  rw [hnode] at h'
  have hcount : Moment.upSeconds vdr.validationID added session = 2 := by decide +kernel
  rw [hcount] at hdiff
  exact ⟨uptime,uptime',h,h',hdiff⟩

def slowStart : Event :=
  .call (.startTracking [(vdr.nodeID,epoch 0),(otherVdr.nodeID,epoch 1)])

/-- The second in which tracking was still off is lost for the first node. -/
theorem slowStart_loses_second : added.Reached ∧ added.Allows slowStart ∧
    vdr.validationID ∈ added.system.state.data ∧
    Moment.upSeconds vdr.validationID added [slowStart] = 1 ∧
    ∃ uptime uptime' : Duration × Time,
      added.system.manager.calculateUptime added.system.state vdr.nodeID added.now = .ok uptime ∧
      (added.step slowStart).system.manager.calculateUptime (added.step slowStart).system.state
        vdr.nodeID (added.step slowStart).now = .ok uptime' ∧
      uptime'.1.toInt - uptime.1.toInt = 0 := by
  refine ⟨added_reached,by decide +kernel,by decide +kernel,by decide +kernel,
    (0,epoch 0),(0,epoch 1),?_,?_,rfl⟩
  · decide +kernel
  · decide +kernel

end Sample
end System
end Landslide.Uptime
