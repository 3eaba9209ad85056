import Landslide.Uptime.Pausing

/-! # Nodes that are not validators

The uptime manager means to skip the nodes that are no validators: `updateUptime` returns
nil when the state does not find the node. It compares with a `not found` error that the state
does not return, so such a node makes every call fail that looks at its uptime, and the nodes
after it in the same call are not brought up to date.
-/
namespace Landslide.Uptime

inductive TrackCall where
  | connect (nodeID : NodeID) (now : Time)
  | disconnect (nodeID : NodeID) (now : Time)
  | startTracking (nodes : List (NodeID × Time))
  | stopTracking (nodes : List (NodeID × Time))

namespace TrackCall

def Involves (nodeID : NodeID) : TrackCall → Prop
  | connect n _ => n = nodeID
  | disconnect n _ => n = nodeID
  | startTracking nodes => nodeID ∈ nodes.map Prod.fst
  | stopTracking nodes => nodeID ∈ nodes.map Prod.fst

end TrackCall

namespace System

def track (s : System) : TrackCall → Called
  | .connect nodeID now => (none,s.managerConnect nodeID now)
  | .disconnect nodeID now => s.managerDisconnect nodeID now
  | .startTracking nodes => s.startTracking nodes
  | .stopTracking nodes => s.stopTracking nodes

/-- The same call without the node: a call for the node alone is not made at all. -/
def trackWithout (s : System) (nodeID : NodeID) : TrackCall → System
  | .connect _ _ => s
  | .disconnect _ _ => s
  | .startTracking nodes => (s.startTracking (nodes.filter fun n => n.1 ≠ nodeID)).2
  | .stopTracking nodes => (s.stopTracking (nodes.filter fun n => n.1 ≠ nodeID)).2

def Ignores (s : System) (nodeID : NodeID) (call : TrackCall) : Prop :=
  (s.track call).1 = none ∧ ∀ vID,
    (s.track call).2.state.data.lookup vID = (s.trackWithout nodeID call).state.data.lookup vID

/-- The calls that do not look at the uptime of the node. -/
def Unread (s : System) : TrackCall → Prop
  | .connect _ _ => True
  | .disconnect _ _ => s.manager.startedTracking = false
  | .startTracking _ => False
  | .stopTracking _ => False

end System

theorem State.getData_of_not_hasNode {s : State} {nodeID : NodeID} (h : ¬s.HasNode nodeID) :
    s.getData nodeID = none := by
  cases hd : s.getData nodeID with
  | none => rfl
  | some d =>
    obtain ⟨hlookup,hn⟩ := s.getData_eq_some_iff.mp hd
    exact absurd (hasNode_of_lookup hlookup hn) h

theorem Manager.updateUptimes_of_not_hasNode (m : Manager) {state : State} {nodeID : NodeID}
    (h : ¬state.HasNode nodeID) {nodes : List (NodeID × Time)}
    (hmem : nodeID ∈ nodes.map Prod.fst) : (m.updateUptimes state nodes).1 ≠ none := by
  induction nodes generalizing state with
  | nil => cases hmem
  | cons n rest ih =>
    obtain ⟨n,now⟩ := n
    rw [updateUptimes]
    cases hupdate : m.updateUptime state n now with
    | mk err state' =>
      cases err with
      | some err => exact Option.some_ne_none _
      | none =>
        -- the head was a validator, so the node is in the rest of the list
        have hvalidator : ∃ d, state.getData n = some d :=
          (m.updateUptime_error_iff state n now).mp (by rw [hupdate])
        have hne : nodeID ≠ n := by
          rintro rfl
          obtain ⟨d,hd⟩ := hvalidator
          rw [State.getData_of_not_hasNode h] at hd
          cases hd
        have hstate : state'.getValidator = state.getValidator := by
          have := m.updateUptime_getValidator state n now
          rwa [hupdate] at this
        have hrest : nodeID ∈ rest.map Prod.fst := (List.mem_cons.mp hmem).resolve_left hne
        exact ih (fun hn => h ((State.hasNode_congr hstate nodeID).mp hn)) hrest

namespace System
variable {s : System} {nodeID : NodeID}

theorem startTracking_error (hstarted : ¬s.manager.startedTracking = true)
    (nodes : List (NodeID × Time)) :
    (s.startTracking nodes).1 = (s.manager.updateUptimes s.state nodes).1 :=
  (s.track_cases true nodes (s.startTracking nodes) (if_neg hstarted)).1

theorem startTracking_fails (h : ¬s.state.HasNode nodeID) {nodes : List (NodeID × Time)}
    (hmem : nodeID ∈ nodes.map Prod.fst) : (s.startTracking nodes).1 ≠ none := by
  by_cases hstarted : s.manager.startedTracking
  · rw [startTracking,if_pos hstarted]
    exact Option.some_ne_none _
  · rw [startTracking_error hstarted]
    exact s.manager.updateUptimes_of_not_hasNode h hmem

theorem stopTracking_fails (h : ¬s.state.HasNode nodeID) {nodes : List (NodeID × Time)}
    (hmem : nodeID ∈ nodes.map Prod.fst) : (s.stopTracking nodes).1 ≠ none := by
  by_cases hstarted : !s.manager.startedTracking
  · rw [stopTracking,if_pos hstarted]
    exact Option.some_ne_none _
  · rw [(s.track_cases false nodes (s.stopTracking nodes) (if_neg hstarted)).1]
    exact s.manager.updateUptimes_of_not_hasNode h hmem

theorem managerDisconnect_fails (h : ¬s.state.HasNode nodeID)
    (hstarted : s.manager.startedTracking = true) (now : Time) :
    (s.managerDisconnect nodeID now).1 = some .errNotFound := by
  have hnone := State.getData_of_not_hasNode h
  rw [managerDisconnect,if_neg (by simp [hstarted])]
  exact congrArg Prod.fst (s.manager.updateUptime_of_none hnone now)

/-- A node that is no validator is ignored by just the calls that do not read its uptime. -/
theorem ignores_iff (h : ¬s.state.HasNode nodeID) {call : TrackCall}
    (hcall : call.Involves nodeID) : s.Ignores nodeID call ↔ s.Unread call := by
  cases call with
  | connect n now => exact ⟨fun _ => trivial,fun _ => ⟨rfl,fun _ => rfl⟩⟩
  | disconnect n now =>
    obtain rfl : n = nodeID := hcall
    by_cases hstarted : s.manager.startedTracking = true
    · refine ⟨fun hignored => ?_,fun hunread => ?_⟩
      · have hnone : (s.managerDisconnect n now).1 = none := hignored.1
        rw [managerDisconnect_fails h hstarted now] at hnone
        cases hnone
      · exact absurd hunread (by simp [Unread,hstarted])
    · have hoff : s.manager.startedTracking = false := by simpa using hstarted
      have hcalled : s.managerDisconnect n now =
          (none,{ s with manager := s.manager.withConnection n none }) :=
        if_pos (by simp [hoff])
      refine ⟨fun _ => hoff,fun _ => ⟨congrArg Prod.fst hcalled,fun vID => ?_⟩⟩
      exact congrArg (fun called : Called => called.2.state.data.lookup vID) hcalled
  | startTracking nodes => exact ⟨fun hignored => startTracking_fails h hcall hignored.1,False.elim⟩
  | stopTracking nodes => exact ⟨fun hignored => stopTracking_fails h hcall hignored.1,False.elim⟩

/-! ## A list that starts with a stranger -/

namespace Sample

def stranger : NodeID := ⟨List.replicate nodeIDLen 9,List.length_replicate⟩

def tracked : System := ((new .empty).addValidator vdr 0).2

theorem tracked_stranger : ¬tracked.state.HasNode stranger := by
  rintro ⟨vID,w,hw,hn⟩
  obtain ⟨d,hd,rfl⟩ := tracked.state.lookup_of_getValidator hw
  have hlookup : tracked.state.data.lookup vID = some d := hd
  have hindex := tracked.state.index_iff.mpr ⟨d,hlookup,hn⟩
  have hnone : tracked.state.index.lookup stranger = none := by decide +kernel
  rw [hnone] at hindex
  cases hindex

theorem tracked_validator : tracked.state.HasNode vdr.nodeID :=
  ⟨vdr.validationID,vdr,rfl,rfl⟩

/-- `StartTracking` fails because of the stranger; without it the call succeeds. -/
theorem stranger_stops_tracking :
    ¬tracked.Ignores stranger (.startTracking [(stranger,0),(vdr.nodeID,0)]) ∧
    (tracked.track (.startTracking [(stranger,0),(vdr.nodeID,0)])).1 = some .errNotFound ∧
    (tracked.track (.startTracking [(vdr.nodeID,0)])).1 = none := by
  have hoff : ¬tracked.manager.startedTracking = true := by decide
  have hfails : (tracked.track (.startTracking [(stranger,0),(vdr.nodeID,0)])).1 =
      some .errNotFound := by
    have hnone := State.getData_of_not_hasNode tracked_stranger
    rw [track,startTracking_error hoff,Manager.updateUptimes,
      Manager.updateUptime_of_none _ hnone]
  refine ⟨fun hignored => ?_,hfails,?_⟩
  · rw [Ignores,hfails] at hignored
    exact Option.some_ne_none _ hignored.1
  · have hupdated : (tracked.manager.updateUptime tracked.state vdr.nodeID 0).1 = none :=
      (Manager.updateUptime_error_iff _ _ _ _).mpr (State.getData_of_hasNode tracked_validator)
    rw [track,startTracking_error hoff,Manager.updateUptimes]
    cases hupdate : tracked.manager.updateUptime tracked.state vdr.nodeID 0 with
    | mk err state =>
      rw [hupdate] at hupdated
      subst hupdated
      rfl

/-- A connection of a stranger is ignored. -/
theorem stranger_connects : tracked.Ignores stranger (.connect stranger 0) := by
  have hcall : TrackCall.Involves stranger (.connect stranger 0) := rfl
  exact (ignores_iff tracked_stranger hcall).mpr trivial

end Sample
end System
end Landslide.Uptime
