import Landslide.Uptime.Manager
import Landslide.Lib.Transition

/-! # Paused, active and connected nodes stay in step

Three sets of nodes live in two objects and are changed by callbacks from a third: the
paused nodes, the connected nodes, and the nodes connected to the wrapped manager. What a
callback does to them does not depend on how often it runs, so it may be repeated for
every registration.
-/
namespace Landslide.Uptime
open Warp (ID)

/-! ## Inactive nodes -/

namespace State

/-- The node of a validator that is not active. -/
def Inactive (s : State) (nodeID : NodeID) : Prop :=
  ∃ vID vdr, s.getValidator vID = some vdr ∧ vdr.nodeID = nodeID ∧ vdr.isActive = false

def HasNode (s : State) (nodeID : NodeID) : Prop :=
  ∃ vID vdr, s.getValidator vID = some vdr ∧ vdr.nodeID = nodeID

theorem getData_of_hasNode {s : State} {nodeID : NodeID} (h : s.HasNode nodeID) :
    ∃ d, s.getData nodeID = some d := by
  obtain ⟨vID,vdr,hvdr,rfl⟩ := h
  obtain ⟨d,hd,rfl⟩ := s.lookup_of_getValidator hvdr
  exact ⟨d,s.getData_of_lookup hd⟩

theorem hasNode_of_lookup {s : State} {vID : ID} {d : ValidatorData} {nodeID : NodeID}
    (h : s.data.lookup vID = some d) (hn : d.nodeID = nodeID) : s.HasNode nodeID :=
  ⟨vID,d.validator,s.getValidator_of_lookup h,hn⟩

theorem inactive_iff (s : State) {nodeID : NodeID} : s.Inactive nodeID ↔
    ∃ vID d, s.data.lookup vID = some d ∧ d.nodeID = nodeID ∧ d.isActive = false := by
  constructor
  · rintro ⟨vID,vdr,hvdr,hn,hactive⟩
    obtain ⟨d,hd,rfl⟩ := s.lookup_of_getValidator hvdr
    exact ⟨vID,d,hd,hn,hactive⟩
  · rintro ⟨vID,d,hd,hn,hactive⟩
    exact ⟨vID,d.validator,s.getValidator_of_lookup hd,hn,hactive⟩

theorem inactive_congr {s s' : State} (h : s'.getValidator = s.getValidator) (nodeID : NodeID) :
    s'.Inactive nodeID ↔ s.Inactive nodeID := by
  rw [Inactive,Inactive,h]

theorem hasNode_congr {s s' : State} (h : s'.getValidator = s.getValidator) (nodeID : NodeID) :
    s'.HasNode nodeID ↔ s.HasNode nodeID := by
  rw [HasNode,HasNode,h]

theorem inactive_insertData (s : State) {d : ValidatorData} (hv hn) (nodeID : NodeID) :
    (s.insertData d hv hn).Inactive nodeID ↔
      (nodeID = d.nodeID ∧ d.isActive = false) ∨ s.Inactive nodeID := by
  rw [inactive_iff,inactive_iff,insertData_data]
  constructor
  · rintro ⟨v,e,he,rfl,hactive⟩
    by_cases hv' : v = d.validationID
    · rw [hv',Finmap.lookup_insert] at he
      cases he
      exact .inl ⟨rfl,hactive⟩
    · rw [Finmap.lookup_insert_of_ne _ hv'] at he
      exact .inr ⟨v,e,he,rfl,hactive⟩
  · rintro (⟨rfl,hactive⟩ | ⟨v,e,he,hne,hactive⟩)
    · exact ⟨_,d,Finmap.lookup_insert _,rfl,hactive⟩
    · have hv' : v ≠ d.validationID := by
        rintro rfl
        exact hv (Finmap.mem_of_lookup_eq_some he)
      exact ⟨v,e,by rwa [Finmap.lookup_insert_of_ne _ hv'],hne,hactive⟩

theorem inactive_eraseData (s : State) {vID : ID} {d : ValidatorData}
    (h : s.data.lookup vID = some d) (nodeID : NodeID) :
    (s.eraseData vID).Inactive nodeID ↔ s.Inactive nodeID ∧ nodeID ≠ d.nodeID := by
  rw [inactive_iff,inactive_iff,eraseData_data]
  constructor
  · rintro ⟨v,e,he,rfl,hactive⟩
    have hv : v ≠ vID := by
      rintro rfl
      rw [Finmap.lookup_erase] at he
      cases he
    rw [Finmap.lookup_erase_ne hv] at he
    exact ⟨⟨v,e,he,rfl,hactive⟩,fun hn => hv (s.eq_of_nodeID_eq he h hn)⟩
  · rintro ⟨⟨v,e,he,rfl,hactive⟩,hn⟩
    have hv : v ≠ vID := by
      rintro rfl
      rw [h] at he
      cases he
      exact hn rfl
    exact ⟨v,e,by rwa [Finmap.lookup_erase_ne hv],rfl,hactive⟩

theorem inactive_setIsActive (s : State) {vID : ID} {d : ValidatorData}
    (h : s.data.lookup vID = some d) (isActive : Bool) (nodeID : NodeID) :
    (s.setIsActive vID isActive).Inactive nodeID ↔
      if nodeID = d.nodeID then isActive = false else s.Inactive nodeID := by
  simp only [inactive_iff,setIsActive_lookup,Option.map_eq_some_iff]
  constructor
  · rintro ⟨v,_,⟨e,he,rfl⟩,rfl,hactive⟩
    by_cases hv : v = vID
    · subst hv
      rw [h] at he
      cases he
      simpa using hactive
    · simp only [if_neg hv,id] at hactive ⊢
      rw [if_neg fun hn => hv (s.eq_of_nodeID_eq he h hn)]
      exact ⟨v,e,he,rfl,hactive⟩
  · split
    · next hn =>
      rintro rfl
      exact ⟨vID,_,⟨d,h,rfl⟩,by simp [hn],by simp⟩
    · next hn =>
      rintro ⟨v,e,he,rfl,hactive⟩
      have hv : v ≠ vID := by
        rintro rfl
        rw [h] at he
        cases he
        exact hn rfl
      exact ⟨v,_,⟨e,he,rfl⟩,by simp [hv],by simpa [hv] using hactive⟩

theorem inactive_setWeight (s : State) (vID : ID) (weight : UInt64) (nodeID : NodeID) :
    (s.setWeight vID weight).Inactive nodeID ↔ s.Inactive nodeID := by
  simp only [inactive_iff,setWeight_lookup,Option.map_eq_some_iff]
  constructor
  · rintro ⟨v,_,⟨e,he,rfl⟩,hn,hactive⟩
    refine ⟨v,e,he,?_,?_⟩
    · rw [← hn]
      split <;> rfl
    · rw [← hactive]
      split <;> rfl
  · rintro ⟨v,e,he,hn,hactive⟩
    refine ⟨v,_,⟨e,he,rfl⟩,?_,?_⟩
    · rw [← hn]
      split <;> rfl
    · rw [← hactive]
      split <;> rfl

end State

/-! ## Callbacks -/

namespace System

/-- The wrapped manager sees the connected nodes that are not paused, and no callback has
failed. -/
structure Linked (s : System) : Prop where
  isConnected_iff : ∀ nodeID, s.manager.isConnected nodeID = true ↔
    nodeID ∈ s.manager.connectedVdrs ∧ nodeID ∉ s.manager.pausedVdrs
  running : s.crashed = false

/-- A change by the pausable manager that acts on the paused nodes as given and otherwise
touches only connections and uptimes. -/
structure Follows (paused : Finset NodeID → Finset NodeID) (s s' : System) : Prop where
  pausedVdrs : s'.manager.pausedVdrs = paused s.manager.pausedVdrs
  connectedVdrs : s'.manager.connectedVdrs = s.manager.connectedVdrs
  getValidator : s'.state.getValidator = s.state.getValidator
  listeners : s'.listeners = s.listeners
  linked : s.Linked → s'.Linked

theorem Follows.refl (s : System) : Follows id s s := ⟨rfl,rfl,rfl,rfl,id⟩

theorem Follows.trans {f g : Finset NodeID → Finset NodeID} {s s' s'' : System}
    (h : Follows f s s') (h' : Follows g s' s'') : Follows (g ∘ f) s s'' where
  pausedVdrs := by rw [h'.pausedVdrs,h.pausedVdrs,Function.comp_apply]
  connectedVdrs := h'.connectedVdrs.trans h.connectedVdrs
  getValidator := h'.getValidator.trans h.getValidator
  listeners := h'.listeners.trans h.listeners
  linked := h'.linked ∘ h.linked

theorem managerDisconnect_manager (s : System) (nodeID : NodeID) (now : Time) :
    (s.managerDisconnect nodeID now).2.manager = s.manager.withConnection nodeID none := by
  unfold managerDisconnect
  split <;> rfl

theorem managerDisconnect_frame (s : System) (nodeID : NodeID) (now : Time) :
    (s.managerDisconnect nodeID now).2.listeners = s.listeners ∧
      (s.managerDisconnect nodeID now).2.crashed = s.crashed := by
  unfold managerDisconnect
  split <;> exact ⟨rfl,rfl⟩

theorem managerDisconnect_of_hasNode (s : System) {nodeID : NodeID} (now : Time)
    (h : s.state.HasNode nodeID) : (s.managerDisconnect nodeID now).1 = none := by
  unfold managerDisconnect
  split
  · rfl
  · exact (Manager.updateUptime_error_iff ..).mpr (State.getData_of_hasNode h)

theorem logged_of_none {called : Called} (h : called.1 = none) : logged called = called.2 := by
  rw [logged,h]

theorem pause_follows (s : System) {nodeID : NodeID} (now : Time) (h : s.state.HasNode nodeID) :
    Follows (insert nodeID) s (logged (s.pause nodeID now)) := by
  set t := s.withPaused (insert nodeID s.manager.pausedVdrs) with ht
  by_cases hconnected : t.manager.isConnected nodeID = true
  · have hpause : s.pause nodeID now = t.managerDisconnect nodeID now := if_pos hconnected
    have hnone : (t.managerDisconnect nodeID now).1 = none := t.managerDisconnect_of_hasNode now h
    have hmanager := t.managerDisconnect_manager nodeID now
    obtain ⟨hlisteners,hcrashed⟩ := t.managerDisconnect_frame nodeID now
    rw [hpause,logged_of_none hnone]
    refine ⟨by rw [hmanager]; rfl,by rw [hmanager]; rfl,(Absorbs.getValidator now).managerDisconnect t nodeID,
      hlisteners,fun hs => ⟨fun n => ?_,hcrashed.trans hs.running⟩⟩
    rw [hmanager]
    by_cases hn : n = nodeID
    · simp [ht,hn,withPaused,PausableManager.withConnection,Manager.isConnected]
    · have hsn := hs.isConnected_iff n
      simpa [ht,hn,withPaused,PausableManager.withConnection,Manager.isConnected] using hsn
  · have hpause : s.pause nodeID now = (none,t) := if_neg hconnected
    rw [hpause,logged_of_none rfl]
    refine ⟨rfl,rfl,rfl,rfl,fun hs => ⟨fun n => ?_,hs.running⟩⟩
    have hsn := hs.isConnected_iff n
    by_cases hn : n = nodeID
    · subst hn
      simpa [ht,withPaused] using hconnected
    · simpa [ht,withPaused,hn] using hsn

theorem resume_follows (s : System) (nodeID : NodeID) (now : Time) :
    Follows (·.erase nodeID) s (logged (s.resume nodeID now)) := by
  set t := s.withPaused (s.manager.pausedVdrs.erase nodeID) with ht
  by_cases hconnected : nodeID ∈ t.manager.connectedVdrs ∧ !t.manager.isConnected nodeID
  · have hresume : s.resume nodeID now = (none,t.managerConnect nodeID now) := if_pos hconnected
    rw [hresume,logged_of_none rfl]
    refine ⟨rfl,rfl,rfl,rfl,fun hs => ⟨fun n => ?_,hs.running⟩⟩
    have hsn := hs.isConnected_iff n
    by_cases hn : n = nodeID
    · subst hn
      have hmem : n ∈ s.manager.connectedVdrs := hconnected.1
      simp [ht,withPaused,managerConnect,PausableManager.withConnection,Manager.isConnected,hmem]
    · simpa [ht,withPaused,managerConnect,PausableManager.withConnection,Manager.isConnected,hn]
        using hsn
  · have hresume : s.resume nodeID now = (none,t) := if_neg hconnected
    rw [hresume,logged_of_none rfl]
    refine ⟨rfl,rfl,rfl,rfl,fun hs => ⟨fun n => ?_,hs.running⟩⟩
    have hsn := hs.isConnected_iff n
    by_cases hn : n = nodeID
    · subst hn
      constructor
      · exact fun h => ⟨(hsn.mp h).1,Finset.notMem_erase n _⟩
      · rintro ⟨hmem,_⟩
        simpa [hmem] using hconnected
    · simpa [ht,withPaused,hn] using hsn

theorem onValidatorAdded_follows (s : System) {nodeID : NodeID} (isActive : Bool) (now : Time)
    (h : s.state.HasNode nodeID) :
    Follows (if isActive then id else insert nodeID) s (onValidatorAdded nodeID isActive now s) := by
  cases isActive with
  | false => exact s.pause_follows now h
  | true => exact .refl s

theorem onValidatorRemoved_follows (s : System) (nodeID : NodeID) (now : Time) :
    Follows (·.erase nodeID) s (onValidatorRemoved nodeID now s) := by
  unfold onValidatorRemoved
  split
  · exact s.resume_follows nodeID now
  · next hpaused =>
    have herase : s.manager.pausedVdrs.erase nodeID = s.manager.pausedVdrs :=
      Finset.erase_eq_of_notMem (by simpa [PausableManager.isPaused] using hpaused)
    exact ⟨herase.symm,rfl,rfl,rfl,id⟩

theorem onValidatorStatusUpdated_follows (s : System) {nodeID : NodeID} (isActive : Bool)
    (now : Time) (h : s.state.HasNode nodeID) :
    Follows (if isActive then (·.erase nodeID) else insert nodeID) s
      (onValidatorStatusUpdated nodeID isActive now s) := by
  cases isActive with
  | false => exact s.pause_follows now h
  | true => exact s.resume_follows nodeID now

/-- A callback that acts on the paused nodes idempotently may go to any number of listeners. -/
theorem notify_follows {callback : System → System} {paused : Finset NodeID → Finset NodeID}
    (hpaused : ∀ x, paused (paused x) = paused x) (s : System)
    (hcallback : ∀ t : System, t.state.getValidator = s.state.getValidator →
      Follows paused t (callback t)) :
    Follows (if s.listeners = 0 then id else paused) s (notify callback s) := by
  have hrepeat : ∀ k, Follows (if k = 0 then id else paused) s (callback^[k] s) := by
    intro k
    induction k with
    | zero => exact .refl s
    | succ k ih =>
      rw [Function.iterate_succ_apply']
      have hstep := ih.trans (hcallback _ ih.getValidator)
      refine ⟨?_,hstep.connectedVdrs,hstep.getValidator,hstep.listeners,hstep.linked⟩
      rw [hstep.pausedVdrs,Function.comp_apply,if_neg k.succ_ne_zero]
      split
      · rfl
      · exact hpaused _
  exact hrepeat s.listeners

/-! ## Calls -/

/-- The calls on the state and the pausable manager, each with the clock's readings in it. -/
inductive Op where
  | addValidator (vdr : Validator) (now : Time)
  | updateValidator (vdr : Validator) (now : Time)
  | deleteValidator (vID : ID) (now : Time)
  | setStatus (vID : ID) (isActive : Bool) (now : Time)
  | registerListener (order : List (ID × Time))
  | connect (nodeID : NodeID) (now : Time)
  | disconnect (nodeID : NodeID) (now : Time)
  | startTracking (nodes : List (NodeID × Time))
  | stopTracking (nodes : List (NodeID × Time))

def call (s : System) : Op → Called
  | .addValidator vdr now => s.addValidator vdr now
  | .updateValidator vdr now => s.updateValidator vdr now
  | .deleteValidator vID now => s.deleteValidator vID now
  | .setStatus vID isActive now => s.setStatus vID isActive now
  | .registerListener order => (none,s.registerListener order)
  | .connect nodeID now => s.connect nodeID now
  | .disconnect nodeID now => s.disconnect nodeID now
  | .startTracking nodes => s.startTracking nodes
  | .stopTracking nodes => s.stopTracking nodes

def step (s : System) (op : Op) : System := (s.call op).2

/-- A map is iterated over all its keys. -/
def Op.Enumerates (s : System) : Op → Prop
  | .registerListener order => ∀ vID, vID ∈ s.state.data → vID ∈ order.map Prod.fst
  | _ => True

/-! ## The invariant -/

structure InStep (s : System) : Prop where
  unregistered : s.listeners = 0 → s.manager.pausedVdrs = ∅
  paused_iff : 0 < s.listeners →
    ∀ nodeID, nodeID ∈ s.manager.pausedVdrs ↔ s.state.Inactive nodeID
  linked : s.Linked

theorem inStep_new (state : State) : (new state).InStep where
  unregistered _ := rfl
  paused_iff h := absurd h (lt_irrefl 0)
  linked := ⟨fun _ => by simp [new,PausableManager.new,Manager.isConnected],rfl⟩

theorem InStep.notify {s : System} (h : s.InStep) (state : State)
    {callback : System → System} {paused : Finset NodeID → Finset NodeID}
    (hpaused : ∀ x, paused (paused x) = paused x)
    (hcallback : ∀ t : System, t.state.getValidator = state.getValidator →
      Follows paused t (callback t))
    (hinactive : (∀ nodeID, nodeID ∈ s.manager.pausedVdrs ↔ s.state.Inactive nodeID) →
      ∀ nodeID, nodeID ∈ paused s.manager.pausedVdrs ↔ state.Inactive nodeID) :
    (notify callback { s with state }).InStep := by
  have hfollows := notify_follows hpaused { s with state } hcallback
  have hlisteners : (System.notify callback { s with state }).listeners = s.listeners :=
    hfollows.listeners
  refine ⟨fun hzero => ?_,fun hpos n => ?_,hfollows.linked ⟨h.linked.isConnected_iff,h.linked.running⟩⟩
  · rw [hlisteners] at hzero
    rw [hfollows.pausedVdrs,if_pos hzero]
    exact h.unregistered hzero
  · rw [hlisteners] at hpos
    rw [hfollows.pausedVdrs,if_neg hpos.ne',State.inactive_congr hfollows.getValidator]
    exact hinactive (h.paused_iff hpos) n

theorem InStep.of_frame {s s' : System} (h : s.InStep) (hlisteners : s'.listeners = s.listeners)
    (hpaused : s'.manager.pausedVdrs = s.manager.pausedVdrs)
    (hstate : ∀ nodeID, s'.state.Inactive nodeID ↔ s.state.Inactive nodeID)
    (hlinked : s'.Linked) : s'.InStep where
  unregistered hzero := by rw [hpaused,h.unregistered (hlisteners ▸ hzero)]
  paused_iff hpos nodeID := by rw [hpaused,hstate,h.paused_iff (hlisteners ▸ hpos)]
  linked := hlinked

theorem InStep.withState {s : System} (h : s.InStep) {state : State}
    (hstate : ∀ nodeID, state.Inactive nodeID ↔ s.state.Inactive nodeID) :
    ({ s with state } : System).InStep :=
  h.of_frame rfl rfl hstate ⟨h.linked.isConnected_iff,h.linked.running⟩

theorem addValidator_inStep {s : System} (h : s.InStep) (vdr : Validator) (now : Time) :
    (s.addValidator vdr now).2.InStep := by
  refine s.addValidator_cases vdr now h fun state hadd => ?_
  obtain ⟨hv,hn,rfl⟩ := s.state.addData_ok_iff.mp hadd
  have hnode : (s.state.insertData (.new vdr) hv hn).HasNode vdr.nodeID :=
    State.hasNode_of_lookup (Finmap.lookup_insert _) rfl
  refine h.notify ((s.state.insertData (.new vdr) hv hn).mark _ _) ?_ (fun t ht =>
    onValidatorAdded_follows t _ _ ((State.hasNode_congr ht _).mpr hnode)) ?_
  · intro x
    cases vdr.isActive <;> simp
  · intro hpaused n
    change _ ↔ (s.state.insertData (.new vdr) hv hn).Inactive n
    rw [State.inactive_insertData,← hpaused]
    cases hactive : vdr.isActive <;> simp [ValidatorData.new,hactive]

theorem onStatus_idempotent (nodeID : NodeID) (isActive : Bool) (x : Finset NodeID) :
    (if isActive then (·.erase nodeID) else insert nodeID : Finset NodeID → Finset NodeID)
      ((if isActive then (·.erase nodeID) else insert nodeID : Finset NodeID → Finset NodeID) x) =
      (if isActive then (·.erase nodeID) else insert nodeID : Finset NodeID → Finset NodeID) x := by
  cases isActive <;> simp

theorem InStep.notifyStatus {s : System} (h : s.InStep) {vID : ID} {d : ValidatorData}
    (hd : s.state.data.lookup vID = some d) (isActive : Bool) (now : Time) (state : State)
    (hstate : state.getValidator = (s.state.setIsActive vID isActive).getValidator) :
    (System.notify (onValidatorStatusUpdated d.nodeID isActive now) { s with state }).InStep := by
  have hlookup : (s.state.setIsActive vID isActive).data.lookup vID = some { d with isActive } := by
    simp [hd]
  refine h.notify state (onStatus_idempotent d.nodeID isActive) (fun t ht =>
    onValidatorStatusUpdated_follows t _ _ ((State.hasNode_congr (ht.trans hstate) _).mpr
      (State.hasNode_of_lookup hlookup rfl))) ?_
  intro hpaused n
  rw [State.inactive_congr hstate,State.inactive_setIsActive _ hd,← hpaused]
  cases isActive <;> by_cases hn : n = d.nodeID <;> simp [hn]

theorem setStatus_inStep {s : System} (h : s.InStep) (vID : ID) (isActive : Bool) (now : Time) :
    (s.setStatus vID isActive now).2.InStep :=
  s.setStatus_cases vID isActive now h fun _ hd => h.notifyStatus hd isActive now _ rfl

theorem updateValidator_inStep {s : System} (h : s.InStep) (vdr : Validator) (now : Time) :
    (s.updateValidator vdr now).2.InStep := by
  rcases s.updateValidator_cases vdr now h (fun d hd => h.notifyStatus hd vdr.isActive now _ rfl)
    (fun t ht => ht.withState (State.inactive_setWeight t.state _ _)) with heq | ⟨d,t,_,ht,heq⟩
  · rw [heq]
    exact h
  · rw [heq]
    exact ht.withState fun _ => Iff.rfl

theorem deleteValidator_inStep {s : System} (h : s.InStep) (vID : ID) (now : Time) :
    (s.deleteValidator vID now).2.InStep := by
  refine s.deleteValidator_cases vID now (fun _ => h) fun d hd => ?_
  have hv := s.state.validationID_eq hd
  refine h.notify ((s.state.eraseData d.validationID).mark _ _) (fun x => by simp)
    (fun t _ => onValidatorRemoved_follows t d.nodeID now) ?_
  intro hpaused n
  change _ ↔ (s.state.eraseData d.validationID).Inactive n
  rw [hv,State.inactive_eraseData _ hd,← hpaused,Finset.mem_erase,and_comm]

/-- The new listener pauses the inactive validators it is told of. -/
theorem announceAll_follows (order : List (ID × Time)) (s : System) :
    ∃ paused, Follows paused s (order.foldl (fun s entry => s.announce entry.1 entry.2) s) ∧
      ∀ x nodeID, nodeID ∈ paused x ↔ nodeID ∈ x ∨ ∃ vID ∈ order.map Prod.fst, ∃ vdr,
        s.state.getValidator vID = some vdr ∧ vdr.nodeID = nodeID ∧ vdr.isActive = false := by
  induction order generalizing s with
  | nil => exact ⟨id,.refl s,by simp⟩
  | cons entry rest ih =>
    obtain ⟨paused,hfollows,hpaused⟩ := ih (s.announce entry.1 entry.2)
    cases hd : s.state.data.lookup entry.1 with
    | none =>
      have hsame : s.announce entry.1 entry.2 = s := by rw [announce,hd]
      have hnone : s.state.getValidator entry.1 = none := by rw [State.getValidator,hd]; rfl
      rw [hsame] at hfollows hpaused
      refine ⟨paused,by simpa [hsame] using hfollows,fun x n => ?_⟩
      rw [hpaused]
      simp [hnone]
    | some d =>
      have hadded : s.announce entry.1 entry.2 = onValidatorAdded d.nodeID d.isActive entry.2 s := by
        rw [announce,hd]
      have hsome := s.state.getValidator_of_lookup hd
      have hstep := onValidatorAdded_follows s d.isActive entry.2
        (State.hasNode_of_lookup hd rfl)
      rw [hadded] at hfollows hpaused
      refine ⟨_,by simpa [hadded] using hstep.trans hfollows,fun x n => ?_⟩
      rw [Function.comp_apply,hpaused,hstep.getValidator]
      have hcomm : n = d.nodeID ↔ d.nodeID = n := eq_comm
      cases hactive : d.isActive with
      | false => simp [hsome,ValidatorData.validator,hactive,hcomm,or_assoc,or_left_comm]
      | true => simp [hsome,ValidatorData.validator,hactive]

theorem registerListener_inStep {s : System} (h : s.InStep) {order : List (ID × Time)}
    (horder : ∀ vID, vID ∈ s.state.data → vID ∈ order.map Prod.fst) :
    (s.registerListener order).InStep := by
  obtain ⟨paused,hfollows,hpaused⟩ :=
    announceAll_follows order { s with listeners := s.listeners + 1 }
  have hlisteners : (s.registerListener order).listeners = s.listeners + 1 := hfollows.listeners
  refine ⟨fun hzero => ?_,fun _ n => ?_,
    hfollows.linked ⟨h.linked.isConnected_iff,h.linked.running⟩⟩
  · rw [hlisteners] at hzero
    cases hzero
  · have hstate : (s.registerListener order).state.getValidator = s.state.getValidator :=
      hfollows.getValidator
    have hsub : ∀ n ∈ s.manager.pausedVdrs, s.state.Inactive n := by
      intro n hn
      rcases Nat.eq_zero_or_pos s.listeners with hzero | hpos
      · rw [h.unregistered hzero] at hn
        cases hn
      · exact (h.paused_iff hpos n).mp hn
    have hvdrs : (s.registerListener order).manager.pausedVdrs = paused s.manager.pausedVdrs :=
      hfollows.pausedVdrs
    rw [State.inactive_congr hstate,hvdrs,hpaused]
    constructor
    · rintro (hn | ⟨v,_,vdr,hvdr,hn,hactive⟩)
      · exact hsub n hn
      · exact ⟨v,vdr,hvdr,hn,hactive⟩
    · rintro ⟨v,vdr,hvdr,hn,hactive⟩
      obtain ⟨d,hd,_⟩ := s.state.lookup_of_getValidator hvdr
      exact .inr ⟨v,horder v (Finmap.mem_of_lookup_eq_some hd),vdr,hvdr,hn,hactive⟩

theorem connect_inStep {s : System} (h : s.InStep) (nodeID : NodeID) (now : Time) :
    (s.connect nodeID now).2.InStep := by
  set t := s.withConnected (insert nodeID s.manager.connectedVdrs) with ht
  by_cases hfree : !t.manager.isPaused nodeID && !t.manager.isConnected nodeID
  · have hconnect : s.connect nodeID now = (none,t.managerConnect nodeID now) := if_pos hfree
    rw [hconnect]
    refine h.of_frame rfl rfl (fun _ => Iff.rfl) ⟨fun n => ?_,h.linked.running⟩
    have hn := h.linked.isConnected_iff n
    by_cases hne : n = nodeID
    · subst hne
      have hpaused : n ∉ s.manager.pausedVdrs := by
        simpa [ht,withConnected,PausableManager.isPaused] using (Bool.and_eq_true_iff.mp hfree).1
      simp [ht,withConnected,managerConnect,PausableManager.withConnection,Manager.isConnected,
        hpaused]
    · simpa [ht,withConnected,managerConnect,PausableManager.withConnection,Manager.isConnected,
        hne] using hn
  · have hconnect : s.connect nodeID now = (none,t) := if_neg hfree
    rw [hconnect]
    refine h.of_frame rfl rfl (fun _ => Iff.rfl) ⟨fun n => ?_,h.linked.running⟩
    have hn := h.linked.isConnected_iff n
    by_cases hne : n = nodeID
    · subst hne
      refine ⟨fun hc => ⟨Finset.mem_insert_self n _,(hn.mp hc).2⟩,fun hp => ?_⟩
      have hp : n ∉ s.manager.pausedVdrs := hp.2
      simpa [ht,withConnected,PausableManager.isPaused,hp] using hfree
    · simpa [ht,withConnected,hne] using hn

theorem Linked.disconnect_eq {s : System} (h : s.Linked) (nodeID : NodeID) (now : Time) :
    s.disconnect nodeID now =
      if s.manager.isConnected nodeID then
        (s.withConnected (s.manager.connectedVdrs.erase nodeID)).managerDisconnect nodeID now
      else (none,s.withConnected (s.manager.connectedVdrs.erase nodeID)) := by
  unfold disconnect
  dsimp only
  change (if s.manager.isConnected nodeID = true then _ else _) = _
  split
  · next hconnected =>
    have hpaused : nodeID ∉ s.manager.pausedVdrs := ((h.isConnected_iff nodeID).mp hconnected).2
    exact if_neg fun hp => hpaused (of_decide_eq_true hp)
  · rfl

theorem disconnect_inStep {s : System} (h : s.InStep) (nodeID : NodeID) (now : Time) :
    (s.disconnect nodeID now).2.InStep := by
  set t := s.withConnected (s.manager.connectedVdrs.erase nodeID) with ht
  rw [h.linked.disconnect_eq]
  split
  · have hmanager := t.managerDisconnect_manager nodeID now
    obtain ⟨hlisteners,hcrashed⟩ := t.managerDisconnect_frame nodeID now
    refine h.of_frame hlisteners (by rw [hmanager]; rfl)
      (State.inactive_congr ((Absorbs.getValidator now).managerDisconnect t nodeID))
      ⟨fun n => ?_,hcrashed.trans h.linked.running⟩
    have hn := h.linked.isConnected_iff n
    rw [hmanager]
    by_cases hne : n = nodeID
    · simp [ht,hne,withConnected,PausableManager.withConnection,Manager.isConnected]
    · simpa [ht,hne,withConnected,PausableManager.withConnection,Manager.isConnected] using hn
  · next hconnected =>
    refine h.of_frame rfl rfl (fun _ => Iff.rfl) ⟨fun n => ?_,h.linked.running⟩
    have hn := h.linked.isConnected_iff n
    by_cases hne : n = nodeID
    · subst hne
      simpa [ht,withConnected] using hconnected
    · simpa [ht,withConnected,hne] using hn

/-- What `StartTracking` and `StopTracking` leave: the uptimes are brought up to date, and
tracking is switched if that went well. -/
theorem track_cases (s : System) (startedTracking : Bool) (nodes : List (NodeID × Time))
    (called : Called)
    (h : called = match s.manager.updateUptimes s.state nodes with
      | (some err,state) => (some err,{ s with state })
      | (none,state) => (none,{ s.withTracking startedTracking with state })) :
    called.1 = (s.manager.updateUptimes s.state nodes).1 ∧
      called.2.state = (s.manager.updateUptimes s.state nodes).2 ∧
      called.2.manager = { s.manager with startedTracking :=
        if called.1 = none then startedTracking else s.manager.startedTracking } ∧
      called.2.listeners = s.listeners ∧ called.2.crashed = s.crashed := by
  subst h
  cases hupdate : s.manager.updateUptimes s.state nodes with
  | mk err state =>
    cases err with
    | some err => exact ⟨rfl,rfl,rfl,rfl,rfl⟩
    | none => exact ⟨rfl,rfl,rfl,rfl,rfl⟩

theorem InStep.track {s : System} (h : s.InStep) {called : Called} {nodes : List (NodeID × Time)}
    {startedTracking : Bool}
    (hstate : called.2.state = (s.manager.updateUptimes s.state nodes).2)
    (hmanager : called.2.manager = { s.manager with startedTracking })
    (hlisteners : called.2.listeners = s.listeners) (hcrashed : called.2.crashed = s.crashed) :
    called.2.InStep := by
  refine h.of_frame hlisteners (by rw [hmanager]) (State.inactive_congr ?_) ⟨?_,?_⟩
  · rw [hstate]
    exact Manager.updateUptimes_absorbed (R := fun s s' => s'.getValidator = s.getValidator) _
      (fun _ => rfl) (fun _ _ => Absorbs.getValidator _) _
  · rw [hmanager]
    exact h.linked.isConnected_iff
  · rw [hcrashed]
    exact h.linked.running

theorem startTracking_inStep {s : System} (h : s.InStep) (nodes : List (NodeID × Time)) :
    (s.startTracking nodes).2.InStep := by
  by_cases hstarted : s.manager.startedTracking
  · rw [startTracking,if_pos hstarted]
    exact h
  · obtain ⟨_,hstate,hmanager,hlisteners,hcrashed⟩ :=
      s.track_cases true nodes (s.startTracking nodes) (if_neg hstarted)
    exact h.track hstate hmanager hlisteners hcrashed

theorem stopTracking_inStep {s : System} (h : s.InStep) (nodes : List (NodeID × Time)) :
    (s.stopTracking nodes).2.InStep := by
  by_cases hstarted : !s.manager.startedTracking
  · rw [stopTracking,if_pos hstarted]
    exact h
  · obtain ⟨_,hstate,hmanager,hlisteners,hcrashed⟩ :=
      s.track_cases false nodes (s.stopTracking nodes) (if_neg hstarted)
    exact h.track hstate hmanager hlisteners hcrashed

theorem step_inStep {s : System} (h : s.InStep) {op : Op} (hop : op.Enumerates s) :
    (s.step op).InStep := by
  cases op with
  | addValidator vdr now => exact addValidator_inStep h vdr now
  | updateValidator vdr now => exact updateValidator_inStep h vdr now
  | deleteValidator vID now => exact deleteValidator_inStep h vID now
  | setStatus vID isActive now => exact setStatus_inStep h vID isActive now
  | registerListener order => exact registerListener_inStep h hop
  | connect nodeID now => exact connect_inStep h nodeID now
  | disconnect nodeID now => exact disconnect_inStep h nodeID now
  | startTracking nodes => exact startTracking_inStep h nodes
  | stopTracking nodes => exact stopTracking_inStep h nodes

/-! ## Runs -/

/-- What is reached from new managers over any state, the manager being registered with it at
any point or never. -/
def Reached (s : System) : Prop :=
  Reaches (fun s => ∃ state, s = new state) (fun s op => op.Enumerates s) step s

theorem Reached.inStep {s : System} (h : s.Reached) : s.InStep := by
  refine Reaches.invariant (P := InStep) ?_ (fun _ _ hs hop => step_inStep hs hop) h
  rintro _ ⟨state,rfl⟩
  exact inStep_new state

theorem disconnect_ne_errPausedDisconnect {s : System} (h : s.Linked) (nodeID : NodeID)
    (now : Time) : (s.disconnect nodeID now).1 ≠ some .errPausedDisconnect := by
  rw [h.disconnect_eq]
  split
  · unfold managerDisconnect
    split
    · exact nofun
    · exact Manager.updateUptime_ne_errPausedDisconnect _ _ _ _
  · exact nofun

/-- As soon as the manager is registered, its paused nodes are those of the inactive
validators; the wrapped manager sees the connected nodes that are not paused, and no
`Disconnect` finds a node both connected and paused. -/
theorem paused_active_connected_in_step {s : System} (h : s.Reached) :
    (0 < s.listeners → ∀ nodeID, nodeID ∈ s.manager.pausedVdrs ↔ s.state.Inactive nodeID) ∧
    (∀ nodeID, s.manager.isConnected nodeID = true ↔
      nodeID ∈ s.manager.connectedVdrs ∧ nodeID ∉ s.manager.pausedVdrs) ∧
    ∀ nodeID now, (s.disconnect nodeID now).1 ≠ some .errPausedDisconnect :=
  ⟨h.inStep.paused_iff,h.inStep.linked.isConnected_iff,
    disconnect_ne_errPausedDisconnect h.inStep.linked⟩

/-! ## A connected node of an inactive validator -/

namespace Sample

def vdr : Validator where
  validationID := Warp.Sample.zeroID
  nodeID := ⟨List.replicate nodeIDLen 0,length_emptyNodeID⟩
  weight := 1
  startTimestamp := 0
  isActive := true
  isL1Validator := true

def otherID : ID := ⟨List.replicate Warp.idLen 1,List.length_replicate⟩

theorem length_otherNodeID : (List.replicate nodeIDLen (1 : UInt8)).length = nodeIDLen :=
  List.length_replicate

def otherVdr : Validator :=
  { vdr with
    validationID := otherID
    nodeID := ⟨List.replicate nodeIDLen 1,length_otherNodeID⟩ }

/-- The manager is registered, the node connects, and an inactive validator is added for it. -/
def inactive : System :=
  (((new .empty).step (.registerListener [])).step (.connect vdr.nodeID 0)).step
    (.addValidator { vdr with isActive := false } 0)

theorem inactive_reached : inactive.Reached := by
  have hstart : (new .empty).Reached := .start ⟨.empty,rfl⟩
  have horder : (Op.registerListener []).Enumerates (new .empty) :=
    fun vID h => absurd h Finmap.notMem_empty
  exact .step (.step (hstart.step horder) trivial) trivial

theorem inactive_in_step : 0 < inactive.listeners ∧
    (∀ nodeID, nodeID ∈ inactive.manager.pausedVdrs ↔ inactive.state.Inactive nodeID) ∧
    (∀ nodeID, inactive.manager.isConnected nodeID = true ↔
      nodeID ∈ inactive.manager.connectedVdrs ∧ nodeID ∉ inactive.manager.pausedVdrs) ∧
    ∀ nodeID now, (inactive.disconnect nodeID now).1 ≠ some .errPausedDisconnect := by
  obtain ⟨hpaused,hrest⟩ := paused_active_connected_in_step inactive_reached
  exact ⟨Nat.one_pos,hpaused Nat.one_pos,hrest⟩

end Sample
end System
end Landslide.Uptime
