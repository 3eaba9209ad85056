import Landslide.Uptime.State

/-! # The uptime managers

The uptime manager credits time lazily: it stores an uptime and the time up to which it is
counted, and adds what has passed since when it is asked or when a node disconnects. The
pausable manager stands in front of it and hides the connections of inactive validators;
the validator state calls it back on every change of a status.
-/
namespace Landslide.Uptime
open Warp (ID)

/-! ## Credited time -/

namespace ValidatorData

/-- The body of `CalculateUptime`, given whether tracking has started and since when the node
is connected. -/
@[irreducible] def creditedUptime (d : ValidatorData) (startedTracking : Bool) (connection : Option Time)
    (now : Time) : Duration × Time :=
  let lastUpdated := d.getLastUpdated
  -- time has gone backwards
  if now < lastUpdated then (d.upDuration,lastUpdated)
  -- before tracking a node is taken to be online
  else if !startedTracking then (d.upDuration + timeSub now lastUpdated,now)
  else match connection with
    | none => (d.upDuration,now)
    | some timeConnected =>
      let timeConnected := if timeConnected < lastUpdated then lastUpdated else timeConnected
      if now < timeConnected then (d.upDuration,now)
      else (d.upDuration + timeSub now timeConnected,now)

/-- The data after its uptime is brought up to date. -/
def credit (d : ValidatorData) (startedTracking : Bool) (connection : Option Time) (now : Time) :
    ValidatorData :=
  d.setUptime (d.creditedUptime startedTracking connection now).1
    (d.creditedUptime startedTracking connection now).2

@[simp] theorem validator_credit (d : ValidatorData) (startedTracking : Bool)
    (connection : Option Time) (now : Time) :
    (d.credit startedTracking connection now).validator = d.validator :=
  validator_setUptime ..

end ValidatorData

/-! ## The two managers -/

structure Manager where
  connections : NodeID → Option Time
  startedTracking : Bool

namespace Manager

def isConnected (m : Manager) (nodeID : NodeID) : Bool := (m.connections nodeID).isSome

def calculateUptime (m : Manager) (state : State) (nodeID : NodeID) (now : Time) :
    Except UptimeError (Duration × Time) :=
  match state.getData nodeID with
  | none => .error .errNotFound
  | some d => .ok (d.creditedUptime m.startedTracking (m.connections nodeID) now)

def updateUptime (m : Manager) (state : State) (nodeID : NodeID) (now : Time) :
    Option UptimeError × State :=
  match m.calculateUptime state nodeID now with
  | .error err => if err = .errUptimeNotFound then (none,state) else (some err,state)
  | .ok uptime => state.setUptime nodeID uptime.1 uptime.2

/-- The loop of `StartTracking` and `StopTracking`, with the clock's reading at each node. -/
def updateUptimes (m : Manager) (state : State) :
    List (NodeID × Time) → Option UptimeError × State
  | [] => (none,state)
  | (nodeID,now) :: rest => match m.updateUptime state nodeID now with
    | (some err,state) => (some err,state)
    | (none,state) => m.updateUptimes state rest

/-- What bringing one node up to date does to the data of a validator. -/
def creditNode (m : Manager) (nodeID : NodeID) (now : Time) (d : ValidatorData) : ValidatorData :=
  if d.nodeID = nodeID then d.credit m.startedTracking (m.connections nodeID) now else d

@[simp] theorem validator_creditNode (m : Manager) (nodeID : NodeID) (now : Time)
    (d : ValidatorData) : (m.creditNode nodeID now d).validator = d.validator := by
  unfold creditNode
  split
  · exact d.validator_credit ..
  · rfl

theorem calculateUptime_of_lookup (m : Manager) {state : State} {vID : ID} {d : ValidatorData}
    (h : state.data.lookup vID = some d) (now : Time) :
    m.calculateUptime state d.nodeID now =
      .ok (d.creditedUptime m.startedTracking (m.connections d.nodeID) now) := by
  rw [calculateUptime,state.getData_of_lookup h]

theorem updateUptime_of_none (m : Manager) {state : State} {nodeID : NodeID}
    (h : state.getData nodeID = none) (now : Time) :
    m.updateUptime state nodeID now = (some .errNotFound,state) := by
  rw [updateUptime,calculateUptime,h]
  rfl

theorem updateUptime_of_some (m : Manager) {state : State} {nodeID : NodeID} {d : ValidatorData}
    (h : state.getData nodeID = some d) (now : Time) :
    m.updateUptime state nodeID now =
      state.setUptime nodeID (d.creditedUptime m.startedTracking (m.connections nodeID) now).1
        (d.creditedUptime m.startedTracking (m.connections nodeID) now).2 := by
  rw [updateUptime,calculateUptime,h]

theorem updateUptime_error_iff (m : Manager) (state : State) (nodeID : NodeID) (now : Time) :
    (m.updateUptime state nodeID now).1 = none ↔ ∃ d, state.getData nodeID = some d := by
  cases h : state.getData nodeID with
  | none => simp [m.updateUptime_of_none h]
  | some d =>
    rw [m.updateUptime_of_some h,(state.setUptime_of_some h _ _).1]
    simp

theorem updateUptime_ne_errPausedDisconnect (m : Manager) (state : State) (nodeID : NodeID)
    (now : Time) : (m.updateUptime state nodeID now).1 ≠ some .errPausedDisconnect := by
  cases h : state.getData nodeID with
  | none => simp [m.updateUptime_of_none h]
  | some d =>
    rw [(m.updateUptime_error_iff state nodeID now).mpr ⟨d,h⟩]
    exact nofun

theorem updateUptime_lookup (m : Manager) (state : State) (nodeID : NodeID) (now : Time)
    (vID : ID) : (m.updateUptime state nodeID now).2.data.lookup vID =
      (state.data.lookup vID).map (m.creditNode nodeID now) := by
  cases h : state.getData nodeID with
  | none =>
    rw [m.updateUptime_of_none h]
    cases hd : state.data.lookup vID with
    | none => rfl
    | some d =>
      have hn : d.nodeID ≠ nodeID := by
        rintro rfl
        rw [state.getData_of_lookup hd] at h
        cases h
      rw [Option.map_some,creditNode,if_neg hn]
  | some e =>
    rw [m.updateUptime_of_some h,State.setUptime_lookup]
    cases hd : state.data.lookup vID with
    | none => rw [Option.map_none,Option.map_none]
    | some d =>
      rw [Option.map_some,Option.map_some,creditNode]
      by_cases hn : d.nodeID = nodeID
      · subst hn
        rw [state.getData_of_lookup hd] at h
        cases h
        rw [if_pos rfl,if_pos rfl,ValidatorData.credit]
      · rw [if_neg hn,if_neg hn]

@[simp] theorem updateUptime_getValidator (m : Manager) (state : State) (nodeID : NodeID)
    (now : Time) : (m.updateUptime state nodeID now).2.getValidator = state.getValidator := by
  have hcredit : ValidatorData.validator ∘ m.creditNode nodeID now = ValidatorData.validator := by
    funext d
    rw [Function.comp_apply,m.validator_creditNode]
  funext vID
  rw [State.getValidator,State.getValidator,updateUptime_lookup,Option.map_map,hcredit]

end Manager

/-- The pausable manager with the manager it wraps. -/
structure PausableManager extends Manager where
  pausedVdrs : Finset NodeID
  connectedVdrs : Finset NodeID

namespace PausableManager

def new : PausableManager := ⟨⟨fun _ => none,false⟩,∅,∅⟩

def isPaused (p : PausableManager) (nodeID : NodeID) : Bool := nodeID ∈ p.pausedVdrs

def withConnection (p : PausableManager) (nodeID : NodeID) (connection : Option Time) :
    PausableManager :=
  { p with connections := Function.update p.connections nodeID connection }

end PausableManager

@[ext] structure System where
  state : State
  manager : PausableManager
  listeners : ℕ
  /-- The logger of the pausable manager is never set, so a call of it is a nil dereference. -/
  crashed : Bool

/-- What a call leaves: an error or nil, and the system. -/
abbrev Called := Option UptimeError × System

namespace System

def new (state : State) : System := ⟨state,.new,0,false⟩

def withTracking (s : System) (startedTracking : Bool) : System :=
  { s with manager := { s.manager with startedTracking } }

def withPaused (s : System) (pausedVdrs : Finset NodeID) : System :=
  { s with manager := { s.manager with pausedVdrs } }

def withConnected (s : System) (connectedVdrs : Finset NodeID) : System :=
  { s with manager := { s.manager with connectedVdrs } }

def startTracking (s : System) (nodes : List (NodeID × Time)) : Called :=
  if s.manager.startedTracking then (some .errAlreadyStartedTracking,s)
  else match s.manager.updateUptimes s.state nodes with
    | (some err,state) => (some err,{ s with state })
    | (none,state) => (none,{ s.withTracking true with state })

def stopTracking (s : System) (nodes : List (NodeID × Time)) : Called :=
  if !s.manager.startedTracking then (some .errNotStartedTracking,s)
  else match s.manager.updateUptimes s.state nodes with
    | (some err,state) => (some err,{ s with state })
    | (none,state) => (none,{ s.withTracking false with state })

def managerConnect (s : System) (nodeID : NodeID) (now : Time) : System :=
  { s with manager := s.manager.withConnection nodeID (some now) }

/-- `Disconnect` of the wrapped manager; the connection is gone even if the update fails. -/
def managerDisconnect (s : System) (nodeID : NodeID) (now : Time) : Called :=
  if !s.manager.startedTracking then
    (none,{ s with manager := s.manager.withConnection nodeID none })
  else
    let updated := s.manager.updateUptime s.state nodeID now
    (updated.1,{ s with state := updated.2, manager := s.manager.withConnection nodeID none })

/-! ## The pausable manager -/

def connect (s : System) (nodeID : NodeID) (now : Time) : Called :=
  let s := s.withConnected (insert nodeID s.manager.connectedVdrs)
  if !s.manager.isPaused nodeID && !s.manager.isConnected nodeID then
    (none,s.managerConnect nodeID now)
  else (none,s)

def disconnect (s : System) (nodeID : NodeID) (now : Time) : Called :=
  let s := s.withConnected (s.manager.connectedVdrs.erase nodeID)
  if s.manager.isConnected nodeID then
    if s.manager.isPaused nodeID then (some .errPausedDisconnect,s)
    else s.managerDisconnect nodeID now
  else (none,s)

def pause (s : System) (nodeID : NodeID) (now : Time) : Called :=
  let s := s.withPaused (insert nodeID s.manager.pausedVdrs)
  if s.manager.isConnected nodeID then s.managerDisconnect nodeID now
  else (none,s)

def resume (s : System) (nodeID : NodeID) (now : Time) : Called :=
  let s := s.withPaused (s.manager.pausedVdrs.erase nodeID)
  if nodeID ∈ s.manager.connectedVdrs ∧ !s.manager.isConnected nodeID then
    (none,s.managerConnect nodeID now)
  else (none,s)

/-- An error of a callback goes to the logger. -/
def logged (called : Called) : System :=
  match called.1 with
  | none => called.2
  | some _ => { called.2 with crashed := true }

def onValidatorAdded (nodeID : NodeID) (isActive : Bool) (now : Time) (s : System) : System :=
  if !isActive then logged (s.pause nodeID now) else s

def onValidatorRemoved (nodeID : NodeID) (now : Time) (s : System) : System :=
  if s.manager.isPaused nodeID then logged (s.resume nodeID now) else s

def onValidatorStatusUpdated (nodeID : NodeID) (isActive : Bool) (now : Time) (s : System) :
    System :=
  logged (if isActive then s.resume nodeID now else s.pause nodeID now)

/-- A callback to every listener. -/
def notify (callback : System → System) (s : System) : System := callback^[s.listeners] s

end System

/-! ## The validator state with its listeners -/

/-- What a listener is told. -/
inductive Callback where
  | onValidatorAdded (vID : ID) (nodeID : NodeID) (startTime : UInt64) (isActive : Bool)
  | onValidatorRemoved (vID : ID) (nodeID : NodeID)
  | onValidatorStatusUpdated (vID : ID) (nodeID : NodeID) (isActive : Bool)

/-- The state together with listeners of any kind. Telling them may change them and, through the
methods of the state, the state. -/
structure Listening (σ : Type) where
  state : σ → State
  withState : σ → State → σ
  withState_state : ∀ x, withState x (state x) = x
  tell : Callback → σ → σ

namespace Listening
variable {σ : Type} (l : Listening σ) (x : σ)

def addValidator (vdr : Validator) : Option UptimeError × σ :=
  match (l.state x).addData (.new vdr) with
  | .error err => (some err,x)
  | .ok state =>
    (none,l.tell (.onValidatorAdded vdr.validationID vdr.nodeID vdr.startTimestamp vdr.isActive)
      (l.withState x (state.mark vdr.validationID .updatedStatus)))

def updateValidator (vdr : Validator) : Option UptimeError × σ :=
  match (l.state x).data.lookup vdr.validationID with
  | none => (some .errNotFound,x)
  | some d =>
    if !d.constantsAreUnmodified vdr then (some .errImmutableField,x)
    else
      let x₁ :=
        if d.isActive ≠ vdr.isActive then
          l.tell (.onValidatorStatusUpdated d.validationID d.nodeID vdr.isActive)
            (l.withState x ((l.state x).setIsActive vdr.validationID vdr.isActive))
        else x
      let x₂ :=
        if d.weight ≠ vdr.weight then
          l.withState x₁ ((l.state x₁).setWeight vdr.validationID vdr.weight)
        else x₁
      if d.isActive ≠ vdr.isActive ∨ d.weight ≠ vdr.weight then
        (none,l.withState x₂ ((l.state x₂).mark vdr.validationID .updatedStatus))
      else (none,x₂)

def deleteValidator (vID : ID) : Option UptimeError × σ :=
  match (l.state x).data.lookup vID with
  | none => (some .errNotFound,x)
  | some d =>
    (none,l.tell (.onValidatorRemoved vID d.nodeID)
      (l.withState x (((l.state x).eraseData d.validationID).mark d.validationID .deletedStatus)))

def setStatus (vID : ID) (isActive : Bool) : Option UptimeError × σ :=
  match (l.state x).data.lookup vID with
  | none => (some .errNotFound,x)
  | some d =>
    (none,l.tell (.onValidatorStatusUpdated vID d.nodeID isActive)
      (l.withState x (((l.state x).setIsActive vID isActive).mark vID .updatedStatus)))

end Listening

namespace System

/-- The pausable manager listens, as often as it is registered. -/
def listening (now : Time) : Listening System where
  state := System.state
  withState s state := { s with state }
  withState_state _ := rfl
  tell
    | .onValidatorAdded _ nodeID _ isActive => notify (onValidatorAdded nodeID isActive now)
    | .onValidatorRemoved _ nodeID => notify (onValidatorRemoved nodeID now)
    | .onValidatorStatusUpdated _ nodeID isActive =>
      notify (onValidatorStatusUpdated nodeID isActive now)

def addValidator (s : System) (vdr : Validator) (now : Time) : Called :=
  (listening now).addValidator s vdr

def updateValidator (s : System) (vdr : Validator) (now : Time) : Called :=
  (listening now).updateValidator s vdr

def deleteValidator (s : System) (vID : ID) (now : Time) : Called :=
  (listening now).deleteValidator s vID

def setStatus (s : System) (vID : ID) (isActive : Bool) (now : Time) : Called :=
  (listening now).setStatus s vID isActive

/-- The new listener is told of one validator. -/
def announce (s : System) (vID : ID) (now : Time) : System :=
  match s.state.data.lookup vID with
  | none => s
  | some d => onValidatorAdded d.nodeID d.isActive now s

/-- `RegisterListener`: the validators are announced in the order of the map's iteration, each
with the clock's reading at that point. -/
def registerListener (s : System) (order : List (ID × Time)) : System :=
  order.foldl (fun s entry => s.announce entry.1 entry.2) { s with listeners := s.listeners + 1 }

theorem addValidator_of_ok {s : System} {vdr : Validator} {state : State}
    (h : s.state.addData (.new vdr) = .ok state) (now : Time) :
    s.addValidator vdr now = (none,notify (onValidatorAdded vdr.nodeID vdr.isActive now)
      { s with state := state.mark vdr.validationID .updatedStatus }) := by
  simp only [addValidator,Listening.addValidator,listening,h]

theorem addValidator_cases {P : System → Prop} (s : System) (vdr : Validator) (now : Time)
    (hs : P s)
    (hok : ∀ state, s.state.addData (.new vdr) = .ok state →
      P (notify (onValidatorAdded vdr.nodeID vdr.isActive now)
        { s with state := state.mark vdr.validationID .updatedStatus })) :
    P (s.addValidator vdr now).2 := by
  cases hadd : s.state.addData (.new vdr) with
  | error err => simpa only [addValidator,Listening.addValidator,listening,hadd] using hs
  | ok state =>
    rw [addValidator_of_ok hadd]
    exact hok state hadd

theorem deleteValidator_cases {P : System → Prop} (s : System) (vID : ID) (now : Time)
    (hnone : s.state.data.lookup vID = none → P s)
    (hsome : ∀ d, s.state.data.lookup vID = some d → P (notify (onValidatorRemoved d.nodeID now)
      { s with state := (s.state.eraseData d.validationID).mark d.validationID .deletedStatus })) :
    P (s.deleteValidator vID now).2 := by
  cases hd : s.state.data.lookup vID with
  | none => simpa only [deleteValidator,Listening.deleteValidator,listening,hd] using hnone hd
  | some d => simpa only [deleteValidator,Listening.deleteValidator,listening,hd] using hsome d hd

theorem setStatus_cases {P : System → Prop} (s : System) (vID : ID) (isActive : Bool) (now : Time)
    (hs : P s)
    (hsome : ∀ d, s.state.data.lookup vID = some d →
      P (notify (onValidatorStatusUpdated d.nodeID isActive now)
        { s with state := (s.state.setIsActive vID isActive).mark vID .updatedStatus })) :
    P (s.setStatus vID isActive now).2 := by
  cases hd : s.state.data.lookup vID with
  | none => simpa only [setStatus,Listening.setStatus,listening,hd] using hs
  | some d => simpa only [setStatus,Listening.setStatus,listening,hd] using hsome d hd

/-- `UpdateValidator` leaves the system alone, or it marks the validator after the changes of
its status and of its weight. -/
theorem updateValidator_cases {P : System → Prop} (s : System) (vdr : Validator) (now : Time)
    (hs : P s)
    (hactive : ∀ d, s.state.data.lookup vdr.validationID = some d →
      P (notify (onValidatorStatusUpdated d.nodeID vdr.isActive now)
        { s with state := s.state.setIsActive vdr.validationID vdr.isActive }))
    (hweight : ∀ t : System, P t →
      P { t with state := t.state.setWeight vdr.validationID vdr.weight }) :
    (s.updateValidator vdr now).2 = s ∨ ∃ d t, s.state.data.lookup vdr.validationID = some d ∧
      P t ∧ (s.updateValidator vdr now).2 =
        { t with state := t.state.mark vdr.validationID .updatedStatus } := by
  simp only [updateValidator,Listening.updateValidator,listening]
  cases hd : s.state.data.lookup vdr.validationID with
  | none => exact Or.inl rfl
  | some d =>
    dsimp only
    by_cases hconstants : d.constantsAreUnmodified vdr = true
    · rw [if_neg (by simp [hconstants])]
      have h₁ : P (if d.isActive ≠ vdr.isActive then
          notify (onValidatorStatusUpdated d.nodeID vdr.isActive now)
            { s with state := s.state.setIsActive vdr.validationID vdr.isActive } else s) := by
        split
        · exact hactive d hd
        · exact hs
      by_cases hchanged : d.isActive ≠ vdr.isActive ∨ d.weight ≠ vdr.weight
      · rw [if_pos hchanged]
        refine Or.inr ⟨d,_,rfl,?_,rfl⟩
        split
        · exact hweight _ h₁
        · exact h₁
      · obtain ⟨hsame,hsame'⟩ := not_or.mp hchanged
        rw [if_neg hchanged,if_neg hsame,if_neg hsame']
        exact Or.inl rfl
    · rw [if_pos (by simp [hconstants])]
      exact Or.inl rfl

end System

/-! ## What the managers do to the state

All that the managers do to the validator state is to bring uptimes up to date, so a relation
between states that absorbs this absorbs every call of theirs and every callback.
-/

/-- Bringing an uptime up to date at this time stays within the relation. -/
structure Absorbs (R : State → State → Prop) (now : Time) : Prop where
  refl : ∀ s, R s s
  trans : ∀ {s s' s''}, R s s' → R s' s'' → R s s''
  update : ∀ (m : Manager) (s : State) (nodeID : NodeID), R s (m.updateUptime s nodeID now).2

namespace Absorbs
variable {R : State → State → Prop} {now : Time}

theorem managerDisconnect (h : Absorbs R now) (s : System) (nodeID : NodeID) :
    R s.state (s.managerDisconnect nodeID now).2.state := by
  unfold System.managerDisconnect
  split
  · exact h.refl _
  · exact h.update ..

theorem connect (h : Absorbs R now) (s : System) (nodeID : NodeID) :
    R s.state (s.connect nodeID now).2.state := by
  unfold System.connect
  dsimp only
  split <;> exact h.refl _

theorem disconnect (h : Absorbs R now) (s : System) (nodeID : NodeID) :
    R s.state (s.disconnect nodeID now).2.state := by
  unfold System.disconnect
  dsimp only
  split
  · split
    · exact h.refl _
    · exact h.managerDisconnect (s.withConnected (s.manager.connectedVdrs.erase nodeID)) nodeID
  · exact h.refl _

theorem pause (h : Absorbs R now) (s : System) (nodeID : NodeID) :
    R s.state (s.pause nodeID now).2.state := by
  unfold System.pause
  dsimp only
  split
  · exact h.managerDisconnect (s.withPaused (insert nodeID s.manager.pausedVdrs)) nodeID
  · exact h.refl _

theorem resume (h : Absorbs R now) (s : System) (nodeID : NodeID) :
    R s.state (s.resume nodeID now).2.state := by
  unfold System.resume
  dsimp only
  split <;> exact h.refl _

theorem logged_state (called : Called) : (System.logged called).state = called.2.state := by
  unfold System.logged
  split <;> rfl

theorem onValidatorAdded (h : Absorbs R now) (nodeID : NodeID) (isActive : Bool) (s : System) :
    R s.state (System.onValidatorAdded nodeID isActive now s).state := by
  unfold System.onValidatorAdded
  split
  · rw [logged_state]
    exact h.pause s nodeID
  · exact h.refl _

theorem onValidatorRemoved (h : Absorbs R now) (nodeID : NodeID) (s : System) :
    R s.state (System.onValidatorRemoved nodeID now s).state := by
  unfold System.onValidatorRemoved
  split
  · rw [logged_state]
    exact h.resume s nodeID
  · exact h.refl _

theorem onValidatorStatusUpdated (h : Absorbs R now) (nodeID : NodeID) (isActive : Bool)
    (s : System) : R s.state (System.onValidatorStatusUpdated nodeID isActive now s).state := by
  unfold System.onValidatorStatusUpdated
  rw [logged_state]
  split
  · exact h.resume s nodeID
  · exact h.pause s nodeID

theorem notify (h : Absorbs R now) {callback : System → System}
    (hcallback : ∀ s, R s.state (callback s).state) (s : System) :
    R s.state (System.notify callback s).state := by
  have hrepeat : ∀ k, R s.state (callback^[k] s).state := by
    intro k
    induction k with
    | zero => exact h.refl _
    | succ k ih =>
      rw [Function.iterate_succ_apply']
      exact h.trans ih (hcallback _)
  exact hrepeat s.listeners

/-- The managers change no validator but for its uptime. -/
theorem getValidator (now : Time) :
    Absorbs (fun s s' => s'.getValidator = s.getValidator) now where
  refl _ := rfl
  trans h h' := h'.trans h
  update m s nodeID := m.updateUptime_getValidator s nodeID now

end Absorbs

section
variable {R : State → State → Prop}

theorem Manager.updateUptimes_absorbed (m : Manager) {nodes : List (NodeID × Time)}
    (hrefl : ∀ s, R s s) (h : ∀ entry ∈ nodes, Absorbs R entry.2) (s : State) :
    R s (m.updateUptimes s nodes).2 := by
  induction nodes generalizing s with
  | nil => exact hrefl s
  | cons entry rest ih =>
    have habsorbs := h entry List.mem_cons_self
    have hone := habsorbs.update m s entry.1
    rw [updateUptimes]
    cases hupdate : m.updateUptime s entry.1 entry.2 with
    | mk err s' =>
      rw [hupdate] at hone
      cases err with
      | some err => exact hone
      | none =>
        exact habsorbs.trans hone (ih (fun e he => h e (List.mem_cons_of_mem _ he)) s')

theorem System.startTracking_absorbed (s : System) {nodes : List (NodeID × Time)}
    (hrefl : ∀ s, R s s) (h : ∀ entry ∈ nodes, Absorbs R entry.2) :
    R s.state (s.startTracking nodes).2.state := by
  have hall := s.manager.updateUptimes_absorbed hrefl h s.state
  unfold startTracking
  split
  · exact hrefl _
  · cases hupdate : s.manager.updateUptimes s.state nodes with
    | mk err state =>
      rw [hupdate] at hall
      cases err <;> exact hall

theorem System.stopTracking_absorbed (s : System) {nodes : List (NodeID × Time)}
    (hrefl : ∀ s, R s s) (h : ∀ entry ∈ nodes, Absorbs R entry.2) :
    R s.state (s.stopTracking nodes).2.state := by
  have hall := s.manager.updateUptimes_absorbed hrefl h s.state
  unfold stopTracking
  split
  · exact hrefl _
  · cases hupdate : s.manager.updateUptimes s.state nodes with
    | mk err state =>
      rw [hupdate] at hall
      cases err <;> exact hall

theorem System.registerListener_absorbed (s : System) {order : List (ID × Time)}
    (hrefl : ∀ s, R s s) (h : ∀ entry ∈ order, Absorbs R entry.2) :
    R s.state (s.registerListener order).state := by
  have hfold : ∀ t : System, R t.state
      (order.foldl (fun s entry => s.announce entry.1 entry.2) t).state := by
    induction order with
    | nil => exact fun t => hrefl t.state
    | cons entry rest ih =>
      intro t
      have habsorbs := h entry List.mem_cons_self
      have hone : R t.state (t.announce entry.1 entry.2).state := by
        unfold announce
        split
        · exact hrefl _
        · exact habsorbs.onValidatorAdded ..
      exact habsorbs.trans hone (ih (fun e he => h e (List.mem_cons_of_mem _ he)) _)
  exact hfold { s with listeners := s.listeners + 1 }

end
end Landslide.Uptime
