import Mathlib.Data.Finmap
import Landslide.Warp.Messages

/-! # The validator state

Validators are kept by validation ID, with an index from node IDs to validation IDs. The
state carries that both maps describe the same validators, so an operation that would
break the index cannot be written down. Changes are marked until they are written.
-/
namespace Landslide.Uptime
open Warp (ID ByteArrayOf)

def nodeIDLen : ℕ := 20

abbrev NodeID := ByteArrayOf nodeIDLen

theorem length_emptyNodeID : (List.replicate nodeIDLen (0 : UInt8)).length = nodeIDLen :=
  List.length_replicate

/-! ## Times and durations -/

/-- A `time.Time` of whole seconds, as the seconds since year 1 that it keeps. -/
abbrev Time := Int64

abbrev Duration := Int64

@[irreducible] def unixToInternal : Int64 := 62135596800

/-- `time.Unix(sec, 0)`. -/
@[irreducible] def unixTime (sec : Int64) : Time := sec + unixToInternal

/-- `Time.Unix`. -/
@[irreducible] def toUnix (t : Time) : Int64 := t - unixToInternal

theorem unixTime_toUnix (t : Time) : unixTime (toUnix t).toUInt64.toInt64 = t := by
  rw [Int64.toInt64_toUInt64,unixTime,toUnix,Int64.sub_add_cancel]

def second : ℤ := 1000000000

/-- `Time.Sub`, which saturates. -/
@[irreducible] def timeSub (t u : Time) : Duration :=
  Int64.ofInt (max (-2 ^ 63) (min (2 ^ 63 - 1) ((t.toInt - u.toInt) * second)))

/-! ## Validators -/

structure Validator where
  validationID : ID
  nodeID : NodeID
  weight : UInt64
  startTimestamp : UInt64
  isActive : Bool
  isL1Validator : Bool
  deriving DecidableEq

structure ValidatorData where
  upDuration : Duration
  lastUpdated : UInt64
  nodeID : NodeID
  weight : UInt64
  startTime : UInt64
  isActive : Bool
  isL1Validator : Bool
  /-- The database key; it is not serialized. -/
  validationID : ID
  deriving DecidableEq

namespace ValidatorData

def getLastUpdated (d : ValidatorData) : Time := unixTime d.lastUpdated.toInt64

def getStartTime (d : ValidatorData) : Time := unixTime d.startTime.toInt64

def setUptime (upDuration : Duration) (lastUpdated : Time) (d : ValidatorData) : ValidatorData :=
  { d with upDuration, lastUpdated := (toUnix lastUpdated).toUInt64 }

def constantsAreUnmodified (d : ValidatorData) (u : Validator) : Bool :=
  d.validationID == u.validationID && d.nodeID == u.nodeID &&
    d.isL1Validator == u.isL1Validator && d.startTime == u.startTimestamp

def new (vdr : Validator) : ValidatorData where
  upDuration := 0
  lastUpdated := vdr.startTimestamp
  nodeID := vdr.nodeID
  weight := vdr.weight
  startTime := vdr.startTimestamp
  isActive := vdr.isActive
  isL1Validator := vdr.isL1Validator
  validationID := vdr.validationID

def validator (d : ValidatorData) : Validator :=
  ⟨d.validationID,d.nodeID,d.weight,d.startTime,d.isActive,d.isL1Validator⟩

@[simp] theorem validator_new (vdr : Validator) : (new vdr).validator = vdr := rfl

@[simp] theorem validator_setUptime (d : ValidatorData) (upDuration : Duration) (t : Time) :
    (d.setUptime upDuration t).validator = d.validator := rfl

@[simp] theorem upDuration_setUptime (d : ValidatorData) (upDuration : Duration) (t : Time) :
    (d.setUptime upDuration t).upDuration = upDuration := rfl

@[simp] theorem getStartTime_setUptime (d : ValidatorData) (upDuration : Duration) (t : Time) :
    (d.setUptime upDuration t).getStartTime = d.getStartTime := rfl

@[simp] theorem getLastUpdated_setUptime (d : ValidatorData) (upDuration : Duration) (t : Time) :
    (d.setUptime upDuration t).getLastUpdated = t :=
  unixTime_toUnix t

theorem constantsAreUnmodified_iff {d : ValidatorData} {u : Validator} :
    d.constantsAreUnmodified u = true ↔ d.validationID = u.validationID ∧ d.nodeID = u.nodeID ∧
      d.isL1Validator = u.isL1Validator ∧ d.startTime = u.startTimestamp := by
  simp [constantsAreUnmodified,and_assoc,Subtype.ext_iff]

end ValidatorData

/-! ## The state -/

/-- The mark of a change since the last write. -/
inductive DbUpdateStatus where
  | updatedStatus
  | deletedStatus
  deriving DecidableEq

/-- Errors of the state and of the uptime managers over it. The state's `ErrNotFound` and the
one that the uptime manager knows are two variables. -/
inductive UptimeError where
  | errNotFound
  | errUptimeNotFound
  | validationIDExists (vID : ID)
  | nodeIDExists (nodeID : NodeID)
  | errImmutableField
  | errAlreadyStartedTracking
  | errNotStartedTracking
  | errPausedDisconnect
  deriving DecidableEq

/-- The text of an error, given the text forms of the two kinds of ID. -/
def UptimeError.text (idString : ID → String) (nodeString : NodeID → String) :
    UptimeError → String
  | errNotFound => "not found"
  | errUptimeNotFound => "not found"
  | validationIDExists vID => "validator already exists, vID: " ++ idString vID
  | nodeIDExists nodeID => "validator already exists, nodeID: " ++ nodeString nodeID
  | errImmutableField => "immutable field cannot be updated"
  | errAlreadyStartedTracking => "already started tracking"
  | errNotStartedTracking => "not started tracking"
  | errPausedDisconnect => "paused node cannot be disconnected"

abbrev DataMap := Finmap fun _ : ID => ValidatorData

structure State where
  data : DataMap
  index : Finmap fun _ : NodeID => ID
  updatedData : Finmap fun _ : ID => DbUpdateStatus
  validationID_eq : ∀ {vID d}, data.lookup vID = some d → d.validationID = vID
  index_iff : ∀ {nodeID vID}, index.lookup nodeID = some vID ↔
    ∃ d, data.lookup vID = some d ∧ d.nodeID = nodeID

namespace State

def empty : State where
  data := ∅
  index := ∅
  updatedData := ∅
  validationID_eq h := by simp at h
  index_iff := by simp

def mark (s : State) (vID : ID) (status : DbUpdateStatus) : State :=
  { s with updatedData := s.updatedData.insert vID status }

@[simp] theorem mark_data (s : State) (vID : ID) (status : DbUpdateStatus) :
    (s.mark vID status).data = s.data := rfl

@[simp] theorem mark_updatedData (s : State) (vID : ID) (status : DbUpdateStatus) :
    (s.mark vID status).updatedData = s.updatedData.insert vID status := rfl

theorem eq_of_nodeID_eq (s : State) {v w : ID} {d e : ValidatorData} (hv : s.data.lookup v = some d)
    (hw : s.data.lookup w = some e) (h : d.nodeID = e.nodeID) : v = w := by
  have hdv := s.index_iff.mpr ⟨d,hv,rfl⟩
  have hew := s.index_iff.mpr ⟨e,hw,rfl⟩
  rw [h,hew] at hdv
  exact (Option.some.inj hdv).symm

theorem nodeID_mem_index_iff (s : State) {nodeID : NodeID} :
    nodeID ∈ s.index ↔ ∃ vID d, s.data.lookup vID = some d ∧ d.nodeID = nodeID := by
  rw [Finmap.mem_iff]
  simp only [s.index_iff]

/-! ### The three changes of the maps -/

/-- A new validator under a free validation ID and a free node ID. -/
def insertData (s : State) (d : ValidatorData) (hv : d.validationID ∉ s.data)
    (hn : d.nodeID ∉ s.index) : State where
  data := s.data.insert d.validationID d
  index := s.index.insert d.nodeID d.validationID
  updatedData := s.updatedData
  validationID_eq := by
    intro v e h
    by_cases hv' : v = d.validationID
    · subst hv'
      rw [Finmap.lookup_insert] at h
      cases h
      rfl
    · rw [Finmap.lookup_insert_of_ne _ hv'] at h
      exact s.validationID_eq h
  index_iff := by
    intro n v
    by_cases hn' : n = d.nodeID
    · subst hn'
      rw [Finmap.lookup_insert]
      constructor
      · rintro ⟨⟩
        exact ⟨d,Finmap.lookup_insert _,rfl⟩
      · rintro ⟨e,he,hne⟩
        by_cases hv' : v = d.validationID
        · rw [hv']
        · rw [Finmap.lookup_insert_of_ne _ hv'] at he
          exact absurd (s.nodeID_mem_index_iff.mpr ⟨v,e,he,hne⟩) hn
    · rw [Finmap.lookup_insert_of_ne _ hn',s.index_iff]
      by_cases hv' : v = d.validationID
      · subst hv'
        rw [Finmap.lookup_insert,Finmap.lookup_eq_none.mpr hv]
        simp [Ne.symm hn']
      · rw [Finmap.lookup_insert_of_ne _ hv']

def indexWithout (s : State) (vID : ID) : Finmap fun _ : NodeID => ID :=
  match s.data.lookup vID with
  | none => s.index
  | some d => s.index.erase d.nodeID

theorem lookup_indexWithout (s : State) {vID v : ID} {n : NodeID} :
    (s.indexWithout vID).lookup n = some v ↔ s.index.lookup n = some v ∧ v ≠ vID := by
  unfold indexWithout
  cases h : s.data.lookup vID with
  | none =>
    refine ⟨fun hn => ⟨hn,?_⟩,And.left⟩
    rintro rfl
    obtain ⟨d,hd,_⟩ := s.index_iff.mp hn
    rw [h] at hd
    cases hd
  | some d =>
    by_cases hn : n = d.nodeID
    · subst hn
      rw [s.index_iff.mpr ⟨d,h,rfl⟩,Finmap.lookup_erase]
      simpa using fun h => h.symm
    · rw [Finmap.lookup_erase_ne hn]
      refine ⟨fun hv => ⟨hv,?_⟩,And.left⟩
      rintro rfl
      obtain ⟨e,he,hne⟩ := s.index_iff.mp hv
      rw [h] at he
      cases he
      exact hn hne.symm

def eraseData (s : State) (vID : ID) : State where
  data := s.data.erase vID
  index := s.indexWithout vID
  updatedData := s.updatedData
  validationID_eq := by
    intro v e he
    by_cases hv : v = vID
    · rw [hv,Finmap.lookup_erase] at he
      cases he
    · rw [Finmap.lookup_erase_ne hv] at he
      exact s.validationID_eq he
  index_iff := by
    intro n v
    rw [lookup_indexWithout,s.index_iff]
    by_cases hv : v = vID
    · rw [hv,Finmap.lookup_erase]
      simp
    · rw [Finmap.lookup_erase_ne hv]
      simp [hv]

/-- The data of one validator changed in place. -/
def modifyMap (data : DataMap) (vID : ID) (f : ValidatorData → ValidatorData) : DataMap :=
  match data.lookup vID with
  | none => data
  | some d => data.insert vID (f d)

theorem lookup_modifyMap (data : DataMap) (vID v : ID) (f : ValidatorData → ValidatorData) :
    (modifyMap data vID f).lookup v = (data.lookup v).map (if v = vID then f else id) := by
  unfold modifyMap
  by_cases hv : v = vID
  · subst hv
    cases h : data.lookup v with
    | none => simpa using h
    | some d => simp
  · cases data.lookup vID with
    | none => simp [hv]
    | some d => simp [hv,Finmap.lookup_insert_of_ne]

/-- A change of a validator's data that leaves its two IDs alone. -/
def modifyData (s : State) (vID : ID) (f : ValidatorData → ValidatorData)
    (hv : ∀ d, (f d).validationID = d.validationID) (hn : ∀ d, (f d).nodeID = d.nodeID) : State where
  data := modifyMap s.data vID f
  index := s.index
  updatedData := s.updatedData
  validationID_eq := by
    intro v e he
    rw [lookup_modifyMap,Option.map_eq_some_iff] at he
    obtain ⟨d,hd,rfl⟩ := he
    split
    · rw [hv,s.validationID_eq hd]
    · exact s.validationID_eq hd
  index_iff := by
    intro n v
    have hnode : ∀ d, ((if v = vID then f else id) d).nodeID = d.nodeID := by
      intro d
      split
      · exact hn d
      · rfl
    rw [s.index_iff,lookup_modifyMap]
    simp [hnode]

/-! ### Operations without listeners -/

/-- `addData`; both callers pass the validation ID that stands in the data. -/
def addData (s : State) (d : ValidatorData) : Except UptimeError State :=
  if hv : d.validationID ∈ s.data then .error (.validationIDExists d.validationID)
  else if hn : d.nodeID ∈ s.index then .error (.nodeIDExists d.nodeID)
  else .ok (s.insertData d hv hn)

def getData (s : State) (nodeID : NodeID) : Option ValidatorData :=
  (s.index.lookup nodeID).bind fun vID => s.data.lookup vID

def setUptime (s : State) (nodeID : NodeID) (upDuration : Duration) (lastUpdated : Time) :
    Option UptimeError × State :=
  match s.getData nodeID with
  | none => (some .errNotFound,s)
  | some d =>
    (none,(s.modifyData d.validationID (ValidatorData.setUptime upDuration lastUpdated)
      (fun _ => rfl) (fun _ => rfl)).mark d.validationID .updatedStatus)

def setIsActive (s : State) (vID : ID) (isActive : Bool) : State :=
  s.modifyData vID (fun d => { d with isActive }) (fun _ => rfl) (fun _ => rfl)

def setWeight (s : State) (vID : ID) (weight : UInt64) : State :=
  s.modifyData vID (fun d => { d with weight }) (fun _ => rfl) (fun _ => rfl)

def getValidationIDs (s : State) : Finset ID := s.data.keys

def getValidator (s : State) (vID : ID) : Option Validator :=
  (s.data.lookup vID).map ValidatorData.validator

theorem getData_eq_some_iff (s : State) {nodeID : NodeID} {d : ValidatorData} :
    s.getData nodeID = some d ↔ s.data.lookup d.validationID = some d ∧ d.nodeID = nodeID := by
  rw [getData,Option.bind_eq_some_iff]
  constructor
  · rintro ⟨vID,hindex,hd⟩
    obtain ⟨e,he,hne⟩ := s.index_iff.mp hindex
    rw [hd] at he
    cases he
    rw [s.validationID_eq hd]
    exact ⟨hd,hne⟩
  · rintro ⟨hd,hn⟩
    exact ⟨d.validationID,s.index_iff.mpr ⟨d,hd,hn⟩,hd⟩

theorem getData_of_lookup (s : State) {vID : ID} {d : ValidatorData}
    (h : s.data.lookup vID = some d) : s.getData d.nodeID = some d := by
  rw [getData_eq_some_iff,s.validationID_eq h]
  exact ⟨h,rfl⟩

theorem getValidator_of_lookup (s : State) {vID : ID} {d : ValidatorData}
    (h : s.data.lookup vID = some d) : s.getValidator vID = some d.validator := by
  rw [getValidator,h]
  rfl

theorem lookup_of_getValidator (s : State) {vID : ID} {vdr : Validator}
    (h : s.getValidator vID = some vdr) : ∃ d, s.data.lookup vID = some d ∧ d.validator = vdr :=
  Option.map_eq_some_iff.mp h

@[simp] theorem insertData_data (s : State) (d : ValidatorData) (hv hn) :
    (s.insertData d hv hn).data = s.data.insert d.validationID d := rfl

@[simp] theorem insertData_updatedData (s : State) (d : ValidatorData) (hv hn) :
    (s.insertData d hv hn).updatedData = s.updatedData := rfl

@[simp] theorem eraseData_data (s : State) (vID : ID) :
    (s.eraseData vID).data = s.data.erase vID := rfl

@[simp] theorem eraseData_updatedData (s : State) (vID : ID) :
    (s.eraseData vID).updatedData = s.updatedData := rfl

@[simp] theorem setIsActive_lookup (s : State) (vID v : ID) (isActive : Bool) :
    (s.setIsActive vID isActive).data.lookup v =
      (s.data.lookup v).map (if v = vID then fun d => { d with isActive } else id) :=
  lookup_modifyMap ..

@[simp] theorem setIsActive_updatedData (s : State) (vID : ID) (isActive : Bool) :
    (s.setIsActive vID isActive).updatedData = s.updatedData := rfl

@[simp] theorem setWeight_lookup (s : State) (vID v : ID) (weight : UInt64) :
    (s.setWeight vID weight).data.lookup v =
      (s.data.lookup v).map (if v = vID then fun d => { d with weight } else id) :=
  lookup_modifyMap ..

theorem setUptime_of_none (s : State) {nodeID : NodeID} (h : s.getData nodeID = none)
    (upDuration : Duration) (lastUpdated : Time) :
    s.setUptime nodeID upDuration lastUpdated = (some .errNotFound,s) := by
  rw [setUptime,h]

theorem setUptime_of_some (s : State) {nodeID : NodeID} {d : ValidatorData}
    (h : s.getData nodeID = some d) (upDuration : Duration) (lastUpdated : Time) :
    (s.setUptime nodeID upDuration lastUpdated).1 = none ∧
      (s.setUptime nodeID upDuration lastUpdated).2.updatedData =
        s.updatedData.insert d.validationID .updatedStatus := by
  rw [setUptime,h]
  exact ⟨rfl,rfl⟩

theorem setUptime_lookup (s : State) (nodeID : NodeID) (upDuration : Duration)
    (lastUpdated : Time) (vID : ID) :
    (s.setUptime nodeID upDuration lastUpdated).2.data.lookup vID = (s.data.lookup vID).map
      fun d => if d.nodeID = nodeID then d.setUptime upDuration lastUpdated else d := by
  have hother : ∀ {d}, s.data.lookup vID = some d → d.nodeID ≠ nodeID →
      s.data.lookup vID = (s.data.lookup vID).map
        fun d => if d.nodeID = nodeID then d.setUptime upDuration lastUpdated else d := by
    intro d hd hn
    rw [hd,Option.map_some,if_neg hn]
  cases h : s.getData nodeID with
  | none =>
    rw [s.setUptime_of_none h]
    cases hd : s.data.lookup vID with
    | none => rfl
    | some d =>
      have hn : d.nodeID ≠ nodeID := by
        rintro rfl
        rw [s.getData_of_lookup hd] at h
        cases h
      rw [← hd]
      exact hother hd hn
  | some e =>
    obtain ⟨he,hn⟩ := s.getData_eq_some_iff.mp h
    rw [setUptime,h]
    change (modifyMap s.data e.validationID _).lookup vID = _
    rw [lookup_modifyMap]
    by_cases hv : vID = e.validationID
    · subst hv
      rw [he,Option.map_some,Option.map_some,if_pos hn,if_pos rfl]
    · rw [if_neg hv,Option.map_id,id]
      cases hd : s.data.lookup vID with
      | none => rfl
      | some d =>
        have hne : d.nodeID ≠ nodeID := fun hd' =>
          hv (s.eq_of_nodeID_eq hd he (hd'.trans hn.symm))
        rw [← hd]
        exact hother hd hne

theorem addData_ok_iff (s : State) {d : ValidatorData} {s' : State} :
    s.addData d = .ok s' ↔
      ∃ (hv : d.validationID ∉ s.data) (hn : d.nodeID ∉ s.index), s' = s.insertData d hv hn := by
  unfold addData
  by_cases hv : d.validationID ∈ s.data
  · simp [hv]
  · by_cases hn : d.nodeID ∈ s.index
    · simp [hv,hn]
    · simp [hv,hn,eq_comm]

end State
end Landslide.Uptime
