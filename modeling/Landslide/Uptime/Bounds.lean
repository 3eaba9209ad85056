import Landslide.Uptime.Pausing

/-! # Uptime is never over-counted

Whatever the clock does, a stored uptime stays between zero and the time from the start to
the last update. Durations are kept in an int64 of nanoseconds, so the time from a
validator's start to a reading of the clock is bounded by what such a duration can hold.
-/
namespace Landslide.Uptime
open Warp (ID)

/-! ## Exact durations -/

/-- The longest time, in whole seconds, that a duration can hold. -/
def maxSeconds : ℤ := 9223372036

theorem timeSub_toInt {t u : Time} (h : u.toInt ≤ t.toInt) (hmax : t.toInt - u.toInt ≤ maxSeconds) :
    (timeSub t u).toInt = (t.toInt - u.toInt) * second := by
  unfold maxSeconds at hmax
  unfold timeSub second
  rw [min_eq_right (by omega),max_eq_right (by omega),Int64.toInt_ofInt_of_le (by omega) (by omega)]

theorem toInt_add_of_nonneg {a b : Duration} (ha : 0 ≤ a.toInt) (hb : 0 ≤ b.toInt)
    (h : a.toInt + b.toInt ≤ maxSeconds * second) : (a + b).toInt = a.toInt + b.toInt := by
  unfold maxSeconds second at h
  rw [Int64.toInt_add,Int.bmod_eq_of_le (by omega) (by omega)]

namespace ValidatorData

/-- The stored uptime lies within the time that is accounted for. -/
structure Accounted (d : ValidatorData) : Prop where
  start_le : d.getStartTime.toInt ≤ d.getLastUpdated.toInt
  within : d.getLastUpdated.toInt - d.getStartTime.toInt ≤ maxSeconds
  nonneg : 0 ≤ d.upDuration.toInt
  le : d.upDuration.toInt ≤ (d.getLastUpdated.toInt - d.getStartTime.toInt) * second

/-- The seconds that `CalculateUptime` adds to the stored uptime. -/
def accrued (d : ValidatorData) (startedTracking : Bool) (connection : Option Time) (now : Time) : ℤ :=
  match startedTracking,connection with
  | false,_ => max 0 (now.toInt - d.getLastUpdated.toInt)
  | true,none => 0
  | true,some timeConnected =>
    max 0 (now.toInt - max timeConnected.toInt d.getLastUpdated.toInt)

theorem accrued_nonneg (d : ValidatorData) (startedTracking : Bool) (connection : Option Time)
    (now : Time) : 0 ≤ d.accrued startedTracking connection now := by
  unfold accrued
  split
  · exact le_max_left ..
  · exact le_rfl
  · exact le_max_left ..

theorem accrued_le (d : ValidatorData) (startedTracking : Bool) (connection : Option Time)
    (now : Time) : d.accrued startedTracking connection now ≤
      max d.getLastUpdated.toInt now.toInt - d.getLastUpdated.toInt := by
  unfold accrued
  split <;> omega

theorem creditedUptime_of_lt (d : ValidatorData) (startedTracking : Bool) (connection : Option Time)
    {now : Time} (h : now < d.getLastUpdated) :
    d.creditedUptime startedTracking connection now = (d.upDuration,d.getLastUpdated) := by
  unfold creditedUptime
  exact if_pos h

theorem creditedUptime_untracked (d : ValidatorData) (connection : Option Time) {now : Time}
    (h : ¬now < d.getLastUpdated) : d.creditedUptime false connection now =
      (d.upDuration + timeSub now d.getLastUpdated,now) := by
  unfold creditedUptime
  exact (if_neg h).trans (if_pos rfl)

theorem creditedUptime_disconnected (d : ValidatorData) {now : Time}
    (h : ¬now < d.getLastUpdated) : d.creditedUptime true none now = (d.upDuration,now) := by
  unfold creditedUptime
  exact (if_neg h).trans (if_neg (by decide))

theorem creditedUptime_connected (d : ValidatorData) (timeConnected : Time) {now since : Time}
    (h : ¬now < d.getLastUpdated)
    (hsince : since = if timeConnected < d.getLastUpdated then d.getLastUpdated else timeConnected) :
    d.creditedUptime true (some timeConnected) now =
      if now < since then (d.upDuration,now) else (d.upDuration + timeSub now since,now) := by
  unfold creditedUptime
  subst hsince
  exact (if_neg h).trans (if_neg (by decide))

theorem le_of_not_lt {t u : Time} (h : ¬t < u) : u.toInt ≤ t.toInt :=
  not_lt.mp fun hlt => h (Int64.lt_iff_toInt_lt.mpr hlt)

theorem creditedUptime_time (d : ValidatorData) (startedTracking : Bool) (connection : Option Time)
    (now : Time) : (d.creditedUptime startedTracking connection now).2.toInt =
      max d.getLastUpdated.toInt now.toInt := by
  by_cases h : now < d.getLastUpdated
  · rw [creditedUptime_of_lt _ _ _ h,max_eq_left (Int64.lt_iff_toInt_lt.mp h).le]
  · rw [max_eq_right (le_of_not_lt h)]
    cases startedTracking with
    | false => rw [creditedUptime_untracked _ _ h]
    | true =>
      cases connection with
      | none => rw [creditedUptime_disconnected _ h]
      | some timeConnected =>
        rw [creditedUptime_connected _ _ h rfl,apply_ite Prod.snd,ite_self]

theorem Accounted.add_toInt {d : ValidatorData} (h : d.Accounted) {now since : Time}
    (hsince : d.getLastUpdated.toInt ≤ since.toInt) (hle : since.toInt ≤ now.toInt)
    (hnow : now.toInt - d.getStartTime.toInt ≤ maxSeconds) :
    (d.upDuration + timeSub now since).toInt =
      d.upDuration.toInt + (now.toInt - since.toInt) * second := by
  have hstart := h.start_le
  have hup := h.le
  have hsub := timeSub_toInt hle (by omega)
  have hsecond : second = 1000000000 := rfl
  rw [toInt_add_of_nonneg h.nonneg,hsub]
  · rw [hsub,hsecond]
    omega
  · rw [hsub]
    rw [hsecond] at hup ⊢
    omega

theorem Accounted.creditedUptime_toInt {d : ValidatorData} (h : d.Accounted)
    (startedTracking : Bool) (connection : Option Time) {now : Time}
    (hnow : now.toInt - d.getStartTime.toInt ≤ maxSeconds) :
    (d.creditedUptime startedTracking connection now).1.toInt =
      d.upDuration.toInt + d.accrued startedTracking connection now * second := by
  by_cases hlt : now < d.getLastUpdated
  · -- the clock stands before the last update, and nothing is added
    have hzero := d.accrued_le startedTracking connection now
    have hnonneg := d.accrued_nonneg startedTracking connection now
    rw [max_eq_left (Int64.lt_iff_toInt_lt.mp hlt).le,sub_self] at hzero
    rw [creditedUptime_of_lt _ _ _ hlt,le_antisymm hzero hnonneg,zero_mul,add_zero]
  · have hle := le_of_not_lt hlt
    cases startedTracking with
    | false =>
      rw [creditedUptime_untracked _ _ hlt,h.add_toInt le_rfl hle hnow,accrued,
        max_eq_right (by omega)]
    | true =>
      cases connection with
      | none => rw [creditedUptime_disconnected _ hlt,accrued,zero_mul,add_zero]
      | some timeConnected =>
        obtain ⟨since,hsince⟩ : ∃ since : Time, since =
            if timeConnected < d.getLastUpdated then d.getLastUpdated else timeConnected := ⟨_,rfl⟩
        have hmax : since.toInt = max timeConnected.toInt d.getLastUpdated.toInt := by
          by_cases hc : timeConnected < d.getLastUpdated
          · rw [hsince,if_pos hc,max_eq_right (Int64.lt_iff_toInt_lt.mp hc).le]
          · rw [hsince,if_neg hc,max_eq_left (le_of_not_lt hc)]
        have hlast : d.getLastUpdated.toInt ≤ since.toInt := hmax ▸ le_max_right ..
        rw [creditedUptime_connected _ _ hlt hsince,accrued,← hmax]
        by_cases hc : now < since
        · have hc' := Int64.lt_iff_toInt_lt.mp hc
          rw [if_pos hc,max_eq_left (by omega),zero_mul,add_zero]
        · have hc' := le_of_not_lt hc
          rw [if_neg hc,h.add_toInt hlast hc' hnow,max_eq_right (by omega)]

theorem Accounted.creditedUptime_le {d : ValidatorData} (h : d.Accounted)
    (startedTracking : Bool) (connection : Option Time) {now : Time}
    (hnow : now.toInt - d.getStartTime.toInt ≤ maxSeconds) :
    0 ≤ (d.creditedUptime startedTracking connection now).1.toInt ∧
      (d.creditedUptime startedTracking connection now).1.toInt ≤
        ((d.creditedUptime startedTracking connection now).2.toInt - d.getStartTime.toInt) * second := by
  have hnonneg := h.nonneg
  have hup := h.le
  have haccrued := d.accrued_nonneg startedTracking connection now
  have hle := d.accrued_le startedTracking connection now
  have hsecond : second = 1000000000 := rfl
  rw [h.creditedUptime_toInt startedTracking connection hnow,creditedUptime_time]
  rw [hsecond] at hup ⊢
  constructor <;> omega

theorem upDuration_credit (d : ValidatorData) (startedTracking : Bool) (connection : Option Time)
    (now : Time) : (d.credit startedTracking connection now).upDuration =
      (d.creditedUptime startedTracking connection now).1 := by
  rw [credit,upDuration_setUptime]

theorem getLastUpdated_credit (d : ValidatorData) (startedTracking : Bool) (connection : Option Time)
    (now : Time) : (d.credit startedTracking connection now).getLastUpdated.toInt =
      max d.getLastUpdated.toInt now.toInt := by
  rw [credit,getLastUpdated_setUptime,creditedUptime_time]

theorem getStartTime_credit (d : ValidatorData) (startedTracking : Bool) (connection : Option Time)
    (now : Time) : (d.credit startedTracking connection now).getStartTime = d.getStartTime := by
  rw [credit,getStartTime_setUptime]

theorem Accounted.credit {d : ValidatorData} (h : d.Accounted) (startedTracking : Bool)
    (connection : Option Time) {now : Time}
    (hnow : now.toInt - d.getStartTime.toInt ≤ maxSeconds) :
    (d.credit startedTracking connection now).Accounted := by
  have hstart := h.start_le
  have hwithin := h.within
  obtain ⟨hnonneg,hle⟩ := h.creditedUptime_le startedTracking connection hnow
  rw [creditedUptime_time] at hle
  refine ⟨?_,?_,?_,?_⟩
  · rw [getLastUpdated_credit,getStartTime_credit]
    omega
  · rw [getLastUpdated_credit,getStartTime_credit]
    omega
  · rwa [upDuration_credit]
  · rwa [upDuration_credit,getLastUpdated_credit,getStartTime_credit]

theorem accounted_new (vdr : Validator) : (new vdr).Accounted := by
  have hsame : (new vdr).getLastUpdated = (new vdr).getStartTime := rfl
  refine ⟨le_rfl,?_,?_,?_⟩
  · rw [hsame]
    simp [maxSeconds]
  · simp [new]
  · rw [hsame]
    simp [new]

/-- How the data of a validator may change: its start stays, and it stays accounted for. -/
structure Grows (d d' : ValidatorData) : Prop where
  start : d'.getStartTime = d.getStartTime
  accounted : d.Accounted → d'.Accounted
  last_le : d.getLastUpdated.toInt ≤ d'.getLastUpdated.toInt

theorem Grows.refl (d : ValidatorData) : d.Grows d := ⟨rfl,id,le_rfl⟩

theorem Grows.trans {d d' d'' : ValidatorData} (h : d.Grows d') (h' : d'.Grows d'') : d.Grows d'' :=
  ⟨h'.start.trans h.start,h'.accounted ∘ h.accounted,h.last_le.trans h'.last_le⟩

theorem grows_credit (d : ValidatorData) (startedTracking : Bool) (connection : Option Time)
    {now : Time} (hnow : now.toInt - d.getStartTime.toInt ≤ maxSeconds) :
    d.Grows (d.credit startedTracking connection now) where
  start := d.getStartTime_credit ..
  accounted h := h.credit startedTracking connection hnow
  last_le := by
    rw [getLastUpdated_credit]
    exact le_max_left ..

theorem grows_of_eq {d d' : ValidatorData} (hup : d'.upDuration = d.upDuration)
    (hlast : d'.lastUpdated = d.lastUpdated) (hstart : d'.startTime = d.startTime) : d.Grows d' := by
  have hlast : d'.getLastUpdated = d.getLastUpdated := by rw [getLastUpdated,getLastUpdated,hlast]
  have hstart : d'.getStartTime = d.getStartTime := by rw [getStartTime,getStartTime,hstart]
  refine ⟨hstart,fun h => ⟨?_,?_,?_,?_⟩,by rw [hlast]⟩
  · rw [hlast,hstart]
    exact h.start_le
  · rw [hlast,hstart]
    exact h.within
  · rw [hup]
    exact h.nonneg
  · rw [hup,hlast,hstart]
    exact h.le

end ValidatorData

/-! ## States -/

namespace State

def AllAccounted (s : State) : Prop := ∀ vID d, s.data.lookup vID = some d → d.Accounted

/-- The time since every validator's start can be held by a duration. -/
def Timely (s : State) (now : Time) : Prop :=
  ∀ vID d, s.data.lookup vID = some d → now.toInt - d.getStartTime.toInt ≤ maxSeconds

theorem forall_lookup_iff {s : State} {P : ValidatorData → Prop} :
    (∀ vID d, s.data.lookup vID = some d → P d) ↔ ∀ entry ∈ s.data.entries, P entry.2 :=
  ⟨fun h entry he => h entry.1 entry.2 (Finmap.mem_lookup_iff.mpr he),
    fun h vID d hd => h ⟨vID,d⟩ (Finmap.mem_lookup_iff.mp hd)⟩

instance (s : State) (now : Time) : Decidable (s.Timely now) :=
  decidable_of_iff' _ forall_lookup_iff

/-- Every validator was there before, and has grown. -/
def Grows (s s' : State) : Prop :=
  ∀ vID d', s'.data.lookup vID = some d' → ∃ d, s.data.lookup vID = some d ∧ d.Grows d'

theorem Grows.timely {s s' : State} (h : s.Grows s') {now : Time} (hs : s.Timely now) :
    s'.Timely now := by
  intro vID d' hd'
  obtain ⟨d,hd,hgrows⟩ := h _ _ hd'
  rw [hgrows.start]
  exact hs _ _ hd

theorem Grows.trans {s s' s'' : State} (h : s.Grows s') (h' : s'.Grows s'') : s.Grows s'' := by
  intro vID d'' hd''
  obtain ⟨d',hd',hgrows'⟩ := h' _ _ hd''
  obtain ⟨d,hd,hgrows⟩ := h _ _ hd'
  exact ⟨d,hd,hgrows.trans hgrows'⟩

theorem Grows.refl (s : State) : s.Grows s := fun _ d hd => ⟨d,hd,.refl d⟩

theorem Grows.mark {s s' : State} (h : s.Grows s') (vID : ID) (status : DbUpdateStatus) :
    s.Grows (s'.mark vID status) := h

theorem grows_setIsActive (s : State) (vID : ID) (isActive : Bool) :
    s.Grows (s.setIsActive vID isActive) := by
  intro v d' hd'
  rw [setIsActive_lookup,Option.map_eq_some_iff] at hd'
  obtain ⟨d,hd,rfl⟩ := hd'
  refine ⟨d,hd,?_⟩
  split
  · exact ValidatorData.grows_of_eq rfl rfl rfl
  · exact .refl d

theorem grows_setWeight (s : State) (vID : ID) (weight : UInt64) :
    s.Grows (s.setWeight vID weight) := by
  intro v d' hd'
  rw [setWeight_lookup,Option.map_eq_some_iff] at hd'
  obtain ⟨d,hd,rfl⟩ := hd'
  refine ⟨d,hd,?_⟩
  split
  · exact ValidatorData.grows_of_eq rfl rfl rfl
  · exact .refl d

theorem grows_eraseData (s : State) (vID : ID) : s.Grows (s.eraseData vID) := by
  intro v d' hd'
  by_cases hv : v = vID
  · rw [hv,eraseData_data,Finmap.lookup_erase] at hd'
    cases hd'
  · rw [eraseData_data,Finmap.lookup_erase_ne hv] at hd'
    exact ⟨d',hd',.refl d'⟩

end State

/-- At readings that durations can hold, the managers let every validator grow. -/
theorem Absorbs.grows {times : List Time} {now : Time} (hnow : now ∈ times) :
    Absorbs (fun s s' => (∀ t ∈ times, s.Timely t) → s.Grows s') now where
  refl s _ := .refl s
  trans h h' htimes :=
    (h htimes).trans (h' fun t ht => (h htimes).timely (htimes t ht))
  update m s nodeID htimes := by
    intro vID d' hd'
    rw [Manager.updateUptime_lookup,Option.map_eq_some_iff] at hd'
    obtain ⟨d,hd,rfl⟩ := hd'
    refine ⟨d,hd,?_⟩
    unfold Manager.creditNode
    split
    · exact d.grows_credit _ _ (htimes now hnow _ _ hd)
    · exact .refl d

namespace System

/-- The clock's readings in a call. -/
def Op.readings : Op → List Time
  | .addValidator _ now | .updateValidator _ now | .deleteValidator _ now | .setStatus _ _ now
  | .connect _ now | .disconnect _ now => [now]
  | .registerListener order => order.map Prod.snd
  | .startTracking nodes | .stopTracking nodes => nodes.map Prod.snd

/-- Durations can hold the time from every start to the readings. -/
def Op.InRange (s : System) (op : Op) : Prop :=
  (∀ now ∈ op.readings, s.state.Timely now) ∧
    match op with
    | .addValidator vdr now =>
      now.toInt - (ValidatorData.new vdr).getStartTime.toInt ≤ maxSeconds
    | _ => True

/-- What a call may do to the validators: each one has grown, or is new and accounted for. -/
def Extends (s s' : State) : Prop :=
  ∀ vID d', s'.data.lookup vID = some d' →
    (∃ d, s.data.lookup vID = some d ∧ d.Grows d') ∨ s.data.lookup vID = none ∧ d'.Accounted

theorem extends_of_grows {s s' : State} (h : s.Grows s') : Extends s s' :=
  fun _ _ hd' => .inl (h _ _ hd')

theorem addValidator_extends (s : System) (vdr : Validator) (now : Time)
    (h : (Op.addValidator vdr now).InRange s) : Extends s.state (s.addValidator vdr now).2.state := by
  obtain ⟨htimes,hnew⟩ := h
  have hnow : s.state.Timely now := htimes now List.mem_cons_self
  refine s.addValidator_cases (P := fun t => Extends s.state t.state) vdr now
    (extends_of_grows (.refl _)) fun state hadd => ?_
  obtain ⟨hv,hn,rfl⟩ := s.state.addData_ok_iff.mp hadd
  have htimely : ∀ t ∈ [now],
      ((s.state.insertData (.new vdr) hv hn).mark vdr.validationID .updatedStatus).Timely t := by
    intro t ht v d hd
    cases List.mem_singleton.mp ht
    rw [State.mark_data,State.insertData_data] at hd
    by_cases hvID : v = (ValidatorData.new vdr).validationID
    · rw [hvID,Finmap.lookup_insert] at hd
      cases hd
      exact hnew
    · rw [Finmap.lookup_insert_of_ne _ hvID] at hd
      exact hnow _ _ hd
  have hgrows := (Absorbs.grows List.mem_cons_self).notify
    (fun t => (Absorbs.grows List.mem_cons_self).onValidatorAdded vdr.nodeID vdr.isActive t)
    { s with state :=
      (s.state.insertData (.new vdr) hv hn).mark vdr.validationID .updatedStatus } htimely
  intro v d' hd'
  obtain ⟨d,hd,hdd'⟩ := hgrows _ _ hd'
  rw [State.mark_data,State.insertData_data] at hd
  by_cases hvID : v = (ValidatorData.new vdr).validationID
  · rw [hvID] at hd ⊢
    rw [Finmap.lookup_insert] at hd
    cases hd
    exact .inr ⟨Finmap.lookup_eq_none.mpr hv,hdd'.accounted (ValidatorData.accounted_new vdr)⟩
  · rw [Finmap.lookup_insert_of_ne _ hvID] at hd
    exact .inl ⟨d,hd,hdd'⟩

theorem notify_grows (s : System) {state : State} (hstate : s.state.Grows state) {now : Time}
    (hnow : s.state.Timely now) {callback : System → System}
    (hcallback : ∀ t : System, (∀ r ∈ [now], t.state.Timely r) → t.state.Grows (callback t).state) :
    s.state.Grows (notify callback { s with state }).state := by
  have hgrows := (Absorbs.grows (List.mem_singleton_self now)).notify hcallback
    { s with state } (fun t ht => hstate.timely (by rwa [List.mem_singleton.mp ht]))
  exact hstate.trans hgrows

theorem setStatus_grows (s : System) (vID : ID) (isActive : Bool) {now : Time}
    (hnow : s.state.Timely now) : s.state.Grows (s.setStatus vID isActive now).2.state :=
  s.setStatus_cases (P := fun t => s.state.Grows t.state) vID isActive now (.refl _) fun d _ =>
    s.notify_grows ((s.state.grows_setIsActive vID isActive).mark _ _) hnow fun t =>
      (Absorbs.grows List.mem_cons_self).onValidatorStatusUpdated d.nodeID isActive t

theorem deleteValidator_grows (s : System) (vID : ID) {now : Time} (hnow : s.state.Timely now) :
    s.state.Grows (s.deleteValidator vID now).2.state :=
  s.deleteValidator_cases (P := fun t => s.state.Grows t.state) vID now (fun _ => .refl _) fun d _ =>
    s.notify_grows ((s.state.grows_eraseData d.validationID).mark _ _) hnow fun t =>
      (Absorbs.grows List.mem_cons_self).onValidatorRemoved d.nodeID t

theorem updateValidator_grows (s : System) (vdr : Validator) {now : Time}
    (hnow : s.state.Timely now) : s.state.Grows (s.updateValidator vdr now).2.state := by
  have hactive (d : ValidatorData) := s.notify_grows
    (s.state.grows_setIsActive vdr.validationID vdr.isActive) hnow fun t =>
      (Absorbs.grows List.mem_cons_self).onValidatorStatusUpdated d.nodeID vdr.isActive t
  have hweight (t : System) (ht : s.state.Grows t.state) :=
    ht.trans (t.state.grows_setWeight vdr.validationID vdr.weight)
  rcases s.updateValidator_cases (P := fun t => s.state.Grows t.state) vdr now (.refl _)
    (fun d _ => hactive d) hweight with heq | ⟨d,t,_,ht,heq⟩
  · rw [heq]
    exact .refl _
  · rw [heq]
    exact ht.mark _ _

theorem step_extends (s : System) {op : Op} (h : op.InRange s) : Extends s.state (s.step op).state := by
  have hsingle : ∀ {now : Time}, op.readings = [now] → s.state.Timely now := by
    intro now hr
    exact h.1 now (hr ▸ List.mem_cons_self)
  have habsorbs : ∀ now ∈ op.readings, Absorbs (fun s s' : State =>
      (∀ t ∈ op.readings, s.Timely t) → s.Grows s') now := fun now hnow => .grows hnow
  cases op with
  | addValidator vdr now => exact s.addValidator_extends vdr now h
  | updateValidator vdr now => exact extends_of_grows (s.updateValidator_grows vdr (hsingle rfl))
  | deleteValidator vID now => exact extends_of_grows (s.deleteValidator_grows vID (hsingle rfl))
  | setStatus vID isActive now =>
    exact extends_of_grows (s.setStatus_grows vID isActive (hsingle rfl))
  | registerListener order =>
    exact extends_of_grows (s.registerListener_absorbed (fun s _ => .refl s)
      (fun entry he => habsorbs _ (List.mem_map_of_mem he)) h.1)
  | connect nodeID now =>
    exact extends_of_grows ((habsorbs now List.mem_cons_self).connect s nodeID h.1)
  | disconnect nodeID now =>
    exact extends_of_grows ((habsorbs now List.mem_cons_self).disconnect s nodeID h.1)
  | startTracking nodes =>
    exact extends_of_grows (s.startTracking_absorbed (fun s _ => .refl s)
      (fun entry he => habsorbs _ (List.mem_map_of_mem he)) h.1)
  | stopTracking nodes =>
    exact extends_of_grows (s.stopTracking_absorbed (fun s _ => .refl s)
      (fun entry he => habsorbs _ (List.mem_map_of_mem he)) h.1)

/-! ## Runs of both managers -/

/-- Calls of the pausable manager and the state, or of the wrapped manager itself. -/
inductive TrackerOp where
  | call (op : Op)
  | managerConnect (nodeID : NodeID) (now : Time)
  | managerDisconnect (nodeID : NodeID) (now : Time)

def trackerStep (s : System) : TrackerOp → System
  | .call op => s.step op
  | .managerConnect nodeID now => s.managerConnect nodeID now
  | .managerDisconnect nodeID now => (s.managerDisconnect nodeID now).2

def TrackerOp.InRange (s : System) : TrackerOp → Prop
  | .call op => op.InRange s
  | .managerConnect _ _ => True
  | .managerDisconnect _ now => s.state.Timely now

theorem trackerStep_extends (s : System) {op : TrackerOp} (h : op.InRange s) :
    Extends s.state (s.trackerStep op).state := by
  cases op with
  | call op => exact s.step_extends h
  | managerConnect nodeID now => exact extends_of_grows (.refl _)
  | managerDisconnect nodeID now =>
    exact extends_of_grows ((Absorbs.grows (List.mem_singleton_self now)).managerDisconnect s nodeID
      fun t ht => by rwa [List.mem_singleton.mp ht])

/-- What is reached from new managers over validators that are accounted for, by any calls with
any readings of the clock. -/
def Tracked (s : System) : Prop :=
  Reaches (fun s => ∃ state : State, state.AllAccounted ∧ s = new state)
    (fun s op => op.InRange s) trackerStep s

theorem Tracked.allAccounted {s : System} (h : s.Tracked) : s.state.AllAccounted := by
  refine Reaches.invariant (P := fun s => s.state.AllAccounted) ?_ ?_ h
  · rintro _ ⟨state,hstate,rfl⟩
    exact hstate
  · intro s op hs hop vID d' hd'
    rcases s.trackerStep_extends hop _ _ hd' with ⟨d,hd,hgrows⟩ | ⟨_,hnew⟩
    · exact hgrows.accounted (hs _ _ hd)
    · exact hnew

/-- Whatever the clock does, a stored uptime lies between zero and the time from the start to
the last update, which no call moves back, and what `CalculateUptime` returns lies within the
time it returns. -/
theorem uptime_never_over_counted {s : System} (h : s.Tracked) :
    (∀ vID d, s.state.data.lookup vID = some d → 0 ≤ d.upDuration.toInt ∧
      d.upDuration.toInt ≤ (d.getLastUpdated.toInt - d.getStartTime.toInt) * second) ∧
    (∀ op : TrackerOp, op.InRange s → ∀ vID d d', s.state.data.lookup vID = some d →
      (s.trackerStep op).state.data.lookup vID = some d' →
      d.getLastUpdated.toInt ≤ d'.getLastUpdated.toInt) ∧
    ∀ now, s.state.Timely now → ∀ vID d, s.state.data.lookup vID = some d →
      ∃ upDuration time,
        s.manager.calculateUptime s.state d.nodeID now = .ok (upDuration,time) ∧
        upDuration.toInt ≤ (time.toInt - d.getStartTime.toInt) * second := by
  refine ⟨fun _ _ hd => ⟨(h.allAccounted _ _ hd).nonneg,(h.allAccounted _ _ hd).le⟩,?_,?_⟩
  · intro op hop vID d d' hd hd'
    rcases s.trackerStep_extends hop _ _ hd' with ⟨e,he,hgrows⟩ | ⟨hnone,_⟩
    · rw [hd] at he
      cases he
      exact hgrows.last_le
    · rw [hd] at hnone
      cases hnone
  · intro now hnow vID d hd
    have hle := (h.allAccounted _ _ hd).creditedUptime_le s.manager.startedTracking
      (s.manager.connections d.nodeID) (hnow _ _ hd)
    rcases hcredited : d.creditedUptime s.manager.startedTracking (s.manager.connections d.nodeID) now
      with ⟨upDuration,time⟩
    rw [hcredited] at hle
    refine ⟨upDuration,time,?_,hle.2⟩
    rw [Manager.calculateUptime_of_lookup _ hd,hcredited]

/-! ## A validator that starts tracking while the clock goes back -/

namespace Sample

/-- The start of the validator, and the seconds after it. -/
def epoch (seconds : ℕ) : Time := 62135596800 + Int64.ofNat seconds

def connected : System :=
  (new .empty).trackerStep (.call (.addValidator vdr (epoch 0))) |>.trackerStep
    (.managerConnect vdr.nodeID (epoch 5))

theorem connected_lookup : connected.state.data.lookup vdr.validationID = some (.new vdr) := rfl

theorem connected_tracked : connected.Tracked := by
  refine .step (.step (.start ⟨.empty,?_,rfl⟩) ⟨?_,?_⟩) trivial
  · intro vID d h
    cases h
  · intro now _ vID d h
    cases h
  · decide +kernel

/-- Tracking starts at a reading before the connection. -/
theorem connected_never_over_counted :
    (∀ d', (connected.trackerStep (.call (.startTracking [(vdr.nodeID,epoch 3)]))).state.data.lookup
        vdr.validationID = some d' →
      (ValidatorData.new vdr).getLastUpdated.toInt ≤ d'.getLastUpdated.toInt) ∧
    ∃ upDuration time,
      connected.manager.calculateUptime connected.state vdr.nodeID (epoch 3) = .ok (upDuration,time) ∧
      upDuration.toInt ≤ (time.toInt - (ValidatorData.new vdr).getStartTime.toInt) * second := by
  obtain ⟨_,hlast,hcalculate⟩ := uptime_never_over_counted connected_tracked
  have hthree : connected.state.Timely (epoch 3) := by decide +kernel
  have hrange : (TrackerOp.call (.startTracking [(vdr.nodeID,epoch 3)])).InRange connected := by
    refine ⟨fun now hnow => ?_,trivial⟩
    rw [List.mem_singleton.mp hnow]
    exact hthree
  exact ⟨fun d' hd' => hlast _ hrange _ _ _ connected_lookup hd',
    hcalculate _ hthree _ _ connected_lookup⟩

end Sample
end System
end Landslide.Uptime
