import Landslide.Uptime.Pausing

/-! # Synchronising the validator set

The validators that are gone are deleted first, and only then are the others updated or
added, so a node may move from a removed validator to a new one. The maps are iterated in
any order, and listeners are called on the way.
-/
namespace Landslide.Uptime
open Warp (ID)

structure CurrentValidator where
  nodeID : NodeID
  weight : UInt64
  startTime : UInt64
  isActive : Bool
  isL1Validator : Bool
  deriving DecidableEq

def CurrentValidator.validator (vdr : CurrentValidator) (vID : ID) : Validator :=
  ⟨vID,vdr.nodeID,vdr.weight,vdr.startTime,vdr.isActive,vdr.isL1Validator⟩

abbrev CurrentValidators := Finmap fun _ : ID => CurrentValidator

namespace System

/-- The first loop of `loadValidators`; an error of `DeleteValidator` is dropped. -/
def deleteMissing (newValidators : CurrentValidators) : System → List (ID × Time) → System
  | s,[] => s
  | s,(vID,now) :: rest =>
    deleteMissing newValidators
      (if vID ∈ newValidators then s else (s.deleteValidator vID now).2) rest

/-- One turn of the second loop. -/
def loadValidator (currentValidationIDs : Finset ID) (s : System) (vdr : Validator) (now : Time) :
    Called :=
  if vdr.validationID ∈ currentValidationIDs then s.updateValidator vdr now
  else s.addValidator vdr now

def loadNew (currentValidationIDs : Finset ID) (newValidators : CurrentValidators) :
    System → List (ID × Time) → Called
  | s,[] => (none,s)
  | s,(vID,now) :: rest => match newValidators.lookup vID with
    | none => loadNew currentValidationIDs newValidators s rest
    | some newVdr =>
      match loadValidator currentValidationIDs s (newVdr.validator vID) now with
      | (some err,s) => (some err,s)
      | (none,s) => loadNew currentValidationIDs newValidators s rest

/-- `loadValidators`, with the orders in which the two maps are iterated. -/
def loadValidators (s : System) (newValidators : CurrentValidators)
    (deleteOrder loadOrder : List (ID × Time)) : Called :=
  loadNew s.state.getValidationIDs newValidators (deleteMissing newValidators s deleteOrder)
    loadOrder

end System

/-! ## What single calls do to the validators -/

namespace State

theorem insertData_getValidator (s : State) {d : ValidatorData} (hv hn) :
    (s.insertData d hv hn).getValidator =
      Function.update s.getValidator d.validationID (some d.validator) := by
  funext v
  rw [getValidator,insertData_data]
  by_cases hne : v = d.validationID
  · rw [hne,Finmap.lookup_insert,Function.update_self,Option.map_some]
  · rw [Finmap.lookup_insert_of_ne _ hne,Function.update_of_ne hne,getValidator]

theorem modifyData_getValidator (s : State) {vID : ID} {vdr : Validator}
    (h : s.getValidator vID = some vdr) {f : ValidatorData → ValidatorData} (hv hn)
    {g : Validator → Validator} (hg : ∀ d, (f d).validator = g d.validator) :
    (s.modifyData vID f hv hn).getValidator = Function.update s.getValidator vID (some (g vdr)) := by
  obtain ⟨d,hd,rfl⟩ := s.lookup_of_getValidator h
  funext v
  rw [getValidator,modifyData,lookup_modifyMap]
  by_cases hvID : v = vID
  · rw [hvID,Function.update_self,hd,if_pos rfl,← hg]
    rfl
  · rw [Function.update_of_ne hvID,if_neg hvID,Option.map_id,getValidator,id]

theorem setIsActive_getValidator (s : State) {vID : ID} {vdr : Validator}
    (h : s.getValidator vID = some vdr) (isActive : Bool) :
    (s.setIsActive vID isActive).getValidator =
      Function.update s.getValidator vID (some { vdr with isActive }) :=
  s.modifyData_getValidator h (f := fun d => { d with isActive }) (fun _ => rfl) (fun _ => rfl)
    (g := fun vdr => { vdr with isActive }) fun _ => rfl

theorem setWeight_getValidator (s : State) {vID : ID} {vdr : Validator}
    (h : s.getValidator vID = some vdr) (weight : UInt64) :
    (s.setWeight vID weight).getValidator =
      Function.update s.getValidator vID (some { vdr with weight }) :=
  s.modifyData_getValidator h (f := fun d => { d with weight }) (fun _ => rfl) (fun _ => rfl)
    (g := fun vdr => { vdr with weight }) fun _ => rfl

end State

namespace System

theorem deleteValidator_getValidator (s : System) (vID : ID) (now : Time) :
    (s.deleteValidator vID now).2.state.getValidator =
      Function.update s.state.getValidator vID none := by
  refine s.deleteValidator_cases (P := fun t => t.state.getValidator =
    Function.update s.state.getValidator vID none) vID now (fun hd => ?_) fun d hd => ?_
  · have hnone : s.state.getValidator vID = none := by rw [State.getValidator,hd]; rfl
    exact (Function.update_eq_self_iff.mpr hnone.symm).symm
  · have hv := s.state.validationID_eq hd
    refine ((Absorbs.getValidator now).notify
      ((Absorbs.getValidator now).onValidatorRemoved d.nodeID) _).trans ?_
    funext v
    rw [hv]
    by_cases hne : v = vID
    · rw [hne,Function.update_self,State.getValidator,State.mark_data,State.eraseData_data,
        Finmap.lookup_erase]
      rfl
    · rw [Function.update_of_ne hne,State.getValidator,State.mark_data,State.eraseData_data,
        Finmap.lookup_erase_ne hne,State.getValidator]

theorem addValidator_getValidator (s : System) {vdr : Validator} (now : Time)
    (hv : s.state.getValidator vdr.validationID = none) (hn : ¬s.state.HasNode vdr.nodeID) :
    (s.addValidator vdr now).1 = none ∧ (s.addValidator vdr now).2.state.getValidator =
      Function.update s.state.getValidator vdr.validationID (some vdr) := by
  have hdata : (ValidatorData.new vdr).validationID ∉ s.state.data := by
    intro hmem
    obtain ⟨d,hd⟩ := Finmap.mem_iff.mp hmem
    have hsome := s.state.getValidator_of_lookup hd
    rw [show (ValidatorData.new vdr).validationID = vdr.validationID from rfl,hv] at hsome
    cases hsome
  have hindex : (ValidatorData.new vdr).nodeID ∉ s.state.index := by
    intro hmem
    obtain ⟨vID,d,hd,hnode⟩ := s.state.nodeID_mem_index_iff.mp hmem
    exact hn (State.hasNode_of_lookup hd hnode)
  have hadd : s.state.addData (.new vdr) = .ok (s.state.insertData (.new vdr) hdata hindex) :=
    s.state.addData_ok_iff.mpr ⟨hdata,hindex,rfl⟩
  rw [addValidator_of_ok hadd]
  refine ⟨rfl,((Absorbs.getValidator now).notify
    ((Absorbs.getValidator now).onValidatorAdded vdr.nodeID vdr.isActive) _).trans ?_⟩
  exact s.state.insertData_getValidator hdata hindex

theorem updateValidator_getValidator (s : System) {vdr old : Validator} (now : Time)
    (h : s.state.getValidator vdr.validationID = some old) (hn : old.nodeID = vdr.nodeID)
    (hstart : old.startTimestamp = vdr.startTimestamp)
    (hl1 : old.isL1Validator = vdr.isL1Validator) :
    (s.updateValidator vdr now).1 = none ∧ (s.updateValidator vdr now).2.state.getValidator =
      Function.update s.state.getValidator vdr.validationID (some vdr) := by
  obtain ⟨d,hd,rfl⟩ := s.state.lookup_of_getValidator h
  have hv := s.state.validationID_eq hd
  have hconstants : d.constantsAreUnmodified vdr = true :=
    ValidatorData.constantsAreUnmodified_iff.mpr ⟨hv,hn,hl1,hstart⟩
  simp only [updateValidator,Listening.updateValidator,listening,hd]
  rw [if_neg (by simp [hconstants])]
  set s₁ : System := if d.isActive ≠ vdr.isActive then
    notify (onValidatorStatusUpdated d.nodeID vdr.isActive now)
      { s with state := s.state.setIsActive vdr.validationID vdr.isActive } else s with hs₁
  have h₁ : s₁.state.getValidator = Function.update s.state.getValidator vdr.validationID
      (some { d.validator with isActive := vdr.isActive }) := by
    rw [hs₁]
    split
    · exact ((Absorbs.getValidator now).notify
        ((Absorbs.getValidator now).onValidatorStatusUpdated d.nodeID vdr.isActive) _).trans
        (s.state.setIsActive_getValidator h vdr.isActive)
    · next hsame =>
      have hsame : d.isActive = vdr.isActive := not_not.mp hsame
      rw [← hsame]
      exact (Function.update_eq_self_iff.mpr h.symm).symm
  set s₂ : System := if d.weight ≠ vdr.weight then
    { s₁ with state := s₁.state.setWeight vdr.validationID vdr.weight } else s₁ with hs₂
  have h₂ : s₂.state.getValidator =
      Function.update s.state.getValidator vdr.validationID (some vdr) := by
    have hself : s₁.state.getValidator vdr.validationID =
        some { d.validator with isActive := vdr.isActive } := by rw [h₁,Function.update_self]
    have hvdr : vdr = { d.validator with isActive := vdr.isActive, weight := vdr.weight } := by
      cases vdr
      simp only [ValidatorData.validator] at hv hn hstart hl1 ⊢
      rw [hv,hn,hstart,hl1]
    rw [hs₂]
    split
    · rw [State.setWeight_getValidator _ hself,h₁,Function.update_idem,← hvdr]
    · next hsame =>
      have hsame : d.weight = vdr.weight := not_not.mp hsame
      rw [h₁,hvdr,← hsame]
      rfl
  split
  · exact ⟨rfl,h₂⟩
  · exact ⟨rfl,h₂⟩

/-! ## The two loops -/

theorem deleteMissing_getValidator (newValidators : CurrentValidators) (order : List (ID × Time))
    (s : System) (vID : ID) :
    (deleteMissing newValidators s order).state.getValidator vID =
      if vID ∈ order.map Prod.fst ∧ vID ∉ newValidators then none else s.state.getValidator vID := by
  induction order generalizing s with
  | nil => simp [deleteMissing]
  | cons entry rest ih =>
    rw [deleteMissing,ih]
    by_cases hnew : entry.1 ∈ newValidators
    · rw [if_pos hnew]
      have hiff : vID ∈ (entry :: rest).map Prod.fst ∧ vID ∉ newValidators ↔
          vID ∈ rest.map Prod.fst ∧ vID ∉ newValidators := by
        rw [List.map_cons,List.mem_cons]
        constructor
        · rintro ⟨rfl | hmem,hv⟩
          · exact absurd hnew hv
          · exact ⟨hmem,hv⟩
        · exact fun h => ⟨.inr h.1,h.2⟩
      simp only [hiff]
    · rw [if_neg hnew,deleteValidator_getValidator]
      by_cases hv : vID = entry.1
      · subst hv
        simp [hnew]
      · simp [hv]

section
variable {currentValidationIDs : Finset ID} {newValidators : CurrentValidators}

/-- The validator that the new set asks for. -/
def target (newValidators : CurrentValidators) (vID : ID) : Option Validator :=
  (newValidators.lookup vID).map fun vdr => vdr.validator vID

/-- What the second loop starts from: the validators that stay, under their old node IDs. -/
structure Loadable (currentValidationIDs : Finset ID) (newValidators : CurrentValidators)
    (validators : ID → Option Validator) : Prop where
  distinct : ∀ {v w vdr vdr'}, newValidators.lookup v = some vdr →
    newValidators.lookup w = some vdr' → vdr.nodeID = vdr'.nodeID → v = w
  gone : ∀ {v}, v ∉ newValidators → validators v = none
  current_iff : ∀ {v}, v ∈ newValidators → (v ∈ currentValidationIDs ↔ validators v ≠ none)
  keeps : ∀ {v vdr old}, newValidators.lookup v = some vdr → validators v = some old →
    old.nodeID = vdr.nodeID ∧ old.startTimestamp = vdr.startTime ∧
      old.isL1Validator = vdr.isL1Validator

/-- The validators when some of the new ones are loaded. -/
def partly (newValidators : CurrentValidators) (validators : ID → Option Validator)
    (loaded : List ID) (vID : ID) : Option Validator :=
  if vID ∈ loaded then target newValidators vID else validators vID

theorem Loadable.node_free {validators : ID → Option Validator}
    (h : Loadable currentValidationIDs newValidators validators) {loaded : List ID} {s : System}
    (hs : s.state.getValidator = partly newValidators validators loaded) {vID : ID}
    {vdr : CurrentValidator} (hvdr : newValidators.lookup vID = some vdr)
    (hnone : partly newValidators validators loaded vID = none) : ¬s.state.HasNode vdr.nodeID := by
  rintro ⟨w,vdr',hw,hn⟩
  rw [hs] at hw
  have hne : w ≠ vID := by
    rintro rfl
    rw [hnone] at hw
    cases hw
  rw [partly] at hw
  split at hw
  · obtain ⟨new',hnew',rfl⟩ := Option.map_eq_some_iff.mp hw
    exact hne (h.distinct hnew' hvdr hn)
  · by_cases hmem : w ∈ newValidators
    · obtain ⟨new',hnew'⟩ := Finmap.mem_iff.mp hmem
      have hnode := (h.keeps hnew' hw).1
      exact hne (h.distinct hnew' hvdr (hnode.symm.trans hn))
    · rw [h.gone hmem] at hw
      cases hw

theorem Loadable.loadValidator {validators : ID → Option Validator}
    (h : Loadable currentValidationIDs newValidators validators) {loaded : List ID} {s : System}
    (hs : s.state.getValidator = partly newValidators validators loaded) {vID : ID}
    {vdr : CurrentValidator} (hvdr : newValidators.lookup vID = some vdr) (hfresh : vID ∉ loaded)
    (now : Time) :
    (loadValidator currentValidationIDs s (vdr.validator vID) now).1 = none ∧
      (loadValidator currentValidationIDs s (vdr.validator vID) now).2.state.getValidator =
        partly newValidators validators (vID :: loaded) := by
  have hmem := Finmap.mem_of_lookup_eq_some hvdr
  have hcurrent : s.state.getValidator vID = validators vID := by
    rw [hs,partly,if_neg hfresh]
  have hupdate : Function.update s.state.getValidator vID (some (vdr.validator vID)) =
      partly newValidators validators (vID :: loaded) := by
    funext w
    by_cases hw : w = vID
    · rw [hw,Function.update_self,partly,if_pos List.mem_cons_self,target,hvdr,Option.map_some]
    · rw [Function.update_of_ne hw,hs,partly,partly]
      simp [hw]
  unfold System.loadValidator
  by_cases hin : vID ∈ currentValidationIDs
  · cases hold : validators vID with
    | none => exact absurd hold ((h.current_iff hmem).mp hin)
    | some old =>
      obtain ⟨hn,hstart,hl1⟩ := h.keeps hvdr hold
      rw [if_pos (show (vdr.validator vID).validationID ∈ _ from hin),← hupdate]
      exact s.updateValidator_getValidator now (hcurrent.trans hold) hn hstart hl1
  · have hnone : validators vID = none := not_not.mp fun hne => hin ((h.current_iff hmem).mpr hne)
    rw [if_neg (show (vdr.validator vID).validationID ∉ _ from hin),← hupdate]
    refine s.addValidator_getValidator now (hcurrent.trans hnone) (h.node_free hs hvdr ?_)
    rw [partly,if_neg hfresh,hnone]

theorem Loadable.loadNew {validators : ID → Option Validator}
    (h : Loadable currentValidationIDs newValidators validators) {order : List (ID × Time)}
    (hnodup : (order.map Prod.fst).Nodup) {loaded : List ID}
    (hdisjoint : ∀ v ∈ order.map Prod.fst, v ∉ loaded) {s : System}
    (hs : s.state.getValidator = partly newValidators validators loaded) :
    (loadNew currentValidationIDs newValidators s order).1 = none ∧
      (loadNew currentValidationIDs newValidators s order).2.state.getValidator =
        partly newValidators validators ((order.map Prod.fst).reverse ++ loaded) := by
  induction order generalizing loaded s with
  | nil => exact ⟨rfl,hs⟩
  | cons entry rest ih =>
    obtain ⟨hentry,hrest⟩ := List.nodup_cons.mp hnodup
    have hfresh : entry.1 ∉ loaded := hdisjoint _ List.mem_cons_self
    have hdisjoint' : ∀ v ∈ rest.map Prod.fst, v ∉ entry.1 :: loaded := by
      intro v hv hmem
      rcases List.mem_cons.mp hmem with rfl | hmem
      · exact hentry hv
      · exact hdisjoint v (List.mem_cons_of_mem _ hv) hmem
    have hlist : (rest.map Prod.fst).reverse ++ entry.1 :: loaded =
        ((entry :: rest).map Prod.fst).reverse ++ loaded := by simp
    rw [← hlist]
    cases hvdr : newValidators.lookup entry.1 with
    | none =>
      have hnone : target newValidators entry.1 = validators entry.1 := by
        rw [target,hvdr,h.gone (Finmap.lookup_eq_none.mp hvdr)]
        rfl
      have hs' : s.state.getValidator = partly newValidators validators (entry.1 :: loaded) := by
        rw [hs]
        funext w
        by_cases hw : w = entry.1
        · rw [hw,partly,partly,if_neg hfresh,if_pos List.mem_cons_self,hnone]
        · rw [partly,partly]
          simp [hw]
      rw [System.loadNew,hvdr]
      exact ih hrest hdisjoint' hs'
    | some vdr =>
      obtain ⟨hok,hs'⟩ := h.loadValidator hs hvdr hfresh entry.2
      rw [System.loadNew,hvdr]
      dsimp only
      cases hload : System.loadValidator currentValidationIDs s (vdr.validator entry.1) entry.2 with
      | mk err s' =>
        rw [hload] at hok hs'
        cases hok
        exact ih hrest hdisjoint' hs'

end
end System

/-! ## Stored uptimes without listeners -/

namespace State

def account (s : State) (vID : ID) : Option (Duration × UInt64) :=
  (s.data.lookup vID).map fun d => (d.upDuration,d.lastUpdated)

theorem setIsActive_account (s : State) (vID : ID) (isActive : Bool) :
    (s.setIsActive vID isActive).account = s.account := by
  funext v
  rw [account,account,setIsActive_lookup,Option.map_map]
  split <;> rfl

theorem setWeight_account (s : State) (vID : ID) (weight : UInt64) :
    (s.setWeight vID weight).account = s.account := by
  funext v
  rw [account,account,setWeight_lookup,Option.map_map]
  split <;> rfl

theorem insertData_account (s : State) {d : ValidatorData} (hv hn) :
    (s.insertData d hv hn).account =
      Function.update s.account d.validationID (some (d.upDuration,d.lastUpdated)) := by
  funext v
  rw [account,insertData_data]
  by_cases hne : v = d.validationID
  · rw [hne,Finmap.lookup_insert,Function.update_self,Option.map_some]
  · rw [Finmap.lookup_insert_of_ne _ hne,Function.update_of_ne hne,account]

theorem eraseData_account (s : State) (vID : ID) :
    (s.eraseData vID).account = Function.update s.account vID none := by
  funext v
  rw [account,eraseData_data]
  by_cases hne : v = vID
  · rw [hne,Finmap.lookup_erase,Function.update_self,Option.map_none]
  · rw [Finmap.lookup_erase_ne hne,Function.update_of_ne hne,account]

end State

namespace System

theorem notify_of_no_listener {s : System} (h : s.listeners = 0) (callback : System → System)
    (state : State) : notify callback { s with state } = { s with state } := by
  rw [notify,show ({ s with state } : System).listeners = 0 from h]
  rfl

theorem deleteValidator_account {s : System} (h : s.listeners = 0) (vID : ID) (now : Time) :
    (s.deleteValidator vID now).2.state.account = Function.update s.state.account vID none ∧
      (s.deleteValidator vID now).2.listeners = 0 := by
  refine s.deleteValidator_cases (P := fun t => t.state.account =
    Function.update s.state.account vID none ∧ t.listeners = 0) vID now (fun hd => ?_) fun d hd => ?_
  · have hnone : s.state.account vID = none := by rw [State.account,hd,Option.map_none]
    exact ⟨(Function.update_eq_self_iff.mpr hnone.symm).symm,h⟩
  · rw [notify_of_no_listener h,s.state.validationID_eq hd]
    exact ⟨s.state.eraseData_account vID,h⟩

theorem addValidator_account {s : System} (h : s.listeners = 0) {vdr : Validator} {now : Time}
    (hok : (s.addValidator vdr now).1 = none) :
    (s.addValidator vdr now).2.state.account =
      Function.update s.state.account vdr.validationID (some (0,vdr.startTimestamp)) ∧
      (s.addValidator vdr now).2.listeners = 0 := by
  cases hadd : s.state.addData (.new vdr) with
  | error err =>
    simp only [addValidator,Listening.addValidator,listening,hadd] at hok
    cases hok
  | ok state =>
    obtain ⟨hv,hn,rfl⟩ := s.state.addData_ok_iff.mp hadd
    rw [addValidator_of_ok hadd,notify_of_no_listener h]
    exact ⟨s.state.insertData_account hv hn,h⟩

theorem updateValidator_account {s : System} (h : s.listeners = 0) (vdr : Validator) (now : Time) :
    (s.updateValidator vdr now).2.state.account = s.state.account ∧
      (s.updateValidator vdr now).2.listeners = 0 := by
  have hactive (d : ValidatorData) : (notify (onValidatorStatusUpdated d.nodeID vdr.isActive now)
      { s with state := s.state.setIsActive vdr.validationID vdr.isActive }).state.account =
      s.state.account ∧ (notify (onValidatorStatusUpdated d.nodeID vdr.isActive now)
      { s with state := s.state.setIsActive vdr.validationID vdr.isActive }).listeners = 0 := by
    rw [notify_of_no_listener h]
    exact ⟨s.state.setIsActive_account _ _,h⟩
  rcases s.updateValidator_cases
    (P := fun t => t.state.account = s.state.account ∧ t.listeners = 0) vdr now ⟨rfl,h⟩
    (fun d _ => hactive d)
    (fun t ht => ⟨(t.state.setWeight_account _ _).trans ht.1,ht.2⟩) with heq | ⟨d,t,_,ht,heq⟩
  · rw [heq]
    exact ⟨rfl,h⟩
  · rw [heq]
    exact ht

theorem deleteMissing_account (newValidators : CurrentValidators) (order : List (ID × Time))
    {s : System} (h : s.listeners = 0) :
    (∀ vID, vID ∈ newValidators →
      (deleteMissing newValidators s order).state.account vID = s.state.account vID) ∧
      (deleteMissing newValidators s order).listeners = 0 := by
  induction order generalizing s with
  | nil => exact ⟨fun _ _ => rfl,h⟩
  | cons entry rest ih =>
    rw [deleteMissing]
    by_cases hnew : entry.1 ∈ newValidators
    · rw [if_pos hnew]
      exact ih h
    · rw [if_neg hnew]
      obtain ⟨haccount,hlisteners⟩ := deleteValidator_account h entry.1 entry.2
      obtain ⟨hrest,hzero⟩ := ih hlisteners
      refine ⟨fun vID hmem => ?_,hzero⟩
      have hne : vID ≠ entry.1 := fun he => hnew (he ▸ hmem)
      rw [hrest vID hmem,haccount,Function.update_of_ne hne]

theorem loadNew_account {currentValidationIDs : Finset ID} {newValidators : CurrentValidators}
    {order : List (ID × Time)} {s : System} (h : s.listeners = 0)
    (hok : (loadNew currentValidationIDs newValidators s order).1 = none) (vID : ID)
    (vdr : CurrentValidator) (hvdr : newValidators.lookup vID = some vdr) :
    (loadNew currentValidationIDs newValidators s order).2.state.account vID =
      if vID ∈ order.map Prod.fst ∧ vID ∉ currentValidationIDs then some (0,vdr.startTime)
      else s.state.account vID := by
  induction order generalizing s with
  | nil => simp [loadNew]
  | cons entry rest ih =>
    rw [loadNew] at hok ⊢
    cases hentry : newValidators.lookup entry.1 with
    | none =>
      rw [hentry] at hok
      have hne : vID ≠ entry.1 := by
        rintro rfl
        rw [hentry] at hvdr
        cases hvdr
      rw [ih h hok]
      simp [hne]
    | some new' =>
      rw [hentry] at hok
      dsimp only at hok ⊢
      have hone : (loadValidator currentValidationIDs s (new'.validator entry.1) entry.2).1 = none →
          (loadValidator currentValidationIDs s (new'.validator entry.1) entry.2).2.state.account =
            (if entry.1 ∈ currentValidationIDs then s.state.account
              else Function.update s.state.account entry.1 (some (0,new'.startTime))) ∧
          (loadValidator currentValidationIDs s (new'.validator entry.1) entry.2).2.listeners = 0 := by
        intro hnone
        unfold loadValidator at hnone ⊢
        by_cases hin : entry.1 ∈ currentValidationIDs
        · rw [if_pos (show (new'.validator entry.1).validationID ∈ _ from hin),if_pos hin]
          exact updateValidator_account h ..
        · rw [if_neg (show (new'.validator entry.1).validationID ∉ _ from hin)] at hnone ⊢
          rw [if_neg hin]
          exact addValidator_account h hnone
      cases hload : loadValidator currentValidationIDs s (new'.validator entry.1) entry.2 with
      | mk err s' =>
        rw [hload] at hok hone
        cases err with
        | some err => cases hok
        | none =>
          obtain ⟨haccount,hlisteners⟩ := hone rfl
          have hrest := ih hlisteners hok
          dsimp only
          rw [hrest,haccount]
          by_cases hv : vID = entry.1
          · subst hv
            cases hentry.symm.trans hvdr
            by_cases hin : entry.1 ∈ currentValidationIDs
            · simp [hin]
            · simp [hin]
          · by_cases hin : entry.1 ∈ currentValidationIDs
            · simp [hin,hv]
            · simp [hin,hv]

/-! ## The whole synchronisation -/

structure Enumerates (s : System) (newValidators : CurrentValidators)
    (deleteOrder loadOrder : List (ID × Time)) : Prop where
  delete_iff : ∀ vID, vID ∈ deleteOrder.map Prod.fst ↔ vID ∈ s.state.data
  load_iff : ∀ vID, vID ∈ loadOrder.map Prod.fst ↔ vID ∈ newValidators
  load_nodup : (loadOrder.map Prod.fst).Nodup

/-- What is asked of the new validators: no node twice, and what is constant is kept. -/
structure Compatible (s : System) (newValidators : CurrentValidators) : Prop where
  distinct : ∀ {v w vdr vdr'}, newValidators.lookup v = some vdr →
    newValidators.lookup w = some vdr' → vdr.nodeID = vdr'.nodeID → v = w
  keeps : ∀ {v vdr d}, newValidators.lookup v = some vdr → s.state.data.lookup v = some d →
    d.nodeID = vdr.nodeID ∧ d.startTime = vdr.startTime ∧ d.isL1Validator = vdr.isL1Validator

theorem mem_data_iff (s : State) (vID : ID) : vID ∈ s.data ↔ s.getValidator vID ≠ none := by
  rw [Finmap.mem_iff,State.getValidator]
  cases s.data.lookup vID <;> simp

theorem loadable_deleteMissing {s : System} {newValidators : CurrentValidators}
    {deleteOrder loadOrder : List (ID × Time)}
    (horder : Enumerates s newValidators deleteOrder loadOrder)
    (hnew : Compatible s newValidators) :
    Loadable s.state.getValidationIDs newValidators
      (deleteMissing newValidators s deleteOrder).state.getValidator := by
  have hstay : ∀ {v}, v ∈ newValidators →
      (deleteMissing newValidators s deleteOrder).state.getValidator v = s.state.getValidator v := by
    intro v hv
    rw [deleteMissing_getValidator]
    simp [hv]
  refine ⟨hnew.distinct,fun {v} hv => ?_,fun {v} hv => ?_,fun {v vdr old} hvdr hold => ?_⟩
  · rw [deleteMissing_getValidator]
    by_cases hmem : v ∈ s.state.data
    · rw [if_pos ⟨(horder.delete_iff v).mpr hmem,hv⟩]
    · rw [if_neg fun h => hmem ((horder.delete_iff v).mp h.1)]
      exact not_not.mp fun hne => hmem ((mem_data_iff s.state v).mpr hne)
  · rw [hstay hv,State.getValidationIDs,Finmap.mem_keys]
    exact mem_data_iff s.state v
  · rw [hstay (Finmap.mem_of_lookup_eq_some hvdr)] at hold
    obtain ⟨d,hd,rfl⟩ := s.state.lookup_of_getValidator hold
    exact hnew.keeps hvdr hd

theorem deleteMissing_inStep (newValidators : CurrentValidators) (order : List (ID × Time))
    {s : System} (h : s.InStep) : (deleteMissing newValidators s order).InStep := by
  induction order generalizing s with
  | nil => exact h
  | cons entry rest ih =>
    rw [deleteMissing]
    split
    · exact ih h
    · exact ih (deleteValidator_inStep h _ _)

theorem loadNew_inStep {currentValidationIDs : Finset ID} {newValidators : CurrentValidators}
    (order : List (ID × Time)) {s : System} (h : s.InStep) :
    (loadNew currentValidationIDs newValidators s order).2.InStep := by
  induction order generalizing s with
  | nil => exact h
  | cons entry rest ih =>
    rw [loadNew]
    cases newValidators.lookup entry.1 with
    | none => exact ih h
    | some newVdr =>
      have hturn : (loadValidator currentValidationIDs s (newVdr.validator entry.1) entry.2).2.InStep := by
        unfold loadValidator
        split
        · exact updateValidator_inStep h _ _
        · exact addValidator_inStep h _ _
      dsimp only
      split
      · next err s' hcalled =>
        rw [hcalled] at hturn
        exact hturn
      · next s' hcalled =>
        rw [hcalled] at hturn
        exact ih hturn

/-- `loadValidators` succeeds for every order of iteration and leaves exactly the new
validators, and no callback fails; without listeners the retained ones keep their uptime and last update, and the
new ones start with no uptime at their start. -/
theorem loadValidators_exact {s : System} {newValidators : CurrentValidators}
    {deleteOrder loadOrder : List (ID × Time)}
    (horder : Enumerates s newValidators deleteOrder loadOrder)
    (hnew : Compatible s newValidators) :
    (s.loadValidators newValidators deleteOrder loadOrder).1 = none ∧
    (∀ vID, (s.loadValidators newValidators deleteOrder loadOrder).2.state.getValidator vID =
      (newValidators.lookup vID).map fun vdr => vdr.validator vID) ∧
    (s.listeners = 0 → ∀ vID vdr, newValidators.lookup vID = some vdr →
      ∃ d', (s.loadValidators newValidators deleteOrder loadOrder).2.state.data.lookup vID = some d' ∧
        match s.state.data.lookup vID with
        | some d => d'.upDuration = d.upDuration ∧ d'.lastUpdated = d.lastUpdated
        | none => d'.upDuration = 0 ∧ d'.lastUpdated = vdr.startTime) ∧
    (s.InStep → (s.loadValidators newValidators deleteOrder loadOrder).2.crashed = s.crashed) := by
  have hloadable := loadable_deleteMissing horder hnew
  have hempty : (deleteMissing newValidators s deleteOrder).state.getValidator = partly newValidators
      (deleteMissing newValidators s deleteOrder).state.getValidator [] := rfl
  obtain ⟨hok,hvalidators⟩ := hloadable.loadNew horder.load_nodup (fun _ _ => List.not_mem_nil) hempty
  refine ⟨hok,fun vID => ?_,fun hzero vID vdr hvdr => ?_,fun hstep => ?_⟩
  · have hloaded : vID ∈ (loadOrder.map Prod.fst).reverse ++ [] ↔ vID ∈ newValidators := by
      rw [List.append_nil,List.mem_reverse,horder.load_iff]
    rw [loadValidators,hvalidators,partly]
    by_cases hmem : vID ∈ newValidators
    · rw [if_pos (hloaded.mpr hmem),target]
    · rw [if_neg fun h => hmem (hloaded.mp h),hloadable.gone hmem,
        Finmap.lookup_eq_none.mpr hmem,Option.map_none]
  · have hmem := Finmap.mem_of_lookup_eq_some hvdr
    obtain ⟨hdelete,hlisteners⟩ := deleteMissing_account newValidators deleteOrder hzero
    have haccount := loadNew_account hlisteners hok vID vdr hvdr
    rw [hdelete vID hmem] at haccount
    have hcurrent : vID ∈ s.state.getValidationIDs ↔ vID ∈ s.state.data := Finmap.mem_keys
    cases hd : s.state.data.lookup vID with
    | some d =>
      have hin := hcurrent.mpr (Finmap.mem_of_lookup_eq_some hd)
      rw [if_neg fun h => h.2 hin,State.account,State.account,hd,Option.map_some] at haccount
      obtain ⟨d',hd',hpair⟩ := Option.map_eq_some_iff.mp haccount
      exact ⟨d',hd',congrArg Prod.fst hpair,congrArg Prod.snd hpair⟩
    | none =>
      have hout : vID ∉ s.state.getValidationIDs := fun h =>
        Finmap.lookup_eq_none.mp hd (hcurrent.mp h)
      rw [if_pos ⟨(horder.load_iff vID).mpr hmem,hout⟩,State.account] at haccount
      obtain ⟨d',hd',hpair⟩ := Option.map_eq_some_iff.mp haccount
      exact ⟨d',hd',congrArg Prod.fst hpair,congrArg Prod.snd hpair⟩
  · have hafter : (s.loadValidators newValidators deleteOrder loadOrder).2.InStep :=
      loadNew_inStep loadOrder (deleteMissing_inStep newValidators deleteOrder hstep)
    exact hafter.linked.running.trans hstep.linked.running.symm

/-! ## A node that moves to a new validator -/

namespace Sample

def before : System := ((new .empty).addValidator vdr 0).2

def moved : CurrentValidators := Finmap.singleton otherID ⟨vdr.nodeID,7,3,false,true⟩

theorem moved_lookup {v : ID} {new' : CurrentValidator} (h : moved.lookup v = some new') :
    v = otherID :=
  (Finmap.mem_singleton _ _ _).mp (Finmap.mem_of_lookup_eq_some h)

theorem moved_loaded : (before.loadValidators moved [(vdr.validationID,0)] [(otherID,0)]).1 = none ∧
    (before.loadValidators moved [(vdr.validationID,0)] [(otherID,0)]).2.state.getValidator
      vdr.validationID = none ∧
    (before.loadValidators moved [(vdr.validationID,0)] [(otherID,0)]).2.state.getValidator otherID =
      some ⟨otherID,vdr.nodeID,7,3,false,true⟩ := by
  have hdata : before.state.data =
      Finmap.insert vdr.validationID (ValidatorData.new vdr) (∅ : DataMap) := rfl
  have horder : Enumerates before moved [(vdr.validationID,0)] [(otherID,0)] := by
    refine ⟨fun v => ?_,fun v => ?_,List.nodup_singleton _⟩
    · rw [hdata,Finmap.mem_insert]
      simp [Finmap.notMem_empty]
    · rw [moved,Finmap.mem_singleton]
      simp
  have hne : otherID ≠ vdr.validationID := by decide
  have hnew : Compatible before moved := by
    refine ⟨fun {v w _ _} hv hw _ => (moved_lookup hv).trans (moved_lookup hw).symm,
      fun {v _ d} hv hd => ?_⟩
    rw [moved_lookup hv,hdata,Finmap.lookup_insert_of_ne _ hne,Finmap.lookup_empty] at hd
    cases hd
  obtain ⟨hok,hall,_⟩ := loadValidators_exact horder hnew
  exact ⟨hok,(hall _).trans rfl,(hall _).trans rfl⟩

end Sample
end System
end Landslide.Uptime
