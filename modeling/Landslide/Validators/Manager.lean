import Landslide.Validators.Set

/-! # The manager of the validator sets

One set for each subnet. A set is made when the first validator or the first listener of the
subnet comes, and thrown away when its last validator goes while nobody listens to it. The
manager refuses a weight of zero, which keeps such weights out of the sets.
-/
namespace Landslide.Validators
variable {S N P T : Type}

structure Manager (S N P T : Type) where
  subnetToVdrs : Finmap fun _ : S => VdrSet S N P T
  callbackListeners : List ℕ

structure Response (S N P T : Type) where
  err : Option SetError
  manager : Manager S N P T
  calls : List (Delivery S N P T)

namespace Manager

def newManager : Manager S N P T := ⟨∅,[]⟩

variable [DecidableEq S]

def withSet (m : Manager S N P T) (subnetID : S) (set : VdrSet S N P T) : Manager S N P T :=
  { m with subnetToVdrs := m.subnetToVdrs.insert subnetID set }

variable [DecidableEq N]

def respond (m : Manager S N P T) (subnetID : S) (r : SetResult S N P T) : Response S N P T :=
  ⟨r.err,m.withSet subnetID r.set,r.calls⟩

def addWeight (m : Manager S N P T) (subnetID : S) (nodeID : N) (weight : UInt64) :
    Outcome Empty (Response S N P T) :=
  if weight = 0 then .ok ⟨some .zeroWeight,m,[]⟩
  else match m.subnetToVdrs.lookup subnetID with
    | none => .ok ⟨some .missingValidator,m,[]⟩
    | some set => do
      let r ← set.addWeight nodeID weight
      .ok (m.respond subnetID r)

def removeWeight (m : Manager S N P T) (subnetID : S) (nodeID : N) (weight : UInt64) :
    Outcome Empty (Response S N P T) :=
  if weight = 0 then .ok ⟨some .zeroWeight,m,[]⟩
  else match m.subnetToVdrs.lookup subnetID with
    | none => .ok ⟨some .missingValidator,m,[]⟩
    | some set => do
      let r ← set.removeWeight nodeID weight
      if r.err.isSome then .ok (m.respond subnetID r)
      else if r.set.len = 0 ∧ r.set.hasCallbackRegistered = false then
        .ok ⟨none,{ m with subnetToVdrs := m.subnetToVdrs.erase subnetID },r.calls⟩
      else .ok (m.respond subnetID r)

def getWeight (m : Manager S N P T) (subnetID : S) (nodeID : N) : UInt64 :=
  match m.subnetToVdrs.lookup subnetID with
  | none => 0
  | some set => set.getWeight nodeID

def getValidator (m : Manager S N P T) (subnetID : S) (nodeID : N) : Option (Validator N P T) :=
  match m.subnetToVdrs.lookup subnetID with
  | none => none
  | some set => set.get nodeID

def numValidators (m : Manager S N P T) (subnetID : S) : ℕ :=
  match m.subnetToVdrs.lookup subnetID with
  | none => 0
  | some set => set.len

def subsetWeight (m : Manager S N P T) (subnetID : S) (validatorIDs : List N) :
    Except SetError UInt64 :=
  match m.subnetToVdrs.lookup subnetID with
  | none => .ok 0
  | some set => set.subsetWeight validatorIDs

def totalWeight (m : Manager S N P T) (subnetID : S) : Except ℤ UInt64 :=
  match m.subnetToVdrs.lookup subnetID with
  | none => .ok 0
  | some set => set.getTotalWeight

/-- The loop of `RegisterCallbackListener` over the subnets, in the order in which the map
gives them. -/
def registerWith (callbackListener : ℕ) :
    List S → Manager S N P T → Manager S N P T × List (Delivery S N P T)
  | [], m => (m,[])
  | subnetID :: order, m => match m.subnetToVdrs.lookup subnetID with
    | none => registerWith callbackListener order m
    | some set =>
      let (set,calls) := set.registerManagerCallbackListener callbackListener
      let (m,later) := registerWith callbackListener order (m.withSet subnetID set)
      (m,calls ++ later)

def registerCallbackListener (m : Manager S N P T) (callbackListener : ℕ) (order : List S) :
    Response S N P T :=
  let m := { m with callbackListeners := m.callbackListeners ++ [callbackListener] }
  let (m,calls) := registerWith callbackListener order m
  ⟨none,m,calls⟩

section
variable [Inhabited N] [Inhabited T]

def setOf (m : Manager S N P T) (subnetID : S) : VdrSet S N P T :=
  (m.subnetToVdrs.lookup subnetID).getD (.newSet subnetID m.callbackListeners)

def addStaker (m : Manager S N P T) (subnetID : S) (nodeID : N) (pk : Option P) (txID : T)
    (weight : UInt64) : Response S N P T :=
  if weight = 0 then ⟨some .zeroWeight,m,[]⟩
  else m.respond subnetID ((m.setOf subnetID).add nodeID pk txID weight)

def registerSetCallbackListener (m : Manager S N P T) (subnetID : S) (callbackListener : ℕ) :
    Response S N P T :=
  let (set,calls) := (m.setOf subnetID).registerCallbackListener callbackListener
  ⟨none,m.withSet subnetID set,calls⟩

end
end Manager

/-- A call of the manager. The order is the one in which the loop visits the subnets. -/
inductive Op (S N P T : Type) where
  | addStaker (subnetID : S) (nodeID : N) (pk : Option P) (txID : T) (weight : UInt64)
  | addWeight (subnetID : S) (nodeID : N) (weight : UInt64)
  | removeWeight (subnetID : S) (nodeID : N) (weight : UInt64)
  | registerCallbackListener (callbackListener : ℕ) (order : List S)
  | registerSetCallbackListener (subnetID : S) (callbackListener : ℕ)

namespace Manager
variable [DecidableEq S] [DecidableEq N]

/-- The loop over a map visits every key once. -/
def OrderVisits (m : Manager S N P T) : Op S N P T → Prop
  | .registerCallbackListener _ order => order.Nodup ∧
      ∀ subnetID, subnetID ∈ order ↔ (m.subnetToVdrs.lookup subnetID).isSome
  | _ => True

def members (m : Manager S N P T) (subnetID : S) (nodeID : N) : Option (Member P T) :=
  (m.subnetToVdrs.lookup subnetID).bind fun set => set.view nodeID

structure Consistent (m : Manager S N P T) : Prop where
  sets : ∀ subnetID set, m.subnetToVdrs.lookup subnetID = some set →
    set.Consistent ∧ set.subnetID = subnetID

theorem consistent_newManager : (newManager : Manager S N P T).Consistent where
  sets subnetID set h := by
    rw [newManager,Finmap.lookup_empty] at h
    cases h

omit [DecidableEq N] in
theorem lookup_withSet (m : Manager S N P T) (subnetID : S) (set : VdrSet S N P T) (other : S) :
    (m.withSet subnetID set).subnetToVdrs.lookup other =
      if other = subnetID then some set else m.subnetToVdrs.lookup other := by
  unfold withSet
  split
  · next h => rw [h,Finmap.lookup_insert]
  · next h => exact Finmap.lookup_insert_of_ne _ h

theorem Consistent.withSet {m : Manager S N P T} (h : m.Consistent) {subnetID : S}
    {set : VdrSet S N P T} (hset : set.Consistent) (hid : set.subnetID = subnetID) :
    (m.withSet subnetID set).Consistent where
  sets other set' hl := by
    rw [lookup_withSet] at hl
    split at hl
    · next hother =>
      cases hl
      exact ⟨hset,hid.trans hother.symm⟩
    · exact h.sets other set' hl

omit [DecidableEq N] in
theorem withSet_self {m : Manager S N P T} {subnetID : S} {set : VdrSet S N P T}
    (h : m.subnetToVdrs.lookup subnetID = some set) : m.withSet subnetID set = m := by
  have hsame : m.subnetToVdrs.insert subnetID set = m.subnetToVdrs := by
    refine Finmap.ext_lookup fun other => ?_
    by_cases hother : other = subnetID
    · rw [hother,Finmap.lookup_insert,h]
    · exact Finmap.lookup_insert_of_ne _ hother
  rw [Manager.withSet,hsame]

section
variable [Inhabited N] [Inhabited T]

def call (m : Manager S N P T) : Op S N P T → Outcome Empty (Response S N P T)
  | .addStaker subnetID nodeID pk txID weight => .ok (m.addStaker subnetID nodeID pk txID weight)
  | .addWeight subnetID nodeID weight => m.addWeight subnetID nodeID weight
  | .removeWeight subnetID nodeID weight => m.removeWeight subnetID nodeID weight
  | .registerCallbackListener callbackListener order =>
    .ok (m.registerCallbackListener callbackListener order)
  | .registerSetCallbackListener subnetID callbackListener =>
    .ok (m.registerSetCallbackListener subnetID callbackListener)

inductive Reached : Manager S N P T → Prop
  | new : Reached newManager
  | call {m : Manager S N P T} {op : Op S N P T} {r : Response S N P T} (h : Reached m)
      (horder : m.OrderVisits op) (hr : m.call op = .ok r) : Reached r.manager

theorem Consistent.setOf {m : Manager S N P T} (h : m.Consistent) (subnetID : S) :
    (m.setOf subnetID).Consistent ∧ (m.setOf subnetID).subnetID = subnetID := by
  unfold Manager.setOf
  cases hl : m.subnetToVdrs.lookup subnetID with
  | none => exact ⟨VdrSet.consistent_newSet subnetID m.callbackListeners,rfl⟩
  | some set => exact h.sets subnetID set hl

theorem members_eq_view (m : Manager S N P T) (subnetID : S) :
    m.members subnetID = (m.setOf subnetID).view := by
  funext nodeID
  unfold members Manager.setOf
  cases m.subnetToVdrs.lookup subnetID with
  | none => rw [Option.getD_none,VdrSet.view_newSet,Option.bind_none]
  | some set => rfl

/-- The set of the subnet after a change: it is kept, or thrown away when it is empty and
nobody listens to it. -/
inductive Stored (m : Manager S N P T) (subnetID : S) (changed : VdrSet S N P T) :
    Manager S N P T → Prop
  | kept : Stored m subnetID changed (m.withSet subnetID changed)
  | dropped (hempty : changed.view = fun _ => none) (hquiet : changed.setCallbackListeners = []) :
      Stored m subnetID changed { m with subnetToVdrs := m.subnetToVdrs.erase subnetID }

inductive Effect (m : Manager S N P T) : Response S N P T → Prop
  | refused (e : SetError) : Effect m ⟨some e,m,[]⟩
  | event (subnetID : S) (changed : VdrSet S N P T) (event : SetEvent N P T)
      (m' : Manager S N P T) (hconsistent : changed.Consistent)
      (hview : changed.view = event.apply (m.members subnetID))
      (hevent : event.Truthful (m.members subnetID)) (hsubnetID : changed.subnetID = subnetID)
      (hmanager : changed.managerCallbackListeners = (m.setOf subnetID).managerCallbackListeners)
      (hset : changed.setCallbackListeners = (m.setOf subnetID).setCallbackListeners)
      (hstored : Stored m subnetID changed m') :
      Effect m ⟨none,m',(m.setOf subnetID).callCallbacks event⟩

omit [DecidableEq N] in
theorem setOf_of_lookup {m : Manager S N P T} {subnetID : S} {set : VdrSet S N P T}
    (h : m.subnetToVdrs.lookup subnetID = some set) : m.setOf subnetID = set := by
  rw [Manager.setOf,h,Option.getD_some]

theorem effect_of_change {m : Manager S N P T} (h : m.Consistent) {subnetID : S}
    {r : SetResult S N P T} (hchange : (m.setOf subnetID).Change r) (m' : Manager S N P T)
    (hrefused : r.err ≠ none → m' = m) (hstored : r.err = none → Stored m subnetID r.set m') :
    Effect m ⟨r.err,m',r.calls⟩ := by
  cases hchange with
  | refused e =>
    rw [hrefused (Option.some_ne_none e)]
    exact .refused e
  | applied changed event hconsistent hview hevent hsubnetID hmanager hset =>
    rw [← members_eq_view] at hview hevent
    exact .event subnetID changed event m' hconsistent hview hevent
      (hsubnetID.trans (h.setOf subnetID).2) hmanager hset (hstored rfl)

theorem Consistent.addStaker_effect {m : Manager S N P T} (h : m.Consistent) (subnetID : S)
    (nodeID : N) (pk : Option P) (txID : T) (weight : UInt64) :
    Effect m (m.addStaker subnetID nodeID pk txID weight) := by
  unfold Manager.addStaker
  split
  · exact .refused _
  · next hweight =>
    refine effect_of_change h ((h.setOf subnetID).1.add_change nodeID pk txID hweight) _
      (fun herr => ?_) fun _ => .kept
    -- only a set that is there can have the node already
    cases hl : m.subnetToVdrs.lookup subnetID with
    | none =>
      refine absurd ?_ herr
      rw [Manager.setOf,hl,Option.getD_none,VdrSet.add,VdrSet.newSet,Finmap.lookup_empty]
    | some set =>
      have hsame : ((m.setOf subnetID).add nodeID pk txID weight).set = set := by
        rw [setOf_of_lookup hl] at herr ⊢
        unfold VdrSet.add at herr ⊢
        cases hnode : set.vdrs.lookup nodeID with
        | none =>
          rw [hnode] at herr
          exact absurd rfl herr
        | some vdr => rfl
      rw [hsame]
      exact withSet_self hl

theorem Consistent.addWeight_effect {m : Manager S N P T} (h : m.Consistent) (subnetID : S)
    (nodeID : N) (weight : UInt64) :
    ∃ r, m.addWeight subnetID nodeID weight = .ok r ∧ Effect m r := by
  unfold Manager.addWeight
  split
  · exact ⟨_,rfl,.refused _⟩
  · cases hl : m.subnetToVdrs.lookup subnetID with
    | none => exact ⟨_,rfl,.refused _⟩
    | some set =>
      obtain ⟨r,hr,hchange⟩ := (h.sets subnetID set hl).1.addWeight_change nodeID weight
      dsimp only
      rw [hr]
      refine ⟨_,rfl,effect_of_change h (by rwa [setOf_of_lookup hl]) _ (fun herr => ?_)
        fun _ => .kept⟩
      rw [hchange.set_of_err herr]
      exact withSet_self hl

theorem Consistent.removeWeight_effect {m : Manager S N P T} (h : m.Consistent) (subnetID : S)
    (nodeID : N) (weight : UInt64) :
    ∃ r, m.removeWeight subnetID nodeID weight = .ok r ∧ Effect m r := by
  unfold Manager.removeWeight
  split
  · exact ⟨_,rfl,.refused _⟩
  · cases hl : m.subnetToVdrs.lookup subnetID with
    | none => exact ⟨_,rfl,.refused _⟩
    | some set =>
      obtain ⟨r,hr,hchange⟩ := (h.sets subnetID set hl).1.removeWeight_change nodeID weight
      have hchange' : (m.setOf subnetID).Change r := by rwa [setOf_of_lookup hl]
      dsimp only
      rw [hr,Outcome.ok_bind]
      split
      · next herr =>
        refine ⟨_,rfl,effect_of_change h hchange' _ (fun herr => ?_) fun hnone => ?_⟩
        · rw [hchange.set_of_err herr]
          exact withSet_self hl
        · rw [hnone] at herr
          cases herr
      · next hok =>
        have hnone : r.err = none := by simpa using hok
        split
        · next hgone =>
          obtain ⟨hlen,hquiet⟩ := hgone
          have hset := hchange.consistent_of_ok hnone
          refine ⟨_,rfl,?_⟩
          rw [← hnone]
          refine effect_of_change h hchange' _ (fun herr => absurd hnone herr) fun _ =>
            .dropped (hset.view_of_len hlen) ?_
          simpa [VdrSet.hasCallbackRegistered] using hquiet
        · exact ⟨_,rfl,effect_of_change h hchange' _ (fun herr => absurd hnone herr)
            fun _ => .kept⟩

/-! ## Every run -/

theorem Effect.consistent {m : Manager S N P T} {r : Response S N P T} (h : Effect m r)
    (hm : m.Consistent) : r.manager.Consistent := by
  cases h with
  | refused e => exact hm
  | event subnetID changed event m' hconsistent _ _ hsubnetID _ _ hstored =>
    cases hstored with
    | kept => exact hm.withSet hconsistent hsubnetID
    | dropped =>
      refine ⟨fun other set hl => hm.sets other set ?_⟩
      change (m.subnetToVdrs.erase subnetID).lookup other = some set at hl
      by_cases hother : other = subnetID
      · rw [hother,Finmap.lookup_erase] at hl
        cases hl
      · rwa [Finmap.lookup_erase_ne hother] at hl

theorem Effect.manager_of_err {m : Manager S N P T} {r : Response S N P T} (h : Effect m r)
    (herr : r.err ≠ none) : r.manager = m := by
  cases h with
  | refused e => rfl
  | event => exact absurd rfl herr

omit [Inhabited N] [Inhabited T] in
theorem Consistent.registerWith {m : Manager S N P T} (h : m.Consistent) (callbackListener : ℕ)
    (order : List S) : (registerWith callbackListener order m).1.Consistent := by
  induction order generalizing m with
  | nil => exact h
  | cons subnetID order ih =>
    rw [Manager.registerWith]
    cases hl : m.subnetToVdrs.lookup subnetID with
    | none => exact ih h
    | some set =>
      obtain ⟨hset,hid⟩ := h.sets subnetID set hl
      exact ih (h.withSet (hset.listeners _ _) hid)

theorem Consistent.call {m : Manager S N P T} (h : m.Consistent) (op : Op S N P T) :
    ∃ r, m.call op = .ok r ∧ r.manager.Consistent ∧ (r.err ≠ none → r.manager = m) := by
  cases op with
  | addStaker subnetID nodeID pk txID weight =>
    have heffect := h.addStaker_effect subnetID nodeID pk txID weight
    exact ⟨_,rfl,heffect.consistent h,heffect.manager_of_err⟩
  | addWeight subnetID nodeID weight =>
    obtain ⟨r,hr,heffect⟩ := h.addWeight_effect subnetID nodeID weight
    exact ⟨r,hr,heffect.consistent h,heffect.manager_of_err⟩
  | removeWeight subnetID nodeID weight =>
    obtain ⟨r,hr,heffect⟩ := h.removeWeight_effect subnetID nodeID weight
    exact ⟨r,hr,heffect.consistent h,heffect.manager_of_err⟩
  | registerCallbackListener callbackListener order =>
    have hlistener : ({ m with callbackListeners := m.callbackListeners ++ [callbackListener] } :
        Manager S N P T).Consistent := ⟨h.sets⟩
    exact ⟨_,rfl,hlistener.registerWith callbackListener order,fun herr => absurd rfl herr⟩
  | registerSetCallbackListener subnetID callbackListener =>
    obtain ⟨hset,hid⟩ := h.setOf subnetID
    exact ⟨_,rfl,h.withSet (hset.listeners _ _) hid,fun herr => absurd rfl herr⟩

theorem Reached.consistent {m : Manager S N P T} (h : Reached m) : m.Consistent := by
  induction h with
  | new => exact consistent_newManager
  | call _ _ hr ih =>
    obtain ⟨r',hr',hconsistent,_⟩ := ih.call _
    rw [hr] at hr'
    cases hr'
    exact hconsistent

/-- The weight of a node, as an integer. -/
def weightOf (m : Manager S N P T) (subnetID : S) (nodeID : N) : ℕ :=
  (m.members subnetID nodeID).elim 0 fun member => member.weight.toNat

/-- The sum of all weights of the subnet, as an integer. -/
def weightSum (m : Manager S N P T) (subnetID : S) : ℕ :=
  match m.subnetToVdrs.lookup subnetID with
  | none => 0
  | some set => (set.vdrSlice.map fun vdr => (set.heap vdr).weight.toNat).sum

omit [DecidableEq S] [Inhabited N] [Inhabited T] in
theorem getWeight_toNat (set : VdrSet S N P T) (nodeID : N) :
    (set.getWeight nodeID).toNat = (set.view nodeID).elim 0 fun member => member.weight.toNat := by
  unfold VdrSet.getWeight VdrSet.view
  cases set.vdrs.lookup nodeID with
  | none => exact UInt64.toNat_zero
  | some vdr => rfl

omit [Inhabited N] [Inhabited T] in
theorem subsetWeight_spec (m : Manager S N P T) (subnetID : S) (subset : List N) :
    (∀ w, m.subsetWeight subnetID subset = .ok w ↔
      w.toNat = (subset.map (m.weightOf subnetID)).sum) ∧
    (m.subsetWeight subnetID subset = .error .overflow ↔
      2 ^ 64 ≤ (subset.map (m.weightOf subnetID)).sum) := by
  unfold Manager.subsetWeight
  cases hl : m.subnetToVdrs.lookup subnetID with
  | none =>
    have hzero : m.weightOf subnetID = fun _ => 0 := by
      funext nodeID
      rw [weightOf,members,hl,Option.bind_none,Option.elim_none]
    have hsum : (subset.map (m.weightOf subnetID)).sum = 0 := by
      rw [hzero]
      simp
    rw [hsum]
    refine ⟨fun w => ?_,iff_of_false (fun h => by cases h) (by decide)⟩
    rw [Except.ok.injEq]
    constructor
    · rintro rfl
      exact UInt64.toNat_zero
    · intro h
      exact UInt64.toNat_inj.mp (UInt64.toNat_zero.trans h.symm)
  | some set =>
    have hweights : m.weightOf subnetID = fun nodeID => (set.getWeight nodeID).toNat := by
      funext nodeID
      rw [weightOf,members,hl,Option.bind_some,getWeight_toNat]
    have hspec := set.subsetWeightFrom_eq subset 0
    rw [UInt64.toNat_zero,Nat.zero_add,VdrSet.weightSum,← hweights] at hspec
    exact hspec

omit [Inhabited N] [Inhabited T] in
theorem Consistent.totalWeight_spec {m : Manager S N P T} (h : m.Consistent) (subnetID : S) :
    (m.weightSum subnetID < 2 ^ 64 → ∃ w, m.totalWeight subnetID = .ok w ∧
      w.toNat = m.weightSum subnetID) ∧
    (2 ^ 64 ≤ m.weightSum subnetID ↔ ∃ e, m.totalWeight subnetID = .error e) := by
  unfold Manager.totalWeight Manager.weightSum
  cases hl : m.subnetToVdrs.lookup subnetID with
  | none =>
    dsimp only
    exact ⟨fun _ => ⟨0,rfl,UInt64.toNat_zero⟩,iff_of_false (by decide) fun ⟨e,he⟩ => by cases he⟩
  | some set =>
    have htotal := (h.sets subnetID set hl).1.total_eq
    dsimp only
    unfold VdrSet.getTotalWeight
    rw [htotal]
    constructor
    · intro hlt
      rw [if_pos (by omega)]
      refine ⟨_,rfl,?_⟩
      rw [Int.toNat_natCast]
      exact UInt64.toNat_ofNat_of_lt' hlt
    · constructor
      · intro hge
        rw [if_neg (by omega)]
        exact ⟨_,rfl⟩
      · rintro ⟨e,he⟩
        by_contra hlt
        rw [if_pos (by omega)] at he
        cases he

/-- In every run: the containers of every set agree, without zero weights and with the exact
total, the sums are returned if and only if they fit, whatever order the nodes are visited in,
and a call comes back and changes nothing if it returns an error. -/
theorem weights_accounted (m : Manager S N P T) (h : Reached m) :
    (∀ subnetID set, m.subnetToVdrs.lookup subnetID = some set → set.Consistent) ∧
    (∀ subnetID, (m.weightSum subnetID < 2 ^ 64 → ∃ w, m.totalWeight subnetID = .ok w ∧
        w.toNat = m.weightSum subnetID) ∧
      (2 ^ 64 ≤ m.weightSum subnetID ↔ ∃ e, m.totalWeight subnetID = .error e)) ∧
    (∀ subnetID subset order, order.Perm subset →
      (∀ w, m.subsetWeight subnetID order = .ok w ↔
        w.toNat = (subset.map (m.weightOf subnetID)).sum) ∧
      (m.subsetWeight subnetID order = .error .overflow ↔
        2 ^ 64 ≤ (subset.map (m.weightOf subnetID)).sum)) ∧
    ∀ op, ∃ r, m.call op = .ok r ∧ (r.err ≠ none → r.manager = m) := by
  have hm := h.consistent
  refine ⟨fun subnetID set hl => (hm.sets subnetID set hl).1,hm.totalWeight_spec,?_,?_⟩
  · intro subnetID subset order hperm
    have hsum := (hperm.map (m.weightOf subnetID)).sum_eq
    rw [← hsum]
    exact subsetWeight_spec m subnetID order
  · intro op
    obtain ⟨r,hr,_,herr⟩ := hm.call op
    exact ⟨r,hr,herr⟩

end
end Manager

namespace Sample

/-- A validator of weight `2^64 - 1`. -/
def heavyFirst : Manager ℕ ℕ ℕ ℕ :=
  (Manager.newManager.addStaker 0 7 none 1 (UInt64.ofNat maxUint64)).manager

def heavy : Manager ℕ ℕ ℕ ℕ := (heavyFirst.addStaker 0 8 none 2 1).manager

theorem heavy_reached : Manager.Reached heavy := by
  have hfirst : (Manager.newManager : Manager ℕ ℕ ℕ ℕ).call
      (.addStaker 0 7 none 1 (UInt64.ofNat maxUint64)) = .ok _ := rfl
  have hsecond : heavyFirst.call (.addStaker 0 8 none 2 1) = .ok _ := rfl
  refine .call (.call .new ?_ hfirst) ?_ hsecond
  · exact trivial
  · exact trivial

/-- The sum does not fit, and is known all the same. -/
theorem heavy_accounted : heavy.weightSum 0 = 2 ^ 64 ∧ (∃ e, heavy.totalWeight 0 = .error e) ∧
    ∀ set, heavy.subnetToVdrs.lookup 0 = some set → set.Consistent := by
  have hsum : heavy.weightSum 0 = 2 ^ 64 := by decide +kernel
  have h := Manager.weights_accounted heavy heavy_reached
  exact ⟨hsum,(h.2.1 0).2.mp hsum.ge,h.1 0⟩

end Sample
end Landslide.Validators
