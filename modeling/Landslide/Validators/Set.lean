import Landslide.Lib.Exec
import Landslide.Lib.Slots
import Mathlib.Algebra.BigOperators.Group.List.Basic
import Mathlib.Data.Finmap
import Mathlib.Tactic.Ring

/-! # The validator set of a subnet

The set keeps its validators three times: in a map by node ID, in a slice, and their weights in
a second slice. Map and slice share the validators through pointers, and a validator stores
its position in the slices. A validator whose weight gets to zero is removed by moving the
last one into its place.
-/
namespace Landslide.Validators

/-! ## Weights -/

def maxUint64 : ℕ := 2 ^ 64 - 1

/-- `math.Add` and `math.Sub` for `uint64`; nothing stands for their errors. -/
def add64 (a b : UInt64) : Option UInt64 :=
  if a.toNat > maxUint64 - b.toNat then none else some (a + b)

def sub64 (a b : UInt64) : Option UInt64 := if a.toNat < b.toNat then none else some (a - b)

theorem add64_eq_some_iff {a b c : UInt64} :
    add64 a b = some c ↔ c.toNat = a.toNat + b.toNat := by
  have hb := b.toNat_lt
  have hc := c.toNat_lt
  unfold add64 maxUint64
  split
  · next h =>
    constructor
    · intro hnone
      cases hnone
    · intro hsum
      omega
  · next h =>
    have hsum : (a + b).toNat = a.toNat + b.toNat := by
      rw [UInt64.toNat_add]
      exact Nat.mod_eq_of_lt (by omega)
    rw [Option.some.injEq,← hsum]
    exact ⟨fun h => by rw [h],fun h => UInt64.toNat_inj.mp h.symm⟩

theorem add64_eq_none_iff {a b : UInt64} : add64 a b = none ↔ 2 ^ 64 ≤ a.toNat + b.toNat := by
  cases h : add64 a b with
  | none =>
    refine iff_of_true rfl ?_
    by_contra hlt
    have hsome : add64 a b = some (a + b) := by
      rw [add64_eq_some_iff,UInt64.toNat_add]
      exact Nat.mod_eq_of_lt (by omega)
    rw [hsome] at h
    cases h
  | some c =>
    have hc := c.toNat_lt
    have hsum := add64_eq_some_iff.mp h
    refine iff_of_false (Option.some_ne_none _) ?_
    omega

theorem sub64_eq_some_iff {a b c : UInt64} :
    sub64 a b = some c ↔ c.toNat + b.toNat = a.toNat := by
  unfold sub64
  split
  · next h =>
    constructor
    · intro hnone
      cases hnone
    · intro hsum
      omega
  · next h =>
    have hdiff : (a - b).toNat = a.toNat - b.toNat :=
      UInt64.toNat_sub_of_le _ _ (UInt64.le_iff_toNat_le.mpr (not_lt.mp h))
    rw [Option.some.injEq]
    constructor
    · rintro rfl
      omega
    · intro hsum
      refine UInt64.toNat_inj.mp ?_
      omega

/-! ## The set -/

section
variable {S N P T : Type}

structure Validator (N P T : Type) where
  nodeID : N
  publicKey : Option P
  txID : T
  weight : UInt64
  index : ℕ
  deriving Inhabited

inductive SetEvent (N P T : Type) where
  | added (nodeID : N) (pk : Option P) (txID : T) (weight : UInt64)
  | removed (nodeID : N) (weight : UInt64)
  | weightChanged (nodeID : N) (oldWeight newWeight : UInt64)

/-- What is known of a validator besides its node ID. -/
structure Member (P T : Type) where
  publicKey : Option P
  txID : T
  weight : UInt64

/-- What the event says about the set. -/
def SetEvent.apply [DecidableEq N] (event : SetEvent N P T) (members : N → Option (Member P T)) :
    N → Option (Member P T) :=
  match event with
  | .added nodeID pk txID weight => Function.update members nodeID (some ⟨pk,txID,weight⟩)
  | .removed nodeID _ => Function.update members nodeID none
  | .weightChanged nodeID _ newWeight => Function.update members nodeID
      ((members nodeID).map fun member => { member with weight := newWeight })

/-- The node was not there, or was there with the weight that the event names. -/
def SetEvent.Truthful (event : SetEvent N P T) (members : N → Option (Member P T)) : Prop :=
  match event with
  | .added nodeID _ _ _ => members nodeID = none
  | .removed nodeID weight => ∃ member, members nodeID = some member ∧ member.weight = weight
  | .weightChanged nodeID oldWeight _ =>
    ∃ member, members nodeID = some member ∧ member.weight = oldWeight

/-- A call of a listener, which is named by a number. -/
inductive Delivery (S N P T : Type) where
  | manager (listener : ℕ) (subnetID : S) (event : SetEvent N P T)
  | set (listener : ℕ) (event : SetEvent N P T)

def Delivery.event : Delivery S N P T → SetEvent N P T
  | .manager _ _ event => event
  | .set _ event => event

/-- Pointers are numbers; `next` is the first one that is not in use. -/
structure VdrSet (S N P T : Type) where
  subnetID : S
  heap : ℕ → Validator N P T
  next : ℕ
  vdrs : Finmap fun _ : N => ℕ
  vdrSlice : List ℕ
  weights : List UInt64
  totalWeight : ℤ
  managerCallbackListeners : List ℕ
  setCallbackListeners : List ℕ

inductive SetError where
  | duplicateValidator
  | missingValidator
  | overflow
  | underflow
  | zeroWeight
  deriving DecidableEq

def SetError.text : SetError → String
  | duplicateValidator => "duplicate validator"
  | missingValidator => "missing validator"
  | overflow => "overflow"
  | underflow => "underflow"
  | zeroWeight => "weight must be non-zero"

structure SetResult (S N P T : Type) where
  err : Option SetError
  set : VdrSet S N P T
  calls : List (Delivery S N P T)

/-- The assignment `xs[i] = x`. -/
def assign {α : Type} (xs : List α) (i : ℕ) (x : α) : Outcome Empty (List α) :=
  if i < xs.length then .ok (xs.set i x) else .panic "index out of range"

/-- The slice `xs[:n]`. -/
def sliceTo {α : Type} (xs : List α) (n : ℕ) : Outcome Empty (List α) :=
  if n ≤ xs.length then .ok (xs.take n) else .panic "slice bounds out of range"

namespace VdrSet

/-- The callbacks for one event: the listeners of the manager first. -/
def callCallbacks (s : VdrSet S N P T) (event : SetEvent N P T) : List (Delivery S N P T) :=
  s.managerCallbackListeners.map (fun l => .manager l s.subnetID event) ++
    s.setCallbackListeners.map (fun l => .set l event)

def callValidatorAddedCallbacks (s : VdrSet S N P T) (nodeID : N) (pk : Option P) (txID : T)
    (weight : UInt64) : List (Delivery S N P T) := s.callCallbacks (.added nodeID pk txID weight)

def callValidatorRemovedCallbacks (s : VdrSet S N P T) (nodeID : N) (weight : UInt64) :
    List (Delivery S N P T) := s.callCallbacks (.removed nodeID weight)

def callWeightChangeCallbacks (s : VdrSet S N P T) (nodeID : N) (oldWeight newWeight : UInt64) :
    List (Delivery S N P T) := s.callCallbacks (.weightChanged nodeID oldWeight newWeight)

variable [DecidableEq N]

def newSet [Inhabited N] [Inhabited T] (subnetID : S) (callbackListeners : List ℕ) :
    VdrSet S N P T := ⟨subnetID,default,0,∅,[],[],0,callbackListeners,[]⟩

/-- A new validator at the end of the slices. -/
def push (s : VdrSet S N P T) (nodeID : N) (pk : Option P) (txID : T) (weight : UInt64) :
    VdrSet S N P T :=
  { s with
    heap := Function.update s.heap s.next ⟨nodeID,pk,txID,weight,s.vdrSlice.length⟩
    next := s.next + 1
    vdrs := s.vdrs.insert nodeID s.next
    vdrSlice := s.vdrSlice ++ [s.next]
    weights := s.weights ++ [weight]
    totalWeight := s.totalWeight + weight.toNat }

def add (s : VdrSet S N P T) (nodeID : N) (pk : Option P) (txID : T) (weight : UInt64) :
    SetResult S N P T :=
  match s.vdrs.lookup nodeID with
  | some _ => ⟨some .duplicateValidator,s,[]⟩
  | none => ⟨none,s.push nodeID pk txID weight,
      s.callValidatorAddedCallbacks nodeID pk txID weight⟩

/-- A new weight in the validator and in the slice. -/
def setWeight (s : VdrSet S N P T) (vdr : ℕ) (newWeight : UInt64) (totalWeight : ℤ) :
    Outcome Empty (VdrSet S N P T) := do
  let weights ← assign s.weights (s.heap vdr).index newWeight
  .ok { s with
    heap := Function.update s.heap vdr { s.heap vdr with weight := newWeight }
    weights := weights
    totalWeight := totalWeight }

def addWeight (s : VdrSet S N P T) (nodeID : N) (weight : UInt64) :
    Outcome Empty (SetResult S N P T) :=
  match s.vdrs.lookup nodeID with
  | none => .ok ⟨some .missingValidator,s,[]⟩
  | some vdr => match add64 (s.heap vdr).weight weight with
    | none => .ok ⟨some .overflow,s,[]⟩
    | some newWeight => do
      let changed ← s.setWeight vdr newWeight (s.totalWeight + weight.toNat)
      .ok ⟨none,changed,s.callWeightChangeCallbacks nodeID (s.heap vdr).weight newWeight⟩

def getWeight (s : VdrSet S N P T) (nodeID : N) : UInt64 :=
  match s.vdrs.lookup nodeID with
  | some vdr => (s.heap vdr).weight
  | none => 0

def subsetWeightFrom (s : VdrSet S N P T) : List N → UInt64 → Except SetError UInt64
  | [], totalWeight => .ok totalWeight
  | nodeID :: subset, totalWeight => match add64 totalWeight (s.getWeight nodeID) with
    | none => .error .overflow
    | some totalWeight => s.subsetWeightFrom subset totalWeight

def subsetWeight (s : VdrSet S N P T) (subset : List N) : Except SetError UInt64 :=
  s.subsetWeightFrom subset 0

/-- The last validator takes the place of the one that goes. -/
def unlink (s : VdrSet S N P T) (nodeID : N) (vdr : ℕ) (totalWeight : ℤ) :
    Outcome Empty (VdrSet S N P T) :=
  match s.vdrSlice.getLast? with
  | none => .panic "index out of range [-1]"
  | some vdrToSwap => do
    let vdrSlice ← assign s.vdrSlice (s.heap vdr).index vdrToSwap
    let weights ← assign s.weights (s.heap vdr).index (s.heap vdrToSwap).weight
    let vdrSlice ← sliceTo vdrSlice (s.vdrSlice.length - 1)
    let weights ← sliceTo weights (s.vdrSlice.length - 1)
    .ok { s with
      heap := Function.update s.heap vdrToSwap
        { s.heap vdrToSwap with index := (s.heap vdr).index }
      vdrs := s.vdrs.erase nodeID
      vdrSlice := vdrSlice
      weights := weights
      totalWeight := totalWeight }

def removeWeight (s : VdrSet S N P T) (nodeID : N) (weight : UInt64) :
    Outcome Empty (SetResult S N P T) :=
  match s.vdrs.lookup nodeID with
  | none => .ok ⟨some .missingValidator,s,[]⟩
  | some vdr => match sub64 (s.heap vdr).weight weight with
    | none => .ok ⟨some .underflow,s,[]⟩
    | some newWeight =>
      if newWeight = 0 then do
        let changed ← s.unlink nodeID vdr (s.totalWeight - weight.toNat)
        .ok ⟨none,changed,s.callValidatorRemovedCallbacks nodeID (s.heap vdr).weight⟩
      else do
        let changed ← s.setWeight vdr newWeight (s.totalWeight - weight.toNat)
        .ok ⟨none,changed,s.callWeightChangeCallbacks nodeID (s.heap vdr).weight newWeight⟩

/-- `errTotalWeightNotUint64` carries the total weight. -/
def getTotalWeight (s : VdrSet S N P T) : Except ℤ UInt64 :=
  if 0 ≤ s.totalWeight ∧ s.totalWeight < 2 ^ 64 then .ok (UInt64.ofNat s.totalWeight.toNat)
  else .error s.totalWeight

def len (s : VdrSet S N P T) : ℕ := s.vdrSlice.length

/-- `Get`: a copy of the validator. -/
def get (s : VdrSet S N P T) (nodeID : N) : Option (Validator N P T) :=
  (s.vdrs.lookup nodeID).map s.heap

def hasCallbackRegistered (s : VdrSet S N P T) : Bool := s.setCallbackListeners.length > 0

def replay (s : VdrSet S N P T) : List (SetEvent N P T) :=
  s.vdrSlice.map fun vdr => .added (s.heap vdr).nodeID (s.heap vdr).publicKey (s.heap vdr).txID
    (s.heap vdr).weight

def registerManagerCallbackListener (s : VdrSet S N P T) (callbackListener : ℕ) :
    VdrSet S N P T × List (Delivery S N P T) :=
  ({ s with managerCallbackListeners := s.managerCallbackListeners ++ [callbackListener] },
    s.replay.map (.manager callbackListener s.subnetID))

def registerCallbackListener (s : VdrSet S N P T) (callbackListener : ℕ) :
    VdrSet S N P T × List (Delivery S N P T) :=
  ({ s with setCallbackListeners := s.setCallbackListeners ++ [callbackListener] },
    s.replay.map (.set callbackListener))

/-! ## One set behind four containers -/

/-- The map, the slices and the stored positions describe the same validators. -/
structure Consistent (s : VdrSet S N P T) : Prop where
  lookup_iff : ∀ nodeID vdr, s.vdrs.lookup nodeID = some vdr ↔
    vdr ∈ s.vdrSlice ∧ (s.heap vdr).nodeID = nodeID
  indexed : Indexed (fun vdr => (s.heap vdr).index) s.vdrSlice
  weights_eq : s.weights = s.vdrSlice.map fun vdr => (s.heap vdr).weight
  allocated : ∀ vdr ∈ s.vdrSlice, vdr < s.next
  weight_ne_zero : ∀ vdr ∈ s.vdrSlice, (s.heap vdr).weight ≠ 0
  total_eq : s.totalWeight = ((s.vdrSlice.map fun vdr => (s.heap vdr).weight.toNat).sum : ℕ)

section
variable {s : VdrSet S N P T} {nodeID : N} {vdr : ℕ}

theorem consistent_newSet [Inhabited N] [Inhabited T] (subnetID : S) (callbackListeners : List ℕ) :
    (newSet subnetID callbackListeners : VdrSet S N P T).Consistent where
  lookup_iff nodeID vdr := by simp [newSet]
  indexed i vdr h := by simp [newSet] at h
  weights_eq := rfl
  allocated vdr h := by simp [newSet] at h
  weight_ne_zero vdr h := by simp [newSet] at h
  total_eq := rfl

theorem Consistent.mem (h : s.Consistent) (hl : s.vdrs.lookup nodeID = some vdr) :
    vdr ∈ s.vdrSlice := ((h.lookup_iff nodeID vdr).mp hl).1

theorem Consistent.nodeID_eq (h : s.Consistent) (hl : s.vdrs.lookup nodeID = some vdr) :
    (s.heap vdr).nodeID = nodeID := ((h.lookup_iff nodeID vdr).mp hl).2

theorem Consistent.index_lt (h : s.Consistent) (hl : s.vdrs.lookup nodeID = some vdr) :
    (s.heap vdr).index < s.vdrSlice.length := h.indexed.lt_length (h.mem hl)

theorem Consistent.length_weights (h : s.Consistent) : s.weights.length = s.vdrSlice.length := by
  rw [h.weights_eq,List.length_map]

theorem Consistent.listeners (h : s.Consistent) (managerListeners setListeners : List ℕ) :
    ({ s with
      managerCallbackListeners := managerListeners
      setCallbackListeners := setListeners } : VdrSet S N P T).Consistent :=
  ⟨h.lookup_iff,h.indexed,h.weights_eq,h.allocated,h.weight_ne_zero,h.total_eq⟩

theorem Consistent.ne_next (h : s.Consistent) (hvdr : vdr ∈ s.vdrSlice) : vdr ≠ s.next :=
  (h.allocated vdr hvdr).ne

theorem Consistent.push_heap (h : s.Consistent) (pk : Option P) (txID : T) (weight : UInt64)
    (hvdr : vdr ∈ s.vdrSlice) : (s.push nodeID pk txID weight).heap vdr = s.heap vdr :=
  Function.update_of_ne (h.ne_next hvdr) _ _

theorem push_heap_next (s : VdrSet S N P T) (nodeID : N) (pk : Option P) (txID : T)
    (weight : UInt64) : (s.push nodeID pk txID weight).heap s.next =
      ⟨nodeID,pk,txID,weight,s.vdrSlice.length⟩ := Function.update_self _ _ _

theorem mem_push_slice (pk : Option P) (txID : T) (weight : UInt64) :
    vdr ∈ (s.push nodeID pk txID weight).vdrSlice ↔ vdr ∈ s.vdrSlice ∨ vdr = s.next := by
  simp [push]

theorem Consistent.map_push {β : Type} (h : s.Consistent) (pk : Option P) (txID : T)
    (weight : UInt64) (f : Validator N P T → β) :
    (s.push nodeID pk txID weight).vdrSlice.map
        (fun vdr => f ((s.push nodeID pk txID weight).heap vdr)) =
      s.vdrSlice.map (fun vdr => f (s.heap vdr)) ++
        [f ⟨nodeID,pk,txID,weight,s.vdrSlice.length⟩] := by
  have hslice : (s.push nodeID pk txID weight).vdrSlice = s.vdrSlice ++ [s.next] := rfl
  rw [hslice,List.map_append,List.map_singleton,push_heap_next]
  congr 1
  exact List.map_congr_left fun vdr hvdr => by rw [h.push_heap pk txID weight hvdr]

theorem Consistent.push (h : s.Consistent) (hl : s.vdrs.lookup nodeID = none) (pk : Option P)
    (txID : T) {weight : UInt64} (hweight : weight ≠ 0) :
    (s.push nodeID pk txID weight).Consistent where
  lookup_iff nodeID' vdr := by
    rw [mem_push_slice]
    change (s.vdrs.insert nodeID s.next).lookup nodeID' = some vdr ↔ _
    by_cases hid : nodeID' = nodeID
    · subst hid
      rw [Finmap.lookup_insert,Option.some.injEq]
      constructor
      · rintro rfl
        exact ⟨.inr rfl,by rw [push_heap_next]⟩
      · rintro ⟨hmem | rfl,hnode⟩
        · rw [h.push_heap pk txID weight hmem] at hnode
          rw [(h.lookup_iff nodeID' vdr).mpr ⟨hmem,hnode⟩] at hl
          cases hl
        · rfl
    · rw [Finmap.lookup_insert_of_ne _ hid,h.lookup_iff]
      constructor
      · rintro ⟨hmem,hnode⟩
        exact ⟨.inl hmem,by rw [h.push_heap pk txID weight hmem,hnode]⟩
      · rintro ⟨hmem | rfl,hnode⟩
        · rw [h.push_heap pk txID weight hmem] at hnode
          exact ⟨hmem,hnode⟩
        · rw [push_heap_next] at hnode
          exact absurd hnode.symm hid
  indexed := by
    refine (h.indexed.congr fun vdr hvdr => ?_).append ?_
    · rw [h.push_heap pk txID weight hvdr]
    · rw [push_heap_next]
  weights_eq := by
    rw [h.map_push pk txID weight Validator.weight,← h.weights_eq]
    rfl
  allocated vdr hvdr := by
    change vdr < s.next + 1
    rcases (mem_push_slice pk txID weight).mp hvdr with hmem | rfl
    · exact Nat.lt_succ_of_lt (h.allocated vdr hmem)
    · exact Nat.lt_succ_self _
  weight_ne_zero vdr hvdr := by
    rcases (mem_push_slice pk txID weight).mp hvdr with hmem | rfl
    · rw [h.push_heap pk txID weight hmem]
      exact h.weight_ne_zero vdr hmem
    · rwa [push_heap_next]
  total_eq := by
    rw [h.map_push pk txID weight fun v => v.weight.toNat,List.sum_append,List.sum_singleton,
      Nat.cast_add,← h.total_eq]
    rfl

/-- The set after `setWeight`. -/
def reweighed (s : VdrSet S N P T) (vdr : ℕ) (newWeight : UInt64) (totalWeight : ℤ) :
    VdrSet S N P T :=
  { s with
    heap := Function.update s.heap vdr { s.heap vdr with weight := newWeight }
    weights := s.weights.set (s.heap vdr).index newWeight
    totalWeight := totalWeight }

theorem Consistent.setWeight_eq (h : s.Consistent) (hl : s.vdrs.lookup nodeID = some vdr)
    (newWeight : UInt64) (totalWeight : ℤ) :
    s.setWeight vdr newWeight totalWeight = .ok (s.reweighed vdr newWeight totalWeight) := by
  have hlt : (s.heap vdr).index < s.weights.length := by
    rw [h.length_weights]
    exact h.index_lt hl
  rw [VdrSet.setWeight,assign,if_pos hlt]
  rfl

omit [DecidableEq N] in
theorem reweighed_heap_self (s : VdrSet S N P T) (vdr : ℕ) (newWeight : UInt64) (totalWeight : ℤ) :
    (s.reweighed vdr newWeight totalWeight).heap vdr = { s.heap vdr with weight := newWeight } :=
  Function.update_self _ _ _

omit [DecidableEq N] in
theorem reweighed_heap_of_ne {other : ℕ} (hne : other ≠ vdr) (newWeight : UInt64)
    (totalWeight : ℤ) : (s.reweighed vdr newWeight totalWeight).heap other = s.heap other :=
  Function.update_of_ne hne _ _

omit [DecidableEq N] in
theorem reweighed_nodeID (vdr other : ℕ) (newWeight : UInt64) (totalWeight : ℤ) :
    ((s.reweighed vdr newWeight totalWeight).heap other).nodeID = (s.heap other).nodeID := by
  by_cases hne : other = vdr
  · rw [hne,reweighed_heap_self]
  · rw [reweighed_heap_of_ne hne]

omit [DecidableEq N] in
theorem reweighed_index (vdr other : ℕ) (newWeight : UInt64) (totalWeight : ℤ) :
    ((s.reweighed vdr newWeight totalWeight).heap other).index = (s.heap other).index := by
  by_cases hne : other = vdr
  · rw [hne,reweighed_heap_self]
  · rw [reweighed_heap_of_ne hne]

/-- A sum over a list without repetitions, of which one term changes. -/
theorem sum_map_update {l : List ℕ} (hnodup : l.Nodup) (hvdr : vdr ∈ l) (f g : ℕ → ℕ)
    (hsame : ∀ other, other ≠ vdr → g other = f other) :
    (l.map g).sum + f vdr = (l.map f).sum + g vdr := by
  obtain ⟨before,after,rfl⟩ := List.append_of_mem hvdr
  rw [List.nodup_middle,List.nodup_cons] at hnodup
  have hrest : ∀ part : List ℕ, (∀ other ∈ part, other ∈ before ++ after) →
      part.map g = part.map f := fun part hpart =>
    List.map_congr_left fun other hother => hsame other fun heq =>
      hnodup.1 (heq ▸ hpart other hother)
  simp only [List.map_append,List.map_cons,List.sum_append,List.sum_cons]
  rw [hrest before fun _ h => List.mem_append_left _ h,
    hrest after fun _ h => List.mem_append_right _ h]
  omega

theorem Consistent.reweighed (h : s.Consistent) (hl : s.vdrs.lookup nodeID = some vdr)
    {newWeight : UInt64} (hweight : newWeight ≠ 0) {totalWeight : ℤ}
    (htotal : totalWeight + (s.heap vdr).weight.toNat = s.totalWeight + newWeight.toNat) :
    (s.reweighed vdr newWeight totalWeight).Consistent where
  lookup_iff nodeID' other := by
    rw [reweighed_nodeID]
    exact h.lookup_iff nodeID' other
  indexed := h.indexed.congr fun other _ => reweighed_index vdr other newWeight totalWeight
  weights_eq := by
    change s.weights.set (s.heap vdr).index newWeight = s.vdrSlice.map _
    refine List.ext_getElem? fun i => ?_
    rw [List.getElem?_set,List.getElem?_map,h.length_weights,h.weights_eq,List.getElem?_map]
    split
    · next hi =>
      subst hi
      rw [if_pos (h.index_lt hl),h.indexed.getElem? (h.mem hl),Option.map_some,
        reweighed_heap_self]
    · next hi =>
      cases hother : s.vdrSlice[i]? with
      | none => rfl
      | some other =>
        have hne : other ≠ vdr := by
          rintro rfl
          exact hi (h.indexed i other hother)
        rw [Option.map_some,Option.map_some,reweighed_heap_of_ne hne]
  allocated := h.allocated
  weight_ne_zero other hother := by
    by_cases hne : other = vdr
    · rw [hne,reweighed_heap_self]
      exact hweight
    · rw [reweighed_heap_of_ne hne]
      exact h.weight_ne_zero other hother
  total_eq := by
    have hsum := sum_map_update h.indexed.nodup (h.mem hl)
      (fun other => (s.heap other).weight.toNat)
      (fun other => ((s.reweighed vdr newWeight totalWeight).heap other).weight.toNat)
      fun other hne => by rw [reweighed_heap_of_ne hne]
    rw [reweighed_heap_self] at hsum
    have hold := h.total_eq
    change totalWeight = ((s.vdrSlice.map fun other =>
      ((s.reweighed vdr newWeight totalWeight).heap other).weight.toNat).sum : ℕ)
    dsimp only at hsum
    omega

def unlinked (s : VdrSet S N P T) (nodeID : N) (vdr last : ℕ) (totalWeight : ℤ) :
    VdrSet S N P T :=
  { s with
    heap := Function.update s.heap last { s.heap last with index := (s.heap vdr).index }
    vdrs := s.vdrs.erase nodeID
    vdrSlice := swapRemove s.vdrSlice (s.heap vdr).index last
    weights := swapRemove s.weights (s.heap vdr).index (s.heap last).weight
    totalWeight := totalWeight }

theorem Consistent.unlink_eq (h : s.Consistent) (hl : s.vdrs.lookup nodeID = some vdr)
    (totalWeight : ℤ) : ∃ last, s.vdrSlice.getLast? = some last ∧
      s.unlink nodeID vdr totalWeight = .ok (s.unlinked nodeID vdr last totalWeight) := by
  have hlt := h.index_lt hl
  have hweights := h.length_weights
  cases hlast : s.vdrSlice.getLast? with
  | none =>
    rw [List.getLast?_eq_none_iff.mp hlast] at hlt
    cases hlt
  | some last =>
    refine ⟨last,rfl,?_⟩
    simp only [VdrSet.unlink,hlast,assign,sliceTo]
    rw [if_pos hlt,if_pos (by omega)]
    simp only [Outcome.ok_bind,List.length_set]
    rw [if_pos (by omega),if_pos (by omega)]
    simp only [Outcome.ok_bind,unlinked,swapRemove,hweights]

theorem unlinked_heap (s : VdrSet S N P T) (nodeID : N) (vdr last : ℕ) (totalWeight : ℤ)
    (other : ℕ) : (s.unlinked nodeID vdr last totalWeight).heap other = { s.heap other with
      index := if other = last then (s.heap vdr).index else (s.heap other).index } := by
  change Function.update s.heap last _ other = _
  by_cases hne : other = last
  · rw [hne,Function.update_self,if_pos rfl]
  · rw [Function.update_of_ne hne,if_neg hne]

theorem Consistent.mem_unlinked (h : s.Consistent) (hl : s.vdrs.lookup nodeID = some vdr) {last : ℕ}
    (hlast : s.vdrSlice.getLast? = some last) (totalWeight : ℤ) (other : ℕ) :
    other ∈ (s.unlinked nodeID vdr last totalWeight).vdrSlice ↔
      other ∈ s.vdrSlice ∧ other ≠ vdr := mem_swapRemove h.indexed (h.mem hl) hlast other

theorem Consistent.unlinked (h : s.Consistent) (hl : s.vdrs.lookup nodeID = some vdr) {last : ℕ}
    (hlast : s.vdrSlice.getLast? = some last) {totalWeight : ℤ}
    (htotal : totalWeight + (s.heap vdr).weight.toNat = s.totalWeight) :
    (s.unlinked nodeID vdr last totalWeight).Consistent := by
  have hmem := h.mem_unlinked hl hlast totalWeight
  have hindexed : Indexed (fun other => ((s.unlinked nodeID vdr last totalWeight).heap other).index)
      (s.unlinked nodeID vdr last totalWeight).vdrSlice := by
    refine h.indexed.swapRemove hlast ?_ fun other hne => ?_
    · rw [unlinked_heap,if_pos rfl]
    · rw [unlinked_heap,if_neg hne]
  refine ⟨fun nodeID' other => ?_,hindexed,?_,fun other hother => ?_,fun other hother => ?_,?_⟩
  · rw [hmem,unlinked_heap]
    change (s.vdrs.erase nodeID).lookup nodeID' = some other ↔ _
    by_cases hid : nodeID' = nodeID
    · subst hid
      rw [Finmap.lookup_erase]
      constructor
      · intro hnone
        cases hnone
      · rintro ⟨⟨hother,hne⟩,hnode⟩
        have hsame := (h.lookup_iff nodeID' other).mpr ⟨hother,hnode⟩
        rw [hl] at hsame
        exact absurd (Option.some.inj hsame).symm hne
    · rw [Finmap.lookup_erase_ne hid,h.lookup_iff]
      constructor
      · rintro ⟨hother,hnode⟩
        refine ⟨⟨hother,?_⟩,hnode⟩
        rintro rfl
        exact hid (hnode.symm.trans (h.nodeID_eq hl))
      · rintro ⟨⟨hother,_⟩,hnode⟩
        exact ⟨hother,hnode⟩
  · simp only [unlinked_heap]
    change swapRemove s.weights (s.heap vdr).index (s.heap last).weight =
      (swapRemove s.vdrSlice (s.heap vdr).index last).map _
    refine List.ext_getElem? fun i => ?_
    rw [List.getElem?_map,getElem?_swapRemove,getElem?_swapRemove,h.length_weights,h.weights_eq,
      List.getElem?_map]
    split
    · split <;> rfl
    · rfl
  · exact h.allocated other ((hmem other).mp hother).1
  · rw [unlinked_heap]
    exact h.weight_ne_zero other ((hmem other).mp hother).1
  · have hperm := perm_swapRemove h.indexed (h.mem hl) hlast hindexed.nodup
    have hsum := (hperm.map fun other => (s.heap other).weight.toNat).sum_eq
    have hold := h.total_eq
    rw [List.map_cons,List.sum_cons] at hsum
    simp only [unlinked_heap]
    change totalWeight = (((swapRemove s.vdrSlice (s.heap vdr).index last).map _).sum : ℕ)
    omega

end

/-! ## What a call does -/

def view (s : VdrSet S N P T) (nodeID : N) : Option (Member P T) :=
  (s.vdrs.lookup nodeID).map fun vdr =>
    ⟨(s.heap vdr).publicKey,(s.heap vdr).txID,(s.heap vdr).weight⟩

section
variable {s : VdrSet S N P T} {nodeID : N} {vdr : ℕ}

/-- A call either returns an error and leaves everything as it is, or makes one change, of
which it tells the listeners. -/
inductive Change (s : VdrSet S N P T) : SetResult S N P T → Prop
  | refused (e : SetError) : Change s ⟨some e,s,[]⟩
  | applied (changed : VdrSet S N P T) (event : SetEvent N P T) (hconsistent : changed.Consistent)
      (hview : changed.view = event.apply s.view) (hevent : event.Truthful s.view)
      (hsubnetID : changed.subnetID = s.subnetID)
      (hmanager : changed.managerCallbackListeners = s.managerCallbackListeners)
      (hset : changed.setCallbackListeners = s.setCallbackListeners) :
      Change s ⟨none,changed,s.callCallbacks event⟩

theorem view_eq_of_lookup (h : s.vdrs.lookup nodeID = some vdr) : s.view nodeID =
    some ⟨(s.heap vdr).publicKey,(s.heap vdr).txID,(s.heap vdr).weight⟩ := by
  rw [view,h,Option.map_some]

theorem view_eq_none_of_lookup (h : s.vdrs.lookup nodeID = none) : s.view nodeID = none := by
  rw [view,h,Option.map_none]

theorem Consistent.view_push (h : s.Consistent) (pk : Option P) (txID : T) (weight : UInt64) :
    (s.push nodeID pk txID weight).view = (SetEvent.added nodeID pk txID weight).apply s.view := by
  funext other
  change ((s.vdrs.insert nodeID s.next).lookup other).map _ = Function.update s.view nodeID _ other
  by_cases hid : other = nodeID
  · rw [hid,Finmap.lookup_insert,Option.map_some,push_heap_next,Function.update_self]
  · rw [Finmap.lookup_insert_of_ne _ hid,Function.update_of_ne hid,view]
    cases hl : s.vdrs.lookup other with
    | none => rfl
    | some vdr =>
      rw [Option.map_some,Option.map_some,h.push_heap pk txID weight (h.mem hl)]

theorem Consistent.view_reweighed (h : s.Consistent) (hl : s.vdrs.lookup nodeID = some vdr)
    (newWeight : UInt64) (totalWeight : ℤ) : (s.reweighed vdr newWeight totalWeight).view =
      (SetEvent.weightChanged nodeID (s.heap vdr).weight newWeight).apply s.view := by
  funext other
  change (s.vdrs.lookup other).map _ = Function.update s.view nodeID _ other
  by_cases hid : other = nodeID
  · rw [hid,hl,Option.map_some,reweighed_heap_self,Function.update_self,view_eq_of_lookup hl]
    rfl
  · rw [Function.update_of_ne hid,view]
    cases hother : s.vdrs.lookup other with
    | none => rfl
    | some vdr' =>
      have hne : vdr' ≠ vdr := by
        rintro rfl
        exact hid ((h.nodeID_eq hother).symm.trans (h.nodeID_eq hl))
      rw [Option.map_some,Option.map_some,reweighed_heap_of_ne hne]

theorem view_unlinked (vdr last : ℕ) (totalWeight : ℤ) (weight : UInt64) :
    (s.unlinked nodeID vdr last totalWeight).view =
      (SetEvent.removed nodeID weight).apply s.view := by
  funext other
  unfold view
  simp only [unlinked_heap]
  change ((s.vdrs.erase nodeID).lookup other).map _ = Function.update s.view nodeID none other
  by_cases hid : other = nodeID
  · rw [hid,Finmap.lookup_erase,Option.map_none,Function.update_self]
  · rw [Finmap.lookup_erase_ne hid,Function.update_of_ne hid]
    rfl

theorem Consistent.add_change (h : s.Consistent) (nodeID : N) (pk : Option P) (txID : T)
    {weight : UInt64} (hweight : weight ≠ 0) : Change s (s.add nodeID pk txID weight) := by
  unfold VdrSet.add
  cases hl : s.vdrs.lookup nodeID with
  | some vdr => exact .refused _
  | none =>
    exact .applied _ _ (h.push hl pk txID hweight) (h.view_push pk txID weight)
      (view_eq_none_of_lookup hl) rfl rfl rfl

theorem Consistent.addWeight_change (h : s.Consistent) (nodeID : N) (weight : UInt64) :
    ∃ r, s.addWeight nodeID weight = .ok r ∧ Change s r := by
  unfold VdrSet.addWeight
  cases hl : s.vdrs.lookup nodeID with
  | none => exact ⟨_,rfl,.refused _⟩
  | some vdr =>
    dsimp only
    cases hadd : add64 (s.heap vdr).weight weight with
    | none => exact ⟨_,rfl,.refused _⟩
    | some newWeight =>
      have hsum := add64_eq_some_iff.mp hadd
      have hne : newWeight ≠ 0 := by
        rintro rfl
        refine h.weight_ne_zero vdr (h.mem hl) (UInt64.toNat_inj.mp ?_)
        rw [UInt64.toNat_zero] at hsum ⊢
        omega
      dsimp only
      rw [h.setWeight_eq hl]
      refine ⟨_,rfl,.applied _ _ (h.reweighed hl hne ?_) (h.view_reweighed hl _ _)
        ⟨_,view_eq_of_lookup hl,rfl⟩ rfl rfl rfl⟩
      rw [hsum]
      push_cast
      ring

theorem Consistent.removeWeight_change (h : s.Consistent) (nodeID : N) (weight : UInt64) :
    ∃ r, s.removeWeight nodeID weight = .ok r ∧ Change s r := by
  unfold VdrSet.removeWeight
  cases hl : s.vdrs.lookup nodeID with
  | none => exact ⟨_,rfl,.refused _⟩
  | some vdr =>
    dsimp only
    cases hsub : sub64 (s.heap vdr).weight weight with
    | none => exact ⟨_,rfl,.refused _⟩
    | some newWeight =>
      have hsum := sub64_eq_some_iff.mp hsub
      dsimp only
      split
      · next hzero =>
        obtain ⟨last,hlast,heq⟩ := h.unlink_eq hl (s.totalWeight - weight.toNat)
        rw [heq]
        refine ⟨_,rfl,.applied _ _ (h.unlinked hl hlast ?_) (view_unlinked vdr last _ _)
          ⟨_,view_eq_of_lookup hl,rfl⟩ rfl rfl rfl⟩
        rw [hzero,UInt64.toNat_zero] at hsum
        omega
      · next hzero =>
        rw [h.setWeight_eq hl]
        refine ⟨_,rfl,.applied _ _ (h.reweighed hl hzero ?_) (h.view_reweighed hl _ _)
          ⟨_,view_eq_of_lookup hl,rfl⟩ rfl rfl rfl⟩
        omega

theorem Change.set_of_err {r : SetResult S N P T} (h : s.Change r) (herr : r.err ≠ none) :
    r.set = s := by
  cases h with
  | refused e => rfl
  | applied => exact absurd rfl herr

theorem Change.consistent_of_ok {r : SetResult S N P T} (h : s.Change r) (herr : r.err = none) :
    r.set.Consistent := by
  cases h with
  | refused e => cases herr
  | applied _ _ hconsistent => exact hconsistent

theorem view_newSet [Inhabited N] [Inhabited T] (subnetID : S) (callbackListeners : List ℕ) :
    (newSet subnetID callbackListeners : VdrSet S N P T).view = fun _ => none := by
  funext nodeID
  rw [view,newSet,Finmap.lookup_empty,Option.map_none]

theorem Consistent.view_of_len (h : s.Consistent) (hlen : s.len = 0) : s.view = fun _ => none := by
  funext nodeID
  cases hl : s.vdrs.lookup nodeID with
  | none => exact view_eq_none_of_lookup hl
  | some vdr =>
    have hmem := h.mem hl
    rw [List.eq_nil_of_length_eq_zero hlen] at hmem
    cases hmem

end

/-! ## Sums -/

section
variable {s : VdrSet S N P T}

def weightSum (s : VdrSet S N P T) (subset : List N) : ℕ :=
  (subset.map fun nodeID => (s.getWeight nodeID).toNat).sum

theorem subsetWeightFrom_eq (subset : List N) (totalWeight : UInt64) :
    (∀ w, s.subsetWeightFrom subset totalWeight = .ok w ↔
      w.toNat = totalWeight.toNat + s.weightSum subset) ∧
    (s.subsetWeightFrom subset totalWeight = .error .overflow ↔
      2 ^ 64 ≤ totalWeight.toNat + s.weightSum subset) := by
  induction subset generalizing totalWeight with
  | nil =>
    have hlt := totalWeight.toNat_lt
    refine ⟨fun w => ?_,?_⟩
    · simp only [subsetWeightFrom,weightSum,List.map_nil,List.sum_nil,Nat.add_zero,
        Except.ok.injEq]
      exact ⟨fun h => by rw [h],fun h => UInt64.toNat_inj.mp h.symm⟩
    · simp only [subsetWeightFrom,weightSum,List.map_nil,List.sum_nil,Nat.add_zero]
      exact iff_of_false (fun h => by cases h) (by omega)
  | cons nodeID subset ih =>
    have hcons : s.weightSum (nodeID :: subset) =
        (s.getWeight nodeID).toNat + s.weightSum subset := by
      simp [weightSum]
    rw [subsetWeightFrom,hcons]
    cases hadd : add64 totalWeight (s.getWeight nodeID) with
    | none =>
      have hover := add64_eq_none_iff.mp hadd
      refine ⟨fun w => ?_,iff_of_true rfl (by omega)⟩
      have hlt := w.toNat_lt
      exact iff_of_false (fun h => by cases h) (by omega)
    | some next =>
      have hsum := add64_eq_some_iff.mp hadd
      obtain ⟨hok,herr⟩ := ih next
      rw [hsum,Nat.add_assoc] at herr
      refine ⟨fun w => ?_,herr⟩
      rw [← Nat.add_assoc,← hsum]
      exact hok w

end

end VdrSet
end
end Landslide.Validators
