import Landslide.Validators.Manager

/-! # What listeners know

A listener is told every validator that is there when it registers, and every change from then
on. Folding what it was told gives the members of the subnets it listens to. The set of a
subnet to which somebody listens is never thrown away, and a new set takes the listeners of
the manager over.
-/
namespace Landslide.Validators
variable {S N P T : Type} [DecidableEq N]

/-! ## Folding events -/

theorem SetEvent.apply_apply (event : SetEvent N P T) (members : N → Option (Member P T)) :
    event.apply (event.apply members) = event.apply members := by
  cases event with
  | added nodeID pk txID weight => exact Function.update_idem _ _ _
  | removed nodeID weight => exact Function.update_idem _ _ _
  | weightChanged nodeID oldWeight newWeight =>
    simp only [SetEvent.apply,Function.update_self,Function.update_idem,Option.map_map]
    rfl

def setKnown (listener : ℕ) (calls : List (Delivery S N P T)) (members : N → Option (Member P T)) :
    N → Option (Member P T) :=
  calls.foldl (fun known call => match call with
    | .set l event => if l = listener then event.apply known else known
    | .manager _ _ _ => known) members

/-- What a listener of the manager knows after the calls. -/
def managerKnown [DecidableEq S] (listener : ℕ) (calls : List (Delivery S N P T))
    (members : S → N → Option (Member P T)) : S → N → Option (Member P T) :=
  calls.foldl (fun known call => match call with
    | .manager l subnetID event =>
      if l = listener then Function.update known subnetID (event.apply (known subnetID)) else known
    | .set _ _ => known) members

theorem foldl_listeners {α : Type} (g : α → α) (hg : ∀ a, g (g a) = g a) (listener : ℕ)
    (listeners : List ℕ) (a : α) :
    listeners.foldl (fun a l => if l = listener then g a else a) a =
      if listener ∈ listeners then g a else a := by
  induction listeners generalizing a with
  | nil => rfl
  | cons l listeners ih =>
    rw [List.foldl_cons,ih]
    by_cases hl : l = listener
    · simp [hl,hg]
    · simp [hl,Ne.symm hl]

theorem setKnown_callCallbacks (listener : ℕ) (s : VdrSet S N P T) (event : SetEvent N P T)
    (members : N → Option (Member P T)) :
    setKnown listener (s.callCallbacks event) members =
      if listener ∈ s.setCallbackListeners then event.apply members else members := by
  rw [← foldl_listeners (fun members => event.apply members) event.apply_apply]
  unfold setKnown VdrSet.callCallbacks
  rw [List.foldl_append,List.foldl_map,List.foldl_map]
  congr 1
  induction s.managerCallbackListeners with
  | nil => rfl
  | cons l listeners ih => exact ih

theorem managerKnown_callCallbacks [DecidableEq S] (listener : ℕ) (s : VdrSet S N P T)
    (event : SetEvent N P T) (members : S → N → Option (Member P T)) :
    managerKnown listener (s.callCallbacks event) members =
      if listener ∈ s.managerCallbackListeners
      then Function.update members s.subnetID (event.apply (members s.subnetID)) else members := by
  have hidem : ∀ members : S → N → Option (Member P T),
      Function.update (Function.update members s.subnetID (event.apply (members s.subnetID)))
        s.subnetID (event.apply (Function.update members s.subnetID
          (event.apply (members s.subnetID)) s.subnetID)) =
      Function.update members s.subnetID (event.apply (members s.subnetID)) := by
    intro members
    rw [Function.update_self,event.apply_apply,Function.update_idem]
  refine Eq.trans ?_ (foldl_listeners (fun members : S → N → Option (Member P T) =>
    Function.update members s.subnetID (event.apply (members s.subnetID))) hidem listener
    s.managerCallbackListeners members)
  unfold managerKnown VdrSet.callCallbacks
  rw [List.foldl_append,List.foldl_map,List.foldl_map]
  generalize s.managerCallbackListeners.foldl _ members = known
  induction s.setCallbackListeners with
  | nil => rfl
  | cons l listeners ih => exact ih

/-! ## The replay at registration -/

namespace VdrSet
variable {s : VdrSet S N P T}

def memberAt (s : VdrSet S N P T) (vdr : ℕ) : Member P T :=
  ⟨(s.heap vdr).publicKey,(s.heap vdr).txID,(s.heap vdr).weight⟩

theorem foldl_added (h : s.Consistent) (vdrs : List ℕ) (hvdrs : ∀ vdr ∈ vdrs, vdr ∈ s.vdrSlice)
    (members : N → Option (Member P T)) (nodeID : N) :
    vdrs.foldl (fun members vdr => Function.update members (s.heap vdr).nodeID
        (some (s.memberAt vdr))) members nodeID =
      if nodeID ∈ vdrs.map (fun vdr => (s.heap vdr).nodeID) then s.view nodeID
      else members nodeID := by
  induction vdrs generalizing members with
  | nil => rfl
  | cons vdr vdrs ih =>
    have hview : s.view (s.heap vdr).nodeID = some (s.memberAt vdr) :=
      view_eq_of_lookup ((h.lookup_iff _ _).mpr ⟨hvdrs vdr List.mem_cons_self,rfl⟩)
    rw [List.foldl_cons,ih fun v hv => hvdrs v (List.mem_cons_of_mem _ hv),List.map_cons]
    by_cases hrest : nodeID ∈ vdrs.map fun vdr => (s.heap vdr).nodeID
    · rw [if_pos hrest,if_pos (List.mem_cons_of_mem _ hrest)]
    · rw [if_neg hrest]
      by_cases hid : nodeID = (s.heap vdr).nodeID
      · rw [hid,Function.update_self,if_pos List.mem_cons_self,hview]
      · rw [Function.update_of_ne hid,if_neg]
        rw [List.mem_cons]
        rintro (heq | hmem)
        · exact hid heq
        · exact hrest hmem

theorem foldl_replay (h : s.Consistent) {members : N → Option (Member P T)}
    (hmembers : ∀ nodeID, members nodeID = none ∨ members nodeID = s.view nodeID) :
    s.replay.foldl (fun members event => event.apply members) members = s.view := by
  funext nodeID
  rw [replay,List.foldl_map]
  have hfold := foldl_added h s.vdrSlice (fun _ hv => hv) members nodeID
  refine Eq.trans hfold ?_
  split
  · rfl
  · next hnot =>
    have hnone : s.view nodeID = none := by
      cases hl : s.vdrs.lookup nodeID with
      | none => exact view_eq_none_of_lookup hl
      | some vdr => exact absurd (List.mem_map.mpr ⟨vdr,h.mem hl,h.nodeID_eq hl⟩) hnot
    rcases hmembers nodeID with hm | hm
    · rw [hm,hnone]
    · exact hm

end VdrSet

namespace Manager
variable [DecidableEq S]

/-! ## What a call changes -/

omit [DecidableEq S] in
theorem setKnown_append (listener : ℕ) (calls later : List (Delivery S N P T))
    (members : N → Option (Member P T)) :
    setKnown listener (calls ++ later) members =
      setKnown listener later (setKnown listener calls members) := List.foldl_append

theorem managerKnown_append (listener : ℕ) (calls later : List (Delivery S N P T))
    (members : S → N → Option (Member P T)) :
    managerKnown listener (calls ++ later) members =
      managerKnown listener later (managerKnown listener calls members) := List.foldl_append

theorem members_withSet (m : Manager S N P T) (subnetID : S) (set : VdrSet S N P T) :
    (m.withSet subnetID set).members = Function.update m.members subnetID set.view := by
  funext other nodeID
  rw [members,lookup_withSet]
  by_cases hother : other = subnetID
  · rw [if_pos hother,hother,Function.update_self]
    rfl
  · rw [if_neg hother,Function.update_of_ne hother,members]

theorem members_erase (m : Manager S N P T) (subnetID : S) :
    ({ m with subnetToVdrs := m.subnetToVdrs.erase subnetID } : Manager S N P T).members =
      Function.update m.members subnetID fun _ => none := by
  funext other nodeID
  unfold members
  by_cases hother : other = subnetID
  · rw [hother,Function.update_self,Finmap.lookup_erase,Option.bind_none]
  · rw [Function.update_of_ne hother,Finmap.lookup_erase_ne hother]

/-! ## What a registration changes -/

theorem managerKnown_replay (listener l : ℕ) (subnetID : S) (events : List (SetEvent N P T))
    (known : S → N → Option (Member P T)) :
    managerKnown listener (events.map (.manager l subnetID)) known =
      if l = listener
      then Function.update known subnetID
        (events.foldl (fun members event => event.apply members) (known subnetID))
      else known := by
  unfold managerKnown
  rw [List.foldl_map]
  by_cases hl : l = listener
  · simp only [hl,if_true]
    induction events generalizing known with
    | nil => exact (Function.update_eq_self subnetID known).symm
    | cons event events ih =>
      rw [List.foldl_cons,ih,Function.update_self,Function.update_idem,List.foldl_cons]
  · simp only [hl,if_false]
    induction events with
    | nil => rfl
    | cons event events ih => exact ih

omit [DecidableEq S] in
theorem setKnown_replay (listener l : ℕ) (events : List (SetEvent N P T))
    (known : N → Option (Member P T)) :
    setKnown (S := S) listener (events.map (.set l)) known =
      if l = listener then events.foldl (fun members event => event.apply members) known
      else known := by
  unfold setKnown
  rw [List.foldl_map]
  by_cases hl : l = listener
  · simp only [hl,if_true]
  · simp only [hl,if_false]
    induction events with
    | nil => rfl
    | cons event events ih => exact ih

omit [DecidableEq N] in
theorem registerWith_callbackListeners (l : ℕ) (order : List S) (m : Manager S N P T) :
    (registerWith l order m).1.callbackListeners = m.callbackListeners := by
  induction order generalizing m with
  | nil => rfl
  | cons subnetID order ih =>
    rw [Manager.registerWith]
    cases m.subnetToVdrs.lookup subnetID with
    | none => exact ih m
    | some set => exact ih _

omit [DecidableEq N] in
theorem registerWith_lookup (l : ℕ) {order : List S} (hnodup : order.Nodup) (m : Manager S N P T)
    (subnetID : S) : (registerWith l order m).1.subnetToVdrs.lookup subnetID =
      if subnetID ∈ order
      then (m.subnetToVdrs.lookup subnetID).map fun set => (set.registerManagerCallbackListener l).1
      else m.subnetToVdrs.lookup subnetID := by
  induction order generalizing m with
  | nil => rfl
  | cons first order ih =>
    obtain ⟨hfirst,hnodup⟩ := List.nodup_cons.mp hnodup
    rw [Manager.registerWith]
    cases hl : m.subnetToVdrs.lookup first with
    | none =>
      dsimp only
      rw [ih hnodup]
      by_cases hid : subnetID = first
      · rw [hid,hl,if_neg hfirst,if_pos List.mem_cons_self,Option.map_none]
      · simp [hid]
    | some set =>
      dsimp only
      rw [ih hnodup,lookup_withSet]
      by_cases hid : subnetID = first
      · rw [hid,if_neg hfirst,if_pos rfl,if_pos List.mem_cons_self,hl,Option.map_some]
      · simp [hid]

theorem registerWith_members (l : ℕ) {order : List S} (hnodup : order.Nodup)
    (m : Manager S N P T) : (registerWith l order m).1.members = m.members := by
  funext subnetID nodeID
  unfold members
  rw [registerWith_lookup l hnodup]
  split
  · cases m.subnetToVdrs.lookup subnetID <;> rfl
  · rfl

theorem setKnown_registerWith (listener l : ℕ) (order : List S) (m : Manager S N P T)
    (known : N → Option (Member P T)) :
    setKnown listener (registerWith l order m).2 known = known := by
  induction order generalizing m known with
  | nil => rfl
  | cons subnetID order ih =>
    rw [Manager.registerWith]
    cases m.subnetToVdrs.lookup subnetID with
    | none => exact ih m known
    | some set =>
      have hreplay : setKnown listener (set.replay.map (.manager l set.subnetID)) known = known := by
        unfold setKnown
        induction set.replay with
        | nil => rfl
        | cons event events ihe => exact ihe
      dsimp only
      rw [setKnown_append]
      change setKnown listener _ (setKnown listener (set.replay.map _) known) = known
      rw [hreplay]
      exact ih _ known

theorem managerKnown_registerWith_of_ne {listener l : ℕ} (hne : l ≠ listener) (order : List S)
    (m : Manager S N P T) (known : S → N → Option (Member P T)) :
    managerKnown listener (registerWith l order m).2 known = known := by
  induction order generalizing m known with
  | nil => rfl
  | cons subnetID order ih =>
    rw [Manager.registerWith]
    cases m.subnetToVdrs.lookup subnetID with
    | none => exact ih m known
    | some set =>
      dsimp only
      rw [managerKnown_append]
      change managerKnown listener _ (managerKnown listener (set.replay.map _) known) = known
      rw [managerKnown_replay,if_neg hne]
      exact ih _ known

theorem Consistent.managerKnown_registerWith {m : Manager S N P T} (h : m.Consistent)
    (listener : ℕ) {order : List S} (hnodup : order.Nodup)
    {known : S → N → Option (Member P T)}
    (hknown : ∀ subnetID nodeID, known subnetID nodeID = none ∨
      known subnetID nodeID = m.members subnetID nodeID) (subnetID : S) :
    managerKnown listener (Manager.registerWith listener order m).2 known subnetID =
      if subnetID ∈ order then m.members subnetID else known subnetID := by
  induction order generalizing m known with
  | nil => rfl
  | cons first order ih =>
    obtain ⟨hfirst,hnodup⟩ := List.nodup_cons.mp hnodup
    rw [Manager.registerWith]
    cases hl : m.subnetToVdrs.lookup first with
    | none =>
      dsimp only
      rw [ih h hnodup hknown]
      by_cases hid : subnetID = first
      · rw [hid,if_neg hfirst,if_pos List.mem_cons_self]
        funext nodeID
        have hnone : m.members first nodeID = none := by rw [members,hl,Option.bind_none]
        rcases hknown first nodeID with hk | hk
        · rw [hk,hnone]
        · exact hk
      · simp [hid]
    | some set =>
      obtain ⟨hset,hsubnetID⟩ := h.sets first set hl
      have hview : m.members first = set.view := by
        funext nodeID
        rw [members,hl,Option.bind_some]
      have hmembers : (m.withSet first (set.registerManagerCallbackListener listener).1).members =
          m.members := by
        rw [members_withSet]
        change Function.update m.members first set.view = _
        rw [← hview,Function.update_eq_self]
      have hreplay : set.replay.foldl (fun members event => event.apply members) (known first) =
          m.members first := by
        rw [hview]
        exact VdrSet.foldl_replay hset fun nodeID => hview ▸ hknown first nodeID
      dsimp only
      rw [managerKnown_append]
      change managerKnown listener _ (managerKnown listener (set.replay.map _) known) subnetID = _
      have hnext : (m.withSet first (set.registerManagerCallbackListener listener).1).Consistent :=
        h.withSet (hset.listeners _ _) hsubnetID
      rw [managerKnown_replay,if_pos rfl,hsubnetID,hreplay,ih hnext hnodup,hmembers]
      · by_cases hid : subnetID = first
        · rw [hid,if_neg hfirst,if_pos List.mem_cons_self,Function.update_self]
        · simp [hid]
      · intro other nodeID
        rw [hmembers]
        by_cases hother : other = first
        · rw [hother,Function.update_self]
          exact .inr rfl
        · rw [Function.update_of_ne hother]
          exact hknown other nodeID

section
variable [Inhabited N] [Inhabited T]

omit [Inhabited N] [Inhabited T] in
theorem Stored.members_eq {m m' : Manager S N P T} {subnetID : S} {changed : VdrSet S N P T}
    (h : Stored m subnetID changed m') :
    m'.members = Function.update m.members subnetID changed.view := by
  cases h with
  | kept => exact members_withSet m subnetID changed
  | dropped hempty _ => rw [members_erase,hempty]

omit [Inhabited N] [Inhabited T] in
theorem Stored.lookup_cases {m m' : Manager S N P T} {subnetID other : S}
    {changed set : VdrSet S N P T} (h : Stored m subnetID changed m')
    (hl : m'.subnetToVdrs.lookup other = some set) :
    (other = subnetID ∧ set = changed) ∨
      (other ≠ subnetID ∧ m.subnetToVdrs.lookup other = some set) := by
  by_cases hother : other = subnetID
  · cases h with
    | kept =>
      rw [lookup_withSet,if_pos hother] at hl
      exact .inl ⟨hother,(Option.some.inj hl).symm⟩
    | dropped =>
      rw [hother] at hl
      change (m.subnetToVdrs.erase subnetID).lookup subnetID = some set at hl
      rw [Finmap.lookup_erase] at hl
      cases hl
  · refine .inr ⟨hother,?_⟩
    cases h with
    | kept => rwa [lookup_withSet,if_neg hother] at hl
    | dropped =>
      change (m.subnetToVdrs.erase subnetID).lookup other = some set at hl
      rwa [Finmap.lookup_erase_ne hother] at hl

omit [Inhabited N] [Inhabited T] in
theorem Stored.callbackListeners_eq {m m' : Manager S N P T} {subnetID : S}
    {changed : VdrSet S N P T} (h : Stored m subnetID changed m') :
    m'.callbackListeners = m.callbackListeners := by
  cases h <;> rfl

/-! ## A listener of the manager -/

structure FollowsAll (m : Manager S N P T) (listener : ℕ)
    (known : S → N → Option (Member P T)) : Prop where
  registered : listener ∈ m.callbackListeners
  sets : ∀ subnetID set, m.subnetToVdrs.lookup subnetID = some set →
    listener ∈ set.managerCallbackListeners
  known_eq : known = m.members

theorem FollowsAll.setOf {m : Manager S N P T} {listener : ℕ}
    {known : S → N → Option (Member P T)} (h : FollowsAll m listener known) (subnetID : S) :
    listener ∈ (m.setOf subnetID).managerCallbackListeners := by
  unfold Manager.setOf
  cases hl : m.subnetToVdrs.lookup subnetID with
  | none => exact h.registered
  | some set => exact h.sets subnetID set hl

theorem FollowsAll.effect {m : Manager S N P T} {listener : ℕ}
    {known : S → N → Option (Member P T)} (h : FollowsAll m listener known) (hm : m.Consistent)
    {r : Response S N P T} (heffect : Effect m r) :
    FollowsAll r.manager listener (managerKnown listener r.calls known) := by
  cases heffect with
  | refused e => exact h
  | event subnetID changed event m' hconsistent hview _ hsubnetID hmanager hset hstored =>
    refine ⟨?_,fun other set hl => ?_,?_⟩
    · rw [hstored.callbackListeners_eq]
      exact h.registered
    · rcases hstored.lookup_cases hl with ⟨_,rfl⟩ | ⟨_,hold⟩
      · rw [hmanager]
        exact h.setOf subnetID
      · exact h.sets other set hold
    · rw [managerKnown_callCallbacks,if_pos (h.setOf subnetID),(hm.setOf subnetID).2,
        hstored.members_eq,hview,h.known_eq]

omit [DecidableEq N] [Inhabited N] [Inhabited T] in
theorem mem_of_registerWith {l listener : ℕ} {order : List S} (hnodup : order.Nodup)
    {m : Manager S N P T} {subnetID : S} {set : VdrSet S N P T}
    (h : ∀ other, m.subnetToVdrs.lookup subnetID = some other →
      listener ∈ other.managerCallbackListeners)
    (hl : (registerWith l order m).1.subnetToVdrs.lookup subnetID = some set) :
    listener ∈ set.managerCallbackListeners := by
  rw [registerWith_lookup l hnodup] at hl
  split at hl
  · obtain ⟨old,hold,rfl⟩ := Option.map_eq_some_iff.mp hl
    exact List.mem_append_left _ (h old hold)
  · exact h set hl

omit [Inhabited N] [Inhabited T] in
theorem FollowsAll.registerCallbackListener {m : Manager S N P T} {listener : ℕ}
    {known : S → N → Option (Member P T)} (h : FollowsAll m listener known) (hm : m.Consistent)
    (l : ℕ) {order : List S} (hnodup : order.Nodup) :
    FollowsAll (m.registerCallbackListener l order).manager listener
      (managerKnown listener (m.registerCallbackListener l order).calls known) := by
  refine ⟨?_,fun subnetID set hl => ?_,?_⟩
  · change listener ∈ (registerWith l order _).1.callbackListeners
    rw [registerWith_callbackListeners]
    exact List.mem_append_left _ h.registered
  · change (registerWith l order { m with
      callbackListeners := m.callbackListeners ++ [l] }).1.subnetToVdrs.lookup subnetID = some set at hl
    refine mem_of_registerWith hnodup ?_ hl
    exact fun other hother => h.sets subnetID other hother
  · change managerKnown listener (registerWith l order _).2 known = (registerWith l order _).1.members
    rw [registerWith_members l hnodup]
    by_cases hlistener : l = listener
    · subst hlistener
      funext subnetID
      have hsame : ({ m with callbackListeners := m.callbackListeners ++ [l] } :
          Manager S N P T).Consistent := ⟨hm.sets⟩
      rw [hsame.managerKnown_registerWith l hnodup fun other nodeID => .inr (by rw [h.known_eq]; rfl)]
      split
      · rfl
      · rw [h.known_eq]
        rfl
    · rw [managerKnown_registerWith_of_ne hlistener]
      exact h.known_eq

theorem FollowsAll.registerSetCallbackListener {m : Manager S N P T} {listener : ℕ}
    {known : S → N → Option (Member P T)} (h : FollowsAll m listener known) (subnetID : S) (l : ℕ) :
    FollowsAll (m.registerSetCallbackListener subnetID l).manager listener
      (managerKnown listener (m.registerSetCallbackListener subnetID l).calls known) := by
  refine ⟨h.registered,fun other set hl => ?_,?_⟩
  · change (m.withSet subnetID _).subnetToVdrs.lookup other = some set at hl
    rw [lookup_withSet] at hl
    split at hl
    · cases hl
      exact h.setOf subnetID
    · exact h.sets other set hl
  · have hcalls : managerKnown listener (m.registerSetCallbackListener subnetID l).calls known =
        known := by
      change managerKnown listener ((m.setOf subnetID).replay.map (.set l)) known = known
      unfold managerKnown
      induction (m.setOf subnetID).replay with
      | nil => rfl
      | cons event events ih => exact ih
    change _ = (m.withSet subnetID _).members
    rw [hcalls,members_withSet,h.known_eq]
    change m.members = Function.update m.members subnetID (m.setOf subnetID).view
    rw [← members_eq_view,Function.update_eq_self]

/-- A call has an effect on the members, or it registers a listener. -/
theorem Consistent.call_cases {m : Manager S N P T} (hm : m.Consistent) {op : Op S N P T}
    {r : Response S N P T} (hr : m.call op = .ok r) :
    Effect m r ∨
    (∃ l order, op = .registerCallbackListener l order ∧ r = m.registerCallbackListener l order) ∨
    ∃ subnetID l, op = .registerSetCallbackListener subnetID l ∧
      r = m.registerSetCallbackListener subnetID l := by
  cases op with
  | addStaker subnetID nodeID pk txID weight =>
    cases hr
    exact .inl (hm.addStaker_effect subnetID nodeID pk txID weight)
  | addWeight subnetID nodeID weight =>
    obtain ⟨r',hr',heffect⟩ := hm.addWeight_effect subnetID nodeID weight
    change m.addWeight subnetID nodeID weight = .ok r at hr
    rw [hr] at hr'
    cases hr'
    exact .inl heffect
  | removeWeight subnetID nodeID weight =>
    obtain ⟨r',hr',heffect⟩ := hm.removeWeight_effect subnetID nodeID weight
    change m.removeWeight subnetID nodeID weight = .ok r at hr
    rw [hr] at hr'
    cases hr'
    exact .inl heffect
  | registerCallbackListener l order =>
    cases hr
    exact .inr (.inl ⟨l,order,rfl,rfl⟩)
  | registerSetCallbackListener subnetID l =>
    cases hr
    exact .inr (.inr ⟨subnetID,l,rfl,rfl⟩)

theorem FollowsAll.call {m : Manager S N P T} {listener : ℕ} {known : S → N → Option (Member P T)}
    (h : FollowsAll m listener known) (hm : m.Consistent) {op : Op S N P T}
    (horder : m.OrderVisits op) {r : Response S N P T} (hr : m.call op = .ok r) :
    FollowsAll r.manager listener (managerKnown listener r.calls known) := by
  rcases hm.call_cases hr with heffect | ⟨l,order,rfl,rfl⟩ | ⟨subnetID,l,rfl,rfl⟩
  · exact h.effect hm heffect
  · exact h.registerCallbackListener hm l horder.1
  · exact h.registerSetCallbackListener subnetID l

omit [Inhabited N] [Inhabited T] in
theorem Consistent.followsAll {m : Manager S N P T} (hm : m.Consistent) (listener : ℕ)
    {order : List S} (horder : m.OrderVisits (.registerCallbackListener listener order)) :
    FollowsAll (m.registerCallbackListener listener order).manager listener
      (managerKnown listener (m.registerCallbackListener listener order).calls
        fun _ _ => none) := by
  obtain ⟨hnodup,hvisits⟩ := horder
  have hsame : ({ m with callbackListeners := m.callbackListeners ++ [listener] } :
      Manager S N P T).Consistent := ⟨hm.sets⟩
  refine ⟨?_,fun subnetID set hl => ?_,?_⟩
  · change listener ∈ (Manager.registerWith listener order _).1.callbackListeners
    rw [registerWith_callbackListeners]
    exact List.mem_append_right _ List.mem_cons_self
  · change (Manager.registerWith listener order _).1.subnetToVdrs.lookup subnetID = some set at hl
    rw [registerWith_lookup listener hnodup] at hl
    split at hl
    · obtain ⟨old,_,rfl⟩ := Option.map_eq_some_iff.mp hl
      exact List.mem_append_right _ List.mem_cons_self
    · next hnot =>
      refine absurd ((hvisits subnetID).mpr ?_) hnot
      rw [show m.subnetToVdrs.lookup subnetID = some set from hl,Option.isSome_some]
  · change managerKnown listener (Manager.registerWith listener order _).2 _ =
      (Manager.registerWith listener order _).1.members
    rw [registerWith_members listener hnodup]
    funext subnetID
    rw [hsame.managerKnown_registerWith listener hnodup fun _ _ => .inl rfl]
    split
    · rfl
    · next hnot =>
      funext nodeID
      have hnone : m.subnetToVdrs.lookup subnetID = none := by
        rw [hvisits] at hnot
        simpa using hnot
      change none = (m.subnetToVdrs.lookup subnetID).bind _
      rw [hnone,Option.bind_none]

/-! ## A listener of one set -/

structure FollowsSet (m : Manager S N P T) (subnetID : S) (listener : ℕ)
    (known : N → Option (Member P T)) : Prop where
  registered : ∃ set, m.subnetToVdrs.lookup subnetID = some set ∧
    listener ∈ set.setCallbackListeners
  others : ∀ other set, other ≠ subnetID → m.subnetToVdrs.lookup other = some set →
    listener ∉ set.setCallbackListeners
  known_eq : known = m.members subnetID

/-- The listener is not registered with another subnet. -/
def NotElsewhere (subnetID : S) (listener : ℕ) : Op S N P T → Prop
  | .registerSetCallbackListener other l => l = listener → other = subnetID
  | _ => True

omit [DecidableEq N] in
theorem notMem_setOf {m : Manager S N P T} {subnetID other : S} {listener : ℕ}
    (h : ∀ other set, other ≠ subnetID → m.subnetToVdrs.lookup other = some set →
      listener ∉ set.setCallbackListeners) (hother : other ≠ subnetID) :
    listener ∉ (m.setOf other).setCallbackListeners := by
  unfold Manager.setOf
  cases hl : m.subnetToVdrs.lookup other with
  | none => exact List.not_mem_nil
  | some set => exact h other set hother hl

theorem FollowsSet.effect {m : Manager S N P T} {subnetID : S} {listener : ℕ}
    {known : N → Option (Member P T)} (h : FollowsSet m subnetID listener known)
    {r : Response S N P T} (heffect : Effect m r) :
    FollowsSet r.manager subnetID listener (setKnown listener r.calls known) := by
  obtain ⟨set,hl,hlistens⟩ := h.registered
  cases heffect with
  | refused e => exact h
  | event changedID changed event m' _ hview _ _ _ hset hstored =>
    have hmembers := hstored.members_eq
    by_cases hid : changedID = subnetID
    · subst hid
      have hsame : m.setOf changedID = set := setOf_of_lookup hl
      have hlistens' : listener ∈ (m.setOf changedID).setCallbackListeners := by rwa [hsame]
      refine ⟨?_,fun other set' hne hl' => ?_,?_⟩
      · cases hstored with
        | kept => exact ⟨changed,by rw [lookup_withSet,if_pos rfl],by rwa [hset]⟩
        | dropped _ hquiet =>
          rw [← hset,hquiet] at hlistens'
          cases hlistens'
      · rcases hstored.lookup_cases hl' with ⟨heq,_⟩ | ⟨_,hold⟩
        · exact absurd heq hne
        · exact h.others other set' hne hold
      · rw [setKnown_callCallbacks,if_pos hlistens',hmembers,Function.update_self,hview,h.known_eq]
    · have hnot : listener ∉ (m.setOf changedID).setCallbackListeners := notMem_setOf h.others hid
      refine ⟨⟨set,?_,hlistens⟩,fun other set' hne hl' => ?_,?_⟩
      · cases hstored with
        | kept => rwa [lookup_withSet,if_neg (Ne.symm hid)]
        | dropped =>
          change (m.subnetToVdrs.erase changedID).lookup subnetID = some set
          rwa [Finmap.lookup_erase_ne (Ne.symm hid)]
      · rcases hstored.lookup_cases hl' with ⟨_,rfl⟩ | ⟨_,hold⟩
        · rwa [hset]
        · exact h.others other set' hne hold
      · rw [setKnown_callCallbacks,if_neg hnot,hmembers,Function.update_of_ne (Ne.symm hid),h.known_eq]

omit [Inhabited N] [Inhabited T] in
theorem FollowsSet.registerCallbackListener {m : Manager S N P T} {subnetID : S} {listener : ℕ}
    {known : N → Option (Member P T)} (h : FollowsSet m subnetID listener known) (l : ℕ)
    {order : List S} (hnodup : order.Nodup) :
    FollowsSet (m.registerCallbackListener l order).manager subnetID listener
      (setKnown listener (m.registerCallbackListener l order).calls known) := by
  have hlookup := registerWith_lookup l hnodup
    ({ m with callbackListeners := m.callbackListeners ++ [l] } : Manager S N P T)
  obtain ⟨set,hl,hlistens⟩ := h.registered
  refine ⟨?_,fun other set' hne hl' => ?_,?_⟩
  · by_cases hmem : subnetID ∈ order
    · refine ⟨(set.registerManagerCallbackListener l).1,?_,hlistens⟩
      refine (hlookup subnetID).trans ?_
      rw [if_pos hmem,hl,Option.map_some]
    · refine ⟨set,?_,hlistens⟩
      refine (hlookup subnetID).trans ?_
      rw [if_neg hmem,hl]
  · have hold := (hlookup other).symm.trans hl'
    split at hold
    · obtain ⟨old,hbefore,rfl⟩ := Option.map_eq_some_iff.mp hold
      exact h.others other old hne hbefore
    · exact h.others other set' hne hold
  · change setKnown listener (registerWith l order _).2 known = (registerWith l order _).1.members _
    rw [setKnown_registerWith,registerWith_members l hnodup]
    exact h.known_eq

theorem setKnown_register {m : Manager S N P T} (hm : m.Consistent) (subnetID : S) (listener : ℕ)
    {known : N → Option (Member P T)}
    (hknown : ∀ nodeID, known nodeID = none ∨ known nodeID = m.members subnetID nodeID) :
    setKnown listener (m.registerSetCallbackListener subnetID listener).calls known =
      (m.registerSetCallbackListener subnetID listener).manager.members subnetID := by
  have hview := members_eq_view m subnetID
  have hfold := VdrSet.foldl_replay (hm.setOf subnetID).1 fun nodeID => hview ▸ hknown nodeID
  change setKnown listener ((m.setOf subnetID).replay.map (.set listener)) known =
    (m.withSet subnetID _).members subnetID
  rw [setKnown_replay,if_pos rfl,members_withSet,Function.update_self,hfold]
  rfl

theorem FollowsSet.registerSetCallbackListener {m : Manager S N P T} {subnetID : S} {listener : ℕ}
    {known : N → Option (Member P T)} (h : FollowsSet m subnetID listener known)
    (hm : m.Consistent) {other : S} {l : ℕ} (hallowed : l = listener → other = subnetID) :
    FollowsSet (m.registerSetCallbackListener other l).manager subnetID listener
      (setKnown listener (m.registerSetCallbackListener other l).calls known) := by
  obtain ⟨set,hl,hlistens⟩ := h.registered
  have hlookup := lookup_withSet m other ((m.setOf other).registerCallbackListener l).1
  refine ⟨?_,fun another set' hne hl' => ?_,?_⟩
  · by_cases hid : subnetID = other
    · refine ⟨((m.setOf other).registerCallbackListener l).1,?_,?_⟩
      · refine (hlookup subnetID).trans ?_
        rw [if_pos hid]
      · refine List.mem_append_left _ ?_
        rwa [← hid,setOf_of_lookup hl]
    · refine ⟨set,?_,hlistens⟩
      refine (hlookup subnetID).trans ?_
      rwa [if_neg hid]
  · have hold := (hlookup another).symm.trans hl'
    split at hold
    · next hid =>
      cases hold
      intro hmem
      rcases List.mem_append.mp hmem with hmem | hmem
      · exact notMem_setOf h.others (hid ▸ hne) hmem
      · exact hne (hid.trans (hallowed (List.mem_singleton.mp hmem).symm))
    · exact h.others another set' hne hold
  · by_cases hlistener : l = listener
    · obtain rfl := hallowed hlistener
      subst hlistener
      exact setKnown_register hm other l fun nodeID => .inr (by rw [h.known_eq])
    · change setKnown listener ((m.setOf other).replay.map (.set l)) known =
        (m.withSet other _).members subnetID
      rw [setKnown_replay,if_neg hlistener,members_withSet,h.known_eq]
      change _ = Function.update m.members other (m.setOf other).view subnetID
      rw [← members_eq_view,Function.update_eq_self]

theorem FollowsSet.call {m : Manager S N P T} {subnetID : S} {listener : ℕ}
    {known : N → Option (Member P T)} (h : FollowsSet m subnetID listener known)
    (hm : m.Consistent) {op : Op S N P T} (horder : m.OrderVisits op)
    (hallowed : NotElsewhere subnetID listener op) {r : Response S N P T}
    (hr : m.call op = .ok r) :
    FollowsSet r.manager subnetID listener (setKnown listener r.calls known) := by
  rcases hm.call_cases hr with heffect | ⟨l,order,rfl,rfl⟩ | ⟨other,l,rfl,rfl⟩
  · exact h.effect heffect
  · exact h.registerCallbackListener l horder.1
  · exact h.registerSetCallbackListener hm hallowed

theorem Consistent.followsSet {m : Manager S N P T} (hm : m.Consistent) {subnetID : S}
    {listener : ℕ} (hothers : ∀ other set, other ≠ subnetID →
      m.subnetToVdrs.lookup other = some set → listener ∉ set.setCallbackListeners) :
    FollowsSet (m.registerSetCallbackListener subnetID listener).manager subnetID listener
      (setKnown listener (m.registerSetCallbackListener subnetID listener).calls
        fun _ => none) := by
  have hlookup := lookup_withSet m subnetID ((m.setOf subnetID).registerCallbackListener listener).1
  refine ⟨⟨((m.setOf subnetID).registerCallbackListener listener).1,?_,?_⟩,
    fun other set hne hl => ?_,setKnown_register hm subnetID listener fun _ => .inl rfl⟩
  · refine (hlookup subnetID).trans ?_
    rw [if_pos rfl]
  · exact List.mem_append_right _ List.mem_cons_self
  · have hold := (hlookup other).symm.trans hl
    rw [if_neg hne] at hold
    exact hothers other set hne hold

/-! ## Runs -/

inductive Later (allowed : Op S N P T → Prop) (m : Manager S N P T) :
    List (Delivery S N P T) → Manager S N P T → Prop
  | here : Later allowed m [] m
  | call {calls : List (Delivery S N P T)} {m' : Manager S N P T} {op : Op S N P T}
      {r : Response S N P T} (h : Later allowed m calls m') (hallowed : allowed op)
      (horder : m'.OrderVisits op) (hr : m'.call op = .ok r) :
      Later allowed m (calls ++ r.calls) r.manager

theorem Consistent.later {m m' : Manager S N P T} (hm : m.Consistent)
    {allowed : Op S N P T → Prop} {calls : List (Delivery S N P T)}
    (h : Later allowed m calls m') : m'.Consistent := by
  induction h with
  | here => exact hm
  | call _ _ _ hr ih =>
    obtain ⟨r,hr',hconsistent,_⟩ := ih.call _
    rw [hr] at hr'
    cases hr'
    exact hconsistent

theorem FollowsAll.later {m m' : Manager S N P T} {listener : ℕ}
    {known : S → N → Option (Member P T)} (h : FollowsAll m listener known) (hm : m.Consistent)
    {allowed : Op S N P T → Prop} {calls : List (Delivery S N P T)}
    (hlater : Later allowed m calls m') :
    FollowsAll m' listener (managerKnown listener calls known) := by
  induction hlater with
  | here => exact h
  | call hlater _ horder hr ih =>
    rw [managerKnown_append]
    exact ih.call (hm.later hlater) horder hr

theorem FollowsSet.later {m m' : Manager S N P T} {subnetID : S} {listener : ℕ}
    {known : N → Option (Member P T)} (h : FollowsSet m subnetID listener known)
    (hm : m.Consistent) {calls : List (Delivery S N P T)}
    (hlater : Later (NotElsewhere subnetID listener) m calls m') :
    FollowsSet m' subnetID listener (setKnown listener calls known) := by
  induction hlater with
  | here => exact h
  | call hlater hallowed horder hr ih =>
    rw [setKnown_append]
    exact ih.call (hm.later hlater) horder hallowed hr

/-- The event was told because of this subnet. -/
def ToldOf (m : Manager S N P T) (subnetID : S) : Delivery S N P T → Prop
  | .manager _ id _ => id = subnetID
  | .set l _ => l ∈ (m.setOf subnetID).setCallbackListeners

theorem toldOf_callCallbacks {m : Manager S N P T} (hm : m.Consistent) (subnetID : S)
    (event : SetEvent N P T) {delivery : Delivery S N P T}
    (h : delivery ∈ (m.setOf subnetID).callCallbacks event) :
    delivery.event = event ∧ m.ToldOf subnetID delivery := by
  rcases List.mem_append.mp h with h | h
  · obtain ⟨l,_,rfl⟩ := List.mem_map.mp h
    exact ⟨rfl,(hm.setOf subnetID).2⟩
  · obtain ⟨l,hl,rfl⟩ := List.mem_map.mp h
    exact ⟨rfl,hl⟩

omit [DecidableEq N] [Inhabited N] [Inhabited T] in
theorem event_added_of_registerWith (l : ℕ) (order : List S) (m : Manager S N P T)
    {delivery : Delivery S N P T} (h : delivery ∈ (registerWith l order m).2) :
    ∃ nodeID pk txID weight, delivery.event = .added nodeID pk txID weight := by
  induction order generalizing m with
  | nil => cases h
  | cons subnetID order ih =>
    unfold registerWith at h
    cases hl : m.subnetToVdrs.lookup subnetID with
    | none =>
      rw [hl] at h
      exact ih m h
    | some set =>
      rw [hl] at h
      rcases List.mem_append.mp h with h | h
      · obtain ⟨event,hevent,rfl⟩ := List.mem_map.mp h
        obtain ⟨vdr,_,rfl⟩ := List.mem_map.mp hevent
        exact ⟨_,_,_,_,rfl⟩
      · exact ih _ h

theorem Consistent.weightChanged {m : Manager S N P T} (hm : m.Consistent) {op : Op S N P T}
    {r : Response S N P T} (hr : m.call op = .ok r) {delivery : Delivery S N P T}
    (hmem : delivery ∈ r.calls) {nodeID : N} {oldWeight newWeight : UInt64}
    (hevent : delivery.event = .weightChanged nodeID oldWeight newWeight) :
    ∃ subnetID member, m.ToldOf subnetID delivery ∧ m.members subnetID nodeID = some member ∧
      member.weight = oldWeight ∧
      r.manager.members subnetID nodeID = some { member with weight := newWeight } := by
  rcases hm.call_cases hr with heffect | ⟨l,order,rfl,rfl⟩ | ⟨other,l,rfl,rfl⟩
  · cases heffect with
    | refused e => cases hmem
    | event subnetID changed event m' _ hview htruthful _ _ _ hstored =>
      obtain ⟨hsame,htold⟩ := toldOf_callCallbacks hm subnetID event hmem
      obtain rfl := hsame.symm.trans hevent
      obtain ⟨member,hmember,hweight⟩ := htruthful
      refine ⟨subnetID,member,htold,hmember,hweight,?_⟩
      rw [hstored.members_eq,Function.update_self,hview,SetEvent.apply,Function.update_self,hmember]
      rfl
  · obtain ⟨_,_,_,_,hadded⟩ := event_added_of_registerWith l order _ hmem
    cases hadded.symm.trans hevent
  · obtain ⟨event,hin,rfl⟩ := List.mem_map.mp hmem
    obtain ⟨vdr,_,rfl⟩ := List.mem_map.mp hin
    cases hevent

/-- From any manager that can be reached, whatever is called after the registration: what the
listener was told adds up to the members of the subnets it listens to. A listener of a set
listens to that set alone: its events do not say which subnet they are about. -/
theorem events_determine_members (m : Manager S N P T) (h : Reached m) :
    (∀ listener order, m.OrderVisits (.registerCallbackListener listener order) →
      ∀ calls m', Later (fun _ => True) (m.registerCallbackListener listener order).manager
          calls m' →
        managerKnown listener ((m.registerCallbackListener listener order).calls ++ calls)
          (fun _ _ => none) = m'.members) ∧
    (∀ subnetID listener,
      (∀ other set, other ≠ subnetID → m.subnetToVdrs.lookup other = some set →
        listener ∉ set.setCallbackListeners) →
      ∀ calls m', Later (NotElsewhere subnetID listener)
          (m.registerSetCallbackListener subnetID listener).manager calls m' →
        setKnown listener ((m.registerSetCallbackListener subnetID listener).calls ++ calls)
          (fun _ => none) = m'.members subnetID) ∧
    ∀ op r, m.OrderVisits op → m.call op = .ok r → ∀ delivery ∈ r.calls,
      ∀ nodeID oldWeight newWeight, delivery.event = .weightChanged nodeID oldWeight newWeight →
        ∃ subnetID member, m.ToldOf subnetID delivery ∧ m.members subnetID nodeID = some member ∧
          member.weight = oldWeight ∧
          r.manager.members subnetID nodeID = some { member with weight := newWeight } := by
  have hm := h.consistent
  have hcall : ∀ {op r}, m.OrderVisits op → m.call op = .ok r → r.manager.Consistent :=
    fun horder hr => (Reached.call h horder hr).consistent
  refine ⟨fun listener order horder calls m' hlater => ?_,
    fun subnetID listener hothers calls m' hlater => ?_,
    fun op r _ hr delivery hmem nodeID oldWeight newWeight hevent =>
      hm.weightChanged hr hmem hevent⟩
  · rw [managerKnown_append]
    exact ((hm.followsAll listener horder).later (hcall horder rfl) hlater).known_eq
  · rw [setKnown_append]
    have horder : m.OrderVisits (.registerSetCallbackListener subnetID listener) := trivial
    exact ((hm.followsSet hothers).later (hcall horder rfl) hlater).known_eq

end
end Manager

namespace Sample

def unlistened : Manager ℕ ℕ ℕ ℕ := Manager.newManager

theorem refilled_later (allowed : Op ℕ ℕ ℕ ℕ → Prop)
    (hadd : ∀ nodeID txID weight, allowed (.addStaker 0 nodeID none txID weight))
    (hmore : ∀ nodeID weight, allowed (.addWeight 0 nodeID weight))
    (hless : ∀ nodeID weight, allowed (.removeWeight 0 nodeID weight)) (r : Response ℕ ℕ ℕ ℕ)
    (hr : r = unlistened.registerCallbackListener 1 [] ∨
      r = unlistened.registerSetCallbackListener 0 2) :
    ∃ calls m', Manager.Later allowed r.manager calls m' ∧ calls.length = 4 ∧
      m'.members 0 7 = none ∧ m'.members 0 8 = some ⟨none,2,5⟩ := by
  rcases hr with rfl | rfl
  · refine ⟨_,_,.call (.call (.call (.call .here (hadd 7 1 5) trivial rfl) (hless 7 5) trivial rfl)
      (hadd 8 2 3) trivial rfl) (hmore 8 2) trivial rfl,rfl,rfl,rfl⟩
  · refine ⟨_,_,.call (.call (.call (.call .here (hadd 7 1 5) trivial rfl) (hless 7 5) trivial rfl)
      (hadd 8 2 3) trivial rfl) (hmore 8 2) trivial rfl,rfl,rfl,rfl⟩

/-- Both listeners know the second validator, and nothing of the first. -/
theorem refilled_known :
    (∃ calls, calls.length = 4 ∧
      managerKnown 1 calls (fun _ _ => none) 0 8 = some (⟨none,2,5⟩ : Member ℕ ℕ) ∧
      managerKnown (S := ℕ) 1 calls (fun _ _ => none) 0 7 = none) ∧
    ∃ calls : List (Delivery ℕ ℕ ℕ ℕ), calls.length = 4 ∧
      setKnown 2 calls (fun _ => none) 8 = some ⟨none,2,5⟩ ∧
      setKnown 2 calls (fun _ => none) 7 = none := by
  have h := Manager.events_determine_members unlistened .new
  obtain ⟨calls,m',hlater,hlength,hgone,hthere⟩ := refilled_later (fun _ => True)
    (fun _ _ _ => trivial) (fun _ _ => trivial) (fun _ _ => trivial) _ (.inl rfl)
  obtain ⟨setCalls,m'',hlater',hlength',hgone',hthere'⟩ := refilled_later
    (Manager.NotElsewhere 0 2) (fun _ _ _ => trivial) (fun _ _ => trivial) (fun _ _ => trivial) _
    (.inr rfl)
  have horder : unlistened.OrderVisits (.registerCallbackListener 1 []) :=
    ⟨List.nodup_nil,fun _ => ⟨fun hmem => absurd hmem List.not_mem_nil,fun hsome => by cases hsome⟩⟩
  have hmanager := h.1 1 [] horder calls m' hlater
  have hset := h.2.1 0 2 (fun _ _ _ hl => by cases hl) setCalls m'' hlater'
  refine ⟨⟨calls,hlength,?_,?_⟩,setCalls,hlength',?_,?_⟩
  · exact (congrFun (congrFun hmanager 0) 8).trans hthere
  · exact (congrFun (congrFun hmanager 0) 7).trans hgone
  · exact (congrFun hset 8).trans hthere'
  · exact (congrFun hset 7).trans hgone'

end Sample
end Landslide.Validators
