import Landslide.Peer.Network

/-! # Answers that nobody waits for

An answer whose ID has no handler is handed on to the SDK network, whose router keeps a table
of pending requests of its own. Nothing in the module adds to that table, and the router
answers an unknown ID with an error, which the engine takes as fatal. The answer changes
nothing else.
-/
namespace Landslide.Peer

/-! ## The router of the SDK network -/

/-- The callback is named by a number. -/
structure PendingAppRequest where
  handlerID : String
  callback : ℕ

structure Router where
  pendingAppRequests : Finmap fun _ : UInt32 => PendingAppRequest

def errUnrequestedResponse : String := "unrequested response"

/-- `newRouter`. The map is nil, which reads as empty. -/
def newRouter : Router := ⟨∅⟩

def Router.clearAppRequest (r : Router) (requestID : UInt32) : Option PendingAppRequest × Router :=
  (r.pendingAppRequests.lookup requestID,⟨r.pendingAppRequests.erase requestID⟩)

structure Routed where
  err : Option String
  callback : Option (ℕ × Event)
  router : Router

def Router.receive (r : Router) (requestID : UInt32) (event : Event) (observeErr : Option String) :
    Routed :=
  match r.clearAppRequest requestID with
  | (none,r) => ⟨some errUnrequestedResponse,none,r⟩
  | (some pending,r) => ⟨observeErr,some (pending.callback,event),r⟩

def Router.appResponse (r : Router) (requestID : UInt32) (response : Bytes)
    (observeErr : Option String) : Routed := r.receive requestID (.response response) observeErr

def Router.appRequestFailed (r : Router) (requestID : UInt32) (observeErr : Option String) :
    Routed := r.receive requestID .failure observeErr

def Router.route (r : Router) (requestID : UInt32) (event : Event) (observeErr : Option String) :
    Routed :=
  match event with
  | .response response => r.appResponse requestID response observeErr
  | .failure => r.appRequestFailed requestID observeErr

theorem Router.route_eq (r : Router) (requestID : UInt32) (event : Event)
    (observeErr : Option String) :
    r.route requestID event observeErr = r.receive requestID event observeErr := by
  cases event <;> rfl

theorem Router.receive_of_empty {r : Router} (h : r.pendingAppRequests = ∅) (requestID : UInt32)
    (event : Event) (observeErr : Option String) :
    (r.receive requestID event observeErr).err = some errUnrequestedResponse ∧
      (r.receive requestID event observeErr).router.pendingAppRequests = ∅ := by
  have hlookup : r.pendingAppRequests.lookup requestID = none := by
    rw [h,Finmap.lookup_empty]
  have herase : r.pendingAppRequests.erase requestID = ∅ := by
    refine Finmap.ext_lookup fun id => ?_
    rw [Finmap.lookup_empty,h]
    by_cases hid : id = requestID
    · rw [hid,Finmap.lookup_erase]
    · rw [Finmap.lookup_erase_ne hid,Finmap.lookup_empty]
  simp [Router.receive,Router.clearAppRequest,hlookup,herase]

/-! ## Both networks together -/

structure Joint where
  network : Network
  router : Router
  /-- The errors that finished calls of `AppResponse` and `AppRequestFailed` returned. -/
  returned : ℕ → Option (Option String)

def newJoint : Joint := ⟨newNetwork,newRouter,fun _ => none⟩

inductive JointAction where
  | call (call : Call)
  | advance (i : ℕ) (env : Env) (handlerErr observeErr : Option String)

/-- The calls go on as before. The last step of an answer also returns: what the handler
returned, or what the router did. -/
def Joint.step (maxActiveAppRequests : ℤ) (s : Joint) : JointAction → Joint
  | .call call => { s with network := Peer.step maxActiveAppRequests s.network (.call call) }
  | .advance i env handlerErr observeErr =>
    let network := Peer.step maxActiveAppRequests s.network (.advance i env)
    if i < s.network.started then
      match s.network.place i with
      | .marked requestID event none =>
        let routed := s.router.route requestID event observeErr
        ⟨network,routed.router,Function.update s.returned i (some routed.err)⟩
      | .invoking _ _ _ => ⟨network,s.router,Function.update s.returned i (some handlerErr)⟩
      | _ => { s with network := network }
    else { s with network := network }

def JointReached (maxActiveAppRequests : ℤ) : Joint → Prop :=
  Reaches (· = newJoint) (fun _ _ => True) (Joint.step maxActiveAppRequests)

inductive Unknown (s : Shared) : Place → Prop
  | fulfilling (requestID : UInt32) (event : Event)
      (h : s.outstandingRequestHandlers.lookup requestID = none) :
      Unknown s (.fulfilling requestID event)
  | fulfilled (requestID : UInt32) (event : Event) : Unknown s (.fulfilled requestID event none)
  | marked (requestID : UInt32) (event : Event) : Unknown s (.marked requestID event none)

theorem move_of_unknown {s : Shared} {p : Place} (h : Unknown s p) (maxActiveAppRequests : ℤ)
    (i : ℕ) (env : Env) :
    (move maxActiveAppRequests i env s p).1.outstandingRequestHandlers =
        s.outstandingRequestHandlers ∧
      (move maxActiveAppRequests i env s p).1.activeAppRequests = s.activeAppRequests := by
  cases h with
  | fulfilling requestID event hlookup =>
    rw [move,hlookup]
    exact ⟨rfl,rfl⟩
  | fulfilled requestID event => exact ⟨rfl,rfl⟩
  | marked requestID event => exact ⟨rfl,rfl⟩

theorem move_eq_received {maxActiveAppRequests : ℤ} {i : ℕ} {env : Env} {s : Shared} {p : Place}
    {requestID : UInt32} {event : Event}
    (h : (move maxActiveAppRequests i env s p).2 = .received requestID event none) :
    p = .marked requestID event none ∨ p = .received requestID event none := by
  cases p with
  | idle => cases h
  | sendCalled nodeID requestLen =>
    rw [move] at h
    split at h
    · cases h
    · cases hctx : env.ctxErr <;> rw [hctx] at h <;> cases h
  | acquiring =>
    rw [move] at h
    cases hctx : env.ctxErr with
    | some err =>
      rw [hctx] at h
      cases h
    | none =>
      rw [hctx] at h
      dsimp only at h
      split at h <;> cases h
  | acquired =>
    rw [move] at h
    split at h <;> cases h
  | locked =>
    rw [move] at h
    split at h
    · cases h
    · cases hctx : env.ctxErr <;> rw [hctx] at h <;> cases h
  | sending id number =>
    rw [move] at h
    cases hsend : env.sendErr <;> rw [hsend] at h <;> cases h
  | failing id number err => cases h
  | unlocking result => cases h
  | sendReturned result => cases h
  | receiveCalled id event =>
    rw [move] at h
    split at h <;> cases h
  | fulfilling id event =>
    rw [move] at h
    cases hlookup : s.outstandingRequestHandlers.lookup id <;> rw [hlookup] at h <;> cases h
  | fulfilled id event handler => cases h
  | marked id event handler =>
    cases handler with
    | none =>
      cases h
      exact .inl rfl
    | some handler => cases h
  | invoking id event handler => cases h
  | received id event handler =>
    cases handler with
    | none =>
      cases h
      exact .inr rfl
    | some handler => cases h

/-! ## Every run -/

/-- The table of the router is empty, and an answer without a handler has returned its error. -/
structure Refused (s : Joint) : Prop where
  empty : s.router.pendingAppRequests = ∅
  returned : ∀ i requestID event, s.network.place i = .received requestID event none →
    s.returned i = some (some errUnrequestedResponse)

theorem refused_new : Refused newJoint where
  empty := rfl
  returned i requestID event h := by
    change Place.idle = _ at h
    cases h

theorem place_call (n : Network) (maxActiveAppRequests : ℤ) (call : Call) {i : ℕ}
    {requestID : UInt32} {event : Event}
    (h : (Peer.step maxActiveAppRequests n (.call call)).place i = .received requestID event none) :
    n.place i = .received requestID event none := by
  change Function.update n.place n.started call.place i = _ at h
  by_cases hi : i = n.started
  · rw [hi,Function.update_self] at h
    cases call <;> cases h
  · rwa [Function.update_of_ne hi] at h

theorem place_advance (n : Network) (maxActiveAppRequests : ℤ) {j : ℕ} (hj : j < n.started)
    (env : Env) : (Peer.step maxActiveAppRequests n (.advance j env)).place =
      Function.update n.place j (move maxActiveAppRequests j env n.shared (n.place j)).2 := by
  rw [Peer.step,if_pos hj]
  rfl

theorem Refused.step {s : Joint} (h : Refused s) (maxActiveAppRequests : ℤ) (a : JointAction) :
    Refused (s.step maxActiveAppRequests a) := by
  cases a with
  | call call =>
    exact ⟨h.empty,fun i requestID event hi => h.returned i requestID event
      (place_call s.network maxActiveAppRequests call hi)⟩
  | advance j env handlerErr observeErr =>
    by_cases hj : j < s.network.started
    · simp only [Joint.step,if_pos hj]
      have hplace := place_advance s.network maxActiveAppRequests hj env
      -- another call has returned what it returned before
      have hother : ∀ i requestID event, i ≠ j →
          (Peer.step maxActiveAppRequests s.network (.advance j env)).place i =
            .received requestID event none →
          s.returned i = some (some errUnrequestedResponse) := by
        intro i requestID event hne hi
        rw [hplace,Function.update_of_ne hne] at hi
        exact h.returned i requestID event hi
      have hself : ∀ requestID event,
          (Peer.step maxActiveAppRequests s.network (.advance j env)).place j =
            .received requestID event none →
          s.network.place j = .marked requestID event none ∨
            s.network.place j = .received requestID event none := by
        intro requestID event hi
        rw [hplace,Function.update_self] at hi
        exact move_eq_received hi
      split
      · next requestID event _ =>
        obtain ⟨herr,hempty⟩ := Router.receive_of_empty h.empty requestID event observeErr
        rw [Router.route_eq]
        refine ⟨hempty,fun i id event hi => ?_⟩
        dsimp only
        by_cases hij : i = j
        · rw [hij,Function.update_self,herr]
        · rw [Function.update_of_ne hij]
          exact hother i id event hij hi
      · next hat =>
        refine ⟨h.empty,fun i id event hi => ?_⟩
        by_cases hij : i = j
        · subst hij
          rcases hself id event hi with hp | hp
          · rw [hat] at hp
            cases hp
          · rw [hat] at hp
            cases hp
        · dsimp only
          rw [Function.update_of_ne hij]
          exact hother i id event hij hi
      · next hmarked _ =>
        refine ⟨h.empty,fun i id event hi => ?_⟩
        by_cases hij : i = j
        · subst hij
          rcases hself id event hi with hp | hp
          · exact absurd hp (hmarked id event)
          · exact h.returned i id event hp
        · exact hother i id event hij hi
    · have hsame : Peer.step maxActiveAppRequests s.network (.advance j env) = s.network := if_neg hj
      simp only [Joint.step,if_neg hj,hsame]
      exact h

theorem JointReached.refused {maxActiveAppRequests : ℤ} {s : Joint}
    (h : JointReached maxActiveAppRequests s) : Refused s :=
  Reaches.invariant (P := Refused)
    (fun _ hs => by
      subst hs
      exact refused_new)
    (fun _ a hs _ => hs.step maxActiveAppRequests a) h

/-- In every run an answer for an ID without a handler, whether it was never issued or has been
answered, returns an error when it returns. On the way there it leaves the handlers, the
semaphore, the other calls and their results alone. -/
theorem unknown_answer_refused (maxActiveAppRequests : ℤ) (s : Joint)
    (h : JointReached maxActiveAppRequests s) :
    (∀ i requestID event, s.network.place i = .received requestID event none →
      s.returned i = some (some errUnrequestedResponse)) ∧
    ∀ i env handlerErr observeErr, i < s.network.started →
      Unknown s.network.shared (s.network.place i) →
      let s' := s.step maxActiveAppRequests (.advance i env handlerErr observeErr)
      s'.network.shared.outstandingRequestHandlers =
          s.network.shared.outstandingRequestHandlers ∧
        s'.network.shared.activeAppRequests = s.network.shared.activeAppRequests ∧
        ∀ j, j ≠ i → s'.network.place j = s.network.place j ∧ s'.returned j = s.returned j := by
  refine ⟨h.refused.returned,fun i env handlerErr observeErr hi hunknown => ?_⟩
  have hmoved := move_of_unknown hunknown maxActiveAppRequests i env
  have hnetwork : (s.step maxActiveAppRequests (.advance i env handlerErr observeErr)).network =
      Peer.step maxActiveAppRequests s.network (.advance i env) := by
    simp only [Joint.step,if_pos hi]
    split <;> rfl
  have hreturned : ∀ j, j ≠ i →
      (s.step maxActiveAppRequests (.advance i env handlerErr observeErr)).returned j =
        s.returned j := by
    intro j hj
    simp only [Joint.step,if_pos hi]
    split
    · exact Function.update_of_ne hj _ _
    · exact Function.update_of_ne hj _ _
    · rfl
  have hshared : (Peer.step maxActiveAppRequests s.network (.advance i env)).shared =
      (move maxActiveAppRequests i env s.network.shared (s.network.place i)).1 := by
    rw [Peer.step,if_pos hi]
    rfl
  dsimp only
  rw [hnetwork,hshared]
  refine ⟨hmoved.1,hmoved.2,fun j hj => ⟨?_,hreturned j hj⟩⟩
  rw [place_advance s.network maxActiveAppRequests hi,Function.update_of_ne hj]

namespace Sample

def strayResponse : List JointAction :=
  [.call (.appResponse 0 [7]),.advance 0 ⟨none,none⟩ none none,.advance 0 ⟨none,none⟩ none none,
    .advance 0 ⟨none,none⟩ none none,.advance 0 ⟨none,none⟩ none none]

theorem reached_foldl (maxActiveAppRequests : ℤ) {s : Joint}
    (h : JointReached maxActiveAppRequests s) (actions : List JointAction) :
    JointReached maxActiveAppRequests (actions.foldl (Joint.step maxActiveAppRequests) s) := by
  induction actions generalizing s with
  | nil => exact h
  | cons a actions ih => exact ih (h.step trivial)

/-- The call returns the router's error and not nil. -/
theorem strayResponse_fatal :
    (strayResponse.foldl (Joint.step 1) newJoint).network.place 0 =
        .received 0 (.response [7]) none ∧
      (strayResponse.foldl (Joint.step 1) newJoint).returned 0 =
        some (some "unrequested response") ∧
      (strayResponse.foldl (Joint.step 1) newJoint).returned 0 ≠ some none := by
  have hreturned : (strayResponse.foldl (Joint.step 1) newJoint).returned 0 =
      some (some "unrequested response") := rfl
  refine ⟨rfl,hreturned,?_⟩
  rw [hreturned]
  simp

theorem strayResponse_refused :
    (strayResponse.foldl (Joint.step 1) newJoint).network.place 0 =
        .received 0 (.response [7]) none ∧
      (strayResponse.foldl (Joint.step 1) newJoint).returned 0 =
        some (some errUnrequestedResponse) := by
  have hreached : JointReached 1 (strayResponse.foldl (Joint.step 1) newJoint) :=
    reached_foldl 1 (.start rfl) strayResponse
  have hplace : (strayResponse.foldl (Joint.step 1) newJoint).network.place 0 =
      .received 0 (.response [7]) none := rfl
  exact ⟨hplace,(unknown_answer_refused 1 _ hreached).1 0 0 _ hplace⟩

end Sample
end Landslide.Peer
