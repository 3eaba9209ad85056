import Mathlib.Data.Finmap
import Landslide.Lib.Threads
import Landslide.Lib.Transition
import Landslide.Uptime.State

/-! # Requests to peers

`SendAppRequest` takes a slot of a semaphore, registers a handler under a fresh request ID and
sends the request, the last two under a lock. `AppResponse` and `AppRequestFailed` take the
handler out under the lock, and give the slot back and call the handler without it. Calls run
concurrently; each is a thread whose places are the points between two accesses to what is
shared.
-/
namespace Landslide.Peer
open Uptime (NodeID)

/-! ## The calls -/

/-- What a handler is called with: `OnResponse` or `OnFailure`. -/
inductive Event where
  | response (response : Bytes)
  | failure

/-- What `SendAppRequest` returns. The request that was sent has its number among all requests
as a ghost. -/
inductive SendResult where
  | emptyNodeID (requestLen : ℕ)
  | cancelled (err : String)
  | errAcquiringSemaphore
  | closed
  | sendFailed (err : String)
  | sent (requestID : UInt32) (number : ℕ)

/-- The error that is returned, if any, given the text form of the empty node ID. -/
def SendResult.error (emptyNodeID : String) : SendResult → Option String
  | .emptyNodeID requestLen => some ("cannot send request to empty nodeID, nodeID=" ++ emptyNodeID ++
      ", requestLen=" ++ toString requestLen)
  | .cancelled err => some err
  | .errAcquiringSemaphore => some "error acquiring semaphore"
  | .closed => none
  | .sendFailed err => some err
  | .sent _ _ => none

/-- Where a call is. A handler is named by the number of the call that brought it. -/
inductive Place where
  | idle
  | sendCalled (nodeID : NodeID) (requestLen : ℕ)
  | acquiring
  | acquired
  | locked
  | sending (requestID : UInt32) (number : ℕ)
  /-- The send has failed and the slot is given back, the handler is still registered. -/
  | failing (requestID : UInt32) (number : ℕ) (err : String)
  | unlocking (result : SendResult)
  | sendReturned (result : SendResult)
  | receiveCalled (requestID : UInt32) (event : Event)
  | fulfilling (requestID : UInt32) (event : Event)
  | fulfilled (requestID : UInt32) (event : Event) (handler : Option ℕ)
  | marked (requestID : UInt32) (event : Event) (handler : Option ℕ)
  | invoking (requestID : UInt32) (event : Event) (handler : ℕ)
  /-- Without a handler the event has gone to the SDK network. -/
  | received (requestID : UInt32) (event : Event) (handler : Option ℕ)

structure Shared where
  lock : Option ℕ
  requestIDGen : UInt32
  outstandingRequestHandlers : Finmap fun _ : UInt32 => ℕ
  activeAppRequests : ℕ
  closed : Bool
  /-- A slot was given back that was not taken. -/
  panicked : Bool
  /-- How many requests have been handed to the sender; a ghost. -/
  issued : ℕ

/-- What the surroundings do to a call at one point: the error of its context, and the error of
the sender. -/
structure Env where
  ctxErr : Option String
  sendErr : Option String

def emptyNodeID : NodeID := ⟨List.replicate Uptime.nodeIDLen 0,Uptime.length_emptyNodeID⟩

def Shared.release (s : Shared) : Shared :=
  if 0 < s.activeAppRequests then { s with activeAppRequests := s.activeAppRequests - 1 }
  else { s with panicked := true }

/-- `nextRequestID` and the registration of the handler. -/
def Shared.register (s : Shared) (handler : ℕ) : Shared :=
  { s with
    requestIDGen := s.requestIDGen + 2
    outstandingRequestHandlers := s.outstandingRequestHandlers.insert s.requestIDGen handler
    issued := s.issued + 1 }

def Shared.remove (s : Shared) (requestID : UInt32) : Shared :=
  { s with outstandingRequestHandlers := s.outstandingRequestHandlers.erase requestID }

def move (maxActiveAppRequests : ℤ) (i : ℕ) (env : Env) (s : Shared) : Place → Shared × Place
  | .idle => (s,.idle)
  | .sendCalled nodeID requestLen =>
    if nodeID = emptyNodeID then (s,.sendReturned (.emptyNodeID requestLen))
    else match env.ctxErr with
      | some err => (s,.sendReturned (.cancelled err))
      | none => (s,.acquiring)
  | .acquiring => match env.ctxErr with
    | some _ => (s,.sendReturned .errAcquiringSemaphore)
    | none =>
      if s.activeAppRequests < maxActiveAppRequests then
        ({ s with activeAppRequests := s.activeAppRequests + 1 },.acquired)
      else (s,.acquiring)
  | .acquired =>
    if s.lock = none then ({ s with lock := some i },.locked) else (s,.acquired)
  | .locked =>
    if s.closed then (s.release,.unlocking .closed)
    else match env.ctxErr with
      | some err => (s.release,.unlocking (.cancelled err))
      | none => (s.register i,.sending s.requestIDGen s.issued)
  | .sending requestID number => match env.sendErr with
    | some err => (s.release,.failing requestID number err)
    | none => (s,.unlocking (.sent requestID number))
  | .failing requestID _ err => (s.remove requestID,.unlocking (.sendFailed err))
  | .unlocking result => ({ s with lock := none },.sendReturned result)
  | .sendReturned result => (s,.sendReturned result)
  | .receiveCalled requestID event =>
    if s.lock = none then ({ s with lock := some i },.fulfilling requestID event)
    else (s,.receiveCalled requestID event)
  | .fulfilling requestID event => match s.outstandingRequestHandlers.lookup requestID with
    | none => (s,.fulfilled requestID event none)
    | some handler => (s.remove requestID,.fulfilled requestID event (some handler))
  | .fulfilled requestID event handler => ({ s with lock := none },.marked requestID event handler)
  | .marked requestID event none => (s,.received requestID event none)
  | .marked requestID event (some handler) => (s.release,.invoking requestID event handler)
  | .invoking requestID event handler => (s,.received requestID event (some handler))
  | .received requestID event handler => (s,.received requestID event handler)

abbrev Network := Threads Shared Place

inductive Call where
  | sendAppRequest (nodeID : NodeID) (requestLen : ℕ)
  | appResponse (requestID : UInt32) (response : Bytes)
  | appRequestFailed (requestID : UInt32)

def Call.place : Call → Place
  | .sendAppRequest nodeID requestLen => .sendCalled nodeID requestLen
  | .appResponse requestID response => .receiveCalled requestID (.response response)
  | .appRequestFailed requestID => .receiveCalled requestID .failure

inductive Action where
  | call (call : Call)
  | advance (i : ℕ) (env : Env)

def newNetwork : Network := ⟨⟨none,0,∅,0,false,false,0⟩,0,fun _ => .idle⟩

def step (maxActiveAppRequests : ℤ) (n : Network) : Action → Network
  | .call call => n.start call.place
  | .advance i env =>
    if i < n.started then n.move i (move maxActiveAppRequests i env n.shared (n.place i)) else n

/-! ## What a place means for the rest -/

/-- All that other calls can notice of a place: whether it has the lock, how many slots it has
to give back, how many it gave back before its handler was removed, the request it stands for,
whether that request was accepted by the sender, and the handler it has taken out. -/
structure Traits where
  locks : Bool
  owned : ℕ
  returned : ℕ
  request : Option (UInt32 × ℕ)
  accepted : Bool
  taken : Option (ℕ × UInt32)

def SendResult.traits : SendResult → Traits
  | .sent requestID number => ⟨false,0,0,some (requestID,number),true,none⟩
  | _ => ⟨false,0,0,none,false,none⟩

def Place.traits : Place → Traits
  | .acquired => ⟨false,1,0,none,false,none⟩
  | .locked => ⟨true,1,0,none,false,none⟩
  | .sending requestID number => ⟨true,0,0,some (requestID,number),false,none⟩
  | .failing requestID number _ => ⟨true,0,1,some (requestID,number),false,none⟩
  | .unlocking result => { result.traits with locks := true }
  | .sendReturned result => result.traits
  | .fulfilling _ _ => ⟨true,0,0,none,false,none⟩
  | .fulfilled _ _ none => ⟨true,0,0,none,false,none⟩
  | .fulfilled requestID _ (some handler) => ⟨true,1,0,none,false,some (handler,requestID)⟩
  | .marked requestID _ (some handler) => ⟨false,1,0,none,false,some (handler,requestID)⟩
  | .invoking requestID _ handler => ⟨false,0,0,none,false,some (handler,requestID)⟩
  | .received requestID _ (some handler) => ⟨false,0,0,none,false,some (handler,requestID)⟩
  | _ => ⟨false,0,0,none,false,none⟩

inductive Effect (i : ℕ) : Shared → Traits → Shared → Traits → Prop
  | quiet (s : Shared) (t : Traits) : Effect i s t s t
  | acquire (s : Shared) :
      Effect i s ⟨false,0,0,none,false,none⟩ { s with activeAppRequests := s.activeAppRequests + 1 }
        ⟨false,1,0,none,false,none⟩
  | lock (s : Shared) (owned : ℕ) (h : s.lock = none) :
      Effect i s ⟨false,owned,0,none,false,none⟩ { s with lock := some i }
        ⟨true,owned,0,none,false,none⟩
  | unlock (s : Shared) (owned : ℕ) (request : Option (UInt32 × ℕ)) (accepted : Bool)
      (taken : Option (ℕ × UInt32)) (h : accepted = false → request = none) :
      Effect i s ⟨true,owned,0,request,accepted,taken⟩ { s with lock := none }
        ⟨false,owned,0,request,accepted,taken⟩
  | release (s : Shared) (locks : Bool) (taken : Option (ℕ × UInt32)) :
      Effect i s ⟨locks,1,0,none,false,taken⟩ s.release ⟨locks,0,0,none,false,taken⟩
  | register (s : Shared) :
      Effect i s ⟨true,1,0,none,false,none⟩ (s.register i)
        ⟨true,0,0,some (s.requestIDGen,s.issued),false,none⟩
  | accept (s : Shared) (request : UInt32 × ℕ) :
      Effect i s ⟨true,0,0,some request,false,none⟩ s ⟨true,0,0,some request,true,none⟩
  | fail (s : Shared) (request : UInt32 × ℕ) :
      Effect i s ⟨true,0,0,some request,false,none⟩ s.release ⟨true,0,1,some request,false,none⟩
  | remove (s : Shared) (requestID : UInt32) (number : ℕ) :
      Effect i s ⟨true,0,1,some (requestID,number),false,none⟩ (s.remove requestID)
        ⟨true,0,0,none,false,none⟩
  | take (s : Shared) (requestID : UInt32) (handler : ℕ)
      (h : s.outstandingRequestHandlers.lookup requestID = some handler) :
      Effect i s ⟨true,0,0,none,false,none⟩ (s.remove requestID)
        ⟨true,1,0,none,false,some (handler,requestID)⟩

theorem move_effect (maxActiveAppRequests : ℤ) (i : ℕ) (env : Env) (s : Shared) (p : Place) :
    Effect i s p.traits (move maxActiveAppRequests i env s p).1
      (move maxActiveAppRequests i env s p).2.traits := by
  cases p with
  | idle => exact .quiet s _
  | sendCalled nodeID requestLen =>
    rw [move]
    split
    · exact .quiet s _
    · cases env.ctxErr <;> exact .quiet s _
  | acquiring =>
    rw [move]
    cases env.ctxErr with
    | some err => exact .quiet s _
    | none =>
      dsimp only
      split
      · exact .acquire s
      · exact .quiet s _
  | acquired =>
    rw [move]
    split
    · next h => exact .lock s 1 h
    · exact .quiet s _
  | locked =>
    rw [move]
    split
    · exact .release s true none
    · cases env.ctxErr with
      | some err => exact .release s true none
      | none => exact .register s
  | sending requestID number =>
    rw [move]
    cases env.sendErr with
    | some err => exact .fail s _
    | none => exact .accept s _
  | failing requestID number err => exact .remove s requestID number
  | unlocking result =>
    have hresult : result.traits.accepted = false → result.traits.request = none := by
      cases result <;> simp [SendResult.traits]
    cases result <;> exact .unlock s _ _ _ _ hresult
  | sendReturned result => exact .quiet s _
  | receiveCalled requestID event =>
    rw [move]
    split
    · next h => exact .lock s 0 h
    · exact .quiet s _
  | fulfilling requestID event =>
    rw [move]
    cases h : s.outstandingRequestHandlers.lookup requestID with
    | none => exact .quiet s _
    | some handler => exact .take s requestID handler h
  | fulfilled requestID event handler =>
    cases handler <;> exact .unlock s _ _ _ _ fun _ => rfl
  | marked requestID event handler =>
    cases handler with
    | none => exact .quiet s _
    | some handler => exact .release s false _
  | invoking requestID event handler => exact .quiet s _
  | received requestID event handler => exact .quiet s _

end Landslide.Peer
