import Landslide.Comet.Types
import Landslide.Lib.Exec

/-! # The JSON-RPC handler

The handler decodes a batch of requests, or a single one, and calls the registered functions
by reflection. The arguments come from the `params` of the request: a map gives them by name,
an array by position. If there are no `params`, the function is called with the context alone,
whatever it takes, and reflection panics on a wrong number of arguments. The panic recovery
around a function is inside the call, so it does not see that.

The decoders of JSON are third party, as are the Go types and their values: they are parameters
here, and so is the type of the results.
-/
namespace Landslide.JsonRpc

/-! ## Requests, functions, responses -/

/-- `types.RPCRequest`. The params are empty if the request has none. -/
structure RPCRequest (ID : Type) where
  id : Option ID
  method : String
  params : Bytes

/-- What the handler uses of Go's reflection and of the two JSON packages, for types `T` with
values `V`. -/
structure Go (ID T : Type) (V : T → Type) where
  contextType : T
  context : RPCRequest ID → V contextType
  unmarshalRequests : Bytes → Except String (List (RPCRequest ID))
  unmarshalRequest : Bytes → Except String (RPCRequest ID)
  unmarshalMap : Bytes → Except String (String → Option Bytes)
  unmarshalArray : Bytes → Except String (List Bytes)
  unmarshalValue : (type : T) → Bytes → Except String (V type)
  zero : (type : T) → V type
  isZero : (Σ type, V type) → Bool

structure RPCFunc (T : Type) (V : T → Type) (R : Type) where
  /-- The function before the panic recovery is put around it. -/
  f : List (Σ type, V type) → Outcome String R
  args : List T
  argNames : List String
  cacheable : Bool
  ws : Bool
  noCacheDefArgs : List String

structure RPCError where
  code : ℤ
  message : String
  data : String
  deriving DecidableEq

structure RPCResponse (ID R : Type) where
  id : ID
  result : Except RPCError R

def printSlice (items : List String) : String := "[" ++ " ".intercalate items ++ "]"

inductive ParamsError where
  | wrongNumber (argNames : List String) (params : List Bytes)
  | unmarshal (err : String)
  | unknownType (err : String)

def ParamsError.text : ParamsError → String
  | wrongNumber argNames params => "expected " ++ toString argNames.length ++ " parameters (" ++
      printSlice argNames ++ "), got " ++ toString params.length ++ " (" ++
      printSlice (params.map fun p => printSlice (p.map toString)) ++ ")"
  | unmarshal err => err
  | unknownType err => "unknown type for JSON params: " ++ err ++ ". Expected map or array"

section
variable {ID R : Type}

def methodNotFoundError (id : ID) : RPCResponse ID R := ⟨id,.error ⟨-32601,"Method not found",""⟩⟩

def internalError (id : ID) (err : String) : RPCResponse ID R :=
  ⟨id,.error ⟨-32603,"Internal error",err⟩⟩

def invalidParamsError (id : ID) (err : ParamsError) : RPCResponse ID R :=
  ⟨id,.error ⟨-32602,"Invalid params","error converting json params to arguments: " ++ err.text⟩⟩

def newRPCSuccessResponse (id : ID) (result : R) : RPCResponse ID R := ⟨id,.ok result⟩

end

/-- What the handler does with the response writer. -/
inductive Written (ID R : Type) where
  | invalidRequestError (err : String)
  | listOfEndpoints
  | parseError (err : String)
  | nothing
  | responses (cacheable : Bool) (responses : List (RPCResponse ID R))

def Written.answers {ID R : Type} : Written ID R → List (RPCResponse ID R)
  | .responses _ written => written
  | _ => []

/-! ## Arguments and calls -/

section
variable {ID R T : Type} {V : T → Type} (go : Go ID T V)

/-- The loop that gives every item the type of its argument. -/
def valuesFrom {α : Type} (value : (type : T) → α → Except String (V type)) :
    List α → List T → Outcome ParamsError (List (Σ type, V type))
  | [], _ => .ok []
  | _ :: _, [] => .panic "index out of range"
  | item :: items, type :: types => do
    let v ← .ofExcept .unmarshal (value type item)
    let vs ← valuesFrom value items types
    .ok (⟨type,v⟩ :: vs)

theorem valuesFrom_fits {α : Type} (value : (type : T) → α → Except String (V type))
    {items : List α} {types : List T} (h : types.length = items.length) :
    (∃ err, valuesFrom value items types = .error err) ∨
      ∃ vs, valuesFrom value items types = .ok vs ∧ vs.map Sigma.fst = types := by
  induction items generalizing types with
  | nil =>
    rw [List.length_nil,List.length_eq_zero_iff] at h
    subst h
    exact Or.inr ⟨[],rfl,rfl⟩
  | cons item items ih =>
    obtain ⟨type,types,rfl⟩ := List.exists_cons_of_length_eq_add_one h
    rw [valuesFrom]
    cases hv : value type item with
    | error err => exact Or.inl ⟨_,rfl⟩
    | ok v =>
      rcases ih (Nat.succ.inj h) with ⟨err,hrest⟩ | ⟨vs,hrest,htypes⟩
      · rw [hrest]
        exact Or.inl ⟨err,rfl⟩
      · rw [hrest]
        exact Or.inr ⟨⟨type,v⟩ :: vs,rfl,by rw [List.map_cons,htypes]⟩

def argsOffset : ℕ := 1

def mapParamsToArgs (rpcFunc : RPCFunc T V R) (params : String → Option Bytes) :
    Outcome ParamsError (List (Σ type, V type)) :=
  valuesFrom (fun type argName => match params argName with
    | some p => if p.length > 0 then go.unmarshalValue type p else .ok (go.zero type)
    | none => .ok (go.zero type)) rpcFunc.argNames (rpcFunc.args.drop argsOffset)

def arrayParamsToArgs (rpcFunc : RPCFunc T V R) (params : List Bytes) :
    Outcome ParamsError (List (Σ type, V type)) :=
  if rpcFunc.argNames.length ≠ params.length then .error (.wrongNumber rpcFunc.argNames params)
  else valuesFrom go.unmarshalValue params (rpcFunc.args.drop argsOffset)

def jsonParamsToArgs (rpcFunc : RPCFunc T V R) (raw : Bytes) :
    Outcome ParamsError (List (Σ type, V type)) :=
  match go.unmarshalMap raw with
  | .ok m => mapParamsToArgs go rpcFunc m
  | .error _ => match go.unmarshalArray raw with
    | .ok a => arrayParamsToArgs go rpcFunc a
    | .error err => .error (.unknownType err)

/-- Called only when there is a name for every argument after the context. -/
def cacheableWithArgs (rpcFunc : RPCFunc T V R) (args : List (Σ type, V type)) : Bool :=
  rpcFunc.cacheable && rpcFunc.argNames.zipIdx.all fun arg =>
    !rpcFunc.noCacheDefArgs.contains arg.1 || match args[arg.2 + 1]? with
      | none => false
      | some v => !go.isZero v

variable [DecidableEq T]

/-- `reflect.Value.Call`, with the function inside the panic recovery. -/
def RPCFunc.call (rpcFunc : RPCFunc T V R) (args : List (Σ type, V type)) : Outcome String R :=
  if args.length < rpcFunc.args.length then .panic "reflect: Call with too few input arguments"
  else if args.length > rpcFunc.args.length then
    .panic "reflect: Call with too many input arguments"
  else if args.map Sigma.fst ≠ rpcFunc.args then .panic "reflect: Call using %s as type %s"
  else match rpcFunc.f args with
    | .panic _ => .error "internal server error"
    | result => result

/-! ## The handler -/

variable (funcMap : String → Option (RPCFunc T V R))

/-- One turn of the loop: the response, if there is one, and whether the responses may still be
cached. -/
def handleRequest (cache : Bool) (request : RPCRequest ID) :
    Outcome Empty (Option (RPCResponse ID R) × Bool) :=
  match request.id with
  | none => .ok (none,cache)
  | some id => match funcMap request.method with
    | none => .ok (some (methodNotFoundError id),false)
    | some rpcFunc =>
      if rpcFunc.ws then .ok (some (methodNotFoundError id),false)
      else if (rpcFunc.args.length : ℤ) - 1 ≠ rpcFunc.argNames.length then
        .ok (some (internalError id ("rpc function expects " ++
          toString ((rpcFunc.args.length : ℤ) - 1) ++ " parameters, defined " ++
          toString rpcFunc.argNames.length ++ " (" ++ printSlice rpcFunc.argNames ++ ")")),false)
      else
        let fnArgs :=
          if request.params.length > 0 then jsonParamsToArgs go rpcFunc request.params else .ok []
        match fnArgs with
        | .panic message => .panic message
        | .error err => .ok (some (invalidParamsError id err),false)
        | .ok fnArgs =>
          let args := ⟨go.contextType,go.context request⟩ :: fnArgs
          let cache := cache && cacheableWithArgs go rpcFunc args
          match rpcFunc.call args with
          | .panic message => .panic message
          | .error err => .ok (some (internalError id err),cache)
          | .ok result => .ok (some (newRPCSuccessResponse id result),cache)

def handleRequests : List (RPCRequest ID) → Bool → List (RPCResponse ID R) →
    Outcome Empty (List (RPCResponse ID R) × Bool)
  | [], cache, responses => .ok (responses,cache)
  | request :: requests, cache, responses => do
    let (response,cache) ← handleRequest go funcMap cache request
    handleRequests requests cache (responses ++ response.toList)

/-- First a batch is tried, then a single request. -/
def decodeRequests (b : Bytes) : Except String (List (RPCRequest ID)) :=
  match go.unmarshalRequests b with
  | .ok requests => .ok requests
  | .error _ => match go.unmarshalRequest b with
    | .ok request => .ok [request]
    | .error err => .error err

/-- The handler that `makeJSONRPCHandler` makes, on a body that was read or could not be. -/
def jsonRPCHandler (body : Except String Bytes) : Outcome Empty (Written ID R) :=
  match body with
  | .error err => .ok (.invalidRequestError ("error reading request body: " ++ err))
  | .ok b =>
    if b.length = 0 then .ok .listOfEndpoints
    else match decodeRequests go b with
      | .error err => .ok (.parseError ("error unmarshaling request: " ++ err))
      | .ok requests => do
        let (responses,cache) ← handleRequests go funcMap requests true []
        if responses.length > 0 then .ok (.responses cache responses) else .ok .nothing

/-! ## When it answers -/

variable {go} {funcMap}

/-- The function takes the context first, and declares one name for each further argument. -/
def RPCFunc.Declared (go : Go ID T V) (rpcFunc : RPCFunc T V R) : Prop :=
  ∃ types, rpcFunc.args = go.contextType :: types ∧ types.length = rpcFunc.argNames.length

omit [DecidableEq T] in
theorem jsonParamsToArgs_fits {rpcFunc : RPCFunc T V R} (h : rpcFunc.Declared go) (raw : Bytes) :
    (∃ err, jsonParamsToArgs go rpcFunc raw = .error err) ∨
      ∃ vs, jsonParamsToArgs go rpcFunc raw = .ok vs ∧
        go.contextType :: vs.map Sigma.fst = rpcFunc.args := by
  obtain ⟨types,hargs,hlength⟩ := h
  have hdrop : rpcFunc.args.drop argsOffset = types := by rw [hargs]; rfl
  unfold jsonParamsToArgs
  cases go.unmarshalMap raw with
  | ok m =>
    rw [hargs]
    dsimp only
    unfold mapParamsToArgs
    rw [hdrop]
    rcases valuesFrom_fits _ hlength with herror | ⟨vs,hvs,htypes⟩
    · exact Or.inl herror
    · exact Or.inr ⟨vs,hvs,by rw [htypes]⟩
  | error _ =>
    cases go.unmarshalArray raw with
    | error err => exact Or.inl ⟨_,rfl⟩
    | ok a =>
      dsimp only
      unfold arrayParamsToArgs
      rw [hdrop,hargs]
      split
      · exact Or.inl ⟨_,rfl⟩
      · next hnumber =>
        rcases valuesFrom_fits _ (hlength.trans (not_not.mp hnumber)) with herror | ⟨vs,hvs,htypes⟩
        · exact Or.inl herror
        · exact Or.inr ⟨vs,hvs,by rw [htypes]⟩

theorem call_of_fits {rpcFunc : RPCFunc T V R} {args : List (Σ type, V type)}
    (h : args.map Sigma.fst = rpcFunc.args) : ∀ message, rpcFunc.call args ≠ .panic message := by
  have hlength : args.length = rpcFunc.args.length := by rw [← h,List.length_map]
  intro message
  rw [RPCFunc.call,if_neg hlength.not_lt,if_neg hlength.not_gt,if_neg (not_not.mpr h)]
  cases rpcFunc.f args <;> exact nofun

def Supplied (funcMap : String → Option (RPCFunc T V R)) (request : RPCRequest ID) : Prop :=
  request.id ≠ none → ∀ rpcFunc, funcMap request.method = some rpcFunc → rpcFunc.ws = false →
    request.params = [] → rpcFunc.argNames = []

section
variable (hfuncMap : ∀ method rpcFunc, funcMap method = some rpcFunc → rpcFunc.Declared go)
include hfuncMap

omit [DecidableEq T] in
theorem numbers_match {method : String} {rpcFunc : RPCFunc T V R}
    (h : funcMap method = some rpcFunc) :
    ¬(rpcFunc.args.length : ℤ) - 1 ≠ rpcFunc.argNames.length := by
  obtain ⟨types,hargs,hlength⟩ := hfuncMap method rpcFunc h
  rw [hargs,List.length_cons,hlength]
  push_cast
  omega

theorem handleRequest_of_supplied {request : RPCRequest ID} (h : Supplied funcMap request)
    (cache : Bool) : ∃ response cache', handleRequest go funcMap cache request =
      .ok (response,cache') ∧ response.map RPCResponse.id = request.id := by
  unfold handleRequest
  cases hid : request.id with
  | none => exact ⟨_,_,rfl,rfl⟩
  | some id =>
    cases hfunc : funcMap request.method with
    | none => exact ⟨_,_,rfl,rfl⟩
    | some rpcFunc =>
      dsimp only
      cases hws : rpcFunc.ws with
      | true => exact ⟨_,_,rfl,rfl⟩
      | false =>
        rw [if_neg (by simp),if_neg (numbers_match hfuncMap hfunc)]
        have hdeclared := hfuncMap _ _ hfunc
        have hfits : (∃ err, (if request.params.length > 0
              then jsonParamsToArgs go rpcFunc request.params else .ok []) = .error err) ∨
            ∃ vs, (if request.params.length > 0
              then jsonParamsToArgs go rpcFunc request.params else .ok []) = .ok vs ∧
                go.contextType :: vs.map Sigma.fst = rpcFunc.args := by
          split
          · exact jsonParamsToArgs_fits hdeclared _
          · next hparams =>
            have hnone := h (by simp [hid]) rpcFunc hfunc hws (by simpa using hparams)
            obtain ⟨types,hargs,hlength⟩ := hdeclared
            rw [hnone,List.length_nil,List.length_eq_zero_iff] at hlength
            exact Or.inr ⟨[],rfl,by rw [hargs,hlength,List.map_nil]⟩
        rcases hfits with ⟨err,herr⟩ | ⟨vs,hvs,htypes⟩
        · rw [herr]
          exact ⟨_,_,rfl,rfl⟩
        · rw [hvs]
          have hcall : ∀ message, rpcFunc.call (⟨go.contextType,go.context request⟩ :: vs) ≠
              .panic message := call_of_fits htypes
          dsimp only
          cases hresult : rpcFunc.call (⟨go.contextType,go.context request⟩ :: vs) with
          | panic message => exact absurd hresult (hcall message)
          | error err => exact ⟨_,_,rfl,rfl⟩
          | ok result => exact ⟨_,_,rfl,rfl⟩

theorem handleRequest_of_not_supplied {request : RPCRequest ID} (h : ¬Supplied funcMap request)
    (cache : Bool) : handleRequest go funcMap cache request =
      .panic "reflect: Call with too few input arguments" := by
  unfold Supplied at h
  push Not at h
  obtain ⟨hid,rpcFunc,hfunc,hws,hparams,hnames⟩ := h
  obtain ⟨id,hid⟩ := Option.ne_none_iff_exists'.mp hid
  have hfew : ([⟨go.contextType,go.context request⟩] : List (Σ type, V type)).length <
      rpcFunc.args.length := by
    obtain ⟨types,hargs,hlength⟩ := hfuncMap _ _ hfunc
    have hpos := List.length_pos_of_ne_nil hnames
    rw [hargs,List.length_singleton,List.length_cons]
    omega
  have hcall : rpcFunc.call [⟨go.contextType,go.context request⟩] =
      .panic "reflect: Call with too few input arguments" := if_pos hfew
  unfold handleRequest
  rw [hid,hfunc]
  dsimp only
  rw [hws,if_neg (by simp),if_neg (numbers_match hfuncMap hfunc),hparams]
  dsimp only [List.length_nil]
  rw [if_neg (by simp)]
  dsimp only
  rw [hcall]

theorem handleRequests_of_supplied (requests : List (RPCRequest ID))
    (h : ∀ request ∈ requests, Supplied funcMap request) (cache : Bool)
    (responses : List (RPCResponse ID R)) :
    ∃ responses' cache', handleRequests go funcMap requests cache responses =
      .ok (responses',cache') ∧ responses'.map RPCResponse.id =
        responses.map RPCResponse.id ++ requests.filterMap RPCRequest.id := by
  induction requests generalizing cache responses with
  | nil => exact ⟨responses,cache,rfl,by simp⟩
  | cons request requests ih =>
    obtain ⟨response,cache',hone,hid⟩ :=
      handleRequest_of_supplied hfuncMap (h request List.mem_cons_self) cache
    obtain ⟨responses',cache'',hrest,hids⟩ := ih (fun r hr => h r (List.mem_cons_of_mem _ hr))
      cache' (responses ++ response.toList)
    refine ⟨responses',cache'',?_,?_⟩
    · rw [handleRequests,hone]
      exact hrest
    · rw [hids,List.map_append,List.append_assoc]
      congr 1
      cases response with
      | none => simp [← hid]
      | some response => simp [← hid]

theorem handleRequests_of_not_supplied (requests : List (RPCRequest ID))
    (h : ¬∀ request ∈ requests, Supplied funcMap request) (cache : Bool)
    (responses : List (RPCResponse ID R)) : handleRequests go funcMap requests cache responses =
      .panic "reflect: Call with too few input arguments" := by
  induction requests generalizing cache responses with
  | nil => exact absurd (fun _ hr => (nomatch hr)) h
  | cons request requests ih =>
    rw [handleRequests]
    by_cases hrequest : Supplied funcMap request
    · obtain ⟨response,cache',hone,-⟩ := handleRequest_of_supplied hfuncMap hrequest cache
      have hrest : ¬∀ r ∈ requests, Supplied funcMap r := by
        intro hall
        apply h
        intro r hr
        rcases List.mem_cons.mp hr with rfl | hr
        · exact hrequest
        · exact hall r hr
      rw [hone]
      exact ih hrest cache' _
    · rw [handleRequest_of_not_supplied hfuncMap hrequest cache]
      rfl

/-- The handler answers every request that has an ID, in order and with that ID, exactly if
every such request for a function with arguments comes with params. -/
theorem answers_iff_supplied (b : Bytes) (hb : b ≠ []) (requests : List (RPCRequest ID))
    (hrequests : decodeRequests go b = .ok requests) :
    (∃ written, jsonRPCHandler go funcMap (.ok b) = .ok written ∧
        written.answers.map RPCResponse.id = requests.filterMap RPCRequest.id) ↔
      ∀ request ∈ requests, Supplied funcMap request := by
  have hlength : ¬b.length = 0 := by simpa using hb
  have hhandler : jsonRPCHandler go funcMap (.ok b) =
      (handleRequests go funcMap requests true []).bind fun handled =>
        if handled.1.length > 0 then .ok (.responses handled.2 handled.1) else .ok .nothing := by
    unfold jsonRPCHandler
    dsimp only
    rw [if_neg hlength,hrequests]
    rfl
  constructor
  · rintro ⟨written,hwritten,-⟩
    by_contra hnot
    rw [hhandler,handleRequests_of_not_supplied hfuncMap requests hnot] at hwritten
    cases hwritten
  · intro h
    obtain ⟨responses,cache,hall,hids⟩ := handleRequests_of_supplied hfuncMap requests h true []
    rw [hhandler,hall]
    rw [List.map_nil,List.nil_append] at hids
    dsimp only [Outcome.bind]
    split
    · exact ⟨_,rfl,hids⟩
    · next hnone =>
      have hnil : responses = [] := by simpa using hnone
      exact ⟨_,rfl,by rw [← hids,hnil]; rfl⟩

end

end

/-! ## Samples -/

namespace Sample

inductive GoType where
  | context
  | int64
  deriving DecidableEq

def singleBody : Bytes :=
  [123,34,105,100,34,58,49,44,34,109,101,116,104,111,100,34,58,34,98,108,111,99,107,34,125]

/-- `[{"id":1,"method":"block","params":["1"]},{"method":"block"}]`. -/
def batchBody : Bytes :=
  [91,123,34,105,100,34,58,49,44,34,109,101,116,104,111,100,34,58,34,98,108,111,99,107,34,44,34,
    112,97,114,97,109,115,34,58,91,34,49,34,93,125,44,123,34,109,101,116,104,111,100,34,58,34,98,
    108,111,99,107,34,125,93]

/-- Decoders that know the two bodies and the params in them. A number of 64 bits is a string. -/
def go : Go ℕ GoType fun _ => ℕ where
  contextType := .context
  context _ := 0
  unmarshalRequests b :=
    if b.head? = some 91 then .ok [⟨some 1,"block",[91,34,49,34,93]⟩,⟨none,"block",[]⟩]
    else .error "json: cannot unmarshal object into Go value of type []types.RPCRequest"
  unmarshalRequest _ := .ok ⟨some 1,"block",[]⟩
  unmarshalMap _ := .error "json: cannot unmarshal array into Go value of type map"
  unmarshalArray _ := .ok [[34,49,34]]
  unmarshalValue _ p :=
    if p == [34,49,34] then .ok 1 else .error "invalid 64-bit integer encoding, expected string"
  zero _ := 0
  isZero v := v.2 == 0

/-- `block` takes a height. -/
def funcMap (method : String) : Option (RPCFunc GoType (fun _ => ℕ) ℕ) :=
  if method = "block" then
    some ⟨fun args => .ok args.length,[.context,.int64],["height"],true,false,["height"]⟩
  else none

theorem funcMap_declared : ∀ method rpcFunc, funcMap method = some rpcFunc →
    rpcFunc.Declared go := by
  intro method rpcFunc h
  unfold funcMap at h
  split at h
  · cases h
    exact ⟨[.int64],rfl,rfl⟩
  · cases h

theorem singleBody_panics :
    (∀ method rpcFunc, funcMap method = some rpcFunc → rpcFunc.Declared go) ∧
      decodeRequests go singleBody = .ok [⟨some 1,"block",[]⟩] ∧
      jsonRPCHandler go funcMap (.ok singleBody) =
        .panic "reflect: Call with too few input arguments" := ⟨funcMap_declared,rfl,rfl⟩

theorem batchBody_answered : ∃ written, jsonRPCHandler go funcMap (.ok batchBody) = .ok written ∧
    written.answers.map RPCResponse.id = [1] := by
  refine (answers_iff_supplied funcMap_declared batchBody (by decide)
    [⟨some 1,"block",[91,34,49,34,93]⟩,⟨none,"block",[]⟩] rfl).mpr ?_
  intro request hrequest hid rpcFunc _ _ hparams
  simp only [List.mem_cons,List.not_mem_nil,or_false] at hrequest
  rcases hrequest with rfl | rfl
  · cases hparams
  · exact absurd rfl hid

end Sample
end Landslide.JsonRpc
