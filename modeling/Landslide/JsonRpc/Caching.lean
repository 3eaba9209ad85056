import Landslide.JsonRpc.Handler

/-! # Which answers may be cached

One flag goes through the loop over the requests. Every exit of the loop body that answers with
an error clears it, except the last one: after a call that returns an error the flag stays as
the arguments left it. An answer with such an error in it can go out with the cacheable header.
-/
namespace Landslide.JsonRpc
variable {ID R T : Type} {V : T → Type} [DecidableEq T]

structure Prepared (go : Go ID T V) (funcMap : String → Option (RPCFunc T V R))
    (request : RPCRequest ID) (rpcFunc : RPCFunc T V R) (args : List (Σ type, V type)) : Prop where
  known : funcMap request.method = some rpcFunc
  notWs : rpcFunc.ws = false
  numbers : (rpcFunc.args.length : ℤ) - 1 = rpcFunc.argNames.length
  converted : ∃ fnArgs, (if request.params.length > 0
      then jsonParamsToArgs go rpcFunc request.params else .ok []) = .ok fnArgs ∧
    args = ⟨go.contextType,go.context request⟩ :: fnArgs

/-- Every argument whose default must not be cached is given, and not as its zero value. -/
def GivenNonZero (go : Go ID T V) (rpcFunc : RPCFunc T V R) (args : List (Σ type, V type)) : Prop :=
  ∀ (i : ℕ) (argName : String), rpcFunc.argNames[i]? = some argName →
    argName ∈ rpcFunc.noCacheDefArgs → ∃ v, args[i + 1]? = some v ∧ go.isZero v = false

omit [DecidableEq T] in
theorem cacheableWithArgs_iff (go : Go ID T V) (rpcFunc : RPCFunc T V R)
    (args : List (Σ type, V type)) :
    cacheableWithArgs go rpcFunc args = true ↔
      rpcFunc.cacheable = true ∧ GivenNonZero go rpcFunc args := by
  unfold cacheableWithArgs GivenNonZero
  rw [Bool.and_eq_true,List.all_eq_true]
  refine and_congr_right fun _ => ?_
  constructor
  · intro h i argName hi hmem
    have hone := h (argName,i) (List.mem_zipIdx_iff_getElem?.mpr hi)
    have hcontains : rpcFunc.noCacheDefArgs.contains argName = true := by simpa using hmem
    rw [hcontains] at hone
    cases hv : args[i + 1]? with
    | none => simp [hv] at hone
    | some v => exact ⟨v,rfl,by simpa [hv] using hone⟩
  · rintro h ⟨argName,i⟩ harg
    have hi : rpcFunc.argNames[i]? = some argName := List.mem_zipIdx_iff_getElem?.mp harg
    by_cases hmem : argName ∈ rpcFunc.noCacheDefArgs
    · obtain ⟨v,hv,hzero⟩ := h i argName hi hmem
      simp [hv,hzero]
    · simp [hmem]

section
variable {go : Go ID T V} {funcMap : String → Option (RPCFunc T V R)}

omit [DecidableEq T] in
theorem Prepared.unique {request : RPCRequest ID} {rpcFunc rpcFunc' : RPCFunc T V R}
    {args args' : List (Σ type, V type)} (h : Prepared go funcMap request rpcFunc args)
    (h' : Prepared go funcMap request rpcFunc' args') : rpcFunc = rpcFunc' ∧ args = args' := by
  obtain rfl := Option.some.inj (h.known.symm.trans h'.known)
  obtain ⟨fnArgs,hargs,rfl⟩ := h.converted
  obtain ⟨fnArgs',hargs',rfl⟩ := h'.converted
  rw [hargs] at hargs'
  cases hargs'
  exact ⟨rfl,rfl⟩

/-- What the request does to the flag when it gets as far as the call. -/
theorem Prepared.handleRequest_eq {request : RPCRequest ID} {rpcFunc : RPCFunc T V R}
    {args : List (Σ type, V type)} (h : Prepared go funcMap request rpcFunc args) {id : ID}
    (hid : request.id = some id) (cache : Bool) :
    handleRequest go funcMap cache request = match rpcFunc.call args with
      | .panic message => .panic message
      | .error err => .ok (some (internalError id err),cache && cacheableWithArgs go rpcFunc args)
      | .ok result => .ok (some (newRPCSuccessResponse id result),
          cache && cacheableWithArgs go rpcFunc args) := by
  obtain ⟨fnArgs,hargs,rfl⟩ := h.converted
  unfold handleRequest
  rw [hid,h.known]
  dsimp only
  rw [h.notWs,if_neg (by simp),if_neg (not_not.mpr h.numbers)]
  cases hcall : rpcFunc.call (⟨go.contextType,go.context request⟩ :: fnArgs) with
  | ok _ | error _ | panic _ =>
    rw [hargs]
    dsimp only
    rw [hcall]

/-- A request that does not get that far is answered with an error, and clears the flag. -/
theorem handleRequest_of_not_prepared {request : RPCRequest ID}
    (h : ∀ rpcFunc args, ¬Prepared go funcMap request rpcFunc args) (hid : request.id ≠ none)
    {cache cache' : Bool} {response : Option (RPCResponse ID R)}
    (hhandled : handleRequest go funcMap cache request = .ok (response,cache')) :
    cache' = false := by
  obtain ⟨id,hid⟩ := Option.ne_none_iff_exists'.mp hid
  unfold handleRequest at hhandled
  rw [hid] at hhandled
  cases hfunc : funcMap request.method with
  | none =>
    rw [hfunc] at hhandled
    cases hhandled
    rfl
  | some rpcFunc =>
    rw [hfunc] at hhandled
    dsimp only at hhandled
    cases hws : rpcFunc.ws with
    | true =>
      rw [hws] at hhandled
      cases hhandled
      rfl
    | false =>
      rw [hws,if_neg (by simp)] at hhandled
      by_cases hnumbers : (rpcFunc.args.length : ℤ) - 1 = rpcFunc.argNames.length
      · rw [if_neg (not_not.mpr hnumbers)] at hhandled
        cases hargs : (if request.params.length > 0
            then jsonParamsToArgs go rpcFunc request.params else .ok []) with
        | panic message =>
          rw [hargs] at hhandled
          cases hhandled
        | error err =>
          rw [hargs] at hhandled
          cases hhandled
          rfl
        | ok fnArgs =>
          exact absurd ⟨hfunc,hws,hnumbers,fnArgs,hargs,rfl⟩
            (h rpcFunc (⟨go.contextType,go.context request⟩ :: fnArgs))
      · rw [if_pos hnumbers] at hhandled
        cases hhandled
        rfl

def KeepsFlag (go : Go ID T V) (funcMap : String → Option (RPCFunc T V R))
    (request : RPCRequest ID) : Prop :=
  ∃ rpcFunc args, Prepared go funcMap request rpcFunc args ∧
    cacheableWithArgs go rpcFunc args = true ∧ (rpcFunc.call args).isPanic = false

theorem handleRequest_flag_iff {request : RPCRequest ID} (hid : request.id ≠ none) (cache : Bool) :
    (∃ response, handleRequest go funcMap cache request = .ok (response,true)) ↔
      cache = true ∧ KeepsFlag go funcMap request := by
  obtain ⟨id,hid'⟩ := Option.ne_none_iff_exists'.mp hid
  constructor
  · rintro ⟨response,hhandled⟩
    by_cases hp : ∃ rpcFunc args, Prepared go funcMap request rpcFunc args
    · obtain ⟨rpcFunc,args,hp⟩ := hp
      rw [hp.handleRequest_eq hid'] at hhandled
      cases hcall : rpcFunc.call args with
      | panic message =>
        rw [hcall] at hhandled
        cases hhandled
      | error err =>
        simp only [hcall,Outcome.ok.injEq,Prod.mk.injEq,Bool.and_eq_true] at hhandled
        exact ⟨hhandled.2.1,rpcFunc,args,hp,hhandled.2.2,by rw [hcall,Outcome.isPanic_error]⟩
      | ok result =>
        simp only [hcall,Outcome.ok.injEq,Prod.mk.injEq,Bool.and_eq_true] at hhandled
        exact ⟨hhandled.2.1,rpcFunc,args,hp,hhandled.2.2,by rw [hcall,Outcome.isPanic_ok]⟩
    · push Not at hp
      exact absurd (handleRequest_of_not_prepared hp hid hhandled) (by simp)
  · rintro ⟨rfl,rpcFunc,args,hp,hcacheable,hreturns⟩
    rw [hp.handleRequest_eq hid',hcacheable]
    cases hcall : rpcFunc.call args with
    | panic message =>
      rw [hcall] at hreturns
      cases hreturns
    | error err => exact ⟨_,rfl⟩
    | ok result => exact ⟨_,rfl⟩

theorem handleRequests_flag_iff (requests : List (RPCRequest ID)) (cache : Bool)
    (responses : List (RPCResponse ID R)) :
    (∃ responses', handleRequests go funcMap requests cache responses = .ok (responses',true)) ↔
      cache = true ∧ ∀ request ∈ requests, request.id ≠ none → KeepsFlag go funcMap request := by
  induction requests generalizing cache responses with
  | nil =>
    simp only [handleRequests,Outcome.ok.injEq,Prod.mk.injEq]
    simp
  | cons request requests ih =>
    simp only [handleRequests,Outcome.bind_eq_ok_iff,List.forall_mem_cons]
    constructor
    · rintro ⟨responses',⟨response,cache'⟩,hone,hrest⟩
      obtain ⟨rfl,hall⟩ := (ih cache' _).mp ⟨responses',hrest⟩
      by_cases hid : request.id = none
      · unfold handleRequest at hone
        rw [hid] at hone
        cases hone
        exact ⟨rfl,fun h => absurd hid h,hall⟩
      · obtain ⟨rfl,hkeeps⟩ := (handleRequest_flag_iff hid cache).mp ⟨response,hone⟩
        exact ⟨rfl,fun _ => hkeeps,hall⟩
    · rintro ⟨rfl,hfirst,hall⟩
      by_cases hid : request.id = none
      · have hone : handleRequest go funcMap true request = .ok (none,true) := by
          unfold handleRequest
          rw [hid]
        obtain ⟨responses',hrest⟩ :=
          (ih true (responses ++ (none : Option (RPCResponse ID R)).toList)).mpr ⟨rfl,hall⟩
        exact ⟨responses',_,hone,hrest⟩
      · obtain ⟨response,hone⟩ := (handleRequest_flag_iff hid true).mpr ⟨rfl,hfirst hid⟩
        obtain ⟨responses',hrest⟩ := (ih true (responses ++ response.toList)).mpr ⟨rfl,hall⟩
        exact ⟨responses',_,hone,hrest⟩

def Sound (go : Go ID T V) (funcMap : String → Option (RPCFunc T V R))
    (request : RPCRequest ID) : Prop :=
  ∃ rpcFunc args result, Prepared go funcMap request rpcFunc args ∧
    rpcFunc.call args = .ok result ∧ rpcFunc.cacheable = true ∧ GivenNonZero go rpcFunc args

def FailsCacheable (go : Go ID T V) (funcMap : String → Option (RPCFunc T V R))
    (requests : List (RPCRequest ID)) : Prop :=
  (∀ request ∈ requests, request.id ≠ none → KeepsFlag go funcMap request) ∧
  ∃ request ∈ requests, request.id ≠ none ∧ ∃ rpcFunc args err,
    Prepared go funcMap request rpcFunc args ∧ rpcFunc.call args = .error err

theorem handleRequests_length_le {requests : List (RPCRequest ID)} {cache cache' : Bool}
    {responses responses' : List (RPCResponse ID R)}
    (h : handleRequests go funcMap requests cache responses = .ok (responses',cache')) :
    responses.length ≤ responses'.length := by
  induction requests generalizing cache responses with
  | nil =>
    cases h
    exact le_rfl
  | cons request requests ih =>
    simp only [handleRequests,Outcome.bind_eq_ok_iff] at h
    obtain ⟨⟨response,_⟩,_,hrest⟩ := h
    have hle := ih hrest
    rw [List.length_append] at hle
    omega

theorem responses_nonempty {requests : List (RPCRequest ID)}
    (h : ∃ request ∈ requests, request.id ≠ none ∧ KeepsFlag go funcMap request)
    {cache cache' : Bool} {responses responses' : List (RPCResponse ID R)}
    (hhandled : handleRequests go funcMap requests cache responses = .ok (responses',cache')) :
    0 < responses'.length := by
  induction requests generalizing cache responses with
  | nil =>
    obtain ⟨request,hmem,_⟩ := h
    cases hmem
  | cons first requests ih =>
    simp only [handleRequests,Outcome.bind_eq_ok_iff] at hhandled
    obtain ⟨⟨response,flag⟩,hone,hrest⟩ := hhandled
    obtain ⟨request,hmem,hid,hkeeps⟩ := h
    rcases List.mem_cons.mp hmem with rfl | hmem
    · obtain ⟨rpcFunc,args,hp,_,_⟩ := hkeeps
      obtain ⟨id,hid⟩ := Option.ne_none_iff_exists'.mp hid
      have hsome : response.toList.length = 1 := by
        rw [hp.handleRequest_eq hid] at hone
        cases hcall : rpcFunc.call args with
        | panic message =>
          rw [hcall] at hone
          cases hone
        | error err =>
          rw [hcall] at hone
          cases hone
          rfl
        | ok result =>
          rw [hcall] at hone
          cases hone
          rfl
      have hle := handleRequests_length_le hrest
      rw [List.length_append,hsome] at hle
      omega
    · exact ih ⟨request,hmem,hid,hkeeps⟩ hrest

theorem jsonRPCHandler_cacheable_iff {b : Bytes} (hb : b ≠ []) {requests : List (RPCRequest ID)}
    (hrequests : decodeRequests go b = .ok requests) :
    (∃ responses, jsonRPCHandler go funcMap (.ok b) = .ok (.responses true responses)) ↔
      ∃ responses, handleRequests go funcMap requests true [] = .ok (responses,true) ∧
        0 < responses.length := by
  have hlength : ¬b.length = 0 := by simpa using hb
  unfold jsonRPCHandler
  dsimp only
  rw [if_neg hlength,hrequests]
  simp only [Outcome.bind_eq_ok_iff]
  constructor
  · rintro ⟨responses,⟨responses',cache⟩,hhandled,hwritten⟩
    dsimp only at hwritten
    split at hwritten
    · next hpos =>
      cases hwritten
      exact ⟨responses,hhandled,hpos⟩
    · cases hwritten
  · rintro ⟨responses,hhandled,hpos⟩
    exact ⟨responses,_,hhandled,if_pos hpos⟩

theorem sound_of_cacheable_iff {b : Bytes} (hb : b ≠ []) {requests : List (RPCRequest ID)}
    (hrequests : decodeRequests go b = .ok requests) :
    ((∃ responses, jsonRPCHandler go funcMap (.ok b) = .ok (.responses true responses)) →
        ∀ request ∈ requests, request.id ≠ none → Sound go funcMap request) ↔
      ¬FailsCacheable go funcMap requests := by
  rw [jsonRPCHandler_cacheable_iff hb hrequests]
  constructor
  · rintro hsound ⟨hall,request,hmem,hid,rpcFunc,args,err,hp,hcall⟩
    obtain ⟨responses,hhandled⟩ := (handleRequests_flag_iff requests true []).mpr ⟨rfl,hall⟩
    have hpos := responses_nonempty ⟨request,hmem,hid,hall request hmem hid⟩ hhandled
    obtain ⟨rpcFunc',args',result,hp',hresult,_⟩ :=
      hsound ⟨responses,hhandled,hpos⟩ request hmem hid
    obtain ⟨rfl,rfl⟩ := hp.unique hp'
    rw [hcall] at hresult
    cases hresult
  · rintro hnot ⟨responses,hhandled,_⟩ request hmem hid
    obtain ⟨_,hall⟩ := (handleRequests_flag_iff requests true []).mp ⟨responses,hhandled⟩
    obtain ⟨rpcFunc,args,hp,hcacheable,hreturns⟩ := hall request hmem hid
    obtain ⟨hfunc,hgiven⟩ := (cacheableWithArgs_iff go rpcFunc args).mp hcacheable
    cases hcall : rpcFunc.call args with
    | ok result => exact ⟨rpcFunc,args,result,hp,hcall,hfunc,hgiven⟩
    | error err => exact absurd ⟨hall,request,hmem,hid,rpcFunc,args,err,hp,hcall⟩ hnot
    | panic message =>
      rw [hcall] at hreturns
      cases hreturns

/-- Whatever the body, a cacheable answer has only sound requests behind it, unless a call
fails in a batch of cacheable calls. -/
theorem cacheable_sound_iff (go : Go ID T V) (funcMap : String → Option (RPCFunc T V R))
    (body : Except String Bytes) :
    ((∃ responses, jsonRPCHandler go funcMap body = .ok (.responses true responses)) →
        ∃ b requests, body = .ok b ∧ decodeRequests go b = .ok requests ∧
          ∀ request ∈ requests, request.id ≠ none → Sound go funcMap request) ↔
      ∀ b requests, body = .ok b → b ≠ [] → decodeRequests go b = .ok requests →
        ¬FailsCacheable go funcMap requests := by
  constructor
  · rintro hsound b requests rfl hb hrequests
    refine (sound_of_cacheable_iff hb hrequests).mp fun hcacheable => ?_
    obtain ⟨b',requests',hbody,hrequests',hall⟩ := hsound hcacheable
    cases hbody
    rw [hrequests] at hrequests'
    cases hrequests'
    exact hall
  · rintro hnot ⟨responses,hwritten⟩
    cases hbody : body with
    | error err =>
      rw [hbody] at hwritten
      cases hwritten
    | ok b =>
      rw [hbody] at hwritten
      have hb : b ≠ [] := by
        rintro rfl
        cases hwritten
      cases hrequests : decodeRequests go b with
      | error err =>
        have hlength : ¬b.length = 0 := by simpa using hb
        unfold jsonRPCHandler at hwritten
        dsimp only at hwritten
        rw [if_neg hlength,hrequests] at hwritten
        cases hwritten
      | ok requests =>
        exact ⟨b,requests,rfl,hrequests,(sound_of_cacheable_iff hb hrequests).mpr
          (hnot b requests hbody hb hrequests) ⟨responses,hwritten⟩⟩

end

namespace Sample

def failingFuncMap (method : String) : Option (RPCFunc GoType (fun _ => ℕ) ℕ) :=
  if method = "block" then
    some ⟨fun _ => .error "height 1 is not available",[.context,.int64],["height"],true,false,
      ["height"]⟩
  else none

/-- The answer is an error, and it is written as cacheable. -/
theorem batchBody_error_cacheable :
    jsonRPCHandler go failingFuncMap (.ok batchBody) =
        .ok (.responses true [internalError 1 "height 1 is not available"]) ∧
      ¬((∃ responses, jsonRPCHandler go failingFuncMap (.ok batchBody) =
          .ok (.responses true responses)) →
        ∃ b requests, (.ok batchBody : Except String Bytes) = .ok b ∧
          decodeRequests go b = .ok requests ∧
          ∀ request ∈ requests, request.id ≠ none → Sound go failingFuncMap request) := by
  have hwritten : jsonRPCHandler go failingFuncMap (.ok batchBody) =
      .ok (.responses true [internalError 1 "height 1 is not available"]) := rfl
  refine ⟨hwritten,fun hsound => ?_⟩
  obtain ⟨b,requests,hbody,hrequests,hall⟩ := hsound ⟨_,hwritten⟩
  cases hbody
  cases hrequests
  obtain ⟨rpcFunc,args,result,hp,hcall,_⟩ := hall _ List.mem_cons_self (Option.some_ne_none _)
  cases hp.known
  obtain ⟨fnArgs,hargs,rfl⟩ := hp.converted
  cases hargs
  cases hcall

end Sample
end Landslide.JsonRpc
