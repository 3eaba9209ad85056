import Landslide.Database.Iterator
import Landslide.Lib.Transition

/-! # The goroutine of the iterator

A goroutine fetches the batches of an iterator, and it alone sends requests for the iterator to
the server. The user of the iterator waits for it at three places: `Next` for a batch, `Error`
until the error of the server was asked for, `Close` until the iterator was released. The steps
below are those of the two threads, in any order. A channel without a buffer is a step of both
threads at once. To close a channel twice is a panic, so closing is a step only if the channel
is open.
-/
namespace Landslide.Database.Protocol

inductive Request where
  | next
  | error
  | release
  deriving DecidableEq

/-- `rpcdb.Error`, as the server answers it. -/
inductive ErrorCode where
  | unspecified
  | closed
  | notFound
  deriving DecidableEq

/-- The lookup in `ErrEnumToError`, in which what is not found is nil. -/
def ErrorCode.toError : ErrorCode → Option DBError
  | .closed => some .closed
  | .unspecified | .notFound => none

def answerError : Except String ErrorCode → Option DBError
  | .error e => some (.server e)
  | .ok code => code.toError

/-- Where the goroutine `fetch` is. The channel that a request for the error came with is a
number. -/
inductive Fetcher where
  | loop
  | awaitNext
  | recordNext (e : DBError)
  | offer (batch : List PutRequest)
  | beginError (batch : List PutRequest) (onUpdated : ℕ)
  | awaitError (batch : List PutRequest) (onUpdated : ℕ)
  | recordError (batch : List PutRequest) (onUpdated : ℕ) (e : Option DBError)
  | signal (batch : List PutRequest) (onUpdated : ℕ)
  | beginRelease
  | awaitRelease
  | recordRelease (e : Option DBError)
  | closeFetched
  | closeClosed
  | done

inductive Caller where
  | error
  | valid
  | close
  deriving DecidableEq

inductive Result where
  | none
  | valid (b : Bool)
  | key (key : Bytes)
  | error (e : Option DBError)
  | close (e : Option DBError)

inductive Consumer where
  | idle (result : Result)
  | errGet (caller : Caller)
  | errSelect (caller : Caller) (onUpdated : ℕ)
  | errWait (caller : Caller) (onUpdated : ℕ)
  | errGetAgain (caller : Caller)
  | nextCheck
  | nextRecord
  | nextReceive
  | closeOnce
  | closeWait

structure State where
  fetcher : Fetcher
  consumer : Consumer
  data : List PutRequest
  err : Option DBError
  dbClosed : Bool
  /-- The function of `once` has returned. -/
  once : Bool
  onClose : Bool
  onClosed : Bool
  fetchedData : Bool
  updated : List ℕ
  channels : ℕ
  /-- The requests that were sent, and how many of them were answered. -/
  sent : List Request
  answered : ℕ
  closes : ℕ

def start (dbClosed : Bool) : State :=
  ⟨.loop,.idle .none,[],none,dbClosed,false,false,false,false,[],0,[],0,0⟩

namespace State

def setError (s : State) (e : Option DBError) : State := { s with err := s.err.or e }

def key (s : State) : Bytes :=
  match s.data with
  | [] => []
  | e :: _ => e.key

/-- The end of `Error`, which the caller goes on from. -/
def returnTo (s : State) : Caller → State
  | .error => { s with consumer := .idle (.error s.err) }
  | .valid => { s with consumer := .idle (.valid (s.err = none ∧ s.key.length > 0)) }
  | .close => { s with consumer := .idle (.close s.err), closes := s.closes + 1 }

def advance (data : List PutRequest) : List PutRequest :=
  if data.length > 1 then data.tail else data

end State

inductive Move (s : State) : State → Prop
  | sendNext (hf : s.fetcher = .loop) :
      Move s { s with fetcher := .awaitNext, sent := s.sent ++ [.next] }
  | nextFailed (e : String) (hf : s.fetcher = .awaitNext) :
      Move s { s with fetcher := .recordNext (.server e), answered := s.answered + 1 }
  | nextEmpty (hf : s.fetcher = .awaitNext) :
      Move s { s with fetcher := .beginRelease, answered := s.answered + 1 }
  | nextData (batch : List PutRequest) (hf : s.fetcher = .awaitNext) (hbatch : batch ≠ []) :
      Move s { s with fetcher := .offer batch, answered := s.answered + 1 }
  | recordNext (e : DBError) (hf : s.fetcher = .recordNext e) :
      Move s { s.setError (some e) with fetcher := .beginRelease }
  | deliver (batch : List PutRequest) (hf : s.fetcher = .offer batch)
      (hc : s.consumer = .nextReceive) :
      Move s { s with fetcher := .loop, consumer := .idle .none, data := batch }
  | handOver (batch : List PutRequest) (caller : Caller) (ch : ℕ) (hf : s.fetcher = .offer batch)
      (hc : s.consumer = .errSelect caller ch) :
      Move s { s with fetcher := .beginError batch ch, consumer := .errWait caller ch }
  | takeClose (batch : List PutRequest) (hf : s.fetcher = .offer batch) (hclose : s.onClose = true) :
      Move s { s with fetcher := .beginRelease }
  | sendError (batch : List PutRequest) (ch : ℕ) (hf : s.fetcher = .beginError batch ch) :
      Move s { s with fetcher := .awaitError batch ch, sent := s.sent ++ [.error] }
  | errorAnswered (batch : List PutRequest) (ch : ℕ) (answer : Except String ErrorCode)
      (hf : s.fetcher = .awaitError batch ch) :
      Move s { s with
        fetcher := .recordError batch ch (answerError answer), answered := s.answered + 1 }
  | recordError (batch : List PutRequest) (ch : ℕ) (e : Option DBError)
      (hf : s.fetcher = .recordError batch ch e) :
      Move s { s.setError e with fetcher := .signal batch ch }
  | signal (batch : List PutRequest) (ch : ℕ) (hf : s.fetcher = .signal batch ch)
      (hopen : ch ∉ s.updated) :
      Move s { s with fetcher := .offer batch, updated := ch :: s.updated }
  | sendRelease (hf : s.fetcher = .beginRelease) :
      Move s { s with fetcher := .awaitRelease, sent := s.sent ++ [.release] }
  | releaseAnswered (answer : Except String ErrorCode) (hf : s.fetcher = .awaitRelease) :
      Move s { s with
        fetcher := .recordRelease (answerError answer), answered := s.answered + 1 }
  | recordRelease (e : Option DBError) (hf : s.fetcher = .recordRelease e) :
      Move s { s.setError e with fetcher := .closeFetched }
  | closeFetched (hf : s.fetcher = .closeFetched) (hopen : s.fetchedData = false) :
      Move s { s with fetcher := .closeClosed, fetchedData := true }
  | closeClosed (hf : s.fetcher = .closeClosed) (hopen : s.onClosed = false) :
      Move s { s with fetcher := .done, onClosed := true }
  | errKnown (caller : Caller) (e : DBError) (hc : s.consumer = .errGet caller)
      (herr : s.err = some e) : Move s (s.returnTo caller)
  | errAsk (caller : Caller) (hc : s.consumer = .errGet caller) (herr : s.err = none) :
      Move s { s with consumer := .errSelect caller s.channels, channels := s.channels + 1 }
  | errClosed (caller : Caller) (ch : ℕ) (hc : s.consumer = .errSelect caller ch)
      (hclosed : s.onClosed = true) : Move s { s with consumer := .errGetAgain caller }
  | errUpdated (caller : Caller) (ch : ℕ) (hc : s.consumer = .errWait caller ch)
      (hupdated : ch ∈ s.updated) : Move s { s with consumer := .errGetAgain caller }
  | errReturn (caller : Caller) (hc : s.consumer = .errGetAgain caller) : Move s (s.returnTo caller)
  | nextClosed (hc : s.consumer = .nextCheck) (hdb : s.dbClosed = true) :
      Move s { s with consumer := .nextRecord, data := [] }
  | nextOpen (hc : s.consumer = .nextCheck) (hdb : s.dbClosed = false) :
      Move s { s with consumer := .nextReceive, data := State.advance s.data }
  | nextRecorded (hc : s.consumer = .nextRecord) :
      Move s { s.setError (some .closed) with
        consumer := .nextReceive, data := State.advance s.data }
  | receiveNothing (hc : s.consumer = .nextReceive) (hclosed : s.fetchedData = true) :
      Move s { s with consumer := .idle .none, data := [] }
  | closeFirst (hc : s.consumer = .closeOnce) (honce : s.once = false) (hopen : s.onClose = false) :
      Move s { s with consumer := .closeWait, onClose := true }
  | closeAgain (hc : s.consumer = .closeOnce) (honce : s.once = true) :
      Move s { s with consumer := .errGet .close }
  | closeDone (hc : s.consumer = .closeWait) (hclosed : s.onClosed = true) :
      Move s { s with consumer := .errGet .close, once := true }

/-- The user calls a method; `Key` returns at once. -/
inductive Call (s : State) : State → Prop
  | key (result : Result) (hc : s.consumer = .idle result) :
      Call s { s with consumer := .idle (.key s.key) }
  | valid (result : Result) (hc : s.consumer = .idle result) :
      Call s { s with consumer := .errGet .valid }
  | error (result : Result) (hc : s.consumer = .idle result) :
      Call s { s with consumer := .errGet .error }
  | next (result : Result) (hc : s.consumer = .idle result) :
      Call s { s with consumer := .nextCheck }
  | close (result : Result) (hc : s.consumer = .idle result) :
      Call s { s with consumer := .closeOnce }

inductive CloseDB (s : State) : State → Prop
  | closed (hdb : s.dbClosed = false) : CloseDB s { s with dbClosed := true }

def Step (s t : State) : Prop := Move s t ∨ Call s t ∨ CloseDB s t

def Reached : State → Prop :=
  Reaches (fun s => ∃ dbClosed, s = start dbClosed) Step fun _ t => t

/-! ## Requests -/

def Fetcher.released : Fetcher → Bool
  | .awaitRelease | .recordRelease _ | .closeFetched | .closeClosed | .done => true
  | _ => false

def Fetcher.waiting : Fetcher → Bool
  | .awaitNext | .awaitError _ _ | .awaitRelease => true
  | _ => false

/-- The request to release the iterator is the last one, and all answers but that of the request
in flight are there. -/
structure Ledger (s : State) : Prop where
  requests : ∃ before, .release ∉ before ∧
    s.sent = before ++ if s.fetcher.released then [.release] else []
  answered : s.sent.length = s.answered + if s.fetcher.waiting then 1 else 0

namespace Ledger
variable {s t : State} {f : Fetcher}

theorem same (h : Ledger s) (hf : s.fetcher = f) (hreleased : t.fetcher.released = f.released)
    (hwaiting : t.fetcher.waiting = f.waiting) (hsent : t.sent = s.sent)
    (hanswered : t.answered = s.answered) : Ledger t := by
  subst hf
  refine ⟨?_,?_⟩
  · rw [hsent,hreleased]
    exact h.requests
  · rw [hsent,hanswered,hwaiting]
    exact h.answered

theorem answer (h : Ledger s) (hf : s.fetcher = f) (hwaits : f.waiting = true)
    (hreleased : t.fetcher.released = f.released) (hwaiting : t.fetcher.waiting = false)
    (hsent : t.sent = s.sent) (hanswered : t.answered = s.answered + 1) : Ledger t := by
  subst hf
  refine ⟨?_,?_⟩
  · rw [hsent,hreleased]
    exact h.requests
  · rw [hsent,hanswered,hwaiting,h.answered,hwaits]
    rfl

theorem send (h : Ledger s) (r : Request) (hf : s.fetcher = f) (hbefore : f.released = false)
    (hwaits : f.waiting = false) (hwaiting : t.fetcher.waiting = true)
    (hreleased : t.fetcher.released = decide (r = .release)) (hsent : t.sent = s.sent ++ [r])
    (hanswered : t.answered = s.answered) : Ledger t := by
  subst hf
  obtain ⟨before,hnot,hs⟩ := h.requests
  have hlength := h.answered
  rw [hwaits] at hlength
  rw [hbefore,if_neg Bool.false_ne_true,List.append_nil] at hs
  refine ⟨?_,?_⟩
  · rw [hsent,hs,hreleased]
    by_cases hr : r = .release
    · refine ⟨before,hnot,?_⟩
      rw [if_pos (decide_eq_true hr),hr]
    · refine ⟨before ++ [r],?_,?_⟩
      · rw [List.mem_append,List.mem_singleton]
        rintro (hmem | rfl)
        · exact hnot hmem
        · exact hr rfl
      · rw [if_neg (mt of_decide_eq_true hr),List.append_nil]
  · rw [hsent,List.length_append,hlength,hanswered,hwaiting]
    rfl

theorem move (h : Ledger s) (hmove : Move s t) : Ledger t := by
  cases hmove with
  | sendNext hf => exact h.send .next hf rfl rfl rfl rfl rfl rfl
  | sendError batch ch hf => exact h.send .error hf rfl rfl rfl rfl rfl rfl
  | sendRelease hf => exact h.send .release hf rfl rfl rfl rfl rfl rfl
  | nextFailed _ hf | nextEmpty hf | nextData _ hf | errorAnswered _ _ _ hf
  | releaseAnswered _ hf => exact h.answer hf rfl rfl rfl rfl rfl
  | recordNext _ hf | deliver _ hf | handOver _ _ _ hf | takeClose _ hf | recordError _ _ _ hf
  | signal _ _ hf | recordRelease _ hf | closeFetched hf | closeClosed hf =>
    exact h.same hf rfl rfl rfl rfl
  | errKnown caller | errReturn caller => cases caller <;> exact h.same rfl rfl rfl rfl rfl
  | _ => exact h.same rfl rfl rfl rfl rfl

theorem step (h : Ledger s) (hstep : Step s t) : Ledger t := by
  rcases hstep with hmove | hcall | hdb
  · exact h.move hmove
  · cases hcall <;> exact h.same rfl rfl rfl rfl rfl
  · cases hdb with
    | closed hdb => exact h.same rfl rfl rfl rfl rfl

end Ledger

theorem Reached.ledger {s : State} (h : Reached s) : Ledger s := by
  refine Reaches.invariant (P := Ledger) ?_ (fun s t h hstep => h.step hstep) h
  rintro s ⟨dbClosed,rfl⟩
  exact ⟨⟨[],List.not_mem_nil,rfl⟩,rfl⟩

/-! ## Channels -/

def Fetcher.fetchedClosed : Fetcher → Bool
  | .closeClosed | .done => true
  | _ => false

def Fetcher.isDone : Fetcher → Bool
  | .done => true
  | _ => false

def Consumer.closing : Consumer → Bool
  | .closeWait => true
  | _ => false

/-- `Close` has come to its call of `Error`. -/
def Consumer.afterClose : Consumer → Bool
  | .errGet .close | .errSelect .close _ | .errWait .close _ | .errGetAgain .close => true
  | _ => false

structure Channels (s : State) : Prop where
  fetchedData : s.fetchedData = s.fetcher.fetchedClosed
  onClosed : s.onClosed = s.fetcher.isDone
  onClose : s.onClose = (s.once || s.consumer.closing)
  once : s.once = true → s.onClosed = true
  closes : 0 < s.closes → s.once = true
  afterClose : s.consumer.afterClose = true → s.once = true

namespace Channels
variable {s t : State} {f : Fetcher} {c : Consumer}

theorem fetcher (h : Channels s) (hf : s.fetcher = f)
    (hfetched : t.fetcher.fetchedClosed = f.fetchedClosed) (hdone : t.fetcher.isDone = f.isDone)
    (hsame : (t.fetchedData,t.onClosed,t.onClose,t.once,t.closes,t.consumer) =
      (s.fetchedData,s.onClosed,s.onClose,s.once,s.closes,s.consumer)) : Channels t := by
  subst hf
  simp only [Prod.mk.injEq] at hsame
  obtain ⟨h1,h2,h3,h4,h5,h6⟩ := hsame
  refine ⟨?_,?_,?_,?_,?_,?_⟩
  · rw [h1,hfetched,h.fetchedData]
  · rw [h2,hdone,h.onClosed]
  · rw [h3,h4,h6,h.onClose]
  · rw [h4,h2]
    exact h.once
  · rw [h5,h4]
    exact h.closes
  · rw [h6,h4]
    exact h.afterClose

theorem consumer (h : Channels s) (hc : s.consumer = c) (hclosing : t.consumer.closing = c.closing)
    (hafter : t.consumer.afterClose = true → c.afterClose = true)
    (hcloses : t.closes = s.closes ∨ c.afterClose = true)
    (hsame : (t.fetchedData,t.onClosed,t.onClose,t.once,t.fetcher.fetchedClosed,t.fetcher.isDone) =
      (s.fetchedData,s.onClosed,s.onClose,s.once,s.fetcher.fetchedClosed,s.fetcher.isDone)) :
    Channels t := by
  subst hc
  simp only [Prod.mk.injEq] at hsame
  obtain ⟨h1,h2,h3,h4,h5,h6⟩ := hsame
  refine ⟨?_,?_,?_,?_,fun hpos => ?_,fun ha => ?_⟩
  · rw [h1,h5,h.fetchedData]
  · rw [h2,h6,h.onClosed]
  · rw [h3,h4,hclosing,h.onClose]
  · rw [h4,h2]
    exact h.once
  · rw [h4]
    rcases hcloses with heq | ha
    · exact h.closes (heq ▸ hpos)
    · exact h.afterClose ha
  · rw [h4]
    exact h.afterClose (hafter ha)

theorem returnTo (h : Channels s) (caller : Caller)
    (hc : s.consumer = .errGet caller ∨ s.consumer = .errGetAgain caller) :
    Channels (s.returnTo caller) := by
  rcases hc with hc | hc
  · cases caller with
    | error | valid => exact h.consumer hc rfl (fun ha => by cases ha) (.inl rfl) rfl
    | close => exact h.consumer hc rfl (fun ha => by cases ha) (.inr rfl) rfl
  · cases caller with
    | error | valid => exact h.consumer hc rfl (fun ha => by cases ha) (.inl rfl) rfl
    | close => exact h.consumer hc rfl (fun ha => by cases ha) (.inr rfl) rfl

theorem move (h : Channels s) (hmove : Move s t) : Channels t := by
  cases hmove with
  | sendNext hf | nextFailed _ hf | nextEmpty hf | nextData _ hf | recordNext _ hf
  | takeClose _ hf | sendError _ _ hf | errorAnswered _ _ _ hf | recordError _ _ _ hf
  | signal _ _ hf | sendRelease hf | releaseAnswered _ hf | recordRelease _ hf =>
    exact h.fetcher hf rfl rfl rfl
  | deliver batch hf hc =>
    exact h.consumer hc rfl (fun ha => by cases ha) (.inl rfl) (by rw [hf]; rfl)
  | handOver batch caller ch hf hc =>
    refine h.consumer hc rfl (fun ha => ?_) (.inl rfl) (by rw [hf]; rfl)
    cases caller <;> exact ha
  | closeFetched hf hopen =>
    refine ⟨rfl,?_,h.onClose,h.once,h.closes,h.afterClose⟩
    rw [h.onClosed,hf]
    rfl
  | closeClosed hf hopen =>
    refine ⟨?_,rfl,h.onClose,fun _ => rfl,h.closes,h.afterClose⟩
    rw [h.fetchedData,hf]
    rfl
  | errKnown caller e hc => exact h.returnTo caller (.inl hc)
  | errReturn caller hc => exact h.returnTo caller (.inr hc)
  | errAsk caller hc | errClosed caller ch hc | errUpdated caller ch hc =>
    refine h.consumer hc rfl (fun ha => ?_) (.inl rfl) rfl
    cases caller <;> exact ha
  | nextClosed hc | nextOpen hc | nextRecorded hc | receiveNothing hc =>
    exact h.consumer hc rfl (fun ha => by cases ha) (.inl rfl) rfl
  | closeFirst hc honce hopen =>
    refine ⟨h.fetchedData,h.onClosed,?_,h.once,h.closes,fun ha => by cases ha⟩
    exact (Bool.or_true _).symm
  | closeAgain hc honce =>
    refine ⟨h.fetchedData,h.onClosed,?_,h.once,h.closes,fun _ => honce⟩
    have hclose := h.onClose
    rw [hc] at hclose
    exact hclose
  | closeDone hc hclosed =>
    refine ⟨h.fetchedData,h.onClosed,?_,fun _ => hclosed,fun _ => rfl,fun _ => rfl⟩
    have hclose := h.onClose
    rw [hc,Consumer.closing,Bool.or_true] at hclose
    exact hclose

theorem step (h : Channels s) (hstep : Step s t) : Channels t := by
  rcases hstep with hmove | hcall | hdb
  · exact h.move hmove
  · cases hcall with
    | key _ hc | valid _ hc | error _ hc | next _ hc | close _ hc =>
      exact h.consumer hc rfl (fun ha => by cases ha) (.inl rfl) rfl
  · cases hdb with
    | closed hdb => exact ⟨h.fetchedData,h.onClosed,h.onClose,h.once,h.closes,h.afterClose⟩

end Channels

theorem Reached.channels {s : State} (h : Reached s) : Channels s := by
  refine Reaches.invariant (P := Channels) ?_ (fun s t h hstep => h.step hstep) h
  rintro s ⟨dbClosed,rfl⟩
  refine ⟨rfl,rfl,rfl,fun h => ?_,fun h => ?_,fun h => ?_⟩ <;> cases h

/-! ## Handing over -/

def Fetcher.asked : Fetcher → Option ℕ
  | .beginError _ ch | .awaitError _ ch | .recordError _ ch _ | .signal _ ch => some ch
  | _ => none

def Consumer.channel : Consumer → Option ℕ
  | .errSelect _ ch | .errWait _ ch => some ch
  | _ => none

/-- The user waits for a channel that is closed or that the goroutine is going to close, and
the goroutine closes only the channel that the user waits for. -/
structure Handover (s : State) : Prop where
  asked : ∀ ch, s.fetcher.asked = some ch →
    ch ∉ s.updated ∧ ∃ caller, s.consumer = .errWait caller ch
  waits : ∀ caller ch, s.consumer = .errWait caller ch →
    ch ∈ s.updated ∨ s.fetcher.asked = some ch
  fresh : ∀ caller ch, s.consumer = .errSelect caller ch → ch ∉ s.updated
  made : ∀ ch, s.consumer.channel = some ch → ch < s.channels
  closed : ∀ ch ∈ s.updated, ch < s.channels

namespace Handover
variable {s t : State} {f : Fetcher} {c : Consumer}

theorem fetcher (h : Handover s) (hf : s.fetcher = f) (hasked : t.fetcher.asked = f.asked)
    (hsame : (t.consumer,t.updated,t.channels) = (s.consumer,s.updated,s.channels)) :
    Handover t := by
  subst hf
  simp only [Prod.mk.injEq] at hsame
  obtain ⟨h1,h2,h3⟩ := hsame
  refine ⟨?_,?_,?_,?_,?_⟩
  · rw [hasked,h1,h2]
    exact h.asked
  · rw [hasked,h1,h2]
    exact h.waits
  · rw [h1,h2]
    exact h.fresh
  · rw [h1,h3]
    exact h.made
  · rw [h2,h3]
    exact h.closed

theorem apart (h : Handover s) (hc : s.consumer = c) (hbefore : ∀ caller ch, c ≠ .errWait caller ch)
    (hafter : t.consumer.channel = none) (hfetcher : t.fetcher = s.fetcher)
    (hsame : (t.updated,t.channels) = (s.updated,s.channels)) : Handover t := by
  subst hc
  simp only [Prod.mk.injEq] at hsame
  obtain ⟨h1,h2⟩ := hsame
  refine ⟨fun ch hch => ?_,fun caller ch hch => ?_,fun caller ch hch => ?_,fun ch hch => ?_,?_⟩
  · rw [hfetcher] at hch
    obtain ⟨_,caller,hwait⟩ := h.asked ch hch
    exact absurd hwait (hbefore caller ch)
  · rw [hch] at hafter
    cases hafter
  · rw [hch] at hafter
    cases hafter
  · rw [hch] at hafter
    cases hafter
  · rw [h1,h2]
    exact h.closed

theorem returnTo (h : Handover s) (caller : Caller)
    (hc : s.consumer = .errGet caller ∨ s.consumer = .errGetAgain caller) :
    Handover (s.returnTo caller) := by
  rcases hc with hc | hc
  · cases caller <;> exact h.apart hc (fun _ _ heq => by cases heq) rfl rfl rfl
  · cases caller <;> exact h.apart hc (fun _ _ heq => by cases heq) rfl rfl rfl

theorem move (h : Handover s) (hmove : Move s t) : Handover t := by
  cases hmove with
  | sendNext hf | nextFailed _ hf | nextEmpty hf | nextData _ hf | recordNext _ hf
  | takeClose _ hf | sendError _ _ hf | errorAnswered _ _ _ hf | recordError _ _ _ hf
  | sendRelease hf | releaseAnswered _ hf | recordRelease _ hf | closeFetched hf
  | closeClosed hf => exact h.fetcher hf rfl rfl
  | deliver batch hf hc =>
    refine ⟨fun ch hch => ?_,fun caller ch hch => ?_,fun caller ch hch => ?_,fun ch hch => ?_,
      h.closed⟩
    · cases hch
    · cases hch
    · cases hch
    · cases hch
  | handOver batch caller ch hf hc =>
    refine ⟨fun ch' hch => ?_,fun caller' ch' hch => ?_,fun caller' ch' hch => ?_,
      fun ch' hch => ?_,h.closed⟩
    · cases hch
      exact ⟨h.fresh caller ch hc,caller,rfl⟩
    · cases hch
      exact .inr rfl
    · cases hch
    · cases hch
      refine h.made ch ?_
      rw [hc]
      rfl
  | signal batch ch hf hopen =>
    obtain ⟨_,caller,hwait⟩ := h.asked ch (by rw [hf]; rfl)
    have hmade := h.made ch (by rw [hwait]; rfl)
    refine ⟨fun ch' hch => ?_,fun caller' ch' hch => ?_,fun caller' ch' hch => ?_,h.made,
      List.forall_mem_cons.mpr ⟨hmade,h.closed⟩⟩
    · cases hch
    · cases hwait.symm.trans hch
      exact .inl List.mem_cons_self
    · cases hwait.symm.trans hch
  | errKnown caller e hc => exact h.returnTo caller (.inl hc)
  | errReturn caller hc => exact h.returnTo caller (.inr hc)
  | errAsk caller hc herr =>
    refine ⟨fun ch hch => ?_,fun caller' ch hch => ?_,fun caller' ch hch hmem => ?_,
      fun ch hch => ?_,fun ch hmem => Nat.lt_succ_of_lt (h.closed ch hmem)⟩
    · obtain ⟨_,caller',hwait⟩ := h.asked ch hch
      cases hc.symm.trans hwait
    · cases hch
    · cases hch
      exact Nat.lt_irrefl _ (h.closed s.channels hmem)
    · cases hch
      exact Nat.lt_succ_self _
  | errUpdated caller ch hc hupdated =>
    refine ⟨fun ch' hch => ?_,fun caller' ch' hch => ?_,fun caller' ch' hch => ?_,
      fun ch' hch => ?_,h.closed⟩
    · obtain ⟨hopen,caller',hwait⟩ := h.asked ch' hch
      cases hc.symm.trans hwait
      exact absurd hupdated hopen
    · cases hch
    · cases hch
    · cases hch
  | errClosed caller ch hc | nextClosed hc | nextOpen hc | nextRecorded hc | receiveNothing hc
  | closeFirst hc | closeAgain hc | closeDone hc =>
    exact h.apart hc (fun _ _ heq => by cases heq) rfl rfl rfl

theorem step (h : Handover s) (hstep : Step s t) : Handover t := by
  rcases hstep with hmove | hcall | hdb
  · exact h.move hmove
  · cases hcall with
    | key _ hc | valid _ hc | error _ hc | next _ hc | close _ hc =>
      exact h.apart hc (fun _ _ heq => by cases heq) rfl rfl rfl
  · cases hdb with
    | closed hdb => exact ⟨h.asked,h.waits,h.fresh,h.made,h.closed⟩

end Handover

theorem Reached.handover {s : State} (h : Reached s) : Handover s := by
  refine Reaches.invariant (P := Handover) ?_ (fun s t h hstep => h.step hstep) h
  rintro s ⟨dbClosed,rfl⟩
  refine ⟨fun ch hch => ?_,fun caller ch hch => ?_,fun caller ch hch => ?_,fun ch hch => ?_,
    fun ch hch => ?_⟩ <;> cases hch

/-! ## The first error -/

theorem State.returnTo_err (s : State) (caller : Caller) : (s.returnTo caller).err = s.err := by
  cases caller <;> rfl

theorem Step.err_eq {s t : State} (h : Step s t) {e : DBError} (he : s.err = some e) :
    t.err = some e := by
  have hset : ∀ e' : Option DBError, s.err.or e' = some e := by
    intro e'
    rw [he,Option.some_or]
  rcases h with hmove | hcall | hdb
  · cases hmove with
    | recordNext e' hf => exact hset (some e')
    | recordError batch ch e' hf => exact hset e'
    | recordRelease e' hf => exact hset e'
    | nextRecorded hc => exact hset (some .closed)
    | errKnown caller | errReturn caller => rwa [State.returnTo_err]
    | _ => exact he
  · cases hcall <;> exact he
  · cases hdb with
    | closed hdb => exact he

/-! ## The user returns -/

def Consumer.isIdle : Consumer → Bool
  | .idle _ => true
  | _ => false

/-- However the threads go on, the user is back from the call after finitely many steps: until
then a thread can take a step. -/
inductive Returns : State → Prop
  | idle {s : State} (h : s.consumer.isIdle = true) : Returns s
  | later {s : State} (hmove : ∃ t, Move s t) (hall : ∀ t, Move s t ∨ CloseDB s t → Returns t) :
      Returns s

def Consumer.rank : Consumer → ℕ
  | .idle _ => 0
  | .errGetAgain _ | .nextReceive => 1
  | .errWait _ _ | .nextRecord => 2
  | .errSelect _ _ | .nextCheck => 3
  | .errGet _ => 4
  | .closeWait => 5
  | .closeOnce => 6

def Fetcher.rank : Fetcher → ℕ
  | .done => 0
  | .closeClosed => 1
  | .closeFetched => 2
  | .recordRelease _ => 3
  | .awaitRelease => 4
  | .beginRelease => 5
  | .offer _ | .recordNext _ => 6
  | .awaitNext | .signal _ _ => 7
  | .loop | .recordError _ _ _ => 8
  | .awaitError _ _ => 9
  | .beginError _ _ => 10

/-- The goroutine comes to a place at which it waits for the user, so the steps of the user
count more. -/
def State.measure (s : State) : ℕ :=
  12 * s.consumer.rank + s.fetcher.rank + if s.dbClosed then 0 else 1

theorem State.returnTo_measure (s : State) (caller : Caller) :
    (s.returnTo caller).measure = s.fetcher.rank + if s.dbClosed then 0 else 1 := by
  cases caller <;> exact congrArg (· + _) (Nat.zero_add _)

theorem Move.measure_lt {s t : State} (h : Move s t) : t.measure < s.measure := by
  cases h with
  | errKnown caller e hc | errReturn caller hc =>
    rw [State.returnTo_measure,State.measure,hc,Consumer.rank]
    omega
  | deliver batch hf hc | handOver batch caller ch hf hc =>
    simp only [State.measure,hf,hc,Consumer.rank,Fetcher.rank]
    omega
  | sendNext hf | nextFailed _ hf | nextEmpty hf | nextData _ hf | recordNext _ hf
  | takeClose _ hf | sendError _ _ hf | errorAnswered _ _ _ hf | recordError _ _ _ hf
  | signal _ _ hf | sendRelease hf | releaseAnswered _ hf | recordRelease _ hf | closeFetched hf
  | closeClosed hf =>
    simp only [State.measure,State.setError,hf,Fetcher.rank]
    omega
  | errAsk _ hc | errClosed _ _ hc | errUpdated _ _ hc | nextClosed hc | nextOpen hc
  | nextRecorded hc | receiveNothing hc | closeFirst hc | closeAgain hc | closeDone hc =>
    simp only [State.measure,State.setError,hc,Consumer.rank]
    omega

theorem CloseDB.measure_lt {s t : State} (h : CloseDB s t) : t.measure < s.measure := by
  cases h with
  | closed hdb =>
    simp only [State.measure,hdb]
    exact Nat.lt_succ_self _

theorem Reached.step {s t : State} (h : Reached s) (hstep : Step s t) : Reached t :=
  Reaches.step h hstep

/-- The goroutine can take a step, unless it offers a batch or has ended. -/
theorem Reached.fetcher_moves {s : State} (h : Reached s) :
    (∃ t, Move s t) ∨ (∃ batch, s.fetcher = .offer batch) ∨ s.fetcher = .done := by
  have hchannels := h.channels
  cases hf : s.fetcher with
  | loop => exact .inl ⟨_,.sendNext hf⟩
  | awaitNext => exact .inl ⟨_,.nextEmpty hf⟩
  | recordNext e => exact .inl ⟨_,.recordNext e hf⟩
  | offer batch => exact .inr (.inl ⟨batch,rfl⟩)
  | beginError batch ch => exact .inl ⟨_,.sendError batch ch hf⟩
  | awaitError batch ch => exact .inl ⟨_,.errorAnswered batch ch (.ok .unspecified) hf⟩
  | recordError batch ch e => exact .inl ⟨_,.recordError batch ch e hf⟩
  | signal batch ch =>
    have hopen := (h.handover.asked ch (by rw [hf]; rfl)).1
    exact .inl ⟨_,.signal batch ch hf hopen⟩
  | beginRelease => exact .inl ⟨_,.sendRelease hf⟩
  | awaitRelease => exact .inl ⟨_,.releaseAnswered (.ok .unspecified) hf⟩
  | recordRelease e => exact .inl ⟨_,.recordRelease e hf⟩
  | closeFetched =>
    have hopen := hchannels.fetchedData
    rw [hf] at hopen
    exact .inl ⟨_,.closeFetched hf hopen⟩
  | closeClosed =>
    have hopen := hchannels.onClosed
    rw [hf] at hopen
    exact .inl ⟨_,.closeClosed hf hopen⟩
  | done => exact .inr (.inr rfl)

/-- As long as the user is inside a call, a thread can take a step: where the user waits, the
goroutine can take one or has done what the user waits for. -/
theorem Reached.exists_move {s : State} (h : Reached s) (hbusy : s.consumer.isIdle = false) :
    ∃ t, Move s t := by
  have hchannels := h.channels
  cases hc : s.consumer with
  | idle result =>
    rw [hc] at hbusy
    cases hbusy
  | errGet caller =>
    cases herr : s.err with
    | none => exact ⟨_,.errAsk caller hc herr⟩
    | some e => exact ⟨_,.errKnown caller e hc herr⟩
  | errGetAgain caller => exact ⟨_,.errReturn caller hc⟩
  | nextCheck =>
    cases hdb : s.dbClosed with
    | false => exact ⟨_,.nextOpen hc hdb⟩
    | true => exact ⟨_,.nextClosed hc hdb⟩
  | nextRecord => exact ⟨_,.nextRecorded hc⟩
  | closeOnce =>
    cases honce : s.once with
    | true => exact ⟨_,.closeAgain hc honce⟩
    | false =>
      have hopen := hchannels.onClose
      rw [honce,hc] at hopen
      exact ⟨_,.closeFirst hc honce hopen⟩
  | errSelect caller ch =>
    rcases h.fetcher_moves with hmove | ⟨batch,hf⟩ | hf
    · exact hmove
    · exact ⟨_,.handOver batch caller ch hf hc⟩
    · exact ⟨_,.errClosed caller ch hc (by rw [hchannels.onClosed,hf]; rfl)⟩
  | errWait caller ch =>
    rcases h.handover.waits caller ch hc with hupdated | hasked
    · exact ⟨_,.errUpdated caller ch hc hupdated⟩
    · rcases h.fetcher_moves with hmove | ⟨batch,hf⟩ | hf
      · exact hmove
      · rw [hf] at hasked
        cases hasked
      · rw [hf] at hasked
        cases hasked
  | nextReceive =>
    rcases h.fetcher_moves with hmove | ⟨batch,hf⟩ | hf
    · exact hmove
    · exact ⟨_,.deliver batch hf hc⟩
    · exact ⟨_,.receiveNothing hc (by rw [hchannels.fetchedData,hf]; rfl)⟩
  | closeWait =>
    rcases h.fetcher_moves with hmove | ⟨batch,hf⟩ | hf
    · exact hmove
    · refine ⟨_,.takeClose batch hf ?_⟩
      rw [hchannels.onClose,hc,Consumer.closing,Bool.or_true]
    · exact ⟨_,.closeDone hc (by rw [hchannels.onClosed,hf]; rfl)⟩

theorem Reached.returns {s : State} (h : Reached s) : Returns s := by
  induction hn : s.measure using Nat.strong_induction_on generalizing s with
  | h n ih =>
    cases hidle : s.consumer.isIdle with
    | true => exact .idle hidle
    | false =>
      refine .later (h.exists_move hidle) fun t ht => ?_
      rcases ht with hmove | hdb
      · exact ih t.measure (hn ▸ hmove.measure_lt) (h.step (.inl hmove)) rfl
      · exact ih t.measure (hn ▸ hdb.measure_lt) (h.step (.inr (.inr hdb))) rfl

/-! ## The protocol -/

theorem Ledger.count_release {s : State} (h : Ledger s) : s.sent.count .release ≤ 1 := by
  obtain ⟨before,hnot,hsent⟩ := h.requests
  rw [hsent,List.count_append,List.count_eq_zero.mpr hnot,Nat.zero_add]
  split <;> decide

theorem Ledger.release_last {s : State} (h : Ledger s) {before after : List Request}
    (hsent : s.sent = before ++ .release :: after) : after = [] := by
  obtain ⟨requests,hnot,hs⟩ := h.requests
  rw [hsent] at hs
  rcases List.append_eq_append_iff.mp hs with ⟨more,rfl,hrest⟩ | ⟨more,rfl,hrest⟩
  · cases more with
    | nil =>
      split at hrest
      · exact (List.cons.inj hrest).2
      · cases hrest
    | cons r more =>
      obtain ⟨rfl,_⟩ := List.cons.inj hrest
      exact absurd (List.mem_append_right _ List.mem_cons_self) hnot
  · split at hrest
    · cases more with
      | nil => exact (List.cons.inj hrest).2.symm
      | cons r more =>
        have hlength := congrArg List.length hrest
        simp at hlength
    · have hlength := congrArg List.length hrest
      simp at hlength

theorem Reached.release_of_close {s : State} (h : Reached s) (hcloses : 0 < s.closes) :
    .release ∈ s.sent := by
  have hchannels := h.channels
  have hdone : s.fetcher.isDone = true := by
    rw [← hchannels.onClosed]
    exact hchannels.once (hchannels.closes hcloses)
  obtain ⟨before,_,hsent⟩ := h.ledger.requests
  cases hf : s.fetcher with
  | done =>
    rw [hsent,hf]
    exact List.mem_append_right _ List.mem_cons_self
  | _ =>
    rw [hf] at hdone
    cases hdone

/-- In every state that any interleaving of the two threads reaches. -/
theorem close_protocol (s : State) (h : Reached s) :
    s.sent.count .release ≤ 1 ∧ (0 < s.closes → .release ∈ s.sent) ∧
    (∀ before after, s.sent = before ++ .release :: after → after = []) ∧
    (s.answered ≤ s.sent.length ∧ s.sent.length ≤ s.answered + 1) ∧
    (∀ t e, Relation.ReflTransGen Step s t → s.err = some e → t.err = some e) ∧
    Returns s := by
  refine ⟨h.ledger.count_release,h.release_of_close,fun _ _ => h.ledger.release_last,?_,
    fun t e hlater he => ?_,h.returns⟩
  · have hanswered := h.ledger.answered
    split at hanswered <;> omega
  · induction hlater with
    | refl => exact he
    | tail _ hstep ih => exact hstep.err_eq ih

namespace Sample

theorem closed_reached : ∃ s, Reached s ∧ s.closes = 1 ∧ s.sent = [.next,.release] := by
  have hstart : Reached (start false) := .start ⟨false,rfl⟩
  have hcall := hstart.step (.inr (.inl (.close _ rfl)))
  have hclose := hcall.step (.inl (.closeFirst rfl rfl rfl))
  have hnext := hclose.step (.inl (.sendNext rfl))
  have hoffer := hnext.step (.inl (.nextData [⟨[1],[7]⟩] rfl (List.cons_ne_nil _ _)))
  have htake := hoffer.step (.inl (.takeClose _ rfl rfl))
  have hsent := htake.step (.inl (.sendRelease rfl))
  have hanswered := hsent.step (.inl (.releaseAnswered (.ok .unspecified) rfl))
  have hrecorded := hanswered.step (.inl (.recordRelease _ rfl))
  have hfetched := hrecorded.step (.inl (.closeFetched rfl rfl))
  have hclosed := hfetched.step (.inl (.closeClosed rfl rfl))
  have hdone := hclosed.step (.inl (.closeDone rfl rfl))
  have hask := hdone.step (.inl (.errAsk .close rfl rfl))
  have hselect := hask.step (.inl (.errClosed .close _ rfl rfl))
  exact ⟨_,hselect.step (.inl (.errReturn .close rfl)),rfl,rfl⟩

/-- Once it has returned the iterator is released, and nothing more is sent. -/
theorem closed_released : ∃ s, Reached s ∧ s.closes = 1 ∧ .release ∈ s.sent ∧ Returns s := by
  obtain ⟨s,hs,hcloses,_⟩ := closed_reached
  have h := close_protocol s hs
  exact ⟨s,hs,hcloses,h.2.1 (by rw [hcloses]; exact Nat.one_pos),h.2.2.2.2.2⟩

end Sample
end Landslide.Database.Protocol
