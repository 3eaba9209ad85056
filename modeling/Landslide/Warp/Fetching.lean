import Landslide.Lib.Threads
import Landslide.Lib.Transition
import Landslide.Warp.Aggregator

/-! # The goroutines of the aggregator

Every validator has a goroutine that fetches its signature and then sends the result over a
channel without a buffer. The collector receives until the quorum is met. After that nobody
receives, so a goroutine that comes to its send later stays there for ever.
-/
namespace Landslide.Warp
variable {PK Sig : Type}

/-- Where the goroutine of a validator is: in `GetSignature`, at the send of its result, or
done. -/
inductive Place (Sig : Type) where
  | fetching
  | sending (result : Option (SignatureFetchResult Sig))
  | done

/-- Where `AggregateSignatures` is: in the loop over the channel, behind it, or returned. -/
inductive CollectorPhase where
  | collecting
  | leaving
  | returned
  deriving DecidableEq

theorem leaving_ne_collecting : CollectorPhase.leaving ≠ .collecting := by decide

theorem returned_ne_collecting : CollectorPhase.returned ≠ .collecting := by decide

structure Fetching (Sig : Type) where
  phase : CollectorPhase
  place : ℕ → Place Sig
  /-- What has been received, in the order of arrival. -/
  results : List (Option (SignatureFetchResult Sig))
  acc : Collected Sig
  signaturesPassedThreshold : Bool

inductive FetchEvent (Sig : Type) where
  /-- `GetSignature` of the validator at this index returns. -/
  | answer (i : ℕ) (answer : Except String Sig)
  /-- The goroutine's send and the collector's receive, which take place together. -/
  | receive (i : ℕ)
  | finish

namespace Fetching
variable (blst : Blst PK Sig) (a : Aggregator PK Sig) (msg : UnsignedMessage) (quorumNum : UInt64)

/-- All goroutines are started before the loop. -/
def start : Fetching Sig where
  phase := if a.validators.length = 0 then .leaving else .collecting
  place _ := .fetching
  results := []
  acc := ⟨[],0,0⟩
  signaturesPassedThreshold := false

def continueLoop (s : Fetching Sig) (acc : Collected Sig) : Fetching Sig :=
  { s with phase := if s.results.length < a.validators.length then .collecting else .leaving, acc }

/-- One turn of the loop, with what it has received. -/
def collectResult (s : Fetching Sig) (result : Option (SignatureFetchResult Sig)) : Fetching Sig :=
  let heard := { s with results := s.results ++ [result] }
  match result with
  | none => heard.continueLoop a s.acc
  | some r =>
    match verifyWeight (s.acc.add r).signaturesWeight a.totalWeight quorumNum
        warpQuorumDenominator with
    | .ok () =>
      { heard with phase := .leaving, acc := s.acc.add r, signaturesPassedThreshold := true }
    | .error _ => heard.continueLoop a (s.acc.add r)

def setPlace (s : Fetching Sig) (i : ℕ) (p : Place Sig) : Fetching Sig :=
  { s with place := Function.update s.place i p }

def step (s : Fetching Sig) : FetchEvent Sig → Fetching Sig
  | .answer i answer => match a.validators[i]? with
    | none => s
    | some validator =>
      s.setPlace i (.sending (fetchSignature blst (fun _ _ => answer) msg validator i))
  | .receive i => match s.place i with
    | .sending result => (s.setPlace i .done).collectResult a quorumNum result
    | _ => s
  | .finish => { s with phase := .returned }

def Enabled (s : Fetching Sig) : FetchEvent Sig → Prop
  | .answer i _ => i < a.validators.length ∧ s.place i = .fetching
  | .receive i => s.phase = .collecting ∧ i < a.validators.length ∧
      ∃ result, s.place i = .sending result
  | .finish => s.phase = .leaving

def Reached : Fetching Sig → Prop :=
  Reaches (· = start a) (Enabled a) (step blst a msg quorumNum)

/-- Whatever happens, the goroutine is still at its send. -/
def BlockedForever (s : Fetching Sig) (i : ℕ) : Prop :=
  ∃ result, s.place i = .sending result ∧ ∀ events t,
    Steps (Enabled a) (step blst a msg quorumNum) s events t → t.place i = .sending result

end Fetching

/-! ## Sends and receives -/

/-- Whether the goroutine has sent its result. -/
def Place.sent : Place Sig → ℕ
  | .done => 1
  | _ => 0

namespace Fetching
variable {blst : Blst PK Sig} {a : Aggregator PK Sig} {msg : UnsignedMessage} {quorumNum : UInt64}
variable {s t : Fetching Sig}

@[simp] theorem collectResult_place (s : Fetching Sig)
    (result : Option (SignatureFetchResult Sig)) :
    (s.collectResult a quorumNum result).place = s.place := by
  cases result with
  | none => rfl
  | some r =>
    unfold collectResult
    dsimp only
    split
    · rfl
    · rfl

@[simp] theorem collectResult_results (s : Fetching Sig)
    (result : Option (SignatureFetchResult Sig)) :
    (s.collectResult a quorumNum result).results = s.results ++ [result] := by
  cases result with
  | none => rfl
  | some r =>
    unfold collectResult
    dsimp only
    split
    · rfl
    · rfl

def Counted (a : Aggregator PK Sig) (s : Fetching Sig) : Prop :=
  totalOf Place.sent a.validators.length s.place = s.results.length

theorem counted_start (a : Aggregator PK Sig) : (start a).Counted a :=
  totalOf_eq_zero fun _ => rfl

theorem totalOf_setPlace (s : Fetching Sig) {i n : ℕ} (hi : i < n) (p : Place Sig) :
    totalOf Place.sent n (s.setPlace i p).place + (s.place i).sent =
      totalOf Place.sent n s.place + p.sent :=
  totalOf_update hi p

theorem Counted.step (h : s.Counted a) {e : FetchEvent Sig} (he : s.Enabled a e) :
    (s.step blst a msg quorumNum e).Counted a := by
  cases e with
  | answer i answer =>
    obtain ⟨hi,hplace⟩ := he
    have hsent := totalOf_setPlace s hi
      (.sending (fetchSignature blst (fun _ _ => answer) msg a.validators[i] i))
    rw [hplace] at hsent
    rw [Fetching.step,List.getElem?_eq_getElem hi]
    exact hsent.trans h
  | receive i =>
    obtain ⟨_,hi,result,hplace⟩ := he
    have hsent := totalOf_setPlace s hi .done
    rw [hplace] at hsent
    rw [Counted,Fetching.step,hplace,collectResult_place,collectResult_results,List.length_append]
    exact hsent.trans (congrArg (· + 1) h)
  | finish => exact h

theorem Reached.counted (h : s.Reached blst a msg quorumNum) : s.Counted a :=
  Reaches.invariant (fun _ hs => hs ▸ counted_start a) (fun _ _ ht he => ht.step he) h

/-! ## After the return -/

theorem step_returned (h : s.phase = .returned) {e : FetchEvent Sig} (he : s.Enabled a e) :
    (s.step blst a msg quorumNum e).phase = .returned ∧
      (s.step blst a msg quorumNum e).results = s.results ∧
      ∀ i result, s.place i = .sending result →
        (s.step blst a msg quorumNum e).place i = .sending result := by
  cases e with
  | answer i answer =>
    obtain ⟨hi,hplace⟩ := he
    rw [step,List.getElem?_eq_getElem hi]
    refine ⟨h,rfl,fun j result hj => ?_⟩
    have hne : j ≠ i := by
      rintro rfl
      rw [hplace] at hj
      cases hj
    exact (Function.update_of_ne hne _ _).trans hj
  | receive i =>
    obtain ⟨hphase,_⟩ := he
    rw [h] at hphase
    cases hphase
  | finish =>
    have hphase : s.phase = .leaving := he
    rw [h] at hphase
    cases hphase

theorem steps_returned {events : List (FetchEvent Sig)} (h : s.phase = .returned)
    (hsteps : Steps (Enabled a) (step blst a msg quorumNum) s events t) :
    t.phase = .returned ∧ t.results = s.results ∧
      ∀ i result, s.place i = .sending result → t.place i = .sending result := by
  induction hsteps with
  | nil s => exact ⟨h,rfl,fun _ _ hi => hi⟩
  | cons he _ ih =>
    obtain ⟨hphase,hresults,hplace⟩ := step_returned h he
    obtain ⟨hphase',hresults',hplace'⟩ := ih hphase
    exact ⟨hphase',hresults'.trans hresults,fun i result hi => hplace' i result (hplace i result hi)⟩

theorem blockedForever_of_returned (h : s.phase = .returned) {i : ℕ}
    {result : Option (SignatureFetchResult Sig)} (hi : s.place i = .sending result) :
    s.BlockedForever blst a msg quorumNum i :=
  ⟨result,hi,fun _ _ hsteps => (steps_returned h hsteps).2.2 i result hi⟩

theorem Counted.all_done (h : s.Counted a) (hresults : s.results.length = a.validators.length)
    {i : ℕ} (hi : i < a.validators.length) : s.place i = .done := by
  by_contra hne
  have hzero : (s.place i).sent = 0 := by
    cases hplace : s.place i with
    | done => exact absurd hplace hne
    | fetching => rfl
    | sending result => rfl
  have hlt : totalOf Place.sent a.validators.length s.place < a.validators.length := by
    calc totalOf Place.sent a.validators.length s.place
      _ < ∑ j ∈ Finset.range a.validators.length, 1 := by
        refine Finset.sum_lt_sum (fun j _ => ?_) ⟨i,Finset.mem_range.mpr hi,by rw [hzero]; decide⟩
        cases s.place j with
        | done => exact le_rfl
        | fetching => exact Nat.zero_le _
        | sending result => exact Nat.zero_le _
      _ = a.validators.length := by simp
  rw [Counted] at h
  omega

theorem Counted.exists_not_done (h : s.Counted a)
    (hresults : s.results.length ≠ a.validators.length) :
    ∃ i, i < a.validators.length ∧ s.place i ≠ .done := by
  by_contra hnone
  push Not at hnone
  have hall : totalOf Place.sent a.validators.length s.place = a.validators.length := by
    calc totalOf Place.sent a.validators.length s.place
      _ = ∑ j ∈ Finset.range a.validators.length, 1 :=
        Finset.sum_congr rfl fun j hj => by rw [hnone j (Finset.mem_range.mp hj)]; rfl
      _ = a.validators.length := by simp
  exact hresults (h.symm.trans hall)

/-! ## The arrivals -/

def Accumulated (a : Aggregator PK Sig) (quorumNum : UInt64) (s : Fetching Sig) : Prop :=
  if s.signaturesPassedThreshold then
    s.phase ≠ .collecting ∧ collect a.totalWeight quorumNum s.results ⟨[],0,0⟩ = some s.acc
  else ∀ rest, collect a.totalWeight quorumNum (s.results ++ rest) ⟨[],0,0⟩ =
    collect a.totalWeight quorumNum rest s.acc

theorem Accumulated.collectResult (h : s.Accumulated a quorumNum) (hphase : s.phase = .collecting)
    (result : Option (SignatureFetchResult Sig)) :
    (s.collectResult a quorumNum result).Accumulated a quorumNum := by
  have hpassed : s.signaturesPassedThreshold = false := by
    by_contra hne
    rw [Accumulated,if_pos (by simpa using hne)] at h
    exact h.1 hphase
  rw [Accumulated,hpassed,if_neg Bool.false_ne_true] at h
  unfold Fetching.collectResult
  cases result with
  | none =>
    dsimp only [continueLoop]
    rw [Accumulated,hpassed,if_neg Bool.false_ne_true]
    intro rest
    rw [List.append_assoc,h]
    rfl
  | some r =>
    dsimp only
    cases hverify : verifyWeight (s.acc.add r).signaturesWeight a.totalWeight quorumNum
        warpQuorumDenominator with
    | ok u =>
      rw [Accumulated,if_pos rfl,h,collect,hverify]
      exact ⟨leaving_ne_collecting,rfl⟩
    | error e =>
      dsimp only [continueLoop]
      rw [Accumulated,hpassed,if_neg Bool.false_ne_true]
      intro rest
      rw [List.append_assoc,h,List.singleton_append,collect,hverify]

theorem Accumulated.step (h : s.Accumulated a quorumNum) {e : FetchEvent Sig}
    (he : s.Enabled a e) : (s.step blst a msg quorumNum e).Accumulated a quorumNum := by
  cases e with
  | answer i answer =>
    rw [Fetching.step,List.getElem?_eq_getElem he.1]
    exact h
  | receive i =>
    obtain ⟨hphase,_,result,hplace⟩ := he
    have hmoved : (s.setPlace i .done).Accumulated a quorumNum := h
    rw [Fetching.step,hplace]
    exact hmoved.collectResult hphase result
  | finish =>
    unfold Accumulated at h ⊢
    split at h
    · next hpassed => exact (if_pos hpassed).mpr ⟨returned_ne_collecting,h.2⟩
    · next hpassed => exact (if_neg hpassed).mpr h

/-- The collector returns what the loop over the arrivals gives, in the order in which the
goroutines got to send. -/
theorem Reached.collect_results (h : s.Reached blst a msg quorumNum) :
    collect a.totalWeight quorumNum s.results ⟨[],0,0⟩ =
      if s.signaturesPassedThreshold then some s.acc else none := by
  have hinv : s.Accumulated a quorumNum := by
    refine Reaches.invariant (P := Accumulated a quorumNum) (fun t ht => ?_)
      (fun _ _ ht he => ht.step he) h
    obtain rfl : t = start a := ht
    exact fun rest => rfl
  unfold Accumulated at hinv
  split at hinv
  · next hpassed => rw [if_pos hpassed,hinv.2]
  · next hpassed =>
    have hnone := hinv []
    rw [List.append_nil] at hnone
    rw [if_neg hpassed,hnone]
    rfl

structure Heard (blst : Blst PK Sig) (a : Aggregator PK Sig) (msg : UnsignedMessage)
    (quorumNum : UInt64) (s : Fetching Sig) : Prop where
  reached : s.Reached blst a msg quorumNum
  collecting : s.phase = .collecting ↔
    s.signaturesPassedThreshold = false ∧ s.results.length < a.validators.length
  bounded : s.results.length ≤ a.validators.length
  below : ∀ n, n < s.results.length →
    collect a.totalWeight quorumNum (s.results.take n) ⟨[],0,0⟩ = none

theorem collectResult_collecting (h : s.signaturesPassedThreshold = false)
    (result : Option (SignatureFetchResult Sig)) :
    (s.collectResult a quorumNum result).phase = .collecting ↔
      (s.collectResult a quorumNum result).signaturesPassedThreshold = false ∧
        s.results.length + 1 < a.validators.length := by
  unfold collectResult
  cases result with
  | none => simp [continueLoop,h]
  | some r =>
    dsimp only
    split
    · simp
    · simp [continueLoop,h]

theorem Heard.step (h : s.Heard blst a msg quorumNum) {e : FetchEvent Sig} (he : s.Enabled a e) :
    (s.step blst a msg quorumNum e).Heard blst a msg quorumNum := by
  have hnext := h.reached.step he
  cases e with
  | answer i answer =>
    rw [Fetching.step,List.getElem?_eq_getElem he.1] at hnext ⊢
    exact ⟨hnext,h.collecting,h.bounded,h.below⟩
  | finish =>
    have hphase : s.phase = .leaving := he
    refine ⟨hnext,iff_of_false returned_ne_collecting fun hopen => ?_,h.bounded,h.below⟩
    rw [h.collecting.mpr hopen] at hphase
    cases hphase
  | receive i =>
    obtain ⟨hphase,_,result,hplace⟩ := he
    obtain ⟨hpassed,hlt⟩ := h.collecting.mp hphase
    have hmoved : (s.setPlace i .done).signaturesPassedThreshold = false := hpassed
    rw [Fetching.step,hplace] at hnext ⊢
    refine ⟨hnext,?_,?_,fun n hn => ?_⟩
    · dsimp only
      rw [collectResult_collecting hmoved,collectResult_results,List.length_append]
      rfl
    · rw [collectResult_results,List.length_append]
      exact hlt
    · rw [collectResult_results,List.length_append] at hn
      rw [collectResult_results,List.take_append_of_le_length (Nat.le_of_lt_succ hn)]
      -- the results so far are below the quorum, or the loop would have been left
      rcases Nat.lt_succ_iff_lt_or_eq.mp hn with hbefore | rfl
      · exact h.below n hbefore
      · have hsofar := h.reached.collect_results
        rw [hpassed,if_neg Bool.false_ne_true] at hsofar
        exact (List.take_length (l := s.results)).symm ▸ hsofar

theorem Reached.heard (h : s.Reached blst a msg quorumNum) : s.Heard blst a msg quorumNum := by
  refine Reaches.invariant (P := Heard blst a msg quorumNum) (fun t ht => ?_)
    (fun _ _ ht he => ht.step he) h
  obtain rfl : t = start a := ht
  refine ⟨.start rfl,?_,Nat.zero_le _,fun n hn => absurd hn (Nat.not_lt_zero n)⟩
  simp [start,Nat.pos_iff_ne_zero]

theorem Reached.heard_all_iff (h : s.Reached blst a msg quorumNum)
    (hreturned : s.phase = .returned) :
    s.results.length = a.validators.length ↔ ∀ n, n < a.validators.length →
      collect a.totalWeight quorumNum (s.results.take n) ⟨[],0,0⟩ = none := by
  constructor
  · exact fun hall n hn => h.heard.below n (hall ▸ hn)
  · intro hbelow
    by_contra hne
    have hlt := lt_of_le_of_ne h.heard.bounded hne
    have hnone := hbelow _ hlt
    rw [List.take_length,h.collect_results] at hnone
    have hpassed : s.signaturesPassedThreshold = false := by
      by_contra hpassed
      rw [if_pos (by simpa using hpassed)] at hnone
      cases hnone
    exact returned_ne_collecting (hreturned.symm.trans (h.heard.collecting.mpr ⟨hpassed,hlt⟩))

/-- No goroutine is left behind if and only if the collector has heard every validator before
it returned: the quorum is met by the last arrival or not at all. -/
theorem no_goroutine_blocked_iff (h : s.Reached blst a msg quorumNum)
    (hreturned : s.phase = .returned) :
    ((∀ events t, Steps (Enabled a) (step blst a msg quorumNum) s events t →
      ∀ i, i < a.validators.length → ¬t.BlockedForever blst a msg quorumNum i) ↔
      s.results.length = a.validators.length) ∧
    (s.results.length = a.validators.length ↔ ∀ n, n < a.validators.length →
      collect a.totalWeight quorumNum (s.results.take n) ⟨[],0,0⟩ = none) := by
  refine ⟨⟨?_,?_⟩,h.heard_all_iff hreturned⟩
  · intro hfree
    by_contra hresults
    obtain ⟨i,hi,hdone⟩ := h.counted.exists_not_done hresults
    cases hplace : s.place i with
    | done => exact hdone hplace
    | sending result =>
      exact hfree [] s (.nil s) i hi (blockedForever_of_returned hreturned hplace)
    | fetching =>
      -- the answer comes after the return
      have hanswer : s.Enabled a (.answer i (.error "")) := ⟨hi,hplace⟩
      have hnext : (s.step blst a msg quorumNum (.answer i (.error ""))).place i =
          .sending none := by
        rw [step,List.getElem?_eq_getElem hi]
        exact Function.update_self ..
      exact hfree [_] _ (.cons hanswer (.nil _)) i hi
        (blockedForever_of_returned (step_returned hreturned hanswer).1 hnext)
  · rintro hresults events t hsteps i hi ⟨result,hsending,_⟩
    have hreached : t.Reached blst a msg quorumNum := Reaches.steps (fun _ _ he => he) h hsteps
    have hheard : t.results.length = a.validators.length := by
      rw [(steps_returned hreturned hsteps).2.1,hresults]
    rw [hreached.counted.all_done hheard hi] at hsending
    cases hsending

end Fetching

/-! ## Two validators -/

namespace Sample
open Fetching

/-- Either of the two has the quorum of a half. -/
def pairStep (s : Fetching (Fin 256)) : FetchEvent (Fin 256) → Fetching (Fin 256) :=
  s.step blst aggregator unsignedMessage 50

def answered : Fetching (Fin 256) :=
  pairStep (start aggregator) (.answer 0 (.ok validator.publicKey))

def quick : Fetching (Fin 256) := pairStep (pairStep answered (.receive 0)) .finish

theorem quick_reached : quick.Reached blst aggregator unsignedMessage 50 := by
  have hstart : (start aggregator).Reached blst aggregator unsignedMessage 50 := .start rfl
  have hanswer : (start aggregator).Enabled aggregator (.answer 0 (.ok validator.publicKey)) :=
    ⟨by decide,rfl⟩
  have hreceive : answered.Enabled aggregator (.receive 0) := ⟨rfl,by decide,_,rfl⟩
  have hfinish : (pairStep answered (.receive 0)).Enabled aggregator .finish := by
    change CollectorPhase.leaving = .leaving
    rfl
  exact ((hstart.step hanswer).step hreceive).step hfinish

/-- The second validator answers too late. -/
def late : Fetching (Fin 256) := pairStep quick (.answer 1 (.ok otherValidator.publicKey))

/-- Its goroutine stays at the send. -/
theorem late_goroutine_blocked : late.Reached blst aggregator unsignedMessage 50 ∧
    late.phase = .returned ∧ late.BlockedForever blst aggregator unsignedMessage 50 1 := by
  have hanswer : quick.Enabled aggregator (.answer 1 (.ok otherValidator.publicKey)) :=
    ⟨by decide,rfl⟩
  have hreturned : (quick.step blst aggregator unsignedMessage 50
      (.answer 1 (.ok otherValidator.publicKey))).phase = .returned :=
    (step_returned rfl hanswer).1
  exact ⟨quick_reached.step hanswer,hreturned,blockedForever_of_returned hreturned rfl⟩

def bothStep (s : Fetching (Fin 256)) : FetchEvent (Fin 256) → Fetching (Fin 256) :=
  s.step blst aggregator unsignedMessage 67

def bothAnswered : Fetching (Fin 256) :=
  bothStep (bothStep (start aggregator) (.answer 0 (.ok validator.publicKey)))
    (.answer 1 (.ok otherValidator.publicKey))

/-- Two thirds need both; the second one arrives first. -/
def both : Fetching (Fin 256) :=
  bothStep (bothStep (bothStep bothAnswered (.receive 1)) (.receive 0)) .finish

theorem both_reached : both.Reached blst aggregator unsignedMessage 67 := by
  have hstart : (start aggregator).Reached blst aggregator unsignedMessage 67 := .start rfl
  have hfirst : (start aggregator).Enabled aggregator (.answer 0 (.ok validator.publicKey)) :=
    ⟨by decide,rfl⟩
  have hsecond : (bothStep (start aggregator) (.answer 0 (.ok validator.publicKey))).Enabled
      aggregator (.answer 1 (.ok otherValidator.publicKey)) := ⟨by decide,rfl⟩
  have hone : bothAnswered.Enabled aggregator (.receive 1) := ⟨rfl,by decide,_,rfl⟩
  have hzero : (bothStep bothAnswered (.receive 1)).Enabled aggregator (.receive 0) :=
    ⟨rfl,by decide,_,rfl⟩
  have hfinish : (bothStep (bothStep bothAnswered (.receive 1)) (.receive 0)).Enabled aggregator
      .finish := by
    change CollectorPhase.leaving = .leaving
    rfl
  exact ((((hstart.step hfirst).step hsecond).step hone).step hzero).step hfinish

theorem both_not_blocked : ¬both.BlockedForever blst aggregator unsignedMessage 67 0 ∧
    ¬both.BlockedForever blst aggregator unsignedMessage 67 1 := by
  have hbelow : ∀ n, n < aggregator.validators.length →
      collect aggregator.totalWeight 67 (both.results.take n) ⟨[],0,0⟩ = none := by
    rintro (_ | _ | n) hn
    · rfl
    · rfl
    · exact absurd hn (by simp [aggregator])
  obtain ⟨hfree,hheard⟩ := no_goroutine_blocked_iff both_reached rfl
  have hnone := hfree.mpr (hheard.mpr hbelow) [] both (.nil _)
  exact ⟨hnone 0 (by decide),hnone 1 (by decide)⟩

end Sample
end Landslide.Warp
