import Landslide.Lib.Timer
import Landslide.Lib.Transition
import Mathlib.Algebra.Order.Ring.Nat

/-! # The retry loop of `GetSignature`

After a failed request the loop stops its timer, drains the channel if the timer had fired,
and waits for the timer again. The drain expects a tick that nobody has taken. That is so at
the first failure; after the first wait the tick has been taken, so at the second failure the
loop waits for a tick that never comes, whatever the durations of the calls and also when the
context is cancelled.
-/
namespace Landslide.Warp

def initialRetryFetchSignatureDelay : ℕ := 100000000

def maxRetryFetchSignatureDelay : ℕ := 5000000000

def retryBackoffFactor : ℕ := 2

namespace Retry

/-- Where the loop is: in `SendAppRequest`, before `Stop`, at the receive behind it, before
`Reset`, in the `select`, or behind a `return`. -/
inductive Phase where
  | sending
  | stopping
  | draining
  | resetting
  | selecting
  | returned
  deriving DecidableEq

structure Loop where
  phase : Phase
  timer : Timer
  delay : ℕ
  cancelled : Bool
  /-- How many calls of `SendAppRequest` have failed. -/
  failures : ℕ
  /-- How many waits in the `select` have ended with a tick. -/
  waits : ℕ
  deriving DecidableEq

inductive Event where
  /-- Time passes until the timer fires. -/
  | fire
  | cancel
  /-- `SendAppRequest` returns a response, and `GetSignature` returns what it makes of it. -/
  | respond
  | fail
  | stop
  | drain
  | reset
  | tick
  /-- The `select` sees that the context is done. -/
  | ctxDone

namespace Loop

def start : Loop := ⟨.sending,.new,initialRetryFetchSignatureDelay,false,0,0⟩

/-- The delay after a wait. -/
def backoff (delay : ℕ) : ℕ :=
  let delay := delay * retryBackoffFactor
  if delay > maxRetryFetchSignatureDelay then maxRetryFetchSignatureDelay else delay

def step (s : Loop) : Event → Loop
  | .fire => { s with timer := s.timer.fire }
  | .cancel => { s with cancelled := true }
  | .respond => { s with phase := .returned }
  | .fail => { s with phase := .stopping, failures := s.failures + 1 }
  | .stop =>
    { s with phase := if s.timer.stop.1 then .resetting else .draining, timer := s.timer.stop.2 }
  | .drain => { s with phase := .resetting, timer := s.timer.receive }
  | .reset => { s with phase := .selecting, timer := s.timer.reset }
  | .tick =>
    { s with
      phase := .sending
      timer := s.timer.receive
      delay := backoff s.delay
      waits := s.waits + 1 }
  | .ctxDone => { s with phase := .returned }

/-- A receive needs a tick. -/
def Enabled (s : Loop) : Event → Prop
  | .fire => s.timer.running = true
  | .cancel => True
  | .respond => s.phase = .sending
  | .fail => s.phase = .sending
  | .stop => s.phase = .stopping
  | .drain => s.phase = .draining ∧ s.timer.tick = true
  | .reset => s.phase = .resetting
  | .tick => s.phase = .selecting ∧ s.timer.tick = true
  | .ctxDone => s.phase = .selecting ∧ s.cancelled = true

instance (s : Loop) (e : Event) : Decidable (s.Enabled e) := by
  cases e <;> unfold Enabled <;> infer_instance

def Reached : Loop → Prop := Reaches (· = start) Enabled step

def Wedged (s : Loop) : Prop := (s.phase = .draining ∨ s.phase = .selecting) ∧ s.timer.Spent

/-- Some course of events brings the loop to another attempt or to a `return`. -/
def GoesOn (s : Loop) : Prop :=
  ∃ events t, Steps Enabled step s events t ∧ (t.phase = .sending ∨ t.phase = .returned)

/-- The delays double up to the maximum. -/
def Doubled (s : Loop) : Prop :=
  s.delay = min (initialRetryFetchSignatureDelay * retryBackoffFactor ^ s.waits)
    maxRetryFetchSignatureDelay

/-! ## The state of the timer -/

/-- The timer before it is stopped: it ticks before the first wait, and never after it. -/
def Waited (s : Loop) : Prop := s.waits = 0 ∧ s.timer.Armed ∨ s.waits = 1 ∧ s.timer.Spent

/-- What holds in each phase. -/
def Inv (s : Loop) : Prop :=
  match s.phase with
  | .sending => s.failures = s.waits ∧ s.Waited
  | .stopping => s.failures = s.waits + 1 ∧ s.Waited
  | .draining => s.failures = s.waits + 1 ∧
      (s.waits = 0 ∧ s.timer = ⟨false,true⟩ ∨ s.waits = 1 ∧ s.timer.Spent)
  | .resetting => s.failures = 1 ∧ s.waits = 0 ∧ s.timer.Spent
  | .selecting => s.failures = 1 ∧ s.waits = 0 ∧ s.timer.Armed
  | .returned => s.failures ≤ 1

theorem backoff_eq (delay : ℕ) :
    backoff delay = min (delay * retryBackoffFactor) maxRetryFetchSignatureDelay := by
  unfold backoff
  dsimp only
  split
  · next h => rw [min_eq_right h.le]
  · next h => rw [min_eq_left (not_lt.mp h)]

theorem Doubled.tick {s : Loop} (h : s.Doubled) : (s.step .tick).Doubled := by
  unfold Doubled at h ⊢
  change backoff s.delay = min (initialRetryFetchSignatureDelay * retryBackoffFactor ^ (s.waits + 1)) _
  rw [backoff_eq,h,pow_succ,← mul_assoc]
  unfold retryBackoffFactor maxRetryFetchSignatureDelay
  omega

theorem step_doubled {s : Loop} (h : s.Doubled) (e : Event) : (s.step e).Doubled := by
  cases e with
  | tick => exact h.tick
  | _ => exact h

theorem inv_start : start.Inv := ⟨rfl,.inl ⟨rfl,.inl rfl⟩⟩

theorem Inv.stop {s : Loop} (h : s.Inv) (hphase : s.phase = .stopping) : (s.step .stop).Inv := by
  rw [Inv,hphase] at h
  obtain ⟨hfailures,⟨hwaits,hrunning | hfired⟩ | ⟨hwaits,hspent⟩⟩ := h
  · have hnext : s.step .stop = { s with phase := .resetting, timer := ⟨false,false⟩ } := by
      simp [step,Timer.stop,hrunning]
    rw [hnext]
    exact ⟨by rw [hfailures,hwaits],hwaits,rfl⟩
  · have hnext : s.step .stop = { s with phase := .draining, timer := ⟨false,true⟩ } := by
      simp [step,Timer.stop,hfired]
    rw [hnext]
    exact ⟨hfailures,.inl ⟨hwaits,rfl⟩⟩
  · have hnext : s.step .stop = { s with phase := .draining, timer := ⟨false,false⟩ } := by
      simp [step,Timer.stop,show s.timer = ⟨false,false⟩ from hspent]
    rw [hnext]
    exact ⟨hfailures,.inr ⟨hwaits,rfl⟩⟩

theorem Inv.fire {s : Loop} (h : s.Inv) (hrunning : s.timer.running = true) :
    (s.step .fire).Inv := by
  have hspent : ¬s.timer.Spent := by
    intro hspent
    rw [hspent] at hrunning
    cases hrunning
  have hwaited (h : s.Waited) : (s.step .fire).Waited := by
    rcases h with ⟨hwaits,_⟩ | ⟨_,h⟩
    · exact .inl ⟨hwaits,s.timer.armed_fire⟩
    · exact absurd h hspent
  rw [Inv] at h ⊢
  change match s.phase with
    | .sending => _
    | .stopping => _
    | .draining => _
    | .resetting => _
    | .selecting => _
    | .returned => _
  cases hphase : s.phase with
  | sending =>
    rw [hphase] at h
    exact ⟨h.1,hwaited h.2⟩
  | stopping =>
    rw [hphase] at h
    exact ⟨h.1,hwaited h.2⟩
  | draining =>
    rw [hphase] at h
    rcases h.2 with ⟨hwaits,_⟩ | ⟨_,h⟩
    · exact ⟨h.1,.inl ⟨hwaits,rfl⟩⟩
    · exact absurd h hspent
  | resetting =>
    rw [hphase] at h
    exact absurd h.2.2 hspent
  | selecting =>
    rw [hphase] at h
    exact ⟨h.1,h.2.1,s.timer.armed_fire⟩
  | returned =>
    rw [hphase] at h
    exact h

theorem Inv.step {s : Loop} (h : s.Inv) {e : Event} (he : s.Enabled e) : (s.step e).Inv := by
  cases e with
  | fire => exact h.fire he
  | cancel => exact h
  | respond =>
    have hphase : s.phase = .sending := he
    rw [Inv,hphase] at h
    obtain ⟨hfailures,⟨hwaits,_⟩ | ⟨hwaits,_⟩⟩ := h
    · change s.failures ≤ 1
      omega
    · change s.failures ≤ 1
      omega
  | fail =>
    have hphase : s.phase = .sending := he
    rw [Inv,hphase] at h
    exact ⟨congrArg (· + 1) h.1,h.2⟩
  | stop => exact h.stop he
  | drain =>
    obtain ⟨hphase,htick⟩ := he
    rw [Inv,hphase] at h
    obtain ⟨hfailures,⟨hwaits,htimer⟩ | ⟨hwaits,hspent⟩⟩ := h
    · refine ⟨?_,hwaits,?_⟩
      · change s.failures = 1
        omega
      · change s.timer.receive = _
        rw [htimer]
        rfl
    · rw [hspent] at htick
      cases htick
  | reset =>
    have hphase : s.phase = .resetting := he
    rw [Inv,hphase] at h
    obtain ⟨hfailures,hwaits,hspent⟩ := h
    refine ⟨hfailures,hwaits,.inl ?_⟩
    change s.timer.reset = _
    rw [hspent]
    rfl
  | tick =>
    obtain ⟨hphase,htick⟩ := he
    rw [Inv,hphase] at h
    obtain ⟨hfailures,hwaits,hrunning | hfired⟩ := h
    · rw [hrunning] at htick
      cases htick
    · refine ⟨?_,.inr ⟨?_,?_⟩⟩
      · change s.failures = s.waits + 1
        omega
      · change s.waits + 1 = 1
        omega
      · change s.timer.receive = _
        rw [hfired]
        rfl
  | ctxDone =>
    obtain ⟨hphase,_⟩ := he
    rw [Inv,hphase] at h
    exact h.1.le

theorem Reached.inv {s : Loop} (h : s.Reached) : s.Inv :=
  Reaches.invariant (fun _ hs => hs ▸ inv_start) (fun _ _ ht he => ht.step he) h

theorem Reached.doubled {s : Loop} (h : s.Reached) : s.Doubled := by
  have hstart : start.Doubled := by
    unfold Doubled
    decide
  refine Reaches.invariant (P := Doubled) (fun s hs => ?_) (fun _ e ht _ => step_doubled ht e) h
  obtain rfl : s = start := hs
  exact hstart

/-! ## Up to the first failure -/

theorem GoesOn.of_step {s : Loop} {e : Event} (he : s.Enabled e) (h : (s.step e).GoesOn) :
    s.GoesOn := by
  obtain ⟨events,t,hsteps,ht⟩ := h
  exact ⟨e :: events,t,.cons he hsteps,ht⟩

theorem goesOn_of_selecting {s : Loop} (hphase : s.phase = .selecting) (htimer : s.timer.Armed) :
    s.GoesOn := by
  have hfired (t : Loop) (hphase : t.phase = .selecting) (htick : t.timer.tick = true) :
      t.GoesOn :=
    .of_step (e := .tick) ⟨hphase,htick⟩ ⟨[],_,.nil _,.inl rfl⟩
  rcases htimer with hrunning | htick
  · refine .of_step (e := .fire) ?_ (hfired _ hphase rfl)
    change s.timer.running = true
    rw [hrunning]
  · exact hfired s hphase (by rw [htick])

theorem goesOn_of_resetting {s : Loop} (hphase : s.phase = .resetting) (htimer : s.timer.Spent) :
    s.GoesOn := by
  refine .of_step (e := .reset) hphase (goesOn_of_selecting rfl (.inl ?_))
  change s.timer.reset = _
  rw [htimer]
  rfl

theorem goesOn_of_draining {s : Loop} (hphase : s.phase = .draining)
    (htimer : s.timer = ⟨false,true⟩) : s.GoesOn := by
  refine .of_step (e := .drain) ⟨hphase,by rw [htimer]⟩ (goesOn_of_resetting rfl ?_)
  change s.timer.receive = _
  rw [htimer]
  rfl

theorem Inv.goesOn {s : Loop} (h : s.Inv) (hfailures : s.failures < 2) : s.GoesOn := by
  cases hphase : s.phase with
  | sending => exact ⟨[],s,.nil s,.inl hphase⟩
  | returned => exact ⟨[],s,.nil s,.inr hphase⟩
  | selecting =>
    rw [Inv,hphase] at h
    exact goesOn_of_selecting hphase h.2.2
  | resetting =>
    rw [Inv,hphase] at h
    exact goesOn_of_resetting hphase h.2.2
  | draining =>
    rw [Inv,hphase] at h
    obtain ⟨heq,⟨_,htimer⟩ | ⟨hwaits,_⟩⟩ := h
    · exact goesOn_of_draining hphase htimer
    · omega
  | stopping =>
    have hnext := h.stop hphase
    rw [Inv,hphase] at h
    refine .of_step (e := .stop) hphase ?_
    obtain ⟨heq,⟨_,hrunning | hfired⟩ | ⟨hwaits,_⟩⟩ := h
    · have hresetting : (s.step .stop).phase = .resetting := by
        simp [Loop.step,Timer.stop,hrunning]
      rw [Inv,hresetting] at hnext
      exact goesOn_of_resetting hresetting hnext.2.2
    · refine goesOn_of_draining ?_ ?_
      · simp [Loop.step,Timer.stop,hfired]
      · simp [Loop.step,Timer.stop,hfired]
    · omega

/-! ## From the second failure on -/

/-- The second call has failed. -/
def Stuck (s : Loop) : Prop :=
  (s.phase = .stopping ∨ s.phase = .draining) ∧ s.timer.Spent

theorem Inv.stuck {s : Loop} (h : s.Inv) (hfailures : 2 ≤ s.failures) : s.Stuck := by
  cases hphase : s.phase with
  | stopping =>
    rw [Inv,hphase] at h
    obtain ⟨heq,⟨hwaits,_⟩ | ⟨_,hspent⟩⟩ := h
    · omega
    · exact ⟨.inl hphase,hspent⟩
  | draining =>
    rw [Inv,hphase] at h
    obtain ⟨heq,⟨hwaits,_⟩ | ⟨_,hspent⟩⟩ := h
    · omega
    · exact ⟨.inr hphase,hspent⟩
  | sending =>
    rw [Inv,hphase] at h
    obtain ⟨heq,⟨hwaits,_⟩ | ⟨hwaits,_⟩⟩ := h
    · omega
    · omega
  | resetting =>
    rw [Inv,hphase] at h
    omega
  | selecting =>
    rw [Inv,hphase] at h
    omega
  | returned =>
    rw [Inv,hphase] at h
    dsimp only at h
    omega

theorem Stuck.step {s : Loop} (h : s.Stuck) {e : Event} (he : s.Enabled e) : (s.step e).Stuck := by
  obtain ⟨hphase,hspent⟩ := h
  have hwaits : s.phase ≠ .sending ∧ s.phase ≠ .resetting ∧ s.phase ≠ .selecting := by
    rcases hphase with hphase | hphase
    · rw [hphase]
      exact ⟨nofun,nofun,nofun⟩
    · rw [hphase]
      exact ⟨nofun,nofun,nofun⟩
  cases e with
  | cancel => exact ⟨hphase,hspent⟩
  | fire =>
    have hrunning : s.timer.running = true := he
    rw [hspent] at hrunning
    cases hrunning
  | stop =>
    refine ⟨.inr ?_,?_⟩
    · simp [Loop.step,Timer.stop,show s.timer = ⟨false,false⟩ from hspent]
    · change s.timer.stop.2 = _
      rw [hspent]
      rfl
  | drain =>
    have htick := he.2
    rw [hspent] at htick
    cases htick
  | respond => exact absurd he hwaits.1
  | fail => exact absurd he hwaits.1
  | reset => exact absurd he hwaits.2.1
  | tick => exact absurd he.1 hwaits.2.2
  | ctxDone => exact absurd he.1 hwaits.2.2

theorem Stuck.steps {s t : Loop} {events : List Event} (h : s.Stuck)
    (hsteps : Steps Enabled Loop.step s events t) : t.Stuck := by
  induction hsteps with
  | nil s => exact h
  | cons he _ ih => exact ih (h.step he)

theorem Stuck.not_goesOn {s : Loop} (h : s.Stuck) : ¬s.GoesOn := by
  rintro ⟨events,t,hsteps,ht⟩
  have hphase := (h.steps hsteps).1
  rcases ht with ht | ht
  · rw [ht] at hphase
    exact hphase.elim nofun nofun
  · rw [ht] at hphase
    exact hphase.elim nofun nofun

theorem Inv.not_wedged {s : Loop} (h : s.Inv) (hfailures : s.failures < 2) : ¬s.Wedged := by
  rintro ⟨hphase | hphase,hspent⟩
  · rw [Inv,hphase] at h
    obtain ⟨heq,⟨_,htimer⟩ | ⟨hwaits,_⟩⟩ := h
    · rw [hspent] at htimer
      cases htimer
    · omega
  · rw [Inv,hphase] at h
    exact hspent.not_armed h.2.2

/-- The loop works as long as fewer than two calls have failed, and no longer. -/
theorem goesOn_iff {s : Loop} (h : s.Reached) :
    (¬s.Wedged ∧ s.GoesOn ∧ s.Doubled) ↔ s.failures < 2 := by
  constructor
  · rintro ⟨_,hgoesOn,_⟩
    by_contra hfailures
    exact (h.inv.stuck (not_lt.mp hfailures)).not_goesOn hgoesOn
  · exact fun hfailures => ⟨h.inv.not_wedged hfailures,h.inv.goesOn hfailures,h.doubled⟩

end Loop

namespace Sample
open Loop

def firstWait : List Event := [.fail,.stop,.reset,.fire,.tick]

/-- The state after these events, if they can occur. -/
def after (events : List Event) (s : Loop) : Option Loop :=
  events.foldlM (fun s e => if s.Enabled e then some (s.step e) else none) s

theorem reached_after {events : List Event} {s t : Loop} (h : s.Reached)
    (hafter : after events s = some t) : t.Reached := by
  induction events generalizing s with
  | nil =>
    obtain rfl : s = t := Option.some.inj hafter
    exact h
  | cons e events ih =>
    rw [after,List.foldlM_cons] at hafter
    by_cases he : s.Enabled e
    · rw [if_pos he] at hafter
      exact ih (h.step he) hafter
    · rw [if_neg he] at hafter
      cases hafter

/-- In the second attempt. -/
def retrying : Loop := ⟨.sending,⟨false,false⟩,200000000,false,1,1⟩

theorem retrying_reached : retrying.Reached :=
  reached_after (.start rfl) (show after firstWait start = some retrying by decide)

theorem retrying_goesOn : ¬retrying.Wedged ∧ retrying.GoesOn ∧ retrying.Doubled :=
  (goesOn_iff retrying_reached).mpr (by decide)

def wedged : Loop := ⟨.draining,⟨false,false⟩,200000000,true,2,1⟩

/-- The loop waits for a tick that has been taken. -/
theorem second_failure_wedges : wedged.Reached ∧ wedged.Wedged ∧ ¬wedged.GoesOn := by
  have hreached : wedged.Reached := reached_after retrying_reached
    (show after [.fail,.stop,.cancel] retrying = some wedged by decide)
  have hstuck : wedged.Stuck := ⟨.inr rfl,rfl⟩
  exact ⟨hreached,⟨.inl rfl,rfl⟩,hstuck.not_goesOn⟩

end Sample
end Retry
end Landslide.Warp
