import Landslide.Heap.Map
import Landslide.Lib.Timer
import Landslide.Lib.Updates
import Landslide.Validators.Manager

/-! # The benchlist

Validators that keep failing to answer are put on the bench for a random time. Two locks guard
the benchlist: a call that registers a failure holds the main lock until it returns, a call that
registers a response only takes the lock of the streaks, so that it can come between the failure
that completes a streak and the benching. One goroutine takes the nodes off the bench again. It
sleeps on a timer until the first of them is due, and every benching leaves a message in the
channel `resetTimer` that makes it look again.

Times are nanoseconds, and `0` is the zero time.
-/
namespace Landslide.Bench

def before (a b : ℤ) : Bool := decide (a < b)

structure FailureStreak where
  firstFailure : ℤ
  consecutive : ℕ
  deriving DecidableEq

structure Config (S : Type) where
  subnetID : S
  threshold : ℤ
  minimumFailingDuration : ℤ
  duration : ℤ
  /-- The comparison of `float64(newBenchedStake)` with `float64(totalStake) * maxPortion`. -/
  exceedsMax : UInt64 → UInt64 → Bool

/-- What happened to the benchlist. The calls of `Benched` and `Unbenched` are among it. -/
inductive Event (N : Type) where
  | response (nodeID : N)
  | failure (nodeID : N) (now : ℤ)
  | benched (nodeID : N) (now benchedUntil : ℤ)
  | unbenched (nodeID : N) (now : ℤ)
  deriving DecidableEq

structure Benchlist (N : Type) where
  /-- The channel has room for one message. -/
  resetTimer : Bool
  failureStreaks : Finmap fun _ : N => FailureStreak
  benchlistSet : Finset N
  benchedHeap : Heap.Map N ℤ
  /-- The newest event first. -/
  history : List (Event N)

/-- What `bench` reads of the validators. The manager may change from one read to the next. -/
structure Reads (S N P T : Type) where
  weight : Validators.Manager S N P T
  subset : Validators.Manager S N P T
  total : Validators.Manager S N P T
  /-- The order in which the map gives the benched nodes. -/
  order : List N

namespace Benchlist
variable {S N P T : Type}

def newBenchlist : Benchlist N := ⟨false,∅,∅,.newMap before,[]⟩

variable [DecidableEq N]

def isBenched (b : Benchlist N) (nodeID : N) : Bool := decide (nodeID ∈ b.benchlistSet)

def registerResponse (b : Benchlist N) (nodeID : N) : Benchlist N :=
  { b with
    failureStreaks := b.failureStreaks.erase nodeID
    history := .response nodeID :: b.history }

def extendedStreak (b : Benchlist N) (nodeID : N) (now : ℤ) : FailureStreak :=
  let failureStreak := (b.failureStreaks.lookup nodeID).getD ⟨0,0⟩
  { firstFailure := if failureStreak.firstFailure = 0 then now else failureStreak.firstFailure
    consecutive := failureStreak.consecutive + 1 }

/-- `RegisterFailure` up to the call of `bench`; the flag says whether it comes to that call. -/
def registerFailure (c : Config S) (now : ℤ) (b : Benchlist N) (nodeID : N) :
    Benchlist N × Bool :=
  if b.isBenched nodeID then (b,false)
  else
    let failureStreak := b.extendedStreak nodeID now
    ({ b with
        failureStreaks := b.failureStreaks.insert nodeID failureStreak
        history := .failure nodeID now :: b.history },
      decide (c.threshold ≤ failureStreak.consecutive) &&
        before (failureStreak.firstFailure + c.minimumFailingDuration) now)

/-- The end of `bench`: the send to `resetTimer` does not wait if there is a message already. -/
def putOnBench (b : Benchlist N) (nodeID : N) (now benchedUntil : ℤ) :
    Outcome Empty (Benchlist N) := do
  let (_,benchedHeap) ← b.benchedHeap.push nodeID benchedUntil
  .ok
    { resetTimer := true
      failureStreaks := b.failureStreaks.erase nodeID
      benchlistSet := insert nodeID b.benchlistSet
      benchedHeap := benchedHeap
      history := .benched nodeID now benchedUntil :: b.history }

/-- The time that is added to half of the duration is `jitter`. -/
def bench [DecidableEq S] (c : Config S) (r : Reads S N P T) (now jitter : ℤ) (b : Benchlist N)
    (nodeID : N) : Outcome Empty (Benchlist N) :=
  let validatorStake := r.weight.getWeight c.subnetID nodeID
  if validatorStake = 0 then .ok b
  else match r.subset.subsetWeight c.subnetID r.order with
    | .error _ => .ok b
    | .ok benchedStake => match Validators.add64 benchedStake validatorStake with
      | none => .ok b
      | some newBenchedStake => match r.total.totalWeight c.subnetID with
        | .error _ => .ok b
        | .ok totalStake =>
          if c.exceedsMax newBenchedStake totalStake then .ok b
          else b.putOnBench nodeID now (now + c.duration.tdiv 2 + jitter)

variable [Inhabited N]

def removeLoop (now : ℤ) : ℕ → Benchlist N → Outcome Empty (Benchlist N)
  | 0, b => .ok b
  | fuel + 1, b => do
    match ← b.benchedHeap.peek with
    | none => .ok b
    | some (_,next) =>
      if before now next then .ok b
      else
        let (popped,benchedHeap) ← b.benchedHeap.pop
        let nodeID := (popped.map Prod.fst).getD default
        removeLoop now fuel
          { b with
            benchlistSet := b.benchlistSet.erase nodeID
            benchedHeap := benchedHeap
            history := .unbenched nodeID now :: b.history }

/-- Every turn of the loop takes one entry from the heap. -/
def removedExpiredNodes (now : ℤ) (b : Benchlist N) : Outcome Empty (Benchlist N) :=
  removeLoop now (b.benchedHeap.len + 1) b

omit [DecidableEq N] [Inhabited N] in
def durationToSleep (now : ℤ) (b : Benchlist N) : Outcome Empty ℤ := do
  match ← b.benchedHeap.peek with
  | none => .ok 0
  | some (_,next) => .ok (next - now)

end Benchlist

/-! ## The goroutine and the calls -/

inductive Place where
  /-- At the `select`. -/
  | selecting
  /-- At the receive after a `Stop` that came too late. -/
  | draining
  /-- In `waitForBenchedNodes`, before it looks at the heap. -/
  | waiting
  /-- In `waitForBenchedNodes`, at the receive from `resetTimer`. -/
  | blocked
  | removing
  | measuring
  /-- Before `timer.Reset`, with the time that `durationToSleep` read and what it returned. -/
  | resetting (now duration : ℤ)
  deriving DecidableEq

structure State (N : Type) where
  benchlist : Benchlist N
  /-- The node that a call which holds the lock is about to bench. -/
  failing : Option N
  place : Place
  timer : Timer
  /-- The time at which the timer was last set to fire, on the clock of `durationToSleep`. -/
  alarm : ℤ

namespace State
variable {S N P T : Type} [DecidableEq S] [DecidableEq N] [Inhabited N]

/-- `NewBenchlist` starts `run`, which begins with `time.NewTimer(0)`. -/
def start : State N := ⟨.newBenchlist,none,.selecting,.new,0⟩

/-- The random part of a bench time. `rand.Float64` is in `[0,1)`, and a difference of less than
`2^53` nanoseconds is a float. -/
def Jitter (c : Config S) (jitter : ℤ) : Prop :=
  0 ≤ jitter ∧ jitter ≤ c.duration - c.duration.tdiv 2 ∨
    c.duration - c.duration.tdiv 2 ≤ jitter ∧ jitter ≤ 0

/-- One step of a call, of the goroutine or of the runtime's timer. The reads of `bench` see
managers that `V` allows. -/
inductive Step (c : Config S) (V : Validators.Manager S N P T → Prop) :
    State N → State N → Prop
  | response {s : State N} (nodeID : N) :
      Step c V s { s with benchlist := s.benchlist.registerResponse nodeID }
  | failure {s : State N} (nodeID : N) (now : ℤ) {b : Benchlist N} {bench : Bool}
      (hlock : s.failing = none) (hnow : now ≠ 0)
      (h : s.benchlist.registerFailure c now nodeID = (b,bench)) :
      Step c V s { s with benchlist := b, failing := if bench then some nodeID else none }
  | bench {s : State N} {nodeID : N} {r : Reads S N P T} {now jitter : ℤ} {b : Benchlist N}
      (hlock : s.failing = some nodeID) (hweight : V r.weight) (hsubset : V r.subset)
      (htotal : V r.total) (hnodup : r.order.Nodup)
      (horder : ∀ n, n ∈ r.order ↔ n ∈ s.benchlist.benchlistSet) (hjitter : Jitter c jitter)
      (h : s.benchlist.bench c r now jitter nodeID = .ok b) :
      Step c V s { s with benchlist := b, failing := none }
  | fire {s : State N} (h : s.timer.running = true) :
      Step c V s { s with timer := s.timer.fire }
  | tick {s : State N} (hplace : s.place = .selecting) (h : s.timer.tick = true) :
      Step c V s { s with timer := s.timer.receive, place := .waiting }
  | reset {s : State N} {stopped : Bool} {timer : Timer} (hplace : s.place = .selecting)
      (hmessage : s.benchlist.resetTimer = true) (h : s.timer.stop = (stopped,timer)) :
      Step c V s
        { s with
          benchlist := { s.benchlist with resetTimer := false }
          timer := timer
          place := if stopped then .waiting else .draining }
  | drain {s : State N} (hplace : s.place = .draining) (h : s.timer.tick = true) :
      Step c V s { s with timer := s.timer.receive, place := .waiting }
  | look {s : State N} {next : Option (N × ℤ)} (hplace : s.place = .waiting)
      (hlock : s.failing = none) (h : s.benchlist.benchedHeap.peek = .ok next) :
      Step c V s { s with place := if next.isSome then .removing else .blocked }
  | wake {s : State N} (hplace : s.place = .blocked) (h : s.benchlist.resetTimer = true) :
      Step c V s
        { s with benchlist := { s.benchlist with resetTimer := false }, place := .waiting }
  | remove {s : State N} {now : ℤ} {b : Benchlist N} (hplace : s.place = .removing)
      (hlock : s.failing = none) (h : s.benchlist.removedExpiredNodes now = .ok b) :
      Step c V s { s with benchlist := b, place := .measuring }
  | measure {s : State N} {now duration : ℤ} (hplace : s.place = .measuring)
      (hlock : s.failing = none) (h : s.benchlist.durationToSleep now = .ok duration) :
      Step c V s { s with place := .resetting now duration }
  | sleep {s : State N} {now duration : ℤ} (hplace : s.place = .resetting now duration) :
      Step c V s
        { s with timer := s.timer.reset, place := .selecting, alarm := now + duration }

inductive Reachable (c : Config S) (V : Validators.Manager S N P T → Prop) : State N → Prop
  | start : Reachable c V start
  | step {s s' : State N} (hs : Reachable c V s) (h : Step c V s s') : Reachable c V s'

end State
end Landslide.Bench
