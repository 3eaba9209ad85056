import Landslide.Bench.Benchlist

/-! # Runs of the benchlist

The history alone says which nodes are on the bench, until when, and how many failures in a row
every node has. The set, the heap and the map of streaks agree with it after every step, and
every event was allowed by the events before it. The goroutine that takes the nodes off the
bench never sleeps past the time of the first one.
-/
namespace Landslide.Bench
variable {S N P T : Type}

/-! ## Histories -/

section
variable [DecidableEq N]

def benchedUntil (nodeID : N) : List (Event N) → Option ℤ
  | [] => none
  | .benched n _ benchedUntil :: history =>
    if n = nodeID then some benchedUntil else Bench.benchedUntil nodeID history
  | .unbenched n _ :: history => if n = nodeID then none else Bench.benchedUntil nodeID history
  | .response _ :: history => Bench.benchedUntil nodeID history
  | .failure _ _ :: history => Bench.benchedUntil nodeID history

/-- The times of the failures of the node since it last answered or was benched, the newest
first. -/
def recent (nodeID : N) : List (Event N) → List ℤ
  | [] => []
  | .failure n now :: history => if n = nodeID then now :: recent nodeID history
    else recent nodeID history
  | .response n :: history => if n = nodeID then [] else recent nodeID history
  | .benched n _ _ :: history => if n = nodeID then [] else recent nodeID history
  | .unbenched _ _ :: history => recent nodeID history

/-- What the map of streaks holds for these failures. -/
def streakOf (failures : List ℤ) : Option FailureStreak :=
  failures.getLast?.map fun first => ⟨first,failures.length⟩

def Due (c : Config S) (nodeID : N) (history : List (Event N)) : Prop :=
  ∃ responses now first earlier, history = responses ++ .failure nodeID now :: earlier ∧
    (∀ e ∈ responses, ∃ n, e = .response n) ∧
    (recent nodeID (.failure nodeID now :: earlier)).getLast? = some first ∧
    c.threshold ≤ (recent nodeID (.failure nodeID now :: earlier)).length ∧
    first + c.minimumFailingDuration < now

def Allowed (c : Config S) (history : List (Event N)) : Event N → Prop
  | .response _ => True
  | .failure nodeID now => now ≠ 0 ∧ benchedUntil nodeID history = none
  | .benched nodeID now benchedUntil => Bench.benchedUntil nodeID history = none ∧
      Due c nodeID history ∧ ∃ jitter, State.Jitter c jitter ∧
        benchedUntil = now + c.duration.tdiv 2 + jitter
  | .unbenched nodeID now => ∃ t, benchedUntil nodeID history = some t ∧ t ≤ now

def Lawful (c : Config S) : List (Event N) → Prop
  | [] => True
  | event :: history => Allowed c history event ∧ Lawful c history

theorem Lawful.allowed {c : Config S} {later earlier : List (Event N)} {event : Event N}
    (h : Lawful c (later ++ event :: earlier)) : Allowed c earlier event := by
  induction later with
  | nil => exact h.1
  | cons _ later ih => exact ih h.2

theorem benchedUntil_of_removed {removed history : List (Event N)} {now t : ℤ} {nodeID : N}
    (hremoved : ∀ e ∈ removed, ∃ n, e = .unbenched n now)
    (h : benchedUntil nodeID (removed ++ history) = some t) :
    benchedUntil nodeID history = some t := by
  induction removed with
  | nil => exact h
  | cons e removed ih =>
    obtain ⟨n,rfl⟩ := hremoved e List.mem_cons_self
    refine ih (fun e he => hremoved e (List.mem_cons_of_mem _ he)) ?_
    simp only [List.cons_append,benchedUntil] at h
    split at h
    · cases h
    · exact h

theorem Lawful.removed {c : Config S} {removed history : List (Event N)} {now : ℤ}
    (h : Lawful c (removed ++ history)) (hremoved : ∀ e ∈ removed, ∃ n, e = .unbenched n now) :
    removed.Nodup ∧ ∀ n, .unbenched n now ∈ removed ↔
      benchedUntil n (removed ++ history) = none ∧ ∃ t, benchedUntil n history = some t := by
  induction removed with
  | nil =>
    refine ⟨List.nodup_nil,fun n => ?_⟩
    cases hn : benchedUntil n history <;> simp [hn]
  | cons e removed ih =>
    have hrest : ∀ e ∈ removed, ∃ n, e = .unbenched n now :=
      fun e he => hremoved e (List.mem_cons_of_mem _ he)
    obtain ⟨hnodup,hmem⟩ := ih h.2 hrest
    obtain ⟨n,rfl⟩ := hremoved e List.mem_cons_self
    obtain ⟨t,ht,_⟩ : Allowed c (removed ++ history) (.unbenched n now) := h.1
    have hnot : .unbenched n now ∉ removed := by simp [hmem,ht]
    refine ⟨List.nodup_cons.mpr ⟨hnot,hnodup⟩,fun n' => ?_⟩
    by_cases hn : n' = n
    · subst hn
      have hbefore := benchedUntil_of_removed hrest ht
      simp [benchedUntil,hbefore]
    · simp [benchedUntil,hn,Ne.symm hn,hmem]

theorem Due.response {c : Config S} {nodeID : N} {history : List (Event N)}
    (h : Due c nodeID history) (n : N) : Due c nodeID (.response n :: history) := by
  obtain ⟨responses,now,first,earlier,rfl,hresponses,h⟩ := h
  refine ⟨.response n :: responses,now,first,earlier,rfl,?_,h⟩
  intro e he
  rcases List.mem_cons.mp he with rfl | he
  · exact ⟨n,rfl⟩
  · exact hresponses e he

theorem recent_ne_zero {c : Config S} {history : List (Event N)} (h : Lawful c history)
    (nodeID : N) : ∀ t ∈ recent nodeID history, t ≠ 0 := by
  induction history with
  | nil => simp [recent]
  | cons event history ih =>
    have ih := ih h.2
    cases event with
    | response n =>
      simp only [recent]
      split
      · simp
      · exact ih
    | failure n now =>
      have hnow : now ≠ 0 := h.1.1
      simp only [recent]
      split
      · simpa [hnow] using ih
      · exact ih
    | benched n now t =>
      simp only [recent]
      split
      · simp
      · exact ih
    | unbenched n now => exact ih

theorem streakOf_cons (now : ℤ) (failures : List ℤ) (h : ∀ t ∈ failures, t ≠ 0) :
    streakOf (now :: failures) =
      let streak := (streakOf failures).getD ⟨0,0⟩
      some ⟨if streak.firstFailure = 0 then now else streak.firstFailure,
        streak.consecutive + 1⟩ := by
  cases hlast : failures.getLast? with
  | none =>
    have hnil : failures = [] := List.getLast?_eq_none_iff.mp hlast
    subst hnil
    simp [streakOf]
  | some first =>
    have hfirst : first ≠ 0 := h first (List.mem_of_getLast? hlast)
    have hcons : (now :: failures).getLast? = some first := by
      rw [List.getLast?_cons,hlast,Option.getD_some]
    simp [streakOf,hlast,hcons,hfirst]

end

/-! ## The heap of times -/

theorem before_strictWeak : StrictWeak before := by
  refine ⟨fun a b h => ?_,fun a b c h h' => ?_⟩
  · simp only [before,decide_eq_true_eq] at h ⊢
    omega
  · simp only [before,decide_eq_true_eq] at h h' ⊢
    omega

section
variable [DecidableEq N] {m : Heap.Map N ℤ}

/-- A heap of times that holds exactly the given ones. -/
structure Holds (m : Heap.Map N ℤ) (times : N → Option ℤ) : Prop where
  valid : m.Valid
  less : m.less = before
  entries : ∀ n t, ⟨n,t⟩ ∈ m.queue.entries ↔ times n = some t

namespace Holds
variable {times : N → Option ℤ}

theorem congr {times' : N → Option ℤ} (h : Holds m times) (heq : ∀ n, times' n = times n) :
    Holds m times' :=
  ⟨h.valid,h.less,fun n t => by rw [heq,h.entries]⟩

theorem peek (h : Holds m times) : (m.peek = .ok none ∧ ∀ n, times n = none) ∨
    ∃ nodeID next, m.peek = .ok (some (nodeID,next)) ∧ times nodeID = some next ∧
      ∀ n t, times n = some t → next ≤ t := by
  obtain ⟨entry,hpeek,heffect⟩ := h.valid.peek
  generalize hl : m.queue.entries = l at heffect
  cases heffect with
  | peekNone =>
    refine .inl ⟨hpeek,fun n => ?_⟩
    rw [Option.eq_none_iff_forall_not_mem]
    intro t ht
    have hmem := (h.entries n t).mpr ht
    simp [hl] at hmem
  | @peek nodeID next l hleast hmem =>
    refine .inr ⟨nodeID,next,hpeek,(h.entries _ _).mp (hl ▸ hmem),fun n t ht => ?_⟩
    have hless := hleast ⟨n,t⟩ (hl ▸ (h.entries n t).mpr ht)
    simpa [h.less,before] using hless

theorem push (h : Holds m times) {nodeID : N} (hnew : times nodeID = none) (t : ℤ) :
    ∃ m', m.push nodeID t = .ok (none,m') ∧ Holds m' (Function.update times nodeID (some t)) := by
  obtain ⟨old,queue,hpush,hvalid,heffect⟩ := h.valid.push nodeID t
  cases heffect with
  | pushNew hnone hperm =>
    refine ⟨_,hpush,hvalid,h.less,fun n t' => ?_⟩
    rw [hperm.mem_iff]
    by_cases hn : n = nodeID
    · subst hn
      have hnot : ⟨n,t'⟩ ∉ m.queue.entries := fun hmem => hnone _ hmem rfl
      simp [hnot,eq_comm]
    · simp [hn,h.entries]
  | @pushOld _ _ prev _ _ rest hold hperm =>
    have hmem : ⟨nodeID,prev⟩ ∈ m.queue.entries := hold.mem_iff.mpr (by simp)
    rw [h.entries,hnew] at hmem
    cases hmem

theorem pop (h : Holds m times) {nodeID : N} {next : ℤ}
    (hpeek : m.peek = .ok (some (nodeID,next))) : ∃ n t m', m.pop = .ok (some (n,t),m') ∧
      times n = some t ∧ t ≤ next ∧ m'.len + 1 = m.len ∧
      Holds m' (Function.update times n none) := by
  have hfirst : times nodeID = some next := by
    rcases h.peek with ⟨hnone,_⟩ | ⟨_,_,hsome,htimes,_⟩
    · rw [hpeek] at hnone
      cases hnone
    · rw [hpeek] at hsome
      cases hsome
      exact htimes
  have hmem := (h.entries nodeID next).mpr hfirst
  obtain ⟨popped,queue,hpop,hvalid,heffect⟩ := h.valid.pop
  generalize hl : m.queue.entries = l at heffect hmem
  generalize hl' : queue.entries = l' at heffect
  cases heffect with
  | popNone => cases hmem
  | @pop n t _ _ hleast hperm =>
    have hnodup := h.valid.synced.keys_nodup
    rw [hl,(hperm.map Heap.Entry.k).nodup_iff,List.map_cons,List.nodup_cons] at hnodup
    have hle : t ≤ next := by
      have hless := hleast _ hmem
      simpa [h.less,before] using hless
    refine ⟨n,t,_,hpop,(h.entries n t).mp ?_,hle,?_,hvalid,h.less,fun n' t' => ?_⟩
    · rw [hl,hperm.mem_iff]
      exact List.mem_cons_self
    · simp [Heap.Map.len,hl,hl',hperm.length_eq]
    · show _ ∈ queue.entries ↔ _
      rw [hl']
      by_cases hn : n' = n
      · subst hn
        have hnot : ⟨n',t'⟩ ∉ l' := fun hmem =>
          hnodup.1 (List.mem_map.mpr ⟨_,hmem,rfl⟩)
        simp [hnot]
      · have hother := hperm.mem_iff (a := ⟨n',t'⟩)
        rw [← hl,h.entries] at hother
        simp [hn,hother]

end Holds
end

/-! ## The benchlist follows its history -/

theorem Benchlist.putOnBench_eq [DecidableEq N] {b : Benchlist N} {nodeID : N} {t : ℤ}
    {old : Option ℤ} {m : Heap.Map N ℤ} (hpush : b.benchedHeap.push nodeID t = .ok (old,m))
    (now : ℤ) : b.putOnBench nodeID now t =
      .ok ⟨true,b.failureStreaks.erase nodeID,insert nodeID b.benchlistSet,m,
        .benched nodeID now t :: b.history⟩ := by
  rw [putOnBench,hpush,Outcome.ok_bind]

structure Good [DecidableEq N] (c : Config S) (b : Benchlist N) : Prop where
  holds : Holds b.benchedHeap fun n => benchedUntil n b.history
  set : ∀ n, n ∈ b.benchlistSet ↔ ∃ t, benchedUntil n b.history = some t
  streaks : ∀ n, b.failureStreaks.lookup n = streakOf (recent n b.history)
  lawful : Lawful c b.history

namespace Good
variable [DecidableEq N] {c : Config S} {b : Benchlist N}

theorem newBenchlist : Good c (.newBenchlist : Benchlist N) where
  holds :=
    { valid := Heap.Map.newMap_valid before_strictWeak
      less := rfl
      entries := fun n t => by simp [Benchlist.newBenchlist,Heap.Map.newMap,benchedUntil] }
  set n := by simp [Benchlist.newBenchlist,benchedUntil]
  streaks n := by simp [Benchlist.newBenchlist,recent,streakOf]
  lawful := trivial

theorem isBenched_eq_false_iff (h : Good c b) (nodeID : N) :
    b.isBenched nodeID = false ↔ benchedUntil nodeID b.history = none := by
  simp [Benchlist.isBenched,h.set,Option.eq_none_iff_forall_ne_some]

theorem resetTimer (h : Good c b) (message : Bool) : Good c { b with resetTimer := message } :=
  ⟨h.holds,h.set,h.streaks,h.lawful⟩

theorem registerResponse (h : Good c b) (nodeID : N) : Good c (b.registerResponse nodeID) where
  holds := h.holds
  set := h.set
  streaks n := by
    simp only [Benchlist.registerResponse,lookup_erase_eq_ite,recent,h.streaks,eq_comm]
    split <;> simp [streakOf]
  lawful := ⟨trivial,h.lawful⟩

theorem extendedStreak (h : Good c b) (nodeID : N) (now : ℤ) :
    some (b.extendedStreak nodeID now) = streakOf (now :: recent nodeID b.history) := by
  rw [streakOf_cons _ _ (recent_ne_zero h.lawful nodeID),← h.streaks]
  rfl

/-- Either the failure is ignored, or it extends the streak; it comes to a call of `bench` if that
completes the streak. -/
theorem registerFailure (h : Good c b) {now : ℤ} (hnow : now ≠ 0) {nodeID : N}
    {b' : Benchlist N} {bench : Bool} (hcall : b.registerFailure c now nodeID = (b',bench)) :
    Good c b' ∧ b'.resetTimer = b.resetTimer ∧ b'.benchlistSet = b.benchlistSet ∧
      (∀ n, benchedUntil n b'.history = benchedUntil n b.history) ∧
      (bench = true → benchedUntil nodeID b'.history = none ∧ Due c nodeID b'.history) := by
  by_cases hbenched : b.isBenched nodeID = true
  · simp only [Benchlist.registerFailure,hbenched,if_true] at hcall
    cases hcall
    refine ⟨h,rfl,rfl,fun _ => rfl,fun hbench => ?_⟩
    cases hbench
  · have hfree := (h.isBenched_eq_false_iff nodeID).mp (Bool.eq_false_iff.mpr hbenched)
    simp only [Benchlist.registerFailure,hbenched] at hcall
    cases hcall
    have hstreak := h.extendedStreak nodeID now
    refine ⟨⟨h.holds,h.set,fun n => ?_,⟨hnow,hfree⟩,h.lawful⟩,rfl,rfl,fun _ => rfl,?_⟩
    · simp only [lookup_insert_eq_ite,recent,h.streaks,hstreak]
      by_cases hn : n = nodeID
      · simp [hn]
      · simp [hn,Ne.symm hn]
    · intro hdue
      simp only [Bool.and_eq_true,decide_eq_true_eq,before] at hdue
      obtain ⟨first,hlast,heq⟩ := Option.map_eq_some_iff.mp hstreak.symm
      rw [← heq] at hdue
      refine ⟨hfree,[],now,first,b.history,rfl,by simp,?_,?_,hdue.2⟩
      · simpa [recent] using hlast
      · simpa [recent] using hdue.1

theorem putOnBench (h : Good c b) {nodeID : N} (now : ℤ) {jitter : ℤ}
    (hfree : benchedUntil nodeID b.history = none) (hdue : Due c nodeID b.history)
    (hjitter : State.Jitter c jitter) : ∃ b',
    b.putOnBench nodeID now (now + c.duration.tdiv 2 + jitter) = .ok b' ∧ Good c b' ∧
      b'.resetTimer = true ∧ b'.benchlistSet = insert nodeID b.benchlistSet ∧
      b'.history = .benched nodeID now (now + c.duration.tdiv 2 + jitter) :: b.history := by
  obtain ⟨m',hpush,hholds⟩ := h.holds.push hfree (now + c.duration.tdiv 2 + jitter)
  refine ⟨_,Benchlist.putOnBench_eq hpush now,
    ⟨hholds.congr fun n => ?_,fun n => ?_,fun n => ?_,⟨hfree,hdue,jitter,hjitter,rfl⟩,h.lawful⟩,
    rfl,rfl,rfl⟩
  · by_cases hn : n = nodeID
    · simp [hn,benchedUntil]
    · simp [hn,Ne.symm hn,benchedUntil]
  · by_cases hn : n = nodeID
    · simp [hn,benchedUntil]
    · simp [hn,Ne.symm hn,benchedUntil,h.set]
  · simp only [lookup_erase_eq_ite,recent,h.streaks,eq_comm]
    split <;> simp [streakOf]

theorem unbench (h : Good c b) {nodeID : N} {t now : ℤ} {m' : Heap.Map N ℤ}
    (hbenched : benchedUntil nodeID b.history = some t) (ht : t ≤ now)
    (hholds : Holds m' (Function.update (fun n => benchedUntil n b.history) nodeID none)) :
    Good c
      { b with
        benchlistSet := b.benchlistSet.erase nodeID
        benchedHeap := m'
        history := .unbenched nodeID now :: b.history } := by
  refine ⟨hholds.congr fun n => ?_,fun n => ?_,h.streaks,⟨t,hbenched,ht⟩,h.lawful⟩
  · by_cases hn : n = nodeID
    · simp [hn,benchedUntil]
    · simp [hn,Ne.symm hn,benchedUntil]
  · by_cases hn : n = nodeID
    · simp [hn,benchedUntil]
    · simp [hn,Ne.symm hn,benchedUntil,h.set]

theorem removeLoop [Inhabited N] (now : ℤ) (fuel : ℕ) (h : Good c b)
    (hfuel : b.benchedHeap.len < fuel) : ∃ b' removed,
    Benchlist.removeLoop now fuel b = .ok b' ∧ Good c b' ∧ b'.resetTimer = b.resetTimer ∧
      b'.benchlistSet ⊆ b.benchlistSet ∧ b'.history = removed ++ b.history ∧
      (∀ e ∈ removed, ∃ n, e = .unbenched n now) ∧
      ∀ n t, benchedUntil n b'.history = some t ↔ benchedUntil n b.history = some t ∧ now < t := by
  induction fuel generalizing b with
  | zero => omega
  | succ fuel ih =>
    rcases h.holds.peek with ⟨hpeek,hnone⟩ | ⟨nodeID,next,hpeek,hnext,hleast⟩
    · refine ⟨b,[],by rw [Benchlist.removeLoop,hpeek,Outcome.ok_bind],h,rfl,
        Finset.Subset.refl _,rfl,by simp,fun n t => ?_⟩
      simp [hnone]
    by_cases hlt : now < next
    · refine ⟨b,[],?_,h,rfl,Finset.Subset.refl _,rfl,by simp,fun n t => ?_⟩
      · simp [Benchlist.removeLoop,hpeek,Outcome.ok_bind,before,hlt]
      · constructor
        · intro ht
          exact ⟨ht,lt_of_lt_of_le hlt (hleast n t ht)⟩
        · exact fun ht => ht.1
    obtain ⟨n,t,m',hpop,ht,hle,hlen,hholds⟩ := h.holds.pop hpeek
    have hdue : t ≤ now := by omega
    have hgood := h.unbench ht hdue hholds
    obtain ⟨b',removed,hloop,hgood',hreset,hset,hhistory,hremoved,hleft⟩ := ih hgood (by
      show m'.len < fuel
      omega)
    refine ⟨b',removed ++ [.unbenched n now],?_,hgood',hreset,
      hset.trans (Finset.erase_subset _ _),?_,?_,fun n' t' => ?_⟩
    · simpa [Benchlist.removeLoop,hpeek,Outcome.ok_bind,before,hlt,hpop] using hloop
    · simp [hhistory]
    · intro e he
      rcases List.mem_append.mp he with he | he
      · exact hremoved e he
      · exact ⟨n,List.mem_singleton.mp he⟩
    · rw [hleft]
      by_cases hn : n' = n
      · -- the node that was taken off was due, so it is not among those that stay
        subst hn
        simp only [benchedUntil,if_true,reduceCtorEq,false_and,false_iff,not_and,not_lt]
        intro ht'
        rw [ht] at ht'
        cases ht'
        exact hdue
      · simp [benchedUntil,Ne.symm hn]

theorem removedExpiredNodes [Inhabited N] (h : Good c b) (now : ℤ) : ∃ b' removed,
    b.removedExpiredNodes now = .ok b' ∧ Good c b' ∧ b'.resetTimer = b.resetTimer ∧
      b'.benchlistSet ⊆ b.benchlistSet ∧ b'.history = removed ++ b.history ∧
      (∀ e ∈ removed, ∃ n, e = .unbenched n now) ∧
      ∀ n t, benchedUntil n b'.history = some t ↔ benchedUntil n b.history = some t ∧ now < t :=
  h.removeLoop now _ (Nat.lt_succ_self _)

/-- Counted from the time at which it was measured, the sleep ends before any node is due. -/
theorem durationToSleep (h : Good c b) (now : ℤ) : ∃ duration,
    b.durationToSleep now = .ok duration ∧
      ∀ n t, benchedUntil n b.history = some t → now + duration ≤ t := by
  rcases h.holds.peek with ⟨hpeek,hnone⟩ | ⟨nodeID,next,hpeek,_,hleast⟩
  · refine ⟨0,by rw [Benchlist.durationToSleep,hpeek,Outcome.ok_bind],fun n t ht => ?_⟩
    simp [hnone] at ht
  · refine ⟨next - now,by rw [Benchlist.durationToSleep,hpeek,Outcome.ok_bind],fun n t ht => ?_⟩
    have hle := hleast n t ht
    omega

end Good

theorem Benchlist.bench_cases [DecidableEq S] [DecidableEq N] (c : Config S) (r : Reads S N P T)
    (now jitter : ℤ) (b : Benchlist N) (nodeID : N) :
    b.bench c r now jitter nodeID = .ok b ∨
      ∃ benchedStake newBenchedStake totalStake,
        r.subset.subsetWeight c.subnetID r.order = .ok benchedStake ∧
        Validators.add64 benchedStake (r.weight.getWeight c.subnetID nodeID) =
          some newBenchedStake ∧
        r.total.totalWeight c.subnetID = .ok totalStake ∧
        c.exceedsMax newBenchedStake totalStake = false ∧
        b.bench c r now jitter nodeID =
          b.putOnBench nodeID now (now + c.duration.tdiv 2 + jitter) := by
  by_cases hzero : r.weight.getWeight c.subnetID nodeID = 0
  · exact .inl (by simp only [Benchlist.bench,hzero,if_true])
  cases hbenched : r.subset.subsetWeight c.subnetID r.order with
  | error e => exact .inl (by simp only [Benchlist.bench,hzero,if_false,hbenched])
  | ok benchedStake =>
    cases hnew : Validators.add64 benchedStake (r.weight.getWeight c.subnetID nodeID) with
    | none => exact .inl (by simp only [Benchlist.bench,hzero,if_false,hbenched,hnew])
    | some newBenchedStake =>
      cases htotal : r.total.totalWeight c.subnetID with
      | error e => exact .inl (by simp only [Benchlist.bench,hzero,if_false,hbenched,hnew,htotal])
      | ok totalStake =>
        cases hmax : c.exceedsMax newBenchedStake totalStake with
        | true =>
          exact .inl (by
            simp only [Benchlist.bench,hzero,if_false,hbenched,hnew,htotal,hmax,if_true])
        | false =>
          refine .inr ⟨benchedStake,newBenchedStake,totalStake,rfl,hnew,rfl,hmax,?_⟩
          simp [Benchlist.bench,hzero,hbenched,hnew,htotal,hmax]

/-! ## Runs -/

namespace State
variable {c : Config S} {s s' : State N}

/-- The timer while the goroutine is at a place. Only at the `select` may it run. -/
def TimerAt (timer : Timer) : Place → Prop
  | .selecting => timer.Armed
  | .draining => timer = ⟨false,true⟩
  | _ => timer.Spent

def Alarm (s : State N) : Place → ℤ → Prop
  | .selecting, t => t = s.alarm
  | .resetting now duration, t => t = now + duration
  | _, _ => False

variable [DecidableEq N]

structure Inv (c : Config S) (s : State N) : Prop where
  good : Good c s.benchlist
  failing : ∀ n, s.failing = some n →
    benchedUntil n s.benchlist.history = none ∧ Due c n s.benchlist.history
  timer : TimerAt s.timer s.place
  blocked : s.place = .blocked → s.benchlist.resetTimer = false →
    ∀ n, benchedUntil n s.benchlist.history = none
  alarm : ∀ wake, Alarm s s.place wake → s.benchlist.resetTimer = false →
    ∀ n t, benchedUntil n s.benchlist.history = some t → wake ≤ t

namespace Inv

theorem start : Inv c (start : State N) where
  good := .newBenchlist
  failing n h := by cases h
  timer := .inl rfl
  blocked h := by cases h
  alarm _ _ _ n t h := by cases h

theorem call (h : Inv c s) {b : Benchlist N} {failing : Option N} (hgood : Good c b)
    (hfailing : ∀ n, failing = some n → benchedUntil n b.history = none ∧ Due c n b.history)
    (hquiet : b.resetTimer = false → s.benchlist.resetTimer = false ∧
      ∀ n, benchedUntil n b.history = benchedUntil n s.benchlist.history) :
    Inv c { s with benchlist := b, failing := failing } where
  good := hgood
  failing := hfailing
  timer := h.timer
  blocked hplace hmessage n := by
    obtain ⟨hmessage,hsame⟩ := hquiet hmessage
    exact (hsame n).trans (h.blocked hplace hmessage n)
  alarm wake hwake hmessage n t ht := by
    obtain ⟨hmessage,hsame⟩ := hquiet hmessage
    exact h.alarm wake hwake hmessage n t ((hsame n).symm.trans ht)

theorem moveToLook (h : Inv c s) {timer : Timer} {place : Place} (message : Bool)
    (htimer : TimerAt timer place) (hplace : place ≠ .blocked)
    (hlook : ∀ wake, ¬Alarm s place wake) :
    Inv c
      { s with
        benchlist := { s.benchlist with resetTimer := message }
        timer := timer
        place := place } where
  good := h.good.resetTimer message
  failing := h.failing
  timer := htimer
  blocked hblocked := absurd hblocked hplace
  alarm wake hwake := absurd hwake (hlook wake)

end Inv

variable [DecidableEq S] [Inhabited N] {V : Validators.Manager S N P T → Prop}

theorem Step.inv (hstep : Step c V s s') (h : Inv c s) : Inv c s' := by
  have htimer := h.timer
  cases hstep with
  | response nodeID =>
    refine h.call (h.good.registerResponse nodeID) (fun n hn => ?_) fun hm => ⟨hm,fun _ => rfl⟩
    obtain ⟨hfree,hdue⟩ := h.failing n hn
    exact ⟨hfree,hdue.response nodeID⟩
  | @failure nodeID now b bench hlock hnow hcall =>
    obtain ⟨hgood,hreset,_,hsame,hdue⟩ := h.good.registerFailure hnow hcall
    refine h.call hgood (fun n hn => ?_) fun hm => ⟨hreset ▸ hm,hsame⟩
    cases bench with
    | true =>
      cases hn
      exact hdue rfl
    | false => cases hn
  | @bench nodeID r now jitter b hlock _ _ _ _ _ hjitter hcall =>
    obtain ⟨hfree,hdue⟩ := h.failing nodeID hlock
    rcases s.benchlist.bench_cases c r now jitter nodeID with hsame | ⟨_,_,_,_,_,_,_,hput⟩
    · rw [hsame] at hcall
      cases hcall
      exact h.call h.good (fun n hn => by cases hn) fun hm => ⟨hm,fun _ => rfl⟩
    · obtain ⟨b',hok,hgood,hmessage,_⟩ := h.good.putOnBench now hfree hdue hjitter
      rw [hput,hok] at hcall
      cases hcall
      refine h.call hgood (fun n hn => by cases hn) fun hm => ?_
      rw [hmessage] at hm
      cases hm
  | fire hrunning =>
    refine ⟨h.good,h.failing,?_,h.blocked,h.alarm⟩
    -- only at the `select` does the timer run
    cases hplace : s.place <;> simp [hplace,TimerAt,Timer.Spent] at htimer
    case selecting => exact s.timer.armed_fire
    all_goals simp [htimer] at hrunning
  | tick hplace htick =>
    rw [hplace] at htimer
    refine h.moveToLook _ ?_ (by decide) (fun _ hwake => hwake)
    rcases htimer with htimer | htimer
    · simp [htimer] at htick
    · simp [htimer,TimerAt,Timer.Spent,Timer.receive]
  | @reset stopped timer hplace hmessage hstop =>
    rw [hplace] at htimer
    cases stopped with
    | true | false =>
      refine h.moveToLook false ?_ (by decide) (fun _ hwake => hwake)
      rcases htimer with htimer | htimer <;> simp [htimer,Timer.stop] at hstop
      exact hstop.symm
  | drain hplace htick =>
    rw [hplace] at htimer
    refine h.moveToLook _ ?_ (by decide) (fun _ hwake => hwake)
    simp [show s.timer = ⟨false,true⟩ from htimer,TimerAt,Timer.Spent,Timer.receive]
  | @look next hplace hlock hpeek =>
    rw [hplace] at htimer
    rcases h.good.holds.peek with ⟨hnone,hempty⟩ | ⟨nodeID,first,hsome,_⟩
    · rw [hnone] at hpeek
      cases hpeek
      exact ⟨h.good,h.failing,htimer,fun _ _ => hempty,fun _ hwake => hwake.elim⟩
    · rw [hsome] at hpeek
      cases hpeek
      exact h.moveToLook _ htimer (by simp) (fun _ hwake => hwake)
  | wake hplace hmessage =>
    rw [hplace] at htimer
    exact h.moveToLook false htimer (by decide) (fun _ hwake => hwake)
  | @remove now b hplace hlock hremove =>
    rw [hplace] at htimer
    obtain ⟨b',_,hok,hgood,_⟩ := h.good.removedExpiredNodes now
    rw [hok] at hremove
    cases hremove
    refine ⟨hgood,fun n hn => ?_,htimer,(fun hblocked => by cases hblocked),
      fun _ hwake => hwake.elim⟩
    rw [hlock] at hn
    cases hn
  | @measure now duration hplace hlock hmeasure =>
    rw [hplace] at htimer
    obtain ⟨_,hok,hle⟩ := h.good.durationToSleep now
    rw [hok] at hmeasure
    cases hmeasure
    refine ⟨h.good,h.failing,htimer,(fun hblocked => by cases hblocked),?_⟩
    rintro wake rfl _
    exact hle
  | @sleep now duration hplace =>
    rw [hplace] at htimer
    have htimer : s.timer = ⟨false,false⟩ := htimer
    refine ⟨h.good,h.failing,.inl (by simp [htimer,Timer.reset]),
      (fun hblocked => by cases hblocked),?_⟩
    rintro wake rfl
    exact h.alarm _ (by rw [hplace]; rfl)

theorem Reachable.inv (h : Reachable c V s) : Inv c s := by
  induction h with
  | start => exact .start
  | step _ hstep ih => exact hstep.inv ih

/-- `IsBenched`, the heap and the calls of `Benched` and `Unbenched` agree in every state. The two
calls take turns for every node, and no node is taken off the bench before its time. -/
theorem bench_follows_calls (h : Reachable c V s) :
    (∀ nodeID, s.benchlist.isBenched nodeID = true ↔
      ∃ t, benchedUntil nodeID s.benchlist.history = some t) ∧
    (∀ nodeID t, ⟨nodeID,t⟩ ∈ s.benchlist.benchedHeap.queue.entries ↔
      benchedUntil nodeID s.benchlist.history = some t) ∧
    (s.benchlist.benchedHeap.queue.entries.map Heap.Entry.k).Nodup ∧
    (∀ later nodeID now t earlier,
      s.benchlist.history = later ++ .benched nodeID now t :: earlier →
        benchedUntil nodeID earlier = none) ∧
    ∀ later nodeID now earlier,
      s.benchlist.history = later ++ .unbenched nodeID now :: earlier →
        ∃ t, benchedUntil nodeID earlier = some t ∧ t ≤ now := by
  obtain ⟨hholds,hset,_,hlawful⟩ := h.inv.good
  refine ⟨fun n => ?_,hholds.entries,hholds.valid.synced.keys_nodup,?_,?_⟩
  · rw [Benchlist.isBenched,decide_eq_true_eq,hset]
  · intro later nodeID now t earlier heq
    rw [heq] at hlawful
    exact hlawful.allowed.1
  · intro later nodeID now earlier heq
    rw [heq] at hlawful
    exact hlawful.allowed

/-- A node is benched by a failure that completes a streak: there are at least `threshold` failures
since it last answered or was benched, and the first is older than `minimumFailingDuration`. Only
responses can come between that failure and the benching. The node stays for at least half of the
duration, and for the whole of it at most. -/
theorem benched_after_streak (h : Reachable c V s)
    {later earlier : List (Event N)} {nodeID : N} {now t : ℤ}
    (hhistory : s.benchlist.history = later ++ .benched nodeID now t :: earlier) :
    (∃ responses last first before,
      earlier = responses ++ .failure nodeID last :: before ∧
      (∀ e ∈ responses, ∃ n, e = .response n) ∧
      (recent nodeID (.failure nodeID last :: before)).getLast? = some first ∧
      c.threshold ≤ (recent nodeID (.failure nodeID last :: before)).length ∧
      first + c.minimumFailingDuration < last) ∧
    (0 ≤ c.duration → now + c.duration / 2 ≤ t ∧ t ≤ now + c.duration) := by
  have hlawful := h.inv.good.lawful
  rw [hhistory] at hlawful
  obtain ⟨_,hdue,jitter,hjitter,rfl⟩ := hlawful.allowed
  refine ⟨hdue,fun hduration => ?_⟩
  have hhalf : c.duration.tdiv 2 = c.duration / 2 := Int.tdiv_eq_ediv_of_nonneg hduration
  rw [Jitter,hhalf] at hjitter
  rw [hhalf]
  omega

/-- `removedExpiredNodes` takes exactly the nodes off the bench that are due, with one call of
`Unbenched` for each of them. -/
theorem removed_when_due (h : Reachable c V s) (now : ℤ) : ∃ b removed,
    s.benchlist.removedExpiredNodes now = .ok b ∧
    b.history = removed ++ s.benchlist.history ∧ removed.Nodup ∧
    (∀ e, e ∈ removed ↔ ∃ n t, e = .unbenched n now ∧ t ≤ now ∧
      ⟨n,t⟩ ∈ s.benchlist.benchedHeap.queue.entries) ∧
    (∀ e, e ∈ b.benchedHeap.queue.entries ↔
      e ∈ s.benchlist.benchedHeap.queue.entries ∧ now < e.v) ∧
    ∀ n, b.isBenched n = true ↔
      ∃ t, ⟨n,t⟩ ∈ s.benchlist.benchedHeap.queue.entries ∧ now < t := by
  have hgood := h.inv.good
  obtain ⟨b,removed,hok,hgood',_,_,hhistory,hremoved,hleft⟩ := hgood.removedExpiredNodes now
  have hlawful := hgood'.lawful
  rw [hhistory] at hlawful
  obtain ⟨hnodup,hmem⟩ := hlawful.removed hremoved
  refine ⟨b,removed,hok,hhistory,hnodup,fun e => ?_,fun e => ?_,fun n => ?_⟩
  · simp only [hgood.holds.entries]
    constructor
    · intro he
      obtain ⟨n,rfl⟩ := hremoved e he
      obtain ⟨hnone,t,ht⟩ := (hmem n).mp he
      refine ⟨n,t,rfl,?_,ht⟩
      by_contra hlt
      have hstays := (hleft n t).mpr ⟨ht,by omega⟩
      rw [hhistory,hnone] at hstays
      cases hstays
    · rintro ⟨n,t,rfl,hle,ht⟩
      refine (hmem n).mpr ⟨?_,t,ht⟩
      rw [← hhistory,Option.eq_none_iff_forall_ne_some]
      intro t' ht'
      obtain ⟨hbefore,hlt⟩ := (hleft n t').mp ht'
      rw [ht] at hbefore
      cases hbefore
      omega
  · obtain ⟨n,t⟩ := e
    rw [hgood'.holds.entries,hgood.holds.entries,hleft]
  · simp only [Benchlist.isBenched,decide_eq_true_eq,hgood'.set,hleft,hgood.holds.entries]

namespace Sample

def config : Config ℕ where
  subnetID := 0
  threshold := 2
  minimumFailingDuration := 3
  duration := 10
  exceedsMax := fun newBenchedStake totalStake =>
    decide (totalStake.toNat < 2 * newBenchedStake.toNat)

/-- The stakes are 10 and 90. -/
def vdrs : Validators.Manager ℕ ℕ ℕ ℕ :=
  ((Validators.Manager.newManager.addStaker 0 7 none 1 10).manager.addStaker 0 8 none 2 90).manager

theorem failed_reachable : ∃ s : State ℕ, Reachable config (· = vdrs) s ∧ s.failing = some 7 ∧
    s.place = .selecting ∧ s.timer = .new ∧ s.benchlist.benchlistSet = ∅ ∧
    s.benchlist.history = [.failure 7 5,.failure 7 1] := by
  have hfirst : Reachable config (· = vdrs) _ := .step .start (.failure 7 1 rfl (by decide) rfl)
  exact ⟨_,hfirst.step (.failure 7 5 rfl (by decide) rfl),by decide,rfl,rfl,rfl,rfl⟩

theorem jitter_zero : Jitter config 0 := by
  simp [Jitter,config]

theorem benched_reachable : ∃ s : State ℕ, Reachable config (· = vdrs) s ∧ s.failing = none ∧
    s.place = .selecting ∧ s.timer = .new ∧ s.benchlist.resetTimer = true ∧
    s.benchlist.benchlistSet = {7} ∧
    s.benchlist.history = [.benched 7 6 11,.failure 7 5,.failure 7 1] := by
  obtain ⟨s,hs,hlock,hplace,htimer,hset,hhistory⟩ := failed_reachable
  obtain ⟨hfree,hdue⟩ := hs.inv.failing 7 hlock
  obtain ⟨b,hput,_,hmessage,hset',hhistory'⟩ := hs.inv.good.putOnBench 6 hfree hdue jitter_zero
  have hbench : s.benchlist.bench config ⟨vdrs,vdrs,vdrs,[]⟩ 6 0 7 = .ok b := by
    rw [← hput]
    rfl
  have hstep : Step config (· = vdrs) s _ :=
    .bench hlock rfl rfl rfl List.nodup_nil (by simp [hset]) jitter_zero hbench
  refine ⟨_,hs.step hstep,rfl,hplace,htimer,hmessage,?_,?_⟩
  · rw [hset',hset]
    rfl
  · rw [hhistory',hhistory]
    rfl

theorem removing_reachable : ∃ s : State ℕ, Reachable config (· = vdrs) s ∧ s.failing = none ∧
    s.place = .removing ∧ s.benchlist.resetTimer = false ∧
    benchedUntil 7 s.benchlist.history = some 11 := by
  obtain ⟨s,hs,hlock,hplace,htimer,hmessage,_,hhistory⟩ := benched_reachable
  have hstop : s.timer.stop = (true,⟨false,false⟩) := by
    rw [htimer]
    rfl
  have hs := hs.step (.reset hplace hmessage hstop)
  have hbenched : benchedUntil 7 s.benchlist.history = some 11 := by
    rw [hhistory]
    rfl
  rcases hs.inv.good.holds.peek with ⟨_,hnone⟩ | ⟨_,_,hpeek,_⟩
  · exact absurd (hbenched.symm.trans (hnone 7)) (by decide)
  · exact ⟨_,hs.step (.look rfl hlock hpeek),hlock,rfl,rfl,hbenched⟩

theorem sleeping_reachable : ∃ s : State ℕ, Reachable config (· = vdrs) s ∧
    s.place = .selecting ∧ s.benchlist.resetTimer = false ∧
    benchedUntil 7 s.benchlist.history = some 11 := by
  obtain ⟨s,hs,hlock,hplace,hmessage,hbenched⟩ := removing_reachable
  obtain ⟨b,_,hremove,hgood,hmessage',_,_,_,hleft⟩ := hs.inv.good.removedExpiredNodes 6
  obtain ⟨duration,hmeasure,_⟩ := hgood.durationToSleep 6
  have hs := ((hs.step (.remove hplace hlock hremove)).step (.measure rfl hlock hmeasure)).step
    (.sleep rfl)
  exact ⟨_,hs,rfl,hmessage'.trans hmessage,(hleft 7 11).mpr ⟨hbenched,by decide⟩⟩

theorem benched_follows : ∃ s : State ℕ, Reachable config (· = vdrs) s ∧
    s.benchlist.isBenched 7 = true ∧
    ∃ t, ⟨7,t⟩ ∈ s.benchlist.benchedHeap.queue.entries := by
  obtain ⟨s,hs,_,_,hbenched⟩ := sleeping_reachable
  obtain ⟨hset,hheap,_⟩ := bench_follows_calls hs
  exact ⟨s,hs,(hset 7).mpr ⟨11,hbenched⟩,11,(hheap 7 11).mpr hbenched⟩

theorem benched_streak : ∃ s : State ℕ, Reachable config (· = vdrs) s ∧
    s.benchlist.history = [] ++ .benched 7 6 11 :: [.failure 7 5,.failure 7 1] ∧
    6 + config.duration / 2 ≤ 11 ∧ 11 ≤ 6 + config.duration := by
  obtain ⟨s,hs,_,_,_,_,_,hhistory⟩ := benched_reachable
  have hsplit : s.benchlist.history = [] ++ .benched 7 6 11 :: [.failure 7 5,.failure 7 1] :=
    hhistory
  obtain ⟨_,hwindow⟩ := benched_after_streak hs hsplit
  exact ⟨s,hs,hhistory,hwindow (by decide)⟩

theorem benched_removed : ∃ (s : State ℕ) (b : Benchlist ℕ), Reachable config (· = vdrs) s ∧
    s.benchlist.isBenched 7 = true ∧ s.benchlist.removedExpiredNodes 11 = .ok b ∧
    b.isBenched 7 = false := by
  obtain ⟨s,hs,_,_,hbenched⟩ := sleeping_reachable
  obtain ⟨b,_,hok,_,_,_,_,hleft⟩ := removed_when_due hs 11
  refine ⟨s,b,hs,?_,hok,Bool.eq_false_iff.mpr fun h => ?_⟩
  · simp [Benchlist.isBenched,hs.inv.good.set,hbenched]
  · obtain ⟨t,hmem,hlt⟩ := (hleft 7).mp h
    rw [hs.inv.good.holds.entries,hbenched] at hmem
    cases hmem
    exact absurd hlt (by decide)

end Sample
end State
end Landslide.Bench
