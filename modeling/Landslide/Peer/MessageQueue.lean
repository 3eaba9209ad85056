import Landslide.Lib.Threads
import Mathlib.Logic.Relation

/-! # The send queue of a peer

Goroutines push messages into a channel, others take them out, and one closes the queue. A push
holds a read lock for as long as it runs; closing signals first and then empties the channel under
the write lock; taking out needs no lock. Every statement of the calls that touches what they
share is a step here, and the steps of the calls may come in any order. A message carries the
number of the call it was given to, so that two pushes of the same message stay apart.
-/
namespace Landslide.Peer.MessageQueue
variable {M : Type}

abbrev Ticket (M : Type) := ℕ × M

inductive Place (M : Type) where
  | unused
  /-- `Push`: waits for the read lock, is at the first `select`, at the second, about to report the
  message, about to give the lock back, has returned. -/
  | pushLock (x : Ticket M)
  | pushCheck (x : Ticket M)
  | pushWait (x : Ticket M)
  | pushFail (x : Ticket M)
  | pushUnlock (result : Bool)
  | pushed (result : Bool)
  | pop
  | popNow
  | popped (received : Option (Ticket M))
  /-- `Close`: is at `closeOnce`, about to close `closing`, waits for the write lock, is at the
  `select` of the loop, about to report a message, about to give the lock back, at the end of the
  function, has returned. -/
  | closeOnce
  | closeSignal
  | closeLock
  | closeDrain
  | closeReport (x : Ticket M)
  | closeUnlock
  | closeDone
  | closed

inductive Once where
  | notStarted
  | running
  | done
  deriving DecidableEq

structure Shared (M : Type) where
  queue : List (Ticket M)
  bufferSize : ℕ
  closing : Bool
  once : Once
  /-- `closingLock`. -/
  readers : ℕ
  writer : Bool
  failed : List (Ticket M)
  /-- The pushes whose context is done. -/
  cancelled : ℕ → Bool
  entered : List ℕ
  /-- What was given to the pushes. -/
  given : ℕ → Option M

abbrev State (M : Type) := Threads (Shared M) (Place M)

def newQueue (bufferSize : ℕ) : State M :=
  ⟨⟨[],bufferSize,false,.notStarted,0,false,[],fun _ => false,[],fun _ => none⟩,0,fun _ => .unused⟩

inductive Move (i : ℕ) : Shared M → Place M → Shared M → Place M → Prop
  | rlock {sh : Shared M} {x : Ticket M} (h : sh.writer = false) :
      Move i sh (.pushLock x) { sh with readers := sh.readers + 1 } (.pushCheck x)
  | checkClosing {sh : Shared M} {x : Ticket M} (h : sh.closing = true) :
      Move i sh (.pushCheck x) sh (.pushFail x)
  | checkCancelled {sh : Shared M} {x : Ticket M} (h : sh.cancelled i = true) :
      Move i sh (.pushCheck x) sh (.pushFail x)
  | checkDefault {sh : Shared M} {x : Ticket M} (h : sh.closing = false)
      (h' : sh.cancelled i = false) : Move i sh (.pushCheck x) sh (.pushWait x)
  | send {sh : Shared M} {x : Ticket M} (h : sh.queue.length < sh.bufferSize) :
      Move i sh (.pushWait x) { sh with queue := sh.queue ++ [x], entered := i :: sh.entered }
        (.pushUnlock true)
  | waitCancelled {sh : Shared M} {x : Ticket M} (h : sh.cancelled i = true) :
      Move i sh (.pushWait x) sh (.pushFail x)
  | waitClosing {sh : Shared M} {x : Ticket M} (h : sh.closing = true) :
      Move i sh (.pushWait x) sh (.pushFail x)
  | reportPush {sh : Shared M} {x : Ticket M} :
      Move i sh (.pushFail x) { sh with failed := sh.failed ++ [x] } (.pushUnlock false)
  | runlock {sh : Shared M} {result : Bool} :
      Move i sh (.pushUnlock result) { sh with readers := sh.readers - 1 } (.pushed result)
  | popReceive {sh : Shared M} {x : Ticket M} {rest : List (Ticket M)} (h : sh.queue = x :: rest) :
      Move i sh .pop { sh with queue := rest } (.popped (some x))
  | popClosing {sh : Shared M} (h : sh.closing = true) : Move i sh .pop sh (.popped none)
  | popNowReceive {sh : Shared M} {x : Ticket M} {rest : List (Ticket M)}
      (h : sh.queue = x :: rest) : Move i sh .popNow { sh with queue := rest } (.popped (some x))
  | popNowDefault {sh : Shared M} (h : sh.queue = []) : Move i sh .popNow sh (.popped none)
  | onceFirst {sh : Shared M} (h : sh.once = .notStarted) :
      Move i sh .closeOnce { sh with once := .running } .closeSignal
  | onceDone {sh : Shared M} (h : sh.once = .done) : Move i sh .closeOnce sh .closed
  | signal {sh : Shared M} : Move i sh .closeSignal { sh with closing := true } .closeLock
  | lock {sh : Shared M} (h : sh.readers = 0) (h' : sh.writer = false) :
      Move i sh .closeLock { sh with writer := true } .closeDrain
  | drainReceive {sh : Shared M} {x : Ticket M} {rest : List (Ticket M)} (h : sh.queue = x :: rest) :
      Move i sh .closeDrain { sh with queue := rest } (.closeReport x)
  | drainDefault {sh : Shared M} (h : sh.queue = []) : Move i sh .closeDrain sh .closeUnlock
  | reportClose {sh : Shared M} {x : Ticket M} :
      Move i sh (.closeReport x) { sh with failed := sh.failed ++ [x] } .closeDrain
  | unlock {sh : Shared M} : Move i sh .closeUnlock { sh with writer := false } .closeDone
  | onceReturn {sh : Shared M} : Move i sh .closeDone { sh with once := .done } .closed

inductive Takes (x : Ticket M) : Place M → Place M → Prop
  | pop : Takes x .pop (.popped (some x))
  | popNow : Takes x .popNow (.popped (some x))
  | drain : Takes x .closeDrain (.closeReport x)

inductive Begins : Place M → Prop
  | pop : Begins .pop
  | popNow : Begins .popNow
  | close : Begins .closeOnce

inductive Step : State M → State M → Prop
  | push {t : State M} (m : M) : Step t (Threads.start
      { t with shared := { t.shared with given := Function.update t.shared.given t.started (some m) } }
      (.pushLock (t.started,m)))
  | begin {t : State M} {p : Place M} (h : Begins p) : Step t (t.start p)
  | cancel {t : State M} (i : ℕ) : Step t
      { t with shared := { t.shared with cancelled := Function.update t.shared.cancelled i true } }
  | move {t : State M} {i : ℕ} {sh : Shared M} {p : Place M} (hi : i < t.started)
      (h : Move i t.shared (t.place i) sh p) : Step t (t.move i (sh,p))
  /-- A push and a call that waits meet at the channel, which is empty. -/
  | meet {t : State M} {i j : ℕ} {x : Ticket M} {p : Place M} (hi : i < t.started)
      (hj : j < t.started) (hplace : t.place i = .pushWait x) (htakes : Takes x (t.place j) p)
      (hqueue : t.shared.queue = []) :
      Step t ((t.move i ({ t.shared with entered := i :: t.shared.entered },.pushUnlock true)).move j
        ({ t.shared with entered := i :: t.shared.entered },p))

def Reachable (bufferSize : ℕ) (t : State M) : Prop :=
  Relation.ReflTransGen Step (newQueue bufferSize) t

/-! ## Where a message can be -/

def one (k : ℕ) (x : Ticket M) : ℕ := if x.1 = k then 1 else 0

def held (k : ℕ) : Place M → ℕ
  | .pushLock x | .pushCheck x | .pushWait x | .pushFail x => one k x
  | _ => 0

/-- Closing took the message out and has not reported it yet. -/
def drained (k : ℕ) : Place M → ℕ
  | .closeReport x => one k x
  | _ => 0

def returned (k : ℕ) : Place M → ℕ
  | .popped (some x) => one k x
  | _ => 0

def inList (k : ℕ) : List (Ticket M) → ℕ
  | [] => 0
  | x :: xs => one k x + inList k xs

def inCalls (k : ℕ) (p : Place M) : ℕ := held k p + drained k p + returned k p

/-- In how many places the message of push `k` is. -/
def places (t : State M) (k : ℕ) : ℕ :=
  totalOf (inCalls k) t.started t.place + inList k t.shared.queue + inList k t.shared.failed

theorem inList_append (k : ℕ) (xs : List (Ticket M)) (x : Ticket M) :
    inList k (xs ++ [x]) = inList k xs + one k x := by
  induction xs with
  | nil => simp [inList]
  | cons y ys ih =>
    rw [List.cons_append,inList,ih,inList,Nat.add_assoc]

theorem Move.keeps {i : ℕ} {sh sh' : Shared M} {p p' : Place M} (h : Move i sh p sh' p') (k : ℕ) :
    inCalls k p' + inList k sh'.queue + inList k sh'.failed =
      inCalls k p + inList k sh.queue + inList k sh.failed := by
  cases h <;> simp_all [inCalls,held,drained,returned,inList,inList_append] <;> omega

/-! ## What a call knows -/

def Fits (sh : Shared M) (i : ℕ) : Place M → Prop
  | .pushLock x | .pushCheck x | .pushWait x | .pushFail x =>
    x.1 = i ∧ i ∉ sh.entered ∧ sh.given i = some x.2
  | .pushUnlock result | .pushed result => (result = true ↔ i ∈ sh.entered) ∧
    (result = false → ∃ x ∈ sh.failed, x.1 = i) ∧ (sh.given i).isSome
  | .popped (some x) => sh.given x.1 = some x.2
  | .closeReport x => sh.closing = true ∧ sh.given x.1 = some x.2
  | .closeLock | .closeDrain | .closeUnlock | .closeDone => sh.closing = true
  | .closed => sh.once = .done
  | _ => True

structure Extends (i : ℕ) (sh sh' : Shared M) : Prop where
  entered : ∀ j, j ≠ i → (j ∈ sh'.entered ↔ j ∈ sh.entered)
  failed : ∀ x ∈ sh.failed, x ∈ sh'.failed
  given : ∀ k m, sh.given k = some m → sh'.given k = some m
  closing : sh.closing = true → sh'.closing = true
  once : sh.once = .done → sh'.once = .done

theorem Move.extends {i : ℕ} {sh sh' : Shared M} {p p' : Place M} (h : Move i sh p sh' p') :
    Extends i sh sh' := by
  cases h <;> constructor <;> simp_all

theorem Move.given {i : ℕ} {sh sh' : Shared M} {p p' : Place M} (h : Move i sh p sh' p') :
    sh'.given = sh.given := by
  cases h <;> rfl

theorem Fits.other {i j : ℕ} {sh sh' : Shared M} {p : Place M} (h : Fits sh j p)
    (hext : Extends i sh sh') (hij : j ≠ i) : Fits sh' j p := by
  have hentered := hext.entered j hij
  have hsome : (sh.given j).isSome → (sh'.given j).isSome := by
    intro hs
    obtain ⟨m,hm⟩ := Option.isSome_iff_exists.mp hs
    rw [hext.given j m hm]
    rfl
  have hresult : ∀ result : Bool, (result = true ↔ j ∈ sh.entered) ∧
      (result = false → ∃ x ∈ sh.failed, x.1 = j) ∧ (sh.given j).isSome →
      (result = true ↔ j ∈ sh'.entered) ∧
      (result = false → ∃ x ∈ sh'.failed, x.1 = j) ∧ (sh'.given j).isSome := by
    rintro result ⟨hiff,hfailed,hs⟩
    refine ⟨hiff.trans hentered.symm,fun hfalse => ?_,hsome hs⟩
    obtain ⟨x,hx,hxj⟩ := hfailed hfalse
    exact ⟨x,hext.failed x hx,hxj⟩
  have hticket : ∀ x : Ticket M, x.1 = j ∧ j ∉ sh.entered ∧ sh.given j = some x.2 →
      x.1 = j ∧ j ∉ sh'.entered ∧ sh'.given j = some x.2 :=
    fun x ⟨hx,hnot,hg⟩ => ⟨hx,fun hin => hnot (hentered.mp hin),hext.given _ _ hg⟩
  cases p with
  | pushLock x => exact hticket x h
  | pushCheck x => exact hticket x h
  | pushWait x => exact hticket x h
  | pushFail x => exact hticket x h
  | pushUnlock result => exact hresult result h
  | pushed result => exact hresult result h
  | popped received =>
    cases received with
    | none => trivial
    | some x => exact hext.given _ _ h
  | closeReport x => exact ⟨hext.closing h.1,hext.given _ _ h.2⟩
  | closeLock => exact hext.closing h
  | closeDrain => exact hext.closing h
  | closeUnlock => exact hext.closing h
  | closeDone => exact hext.closing h
  | closed => exact hext.once h
  | unused => trivial
  | pop => trivial
  | popNow => trivial
  | closeOnce => trivial
  | closeSignal => trivial

/-- The messages in the lists are those that were given. -/
def Known (sh : Shared M) : Prop := ∀ x, x ∈ sh.queue ∨ x ∈ sh.failed → sh.given x.1 = some x.2

theorem Move.fits {i : ℕ} {sh sh' : Shared M} {p p' : Place M} (h : Move i sh p sh' p')
    (hfits : Fits sh i p) (hknown : Known sh) : Fits sh' i p' := by
  cases h with
  | popReceive h => exact hknown _ (.inl (by simp [h]))
  | popNowReceive h => exact hknown _ (.inl (by simp [h]))
  | drainReceive h => exact ⟨hfits,hknown _ (.inl (by simp [h]))⟩
  | _ => simp_all [Fits]

theorem Move.known {i : ℕ} {sh sh' : Shared M} {p p' : Place M} (h : Move i sh p sh' p')
    (hfits : Fits sh i p) (hknown : Known sh) : Known sh' := by
  unfold Known at hknown ⊢
  cases h
  all_goals simp_all [Fits]
  all_goals grind

/-! ## The read lock -/

def holdsRead : Place M → ℕ
  | .pushCheck _ | .pushWait _ | .pushFail _ | .pushUnlock _ => 1
  | _ => 0

theorem Move.readers {i : ℕ} {sh sh' : Shared M} {p p' : Place M} (h : Move i sh p sh' p')
    (hle : holdsRead p ≤ sh.readers) : sh'.readers + holdsRead p = sh.readers + holdsRead p' := by
  cases h <;> simp_all [holdsRead]

/-! ## The end of the queue -/

/-- Closing has the write lock, or had it. -/
def sealedAt : Place M → Bool
  | .closeDrain | .closeReport _ | .closeUnlock | .closeDone => true
  | _ => false

def emptiedAt : Place M → Bool
  | .closeUnlock | .closeDone => true
  | _ => false

def sendsAt : Place M → Bool
  | .pushWait _ | .pushUnlock true => true
  | _ => false

def Sealed (t : State M) : Prop := (∃ j, sealedAt (t.place j) = true) ∨ t.shared.once = .done

def Emptied (t : State M) : Prop := (∃ j, emptiedAt (t.place j) = true) ∨ t.shared.once = .done

structure Invariant (t : State M) : Prop where
  fresh : ∀ k, t.started ≤ k → t.shared.given k = none
  unused : ∀ i, t.started ≤ i → t.place i = .unused
  entered : ∀ k ∈ t.shared.entered, k < t.started
  conserved : ∀ k, places t k = if (t.shared.given k).isSome then 1 else 0
  fits : ∀ i, Fits t.shared i (t.place i)
  known : Known t.shared
  readers : t.shared.readers = totalOf holdsRead t.started t.place
  closing : t.shared.once = .done → t.shared.closing = true
  noSender : Sealed t → ∀ i, sendsAt (t.place i) = false
  emptied : Emptied t → t.shared.queue = []

/-! ## One step of one call -/

section
variable {t : State M} {i : ℕ} {sh : Shared M} {p : Place M}

theorem Invariant.holdsRead_le (ht : Invariant t) (i : ℕ) :
    holdsRead (t.place i) ≤ t.shared.readers := by
  by_cases hi : i < t.started
  · rw [ht.readers]
    exact le_totalOf hi
  · rw [ht.unused i (not_lt.mp hi)]
    exact Nat.zero_le _

theorem move_places (hi : i < t.started) (h : Move i t.shared (t.place i) sh p) (k : ℕ) :
    places (t.move i (sh,p)) k = places t k := by
  have hkeeps := h.keeps k
  have htotal : totalOf (inCalls k) t.started (Function.update t.place i p) +
      inCalls k (t.place i) = totalOf (inCalls k) t.started t.place + inCalls k p := totalOf_update hi p
  unfold places Threads.move
  dsimp only
  omega

theorem forall_update {P : ℕ → Place M → Prop} {place : ℕ → Place M} (hself : P i p)
    (hother : ∀ j, j ≠ i → P j (place j)) : ∀ j, P j (Function.update place i p j) := by
  intro j
  by_cases hj : j = i
  · subst hj
    rwa [Function.update_self]
  · rw [Function.update_of_ne hj]
    exact hother j hj

theorem exists_update {P : Place M → Prop} {place : ℕ → Place M}
    (h : ∃ j, P (Function.update place i p j)) : P p ∨ ∃ j, j ≠ i ∧ P (place j) := by
  obtain ⟨j,hj⟩ := h
  by_cases hji : j = i
  · subst hji
    rw [Function.update_self] at hj
    exact .inl hj
  · rw [Function.update_of_ne hji] at hj
    exact .inr ⟨j,hji,hj⟩

theorem Move.sealedAt {sh sh' : Shared M} {p p' : Place M} (h : Move i sh p sh' p')
    (hsealed : MessageQueue.sealedAt p' = true) :
    MessageQueue.sealedAt p = true ∨ sh.readers = 0 := by
  cases h <;> simp_all [MessageQueue.sealedAt]

theorem Move.emptiedAt {sh sh' : Shared M} {p p' : Place M} (h : Move i sh p sh' p')
    (hemptied : MessageQueue.emptiedAt p' = true) : sh.queue = [] ∧ sh'.queue = [] ∨
      MessageQueue.emptiedAt p = true := by
  cases h <;> simp_all [MessageQueue.emptiedAt]

theorem Move.once {sh sh' : Shared M} {p p' : Place M} (h : Move i sh p sh' p')
    (hdone : sh'.once = .done) : sh.once = .done ∨ p = .closeDone := by
  cases h <;> simp_all

theorem Move.queue {sh sh' : Shared M} {p p' : Place M} (h : Move i sh p sh' p')
    (hempty : sh.queue = []) : sh'.queue = [] ∨ ∃ x, p = .pushWait x := by
  cases h <;> simp_all

/-- Who may send waited at the channel, or has seen that the queue is open. -/
theorem Move.sendsAt {sh sh' : Shared M} {p p' : Place M} (h : Move i sh p sh' p')
    (hp : MessageQueue.sendsAt p' = true) : MessageQueue.sealedAt p' = false ∧
      sh'.once = sh.once ∧ (MessageQueue.sendsAt p = true ∨ sh.closing = false) := by
  cases h <;> simp_all [MessageQueue.sendsAt,MessageQueue.sealedAt]

theorem holdsRead_of_sendsAt {p : Place M} (h : sendsAt p = true) : holdsRead p = 1 := by
  unfold sendsAt at h
  split at h
  · rfl
  · rfl
  · cases h

theorem Fits.closing_of_sealedAt {p : Place M} (h : Fits sh i p)
    (hsealed : MessageQueue.sealedAt p = true) : sh.closing = true := by
  cases p <;> simp_all [MessageQueue.sealedAt,Fits]

theorem Invariant.closing_of_sealed (ht : Invariant t) (h : Sealed t) :
    t.shared.closing = true := by
  rcases h with ⟨j,hj⟩ | hdone
  · exact (ht.fits j).closing_of_sealedAt hj
  · exact ht.closing hdone

theorem emptiedAt_sealedAt {p : Place M} (h : emptiedAt p = true) : sealedAt p = true := by
  cases p <;> simp_all [emptiedAt,sealedAt]

theorem Emptied.sealed (h : Emptied t) : Sealed t :=
  h.imp (fun ⟨j,hj⟩ => ⟨j,emptiedAt_sealedAt hj⟩) id

/-- What is sealed after a step was sealed before it, or nobody holds the read lock. -/
theorem Move.sealed_before (h : Move i t.shared (t.place i) sh p)
    (hsealed : Sealed (t.move i (sh,p))) : Sealed t ∨ t.shared.readers = 0 := by
  rcases hsealed with hplace | hdone
  · rcases exists_update (P := fun p => MessageQueue.sealedAt p = true) hplace with hself | hother
    · exact (h.sealedAt hself).imp_left fun hbefore => .inl ⟨i,hbefore⟩
    · obtain ⟨j,_,hj⟩ := hother
      exact .inl (.inl ⟨j,hj⟩)
  · rcases h.once hdone with hbefore | hlast
    · exact .inl (.inr hbefore)
    · exact .inl (.inl ⟨i,by rw [hlast]; rfl⟩)

theorem Invariant.move (ht : Invariant t) (hi : i < t.started)
    (h : Move i t.shared (t.place i) sh p) : Invariant (t.move i (sh,p)) := by
  have hext := h.extends
  refine ⟨?_,?_,?_,?_,?_,h.known (ht.fits i) ht.known,?_,?_,?_,?_⟩
  · intro k hk
    change sh.given k = none
    rw [h.given]
    exact ht.fresh k hk
  · intro j hj
    change Function.update t.place i p j = _
    rw [Function.update_of_ne (by
      rintro rfl
      exact absurd hi (not_lt.mpr hj))]
    exact ht.unused j hj
  · intro k hk
    change k < t.started
    by_cases hki : k = i
    · rwa [hki]
    · exact ht.entered k ((hext.entered k hki).mp hk)
  · intro k
    rw [move_places hi h]
    change _ = if (sh.given k).isSome then 1 else 0
    rw [h.given]
    exact ht.conserved k
  · exact forall_update (P := Fits sh) (h.fits (ht.fits i) ht.known)
      fun j hj => (ht.fits j).other hext hj
  · exact Threads.counted_move (g := Shared.readers) ht.readers hi
      (h.readers (ht.holdsRead_le i))
  · intro hdone
    change sh.closing = true
    rcases h.once hdone with hbefore | hlast
    · exact hext.closing (ht.closing hbefore)
    · have hfits := ht.fits i
      rw [hlast] at hfits
      exact hext.closing hfits
  · intro hsealed
    refine forall_update (P := fun _ p => sendsAt p = false) ?_ fun j hj => ?_
    · by_contra hp
      obtain ⟨hself,honce,hfrom⟩ := h.sendsAt (Bool.eq_true_of_not_eq_false hp)
      -- the call itself is not at a sealed place
      have hbefore : Sealed t := by
        rcases hsealed with hplace | hdone
        · rcases exists_update (P := fun p => MessageQueue.sealedAt p = true) hplace with
            hsealed | ⟨j,_,hj⟩
          · rw [hself] at hsealed
            cases hsealed
          · exact .inl ⟨j,hj⟩
        · exact .inr (honce.symm.trans hdone)
      rcases hfrom with hfrom | hopen
      · rw [ht.noSender hbefore i] at hfrom
        cases hfrom
      · rw [ht.closing_of_sealed hbefore] at hopen
        cases hopen
    · rcases h.sealed_before hsealed with hbefore | hreaders
      · exact ht.noSender hbefore j
      · by_contra hsends
        have hle := ht.holdsRead_le j
        rw [holdsRead_of_sendsAt (Bool.eq_true_of_not_eq_false hsends),hreaders] at hle
        cases hle
  · intro hemptied
    change sh.queue = []
    have hbefore : t.shared.queue = [] ∧ sh.queue = [] ∨ Emptied t := by
      rcases hemptied with hplace | hdone
      · rcases exists_update (P := fun p => MessageQueue.emptiedAt p = true) hplace with
          hself | ⟨j,_,hj⟩
        · exact (h.emptiedAt hself).imp_right fun hself => .inl ⟨i,hself⟩
        · exact .inr (.inl ⟨j,hj⟩)
      · rcases h.once hdone with hbefore | hlast
        · exact .inr (.inr hbefore)
        · exact .inr (.inl ⟨i,by rw [hlast]; rfl⟩)
    rcases hbefore with hempty | hbefore
    · exact hempty.2
    · rcases h.queue (ht.emptied hbefore) with hqueue | ⟨x,hx⟩
      · exact hqueue
      · have hsends := ht.noSender hbefore.sealed i
        rw [hx] at hsends
        cases hsends

/-! ## The other steps -/

theorem Invariant.withBuffer (ht : Invariant t) (bufferSize : ℕ) :
    Invariant { t with shared := { t.shared with bufferSize := bufferSize } } :=
  ⟨ht.fresh,ht.unused,ht.entered,ht.conserved,ht.fits,ht.known,ht.readers,ht.closing,ht.noSender,
    ht.emptied⟩

theorem Invariant.cancel (ht : Invariant t) (cancelled : ℕ → Bool) :
    Invariant { t with shared := { t.shared with cancelled := cancelled } } :=
  ⟨ht.fresh,ht.unused,ht.entered,ht.conserved,ht.fits,ht.known,ht.readers,ht.closing,ht.noSender,
    ht.emptied⟩

/-- A push and a call that meet do what a buffer of one would do in two steps. -/
theorem Invariant.meet (ht : Invariant t) {j : ℕ} {x : Ticket M} (hi : i < t.started)
    (hj : j < t.started) (hplace : t.place i = .pushWait x) (htakes : Takes x (t.place j) p)
    (hqueue : t.shared.queue = []) :
    Invariant ((t.move i ({ t.shared with entered := i :: t.shared.entered },.pushUnlock true)).move j
      ({ t.shared with entered := i :: t.shared.entered },p)) := by
  have hij : j ≠ i := by
    rintro rfl
    rw [hplace] at htakes
    cases htakes
  have hmove : Move i { t.shared with bufferSize := 1 } (.pushWait x) { t.shared with
      bufferSize := 1, queue := t.shared.queue ++ [x], entered := i :: t.shared.entered }
      (.pushUnlock true) := .send (by rw [hqueue]; exact Nat.one_pos)
  rw [hqueue,← hplace] at hmove
  have hsend := (ht.withBuffer 1).move hi hmove
  have hreceive : Move j { t.shared with
        bufferSize := 1, queue := [] ++ [x], entered := i :: t.shared.entered } (t.place j)
      { t.shared with bufferSize := 1, queue := [], entered := i :: t.shared.entered } p := by
    cases hp : t.place j with
    | pop =>
      rw [hp] at htakes
      cases htakes
      exact .popReceive rfl
    | popNow =>
      rw [hp] at htakes
      cases htakes
      exact .popNowReceive rfl
    | closeDrain =>
      have hsends := ht.noSender (.inl ⟨j,by rw [hp]; rfl⟩) i
      rw [hplace] at hsends
      cases hsends
    | _ =>
      rw [hp] at htakes
      cases htakes
  have hboth := (hsend.move (i := j) hj (by
    change Move j _ (Function.update t.place i _ j) _ _
    rw [Function.update_of_ne hij]
    exact hreceive)).withBuffer t.shared.bufferSize
  have hsame : ({ t.shared with entered := i :: t.shared.entered } : Shared M) =
      { t.shared with queue := [], entered := i :: t.shared.entered } := by rw [← hqueue]
  rw [hsame]
  exact hboth

theorem Invariant.start (ht : Invariant t) {given : ℕ → Option M}
    (hgiven : ∀ k m, t.shared.given k = some m → given k = some m)
    (hfresh : ∀ k, t.started + 1 ≤ k → given k = none)
    (hplaces : ∀ k, (if (t.shared.given k).isSome then 1 else 0) + inCalls k p =
      if (given k).isSome then 1 else 0)
    (hfits : Fits { t.shared with given := given } t.started p) (hread : holdsRead p = 0)
    (hsealed : sealedAt p = false) (hsends : sendsAt p = false) :
    Invariant (Threads.start { t with shared := { t.shared with given := given } } p) := by
  have hext : Extends t.started t.shared { t.shared with given := given } :=
    ⟨fun _ _ => Iff.rfl,fun _ hx => hx,hgiven,id,id⟩
  have hemptied : emptiedAt p = false := by
    by_contra hp
    rw [Bool.not_eq_false] at hp
    rw [emptiedAt_sealedAt hp] at hsealed
    cases hsealed
  have hsealed' : Sealed (Threads.start { t with shared := { t.shared with given := given } } p) →
      Sealed t := by
    rintro (hplace | hdone)
    · rcases exists_update (P := fun p => MessageQueue.sealedAt p = true) hplace with
        hself | ⟨j,_,hj⟩
      · rw [hsealed] at hself
        cases hself
      · exact .inl ⟨j,hj⟩
    · exact .inr hdone
  refine ⟨hfresh,?_,?_,?_,?_,?_,?_,ht.closing,?_,?_⟩
  · intro j hj
    change t.started + 1 ≤ j at hj
    change Function.update t.place t.started p j = _
    rw [Function.update_of_ne (by omega)]
    exact ht.unused j (by omega)
  · intro k hk
    exact Nat.lt_succ_of_lt (ht.entered k hk)
  · intro k
    have htotal : totalOf (inCalls k) (t.started + 1) (Function.update t.place t.started p) =
        totalOf (inCalls k) t.started t.place + inCalls k p := totalOf_succ_update p
    have hbefore := ht.conserved k
    have hnow := hplaces k
    unfold places at hbefore ⊢
    unfold Threads.start
    dsimp only
    omega
  · exact forall_update (P := Fits { t.shared with given := given }) hfits
      fun j hj => (ht.fits j).other hext hj
  · intro x hx
    exact hgiven _ _ (ht.known x hx)
  · have htotal : totalOf holdsRead (t.started + 1) (Function.update t.place t.started p) =
        totalOf holdsRead t.started t.place + holdsRead p := totalOf_succ_update p
    have hbefore := ht.readers
    change t.shared.readers = totalOf holdsRead (t.started + 1)
      (Function.update t.place t.started p)
    omega
  · intro h
    exact forall_update (P := fun _ p => sendsAt p = false) hsends
      fun j _ => ht.noSender (hsealed' h) j
  · intro h
    refine ht.emptied ?_
    rcases h with hplace | hdone
    · rcases exists_update (P := fun p => MessageQueue.emptiedAt p = true) hplace with
        hself | ⟨j,_,hj⟩
      · rw [hemptied] at hself
        cases hself
      · exact .inl ⟨j,hj⟩
    · exact .inr hdone

theorem Invariant.push (ht : Invariant t) (m : M) : Invariant (Threads.start
    { t with shared := { t.shared with given := Function.update t.shared.given t.started (some m) } }
    (.pushLock (t.started,m))) := by
  have hnone := ht.fresh t.started le_rfl
  refine ht.start (fun k m' hk => ?_) (fun k hk => ?_) (fun k => ?_) ⟨rfl,?_,?_⟩ rfl rfl rfl
  · have hne : k ≠ t.started := by
      rintro rfl
      rw [hnone] at hk
      cases hk
    rwa [Function.update_of_ne hne]
  · rw [Function.update_of_ne (by omega)]
    exact ht.fresh k (by omega)
  · by_cases hk : k = t.started
    · subst hk
      simp [hnone,inCalls,held,drained,returned,one]
    · simp [hk,Ne.symm hk,inCalls,held,drained,returned,one]
  · intro hin
    exact absurd (ht.entered _ hin) (lt_irrefl _)
  · exact Function.update_self ..

theorem Invariant.begin (ht : Invariant t) (hp : Begins p) : Invariant (t.start p) := by
  have hfresh : ∀ k, t.started + 1 ≤ k → t.shared.given k = none :=
    fun k hk => ht.fresh k (by omega)
  cases hp with
  | pop => exact ht.start (fun _ _ h => h) hfresh (fun _ => rfl) trivial rfl rfl rfl
  | popNow => exact ht.start (fun _ _ h => h) hfresh (fun _ => rfl) trivial rfl rfl rfl
  | close => exact ht.start (fun _ _ h => h) hfresh (fun _ => rfl) trivial rfl rfl rfl

theorem Invariant.step {t' : State M} (ht : Invariant t) (h : Step t t') : Invariant t' := by
  cases h with
  | push m => exact ht.push m
  | begin hp => exact ht.begin hp
  | cancel i => exact ht.cancel _
  | move hi h => exact ht.move hi h
  | meet hi hj hplace htakes hqueue => exact ht.meet hi hj hplace htakes hqueue

theorem Invariant.steps {t' : State M} (ht : Invariant t) (h : Relation.ReflTransGen Step t t') :
    Invariant t' := by
  induction h with
  | refl => exact ht
  | tail _ hstep ih => exact ih.step hstep

theorem newQueue_invariant (bufferSize : ℕ) : Invariant (newQueue bufferSize : State M) := by
  refine ⟨fun _ _ => rfl,fun _ _ => rfl,nofun,fun k => rfl,fun _ => trivial,?_,rfl,nofun,
    fun _ _ => rfl,fun _ => rfl⟩
  rintro x (hx | hx) <;> cases hx

theorem invariant_of_reachable {bufferSize : ℕ} (h : Reachable bufferSize t) : Invariant t :=
  (newQueue_invariant bufferSize).steps h

/-! ## One call closes the queue -/

structure Counter (g : Shared M → ℕ) (f : Place M → ℕ) : Prop where
  move : ∀ {i : ℕ} {sh sh' : Shared M} {p p' : Place M}, Move i sh p sh' p' → f p ≤ g sh →
    g sh' + f p = g sh + f p'
  takes : ∀ {x : Ticket M} {p p' : Place M}, Takes x p p' → f p' = f p
  sent : ∀ x, f (.pushUnlock true) = f (.pushWait x)
  pushes : ∀ x, f (.pushLock x) = 0
  begins : ∀ {p : Place M}, Begins p → f p = 0
  frame : ∀ (sh : Shared M) given cancelled entered,
    g { sh with given := given, cancelled := cancelled, entered := entered } = g sh
  empty : ∀ bufferSize, g (newQueue bufferSize).shared = 0

theorem Counter.total {g : Shared M → ℕ} {f : Place M → ℕ} (hc : Counter g f) {bufferSize : ℕ}
    (h : Reachable bufferSize t) : g t.shared = totalOf f t.started t.place := by
  induction h with
  | refl => exact hc.empty bufferSize
  | @tail t t' _ hstep ih =>
    cases hstep with
    | push m =>
      refine (hc.frame t.shared _ _ _).trans (ih.trans ?_)
      exact ((totalOf_succ_update _).trans (by rw [hc.pushes,Nat.add_zero])).symm
    | begin hp => exact ih.trans ((totalOf_succ_update _).trans (by rw [hc.begins hp,Nat.add_zero])).symm
    | cancel i => exact (hc.frame t.shared _ _ _).trans ih
    | move hi h => exact Threads.counted_move ih hi (hc.move h (ih ▸ le_totalOf hi))
    | @meet i j x p hi hj hplace htakes _ =>
      have hij : j ≠ i := by
        rintro rfl
        rw [hplace] at htakes
        cases htakes
      have hsent := Threads.counted_move (i := i) (g := g) ih hi
        (show g { t.shared with entered := i :: t.shared.entered } + f (t.place i) =
          g t.shared + f (.pushUnlock true) by
            rw [hplace,hc.sent x]
            exact congrArg (· + _) (hc.frame t.shared _ _ _))
      refine Threads.counted_move hsent hj ?_
      change _ + f (Function.update t.place i _ j) = _ + f p
      rw [Function.update_of_ne hij,hc.takes htakes]
      rfl

def inBody : Place M → ℕ
  | .closeSignal | .closeLock | .closeDrain | .closeReport _ | .closeUnlock | .closeDone => 1
  | _ => 0

def holdsWrite : Place M → ℕ
  | .closeDrain | .closeReport _ | .closeUnlock => 1
  | _ => 0

theorem running_counter : Counter (M := M) (fun sh => if sh.once = .running then 1 else 0) inBody where
  move {_ sh _ _ _} h hle := by
    cases h with
    | onceReturn =>
      have hrunning : sh.once = .running := by
        by_contra hne
        simp [inBody,hne] at hle
      simp [inBody,hrunning]
    | _ => simp_all [inBody]
  takes h := by cases h <;> rfl
  sent _ := rfl
  pushes _ := rfl
  begins h := by cases h <;> rfl
  frame _ _ _ _ := rfl
  empty _ := rfl

theorem writer_counter : Counter (M := M) (fun sh => sh.writer.toNat) holdsWrite where
  move {_ sh _ _ _} h hle := by
    cases h with
    | unlock => cases hw : sh.writer <;> simp_all [holdsWrite]
    | _ => simp_all [holdsWrite]
  takes h := by cases h <;> rfl
  sent _ := rfl
  pushes _ := rfl
  begins h := by cases h <;> rfl
  frame _ _ _ _ := rfl
  empty _ := rfl

theorem writer_of_done {bufferSize : ℕ} (h : Reachable bufferSize t)
    (hdone : t.shared.once = .done) : t.shared.writer = false := by
  have hbody : totalOf inBody t.started t.place = 0 := by
    rw [← running_counter.total h,hdone]
    rfl
  have hnone : totalOf holdsWrite t.started t.place = 0 := by
    refine totalOf_eq_zero fun i => ?_
    by_cases hi : i < t.started
    · have hle : inBody (t.place i) ≤ 0 := hbody ▸ le_totalOf hi
      cases hp : t.place i <;> simp_all [inBody,holdsWrite]
    · rw [(invariant_of_reachable h).unused i (not_lt.mp hi)]
      rfl
  have hwriter := (writer_counter.total h).trans hnone
  cases hw : t.shared.writer with
  | false => rfl
  | true =>
    rw [hw] at hwriter
    cases hwriter

/-! ## After the queue was closed -/

theorem Move.entered {sh sh' : Shared M} {p p' : Place M} (h : Move i sh p sh' p')
    (hsends : MessageQueue.sendsAt p = false) : sh'.entered = sh.entered := by
  cases h with
  | send => cases hsends
  | _ => rfl

theorem Step.done {t' : State M} (h : Step t t') (ht : Invariant t)
    (hdone : t.shared.once = .done) :
    t'.shared.once = .done ∧ t'.shared.entered = t.shared.entered := by
  have hsends := ht.noSender (.inr hdone)
  cases h with
  | push m => exact ⟨hdone,rfl⟩
  | begin hp => exact ⟨hdone,rfl⟩
  | cancel i => exact ⟨hdone,rfl⟩
  | move hi h => exact ⟨h.extends.once hdone,h.entered (hsends _)⟩
  | @meet i _ _ _ hi hj hplace _ _ =>
    have hnone := hsends i
    rw [hplace] at hnone
    cases hnone

theorem steps_done {t' : State M} (ht : Invariant t) (hdone : t.shared.once = .done)
    (h : Relation.ReflTransGen Step t t') :
    t'.shared.once = .done ∧ t'.shared.entered = t.shared.entered := by
  induction h with
  | refl => exact ⟨hdone,rfl⟩
  | tail hsteps hstep ih =>
    obtain ⟨honce,hentered⟩ := hstep.done (ht.steps hsteps) ih.1
    exact ⟨honce,hentered.trans ih.2⟩

def stepsLeft : Place M → ℕ
  | .pushLock _ => 5
  | .pushCheck _ => 4
  | .pushWait _ => 3
  | .pushFail _ => 2
  | .pushUnlock _ => 1
  | _ => 0

theorem Move.nearer {sh sh' : Shared M} {p p' : Place M} (h : Move i sh p sh' p')
    (hpush : 0 < stepsLeft p) : (∃ result, p = .pushUnlock result ∧ p' = .pushed result) ∨
      0 < stepsLeft p' ∧ stepsLeft p' < stepsLeft p := by
  cases h <;> simp_all [stepsLeft]

/-- A push that has not returned when the queue is closed can go on, and nobody else moves it. -/
theorem push_progress {bufferSize k : ℕ} (h : Reachable bufferSize t)
    (hdone : t.shared.once = .done) (hpush : 0 < stepsLeft (t.place k)) :
    (∃ sh p, Move k t.shared (t.place k) sh p) ∧
      ∀ t', Step t t' → t'.place k = t.place k ∨ t'.place k = .pushed false ∨
        0 < stepsLeft (t'.place k) ∧ stepsLeft (t'.place k) < stepsLeft (t.place k) := by
  have ht := invariant_of_reachable h
  have hsends := ht.noSender (.inr hdone)
  have hk : k < t.started := by
    by_contra hk
    rw [ht.unused k (not_lt.mp hk)] at hpush
    cases hpush
  refine ⟨?_,fun t' hstep => ?_⟩
  · have hclosing := ht.closing hdone
    cases hp : t.place k with
    | pushLock x => exact ⟨_,_,.rlock (writer_of_done h hdone)⟩
    | pushCheck x => exact ⟨_,_,.checkClosing hclosing⟩
    | pushWait x => exact ⟨_,_,.waitClosing hclosing⟩
    | pushFail x => exact ⟨_,_,.reportPush⟩
    | pushUnlock result => exact ⟨_,_,.runlock⟩
    | _ =>
      rw [hp] at hpush
      cases hpush
  · cases hstep with
    | push m => exact .inl (Function.update_of_ne hk.ne ..)
    | begin hp => exact .inl (Function.update_of_ne hk.ne ..)
    | cancel i => exact .inl rfl
    | @move i sh p hi hmove =>
      by_cases hki : k = i
      · subst hki
        have hself : (t.move k (sh,p)).place k = p := Function.update_self ..
        rw [hself]
        refine .inr ((hmove.nearer hpush).imp_left ?_)
        rintro ⟨result,hplace,rfl⟩
        have hresult := hsends k
        rw [hplace] at hresult
        cases result with
        | false => rfl
        | true => cases hresult
      · exact .inl (Function.update_of_ne hki ..)
    | @meet i _ _ _ hi hj hplace _ _ =>
      have hnone := hsends i
      rw [hplace] at hnone
      cases hnone

theorem Invariant.not_entered (ht : Invariant t) (hdone : t.shared.once = .done) {k : ℕ}
    (h : t.started ≤ k ∨ 0 < stepsLeft (t.place k)) : k ∉ t.shared.entered := by
  intro hin
  rcases h with hlate | hpush
  · exact absurd (ht.entered k hin) (not_lt.mpr hlate)
  · have hfits := ht.fits k
    have hsends := ht.noSender (.inr hdone) k
    cases hp : t.place k <;> simp_all [Fits,stepsLeft,sendsAt]

end

/-! ## Conservation -/

theorem totalOf_add {f g : Place M → ℕ} {n : ℕ} {place : ℕ → Place M} :
    totalOf (fun p => f p + g p) n place = totalOf f n place + totalOf g n place :=
  Finset.sum_add_distrib

theorem places_eq (t : State M) (k : ℕ) : places t k =
    totalOf (held k) t.started t.place + totalOf (drained k) t.started t.place +
      totalOf (returned k) t.started t.place + inList k t.shared.queue +
        inList k t.shared.failed := by
  unfold places
  have hsplit : totalOf (inCalls k) t.started t.place = totalOf (held k) t.started t.place +
      totalOf (drained k) t.started t.place + totalOf (returned k) t.started t.place := by
    rw [← totalOf_add,← totalOf_add]
    rfl
  rw [hsplit]

theorem inList_pos {k : ℕ} {xs : List (Ticket M)} (h : ∃ x ∈ xs, x.1 = k) : 0 < inList k xs := by
  induction xs with
  | nil =>
    obtain ⟨x,hx,_⟩ := h
    cases hx
  | cons y ys ih =>
    obtain ⟨x,hx,hxk⟩ := h
    rw [inList]
    rcases List.mem_cons.mp hx with rfl | hx
    · rw [one,if_pos hxk]
      omega
    · have hrest := ih ⟨x,hx,hxk⟩
      omega

theorem held_eq_zero {t : State M} (ht : Invariant t) {k : ℕ} {result : Bool}
    (h : t.place k = .pushed result) : totalOf (held k) t.started t.place = 0 := by
  refine totalOf_eq_zero fun i => ?_
  have hfits := ht.fits i
  have hne : ∀ x : Ticket M, x.1 = i → t.place i ≠ .pushed result → one k x = 0 := by
    intro x hx hplace
    refine if_neg fun hxk => hplace ?_
    rw [← hx,hxk]
    exact h
  cases hp : t.place i with
  | pushLock x =>
    rw [hp] at hfits
    exact hne x hfits.1 (by rw [hp]; nofun)
  | pushCheck x =>
    rw [hp] at hfits
    exact hne x hfits.1 (by rw [hp]; nofun)
  | pushWait x =>
    rw [hp] at hfits
    exact hne x hfits.1 (by rw [hp]; nofun)
  | pushFail x =>
    rw [hp] at hfits
    exact hne x hfits.1 (by rw [hp]; nofun)
  | _ => rfl

/-- Every message is in exactly one place: with its push, in the channel, with the call that
closes the queue, reported, or returned. A push returns true exactly if its message went into the
channel, and after that its message is with it no more. Once a call of `Close` has returned, the
channel is and stays empty, and every push that has not returned can go on, is moved by nobody
else, and comes to its end in at most five steps of its own: it fails and reports its message. -/
theorem message_conservation (bufferSize : ℕ) (t : State M) (h : Reachable bufferSize t) :
    (∀ k m, t.shared.given k = some m →
      totalOf (held k) t.started t.place + totalOf (drained k) t.started t.place +
        totalOf (returned k) t.started t.place + inList k t.shared.queue +
          inList k t.shared.failed = 1) ∧
    (∀ x, x ∈ t.shared.queue ∨ x ∈ t.shared.failed ∨ (∃ j, t.place j = .popped (some x)) →
      t.shared.given x.1 = some x.2) ∧
    (∀ k result, t.place k = .pushed result → (t.shared.given k).isSome ∧
      totalOf (held k) t.started t.place = 0 ∧ (result = true ↔ k ∈ t.shared.entered)) ∧
    ∀ j, t.place j = .closed → ∀ t', Relation.ReflTransGen Step t t' →
      t'.shared.queue = [] ∧
      (∀ k result, t.started ≤ k ∨ 0 < stepsLeft (t.place k) → t'.place k = .pushed result →
        result = false ∧ inList k t'.shared.failed = 1) ∧
      ∀ k, 0 < stepsLeft (t'.place k) → (∃ sh p, Move k t'.shared (t'.place k) sh p) ∧
        ∀ t'', Step t' t'' → t''.place k = t'.place k ∨ t''.place k = .pushed false ∨
          0 < stepsLeft (t''.place k) ∧ stepsLeft (t''.place k) < stepsLeft (t'.place k) := by
  have ht := invariant_of_reachable h
  refine ⟨fun k m hk => ?_,?_,fun k result hk => ?_,fun j hj t' hsteps => ?_⟩
  · rw [← places_eq,ht.conserved k,hk]
    rfl
  · rintro x (hx | hx | ⟨j,hj⟩)
    · exact ht.known x (.inl hx)
    · exact ht.known x (.inr hx)
    · have hfits := ht.fits j
      rw [hj] at hfits
      exact hfits
  · have hfits := ht.fits k
    rw [hk] at hfits
    exact ⟨hfits.2.2,held_eq_zero ht hk,hfits.1⟩
  · have hdone : t.shared.once = .done := by
      have hfits := ht.fits j
      rw [hj] at hfits
      exact hfits
    have ht' := ht.steps hsteps
    obtain ⟨hdone',hentered⟩ := steps_done ht hdone hsteps
    refine ⟨ht'.emptied (.inr hdone'),fun k result hk hplace => ?_,
      fun k hpush => push_progress (h.trans hsteps) hdone' hpush⟩
    have hfits := ht'.fits k
    rw [hplace] at hfits
    have hfalse : result = false := by
      rw [← Bool.not_eq_true]
      intro htrue
      exact ht.not_entered hdone hk (hentered ▸ hfits.1.mp htrue)
    refine ⟨hfalse,?_⟩
    have hpos := inList_pos (hfits.2.1 hfalse)
    have hone := ht'.conserved k
    rw [hfits.2.2,places_eq] at hone
    simp only [if_true] at hone
    omega

namespace Sample

theorem closed_reachable : ∃ t : State Unit, Reachable 1 t ∧ t.place 0 = .pushed true ∧
    t.place 1 = .closed ∧ t.place 2 = .pushLock (2,()) ∧ t.shared.failed = [(0,())] := by
  have hstart : Reachable 1 (newQueue 1 : State Unit) := .refl
  have hpush := hstart.tail (.push ())
  have hlock := hpush.tail (.move (i := 0) (by decide) (.rlock rfl))
  have hcheck := hlock.tail (.move (i := 0) (by decide) (.checkDefault rfl rfl))
  have hsend := hcheck.tail (.move (i := 0) (by decide) (.send (by decide)))
  have hpushed := hsend.tail (.move (i := 0) (by decide) .runlock)
  have hclose := hpushed.tail (.begin .close)
  have honce := hclose.tail (.move (i := 1) (by decide) (.onceFirst rfl))
  have hsignal := honce.tail (.move (i := 1) (by decide) .signal)
  have hwrite := hsignal.tail (.move (i := 1) (by decide) (.lock rfl rfl))
  have hdrain := hwrite.tail (.move (i := 1) (by decide) (.drainReceive rfl))
  have hreport := hdrain.tail (.move (i := 1) (by decide) .reportClose)
  have hempty := hreport.tail (.move (i := 1) (by decide) (.drainDefault rfl))
  have hunlock := hempty.tail (.move (i := 1) (by decide) .unlock)
  have hclosed := hunlock.tail (.move (i := 1) (by decide) .onceReturn)
  exact ⟨_,hclosed.tail (.push ()),rfl,rfl,rfl,rfl⟩

theorem closed_conserved : ∃ t : State Unit, Reachable 1 t ∧ t.place 0 = .pushed true ∧
    0 ∈ t.shared.entered ∧ t.place 1 = .closed ∧ t.shared.queue = [] ∧
    t.place 2 = .pushLock (2,()) ∧ ∃ sh p, Move 2 t.shared (t.place 2) sh p := by
  obtain ⟨t,ht,hpushed,hclosed,hlate,_⟩ := closed_reachable
  obtain ⟨_,_,hresults,hend⟩ := message_conservation 1 t ht
  obtain ⟨hqueue,_,hprogress⟩ := hend 1 hclosed t .refl
  exact ⟨t,ht,hpushed,(hresults 0 true hpushed).2.2.mp rfl,hclosed,hqueue,hlate,
    (hprogress 2 (by rw [hlate]; decide)).1⟩

end Sample
end Landslide.Peer.MessageQueue
