import Landslide.Net.Connections

/-! # The life of a peer

A peer goes through phases: it shakes hands, it is moved to the connected peers, the tracker and
then the router learn of it, and at its end they are told that it is gone before it leaves the
set. In each phase it is known what the sets, the tracker and the router hold for its node, so
another peer of the same node can only start after the last one has left.
-/
namespace Landslide.Net
variable {N S A : Type}

/-! ## Phases -/

inductive Phase where
  | fresh
  | moved
  | recorded
  | online
  | untracked
  | offline
  | gone
  deriving DecidableEq

/-- What is held for a node: the peer in each set, and whether the tracker and the router count
the node as connected. -/
structure View where
  connecting : Option ℕ
  connected : Option ℕ
  recorded : Bool
  online : Bool

def View.none : View := ⟨.none,.none,false,false⟩

def Phase.Matches (i : ℕ) (v : View) : Phase → Prop
  | fresh => v = ⟨some i,.none,false,false⟩
  | moved => v = ⟨.none,some i,false,false⟩
  | recorded => v = ⟨.none,some i,true,false⟩
  | online => v = ⟨.none,some i,true,true⟩
  | untracked => v = ⟨.none,some i,false,true⟩
  | offline => v = ⟨.none,some i,false,false⟩
  | gone => v.connecting ≠ some i ∧ v.connected ≠ some i

theorem Phase.gone_matches_none (i : ℕ) : Phase.gone.Matches i .none :=
  ⟨(Option.some_ne_none i).symm,(Option.some_ne_none i).symm⟩

theorem Phase.Matches.owner {i j : ℕ} {v : View} {phase : Phase} (h : phase.Matches i v)
    (hj : v.connecting = some j ∨ v.connected = some j) : phase ≠ .gone → j = i := by
  intro hlive
  cases phase with
  | gone => exact absurd rfl hlive
  | fresh | moved | recorded | online | untracked | offline =>
    cases h
    simpa [eq_comm] using hj

theorem Phase.Matches.isSome {i : ℕ} {v : View} {phase : Phase} (h : phase.Matches i v)
    (hlive : phase ≠ .gone) : v.connecting = some i ∨ v.connected = some i := by
  cases phase with
  | gone => exact absurd rfl hlive
  | fresh =>
    cases h
    exact .inl rfl
  | moved | recorded | online | untracked | offline =>
    cases h
    exact .inr rfl

theorem Phase.Matches.apart {i : ℕ} {v : View} {phase : Phase} (h : phase.Matches i v)
    (hlive : phase ≠ .gone) : v.connecting = .none ∨ v.connected = .none := by
  cases phase with
  | gone => exact absurd rfl hlive
  | fresh | moved | recorded | online | untracked | offline =>
    cases h
    simp

theorem Phase.Matches.connected_of_told {i : ℕ} {v : View} {phase : Phase}
    (h : phase.Matches i v) (hlive : phase ≠ .gone)
    (htold : v.recorded = true ∨ v.online = true) : v.connected.isSome := by
  cases phase with
  | gone => exact absurd rfl hlive
  | fresh | moved | recorded | online | untracked | offline =>
    cases h
    simp_all

namespace Place

def live : Place N S → ℤ
  | exited => 0
  | _ => 1

def Joining : Place N S → Prop
  | moved _ | recorded _ | announcing _ => True
  | _ => False

/-- The phase of a peer while goroutines run, or before the tracker is told of its end. -/
def phase (finishedHandshake : Bool) : Place N S → Phase
  | moved _ => .moved
  | recorded _ => .recorded
  | announcing _ => .online
  | _ => if finishedHandshake then .online else .fresh

theorem live_nonneg (place : Place N S) : 0 ≤ place.live := by
  cases place <;> simp [live]

theorem eq_exited {place : Place N S} (h : place.live = 0) : place = .exited := by
  cases place <;> first | rfl | cases h

theorem ne_exited {place : Place N S} (h : place.live = 1) : place ≠ .exited := by
  rintro rfl
  cases h

end Place

namespace PeerState

def phase (p : PeerState N S) : Phase :=
  match p.closer with
  | .removed | .closed => .gone
  | .toldRouter => .offline
  | .toldTracker => .untracked
  | .idle | .disconnecting | .fromConnecting _ | .fromConnected =>
    (p.place .reader).phase p.finishedHandshake

theorem phase_eq_gone_iff {p : PeerState N S} :
    p.phase = .gone ↔ p.closer = .removed ∨ p.closer = .closed := by
  have hplace : (p.place .reader).phase p.finishedHandshake ≠ .gone := by
    cases p.place .reader <;> cases p.finishedHandshake <;> simp [Place.phase]
  unfold phase
  cases p.closer <;> simp [hplace]

def Stage (p : PeerState N S) : Prop :=
  match p.closer with
  | .fromConnecting connected => connected = false ∧ p.finishedHandshake = false
  | .fromConnected | .toldTracker | .toldRouter => p.finishedHandshake = true
  | _ => True

structure Ok (mySubnets : Finset S) (i : ℕ) (p : PeerState N S) : Prop where
  count : p.numExecuting =
    (p.place .reader).live + (p.place .writer).live + (p.place .sender).live
  last : p.closer ≠ .idle → ∀ r, p.place r = .exited
  greeted : p.gotHandshake = true → ∃ ip, p.ip = some ip ∧ ip.nodeID = p.id
  joining : (p.place .reader).Joining → p.gotHandshake = true ∧ p.finishedHandshake = false
  peer : ∀ j, p.place .reader = .moved j ∨ p.place .reader = .recorded j → j = i
  subnets : ∀ l, p.place .reader = .announcing l → ∀ s ∈ l, s ∈ mySubnets
  stage : p.Stage

variable {p : PeerState N S} {mySubnets : Finset S} {i : ℕ} {r : Role} {place : Place N S}

@[simp] theorem move_place_self (p : PeerState N S) (r : Role) (place : Place N S) :
    (p.move r place).place r = place := by
  simp [move]

@[simp] theorem move_place_of_ne (p : PeerState N S) {r r' : Role} (h : r' ≠ r)
    (place : Place N S) : (p.move r place).place r' = p.place r' := by
  simp [move,h]

theorem move_reader (p : PeerState N S) (r : Role) (place : Place N S) :
    (p.move r place).place .reader = p.place .reader ∨
      ((p.move r place).place .reader = place ∧ r = .reader) := by
  cases r with
  | reader => exact .inr ⟨move_place_self ..,rfl⟩
  | writer => exact .inl (move_place_of_ne p (by decide) place)
  | sender => exact .inl (move_place_of_ne p (by decide) place)

theorem Ok.start (mySubnets : Finset S) (i : ℕ) (id : N) :
    (PeerState.start id : PeerState N S).Ok mySubnets i where
  count := rfl
  last h := absurd rfl h
  greeted h := by cases h
  joining h := h.elim
  peer j h := by rcases h with h | h <;> cases h
  subnets l h := by cases h
  stage := trivial

theorem Ok.idle (h : p.Ok mySubnets i) (hr : (p.place r).live = 1) : p.closer = .idle := by
  by_contra hne
  exact Place.ne_exited hr (h.last hne r)

theorem Ok.stage_of_idle (hidle : p.closer = .idle) : p.Stage := by
  simp [Stage,hidle]

theorem phase_of_place (hidle : p.closer = .idle) (hplace : p.place .reader = place) :
    p.phase = place.phase p.finishedHandshake := by
  rw [phase,hidle,hplace]

theorem phase_move (hidle : p.closer = .idle) (place : Place N S) :
    (p.move .reader place).phase = place.phase p.finishedHandshake := by
  rw [phase,move_place_self]
  simp only [move,hidle]

theorem phase_of_idle (hidle : p.closer = .idle) (hrunning : ¬ (p.place .reader).Joining) :
    p.phase = if p.finishedHandshake then .online else .fresh := by
  rw [phase_of_place hidle rfl]
  cases hplace : p.place .reader with
  | moved j | recorded j | announcing l => simp [hplace,Place.Joining] at hrunning
  | running | tracking | verified | leaving | exited => rfl

theorem count_move (h : p.Ok mySubnets i) (hr : (p.place r).live = 1) (hplace : place.live = 1) :
    (p.move r place).numExecuting = ((p.move r place).place .reader).live +
      ((p.move r place).place .writer).live + ((p.move r place).place .sender).live := by
  have hcount := h.count
  cases r <;> simp [move,hplace] <;> omega

theorem Ok.moveReader (h : p.Ok mySubnets i) (hr : (p.place .reader).live = 1)
    (hplace : place.live = 1)
    (hjoining : place.Joining → p.gotHandshake = true ∧ p.finishedHandshake = false)
    (hpeer : ∀ j, place = .moved j ∨ place = .recorded j → j = i)
    (hsubnets : ∀ l, place = .announcing l → ∀ s ∈ l, s ∈ mySubnets) :
    (p.move .reader place).Ok mySubnets i := by
  have hidle := h.idle hr
  have hself : (p.move .reader place).place .reader = place := move_place_self ..
  refine ⟨count_move h hr hplace,fun hne => absurd hidle hne,h.greeted,?_,?_,?_,?_⟩
  · rw [hself]
    exact hjoining
  · rw [hself]
    exact hpeer
  · rw [hself]
    exact hsubnets
  · exact Ok.stage_of_idle hidle

theorem Ok.moveOut (h : p.Ok mySubnets i) (hr : (p.place .reader).live = 1)
    (hplace : place.live = 1) (hout : ¬ place.Joining) : (p.move .reader place).Ok mySubnets i := by
  refine h.moveReader hr hplace (fun hin => absurd hin hout) ?_ ?_
  · rintro j (rfl | rfl)
    · exact absurd trivial hout
    · exact absurd trivial hout
  · rintro l rfl
    exact absurd trivial hout

theorem Ok.startClose (h : p.Ok mySubnets i) : p.startClose.Ok mySubnets i :=
  ⟨h.count,h.last,h.greeted,h.joining,h.peer,h.subnets,h.stage⟩

theorem Ok.leave (h : p.Ok mySubnets i) (hr : p.place r = .running) :
    (p.startClose.move r .leaving).Ok mySubnets i := by
  have hlive : (p.startClose.place r).live = 1 := by
    rw [show p.startClose.place r = p.place r from rfl,hr]
    rfl
  have hidle : p.startClose.closer = .idle := h.startClose.idle hlive
  have hreader : ((p.startClose.move r .leaving).place .reader) = p.place .reader ∨
      ((p.startClose.move r .leaving).place .reader) = .leaving :=
    (move_reader p.startClose r .leaving).imp (fun h => h) And.left
  refine ⟨count_move h.startClose hlive rfl,fun hne => absurd hidle hne,h.greeted,?_,?_,?_,
    Ok.stage_of_idle hidle⟩
  · rcases hreader with heq | heq
    · rw [heq]
      exact h.joining
    · rw [heq]
      exact False.elim
  · rcases hreader with heq | heq
    · rw [heq]
      exact h.peer
    · rw [heq]
      rintro j (h | h) <;> cases h
  · rcases hreader with heq | heq
    · rw [heq]
      exact h.subnets
    · rw [heq]
      intro l h
      cases h

theorem phase_leave (h : p.Ok mySubnets i) (hr : p.place r = .running) :
    (p.startClose.move r .leaving).phase = p.phase := by
  have hlive : (p.place r).live = 1 := by
    rw [hr]
    rfl
  have hidle := h.idle hlive
  have hidle' : (p.startClose.move r .leaving).closer = .idle := hidle
  have hfinished : (p.startClose.move r .leaving).finishedHandshake = p.finishedHandshake := rfl
  rcases move_reader p.startClose r .leaving with heq | ⟨heq,rfl⟩
  · unfold phase
    rw [hidle,hidle',heq,hfinished]
    rfl
  · rw [phase_of_idle hidle (by rw [hr]; exact fun h => h),
      phase_of_idle hidle' (by rw [heq]; exact fun h => h),hfinished]

theorem Ok.close (h : p.Ok mySubnets i) (hr : p.place r = .leaving) :
    (p.close r).Ok mySubnets i := by
  have hcount := h.count
  have hlive : (p.place r).live = 1 := by
    rw [hr]
    rfl
  have hidle := h.idle hlive
  have hnew : (p.close r).numExecuting = ((p.close r).place .reader).live +
      ((p.close r).place .writer).live + ((p.close r).place .sender).live := by
    have hexited : (Place.exited : Place N S).live = 0 := rfl
    cases r <;> simp [PeerState.close,move,hexited] <;> omega
  have hreader : (p.close r).place .reader = p.place .reader ∨
      (p.close r).place .reader = .exited :=
    (move_reader p r .exited).imp (fun h => h) And.left
  refine ⟨hnew,fun hne r' => ?_,h.greeted,?_,?_,?_,?_⟩
  · -- the closer starts only at zero, when no place adds anything
    have hdone : (p.close r).numExecuting = 0 := by
      by_contra hpos
      exact hne (by simp only [PeerState.close] at hpos ⊢; rw [if_pos hpos,hidle])
    rw [hdone] at hnew
    have h₁ := ((p.close r).place .reader).live_nonneg
    have h₂ := ((p.close r).place .writer).live_nonneg
    have h₃ := ((p.close r).place .sender).live_nonneg
    apply Place.eq_exited
    cases r' <;> omega
  · rcases hreader with heq | heq
    · rw [heq]
      exact h.joining
    · rw [heq]
      exact False.elim
  · rcases hreader with heq | heq
    · rw [heq]
      exact h.peer
    · rw [heq]
      rintro j (h | h) <;> cases h
  · rcases hreader with heq | heq
    · rw [heq]
      exact h.subnets
    · rw [heq]
      intro l h
      cases h
  · simp only [Stage,PeerState.close]
    split_ifs with hpos
    · rw [hidle]
      trivial
    · trivial

theorem phase_close (h : p.Ok mySubnets i) (hr : p.place r = .leaving) :
    (p.close r).phase = p.phase := by
  have hlive : (p.place r).live = 1 := by
    rw [hr]
    rfl
  have hidle := h.idle hlive
  have hcloser : (p.close r).closer = .idle ∨ (p.close r).closer = .disconnecting := by
    simp only [PeerState.close]
    split_ifs
    · exact .inl hidle
    · exact .inr rfl
  have hreader : (p.close r).place .reader = p.place .reader ∨
      ((p.close r).place .reader = .exited ∧ p.place .reader = .leaving) :=
    (move_reader p r .exited).imp (fun h => h) fun ⟨heq,hreader⟩ => ⟨heq,hreader ▸ hr⟩
  unfold phase
  rw [hidle]
  rcases hcloser with hc | hc
  · rw [hc]
    rcases hreader with heq | ⟨heq,heq'⟩
    · rw [heq]
      rfl
    · rw [heq,heq']
      rfl
  · rw [hc]
    rcases hreader with heq | ⟨heq,heq'⟩
    · rw [heq]
      rfl
    · rw [heq,heq']
      rfl

theorem Ok.setCloser (h : p.Ok mySubnets i) (hne : p.closer ≠ .idle) {closer : Closer}
    (hstage : ({ p with closer := closer } : PeerState N S).Stage) :
    ({ p with closer := closer } : PeerState N S).Ok mySubnets i :=
  ⟨h.count,fun _ => h.last hne,h.greeted,h.joining,h.peer,h.subnets,hstage⟩

theorem phase_of_exited (hreader : p.place .reader = .exited)
    (hcloser : p.closer = .disconnecting ∨ p.closer = .fromConnected ∨
      ∃ connected, p.closer = .fromConnecting connected) :
    p.phase = if p.finishedHandshake then .online else .fresh := by
  rcases hcloser with h | h | ⟨connected,h⟩
  · simp only [phase,hreader,h,Place.phase]
  · simp only [phase,hreader,h,Place.phase]
  · simp only [phase,hreader,h,Place.phase]

end PeerState
end Landslide.Net
