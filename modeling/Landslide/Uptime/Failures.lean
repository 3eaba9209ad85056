import Landslide.Uptime.Persistence

/-! # Failing writes and failing calls

`WriteState` removes the mark of a validator as soon as its entry is in the batch, and the
batch is written at the end. A failure on the way therefore forgets the marks before it. The
calls on the validators in memory are all-or-nothing: what fails changes nothing and tells
nobody.
-/
namespace Landslide.Uptime
open Codec Database
open Warp (ID)

theorem State.lookup_unmark (s : State) (vID v : ID) : (s.unmark vID).updatedData.lookup v =
    if v = vID then none else s.updatedData.lookup v := by
  by_cases hv : v = vID
  · rw [if_pos hv,hv]
    exact Finmap.lookup_erase _ _
  · rw [if_neg hv]
    exact Finmap.lookup_erase_ne hv

namespace WriteFaults
variable {faults : WriteFaults} {s : State} {batch : List Request}

/-- The marks that the loop removes. -/
def removed (faults : WriteFaults) (s : State) (order : List ID) : List ID :=
  order.takeWhile fun vID => !faults.stops s vID

theorem collect_removes {order : List ID} (hnodup : order.Nodup)
    (hmarked : ∀ vID ∈ order, s.Marked vID) (batch : List Request) :
    (faults.collect order s batch).2.data = s.data ∧
      ∀ vID, (faults.collect order s batch).2.updatedData.lookup vID =
        if vID ∈ faults.removed s order then none else s.updatedData.lookup vID := by
  induction order generalizing s batch with
  | nil => exact ⟨rfl,fun vID => rfl⟩
  | cons v rest ih =>
    obtain ⟨hnew,hnodup⟩ := List.nodup_cons.mp hnodup
    rcases collect_cons batch v rest (hmarked v List.mem_cons_self) with ⟨hstops,e,heq⟩ | ⟨hstops,heq⟩
    · have hnone : faults.removed s (v :: rest) = [] := by
        rw [removed,List.takeWhile_cons,hstops]
        rfl
      rw [heq,hnone]
      exact ⟨rfl,fun vID => rfl⟩
    · have hrest : ∀ vID ∈ rest, (s.unmark v).Marked vID := by
        intro vID hvID
        have hne : vID ≠ v := fun h => hnew (h ▸ hvID)
        rw [State.Marked,State.lookup_unmark,if_neg hne]
        exact hmarked vID (List.mem_cons_of_mem _ hvID)
      obtain ⟨hdata,hmarks⟩ := ih hnodup hrest (batch ++ [s.request v])
      have hcons : faults.removed s (v :: rest) = v :: faults.removed (s.unmark v) rest := by
        rw [removed,List.takeWhile_cons,hstops]
        rfl
      rw [heq,hcons]
      refine ⟨hdata,fun vID => ?_⟩
      rw [hmarks,State.lookup_unmark]
      by_cases hvID : vID = v
      · simp [hvID]
      · simp [hvID]

theorem writeState_failed {db : Database.Content} {order : List ID}
    (h : (faults.writeState s db order).1 ≠ none) :
    (faults.writeState s db order).2 = ((faults.collect order s []).2,db) := by
  unfold writeState at h ⊢
  cases hloop : faults.collect order s [] with
  | mk result s' =>
    cases result with
    | error e => rfl
    | ok batch =>
      rw [hloop] at h
      cases hwrite : faults.write with
      | some e => rfl
      | none =>
        rw [hwrite] at h
        exact absurd rfl h

end WriteFaults

/-! ## What a failed write forgets -/

/-- A validator that is not on disk as it is in memory has a mark. -/
def Covers (db : Database.Content) (s : State) : Prop :=
  ∀ vID : ID, db.get vID.1 ≠ (s.data.lookup vID).map ValidatorData.bytes → vID ∈ s.updatedData

def Recovers (db : Database.Content) (s : State) : Prop :=
  ∀ (faults : WriteFaults) (order : List ID), Orders s order →
    (faults.writeState s db order).1 = none →
      Holds (faults.writeState s db order).2.2 (faults.writeState s db order).2.1 ∧
        (faults.writeState s db order).2.1.data = s.data

theorem Synced.marked {db : Database.Content} {s : State} (h : Synced db s) {vID : ID}
    (hvID : vID ∈ s.updatedData) : s.Marked vID := by
  rcases h.unmarked vID with hmarked | ⟨hnone,_⟩
  · exact hmarked
  · exact absurd hvID (Finmap.lookup_eq_none.mp hnone)

theorem Synced.recovers {db : Database.Content} {s : State} (h : Synced db s) : Recovers db s := by
  intro faults order horder hok
  obtain ⟨hholds,hdata,_⟩ := h.writeState horder hok
  exact ⟨hholds,hdata⟩

/-- After a failed write the marks still cover what is not on disk if and only if each mark
that was removed before the failure was not needed. -/
theorem failed_writeState_covers_iff {db : Database.Content} {s : State} (h : Synced db s)
    {order : List ID} (horder : Orders s order) {faults : WriteFaults}
    (hfailed : (faults.writeState s db order).1 ≠ none) :
    (Covers (faults.writeState s db order).2.2 (faults.writeState s db order).2.1 ∧
      Recovers (faults.writeState s db order).2.2 (faults.writeState s db order).2.1) ↔
    ∀ vID ∈ faults.removed s order,
      db.get vID.1 = (s.data.lookup vID).map ValidatorData.bytes := by
  have hmarked : ∀ vID ∈ order, s.Marked vID := fun vID hvID => h.marked ((horder.2 vID).mp hvID)
  obtain ⟨hdata,hmarks⟩ := faults.collect_removes horder.1 hmarked []
  rw [faults.writeState_failed hfailed]
  constructor
  · rintro ⟨hcovers,_⟩ vID hvID
    by_contra hne
    obtain ⟨status,hstatus⟩ := Finmap.mem_iff.mp (hcovers vID (by rwa [hdata]))
    rw [hmarks,if_pos hvID] at hstatus
    cases hstatus
  · intro hremoved
    have hsynced : Synced db (faults.collect order s []).2 := by
      refine ⟨h.keys,fun vID => ?_⟩
      rw [State.Marked,State.status,hmarks,hdata]
      by_cases hvID : vID ∈ faults.removed s order
      · rw [if_pos hvID]
        exact .inr ⟨rfl,hremoved vID hvID⟩
      · rw [if_neg hvID]
        exact h.unmarked vID
    refine ⟨fun vID hne => ?_,hsynced.recovers⟩
    rcases hsynced.unmarked vID with hmarked | ⟨_,hget⟩
    · exact Finmap.mem_iff.mpr ⟨_,hmarked⟩
    · exact absurd hget hne

/-! ## Calls that fail -/

/-- The calls that change validators. -/
inductive StateCall where
  | addValidator (vdr : Validator)
  | updateValidator (vdr : Validator)
  | deleteValidator (vID : ID)
  | setStatus (vID : ID) (isActive : Bool)
  | setUptime (nodeID : NodeID) (upDuration : Duration) (lastUpdated : Time)

def StateCall.run {σ : Type} (l : Listening σ) (x : σ) : StateCall → Option UptimeError × σ
  | addValidator vdr => l.addValidator x vdr
  | updateValidator vdr => l.updateValidator x vdr
  | deleteValidator vID => l.deleteValidator x vID
  | setStatus vID isActive => l.setStatus x vID isActive
  | setUptime nodeID upDuration lastUpdated =>
    (((l.state x).setUptime nodeID upDuration lastUpdated).1,
      l.withState x ((l.state x).setUptime nodeID upDuration lastUpdated).2)

/-- Whoever listens, a call that fails has changed nothing and told nobody. -/
theorem StateCall.run_error {σ : Type} {l : Listening σ} {x : σ} {call : StateCall}
    (h : (call.run l x).1 ≠ none) : (call.run l x).2 = x := by
  cases call with
  | addValidator vdr =>
    rw [run,Listening.addValidator] at h ⊢
    split at h
    · rfl
    · exact absurd rfl h
  | updateValidator vdr =>
    rw [run,Listening.updateValidator] at h ⊢
    split at h
    · rfl
    · split at h
      · next hconstants => rw [if_pos hconstants]
      · dsimp only at h
        split at h
        · exact absurd rfl h
        · exact absurd rfl h
  | deleteValidator vID =>
    rw [run,Listening.deleteValidator] at h ⊢
    split at h
    · rfl
    · exact absurd rfl h
  | setStatus vID isActive =>
    rw [run,Listening.setStatus] at h ⊢
    split at h
    · rfl
    · exact absurd rfl h
  | setUptime nodeID upDuration lastUpdated =>
    cases hd : (l.state x).getData nodeID with
    | none =>
      rw [run,(l.state x).setUptime_of_none hd]
      exact l.withState_state x
    | some d =>
      rw [run,((l.state x).setUptime_of_some hd upDuration lastUpdated).1] at h
      exact absurd rfl h

/-! ## The invariant of the maps -/

/-- Every mark says whether the validator is there. -/
def State.MarksRight (s : State) : Prop := ∀ vID ∈ s.updatedData, s.Marked vID

theorem State.MarksRight.tracks {s s' : State} (h : s.MarksRight)
    (htracks : ∀ vID, s.Tracks s' vID) : s'.MarksRight := by
  intro vID hvID
  rcases htracks vID with ⟨hmark,hdata⟩ | hmarked
  · have hmem : vID ∈ s.updatedData := by
      rw [Finmap.mem_iff] at hvID ⊢
      rwa [hmark] at hvID
    rw [Marked,status,hmark,hdata]
    exact h vID hmem
  · exact hmarked

theorem WriteFaults.collect_marks (faults : WriteFaults) (order : List ID) (s : State)
    (batch : List Request) : (faults.collect order s batch).2.data = s.data ∧
      ∀ vID, (faults.collect order s batch).2.updatedData.lookup vID = s.updatedData.lookup vID ∨
        (faults.collect order s batch).2.updatedData.lookup vID = none := by
  induction order generalizing s batch with
  | nil => exact ⟨rfl,fun vID => .inl rfl⟩
  | cons v rest ih =>
    have hsame : s.data = s.data ∧ ∀ vID,
        s.updatedData.lookup vID = s.updatedData.lookup vID ∨ s.updatedData.lookup vID = none :=
      ⟨rfl,fun _ => .inl rfl⟩
    have hnext (batch : List Request) : (faults.collect rest (s.unmark v) batch).2.data = s.data ∧
        ∀ vID, (faults.collect rest (s.unmark v) batch).2.updatedData.lookup vID =
          s.updatedData.lookup vID ∨
          (faults.collect rest (s.unmark v) batch).2.updatedData.lookup vID = none := by
      obtain ⟨hdata,hmarks⟩ := ih (s.unmark v) batch
      refine ⟨hdata,fun vID => ?_⟩
      rcases hmarks vID with hmark | hmark
      · rw [hmark,State.lookup_unmark]
        by_cases hvID : vID = v
        · exact .inr (if_pos hvID)
        · exact .inl (if_neg hvID)
      · exact .inr hmark
    rw [collect]
    cases hmark : s.updatedData.lookup v with
    | none => exact ih s batch
    | some status =>
      cases status with
      | updatedStatus =>
        dsimp only
        cases (faults.marshal v).elim (marshalData (s.data.lookup v)) Except.error with
        | error e => exact hsame
        | ok dataBytes =>
          dsimp only
          cases faults.set v with
          | some e => exact hsame
          | none => exact hnext _
      | deletedStatus =>
        dsimp only
        cases faults.delete v with
        | some e => exact hsame
        | none => exact hnext _

theorem WriteFaults.writeState_state (faults : WriteFaults) (s : State) (db : Database.Content)
    (order : List ID) : (faults.writeState s db order).2.1 = (faults.collect order s []).2 := by
  unfold writeState
  cases hloop : faults.collect order s [] with
  | mk result s' =>
    cases result with
    | error e => rfl
    | ok batch =>
      cases hwrite : faults.write with
      | some e => rfl
      | none => rfl

theorem State.MarksRight.writeState {s : State} (h : s.MarksRight) (faults : WriteFaults)
    (db : Database.Content) (order : List ID) : (faults.writeState s db order).2.1.MarksRight := by
  obtain ⟨hdata,hmarks⟩ := faults.collect_marks order s []
  rw [faults.writeState_state]
  intro vID hvID
  rcases hmarks vID with hmark | hmark
  · have hmem : vID ∈ s.updatedData := by
      rw [Finmap.mem_iff] at hvID ⊢
      rwa [hmark] at hvID
    rw [Marked,status,hmark,hdata]
    exact h vID hmem
  · exact absurd hvID (Finmap.lookup_eq_none.mp hmark)

theorem loadEntry_updatedData {s s' : State} {e : PutRequest} (h : loadEntry s e = .ok s') :
    s'.updatedData = s.updatedData := by
  unfold loadEntry at h
  split at h
  · obtain ⟨d,_,hadd⟩ := bind_eq_ok h
    obtain ⟨_,_,rfl⟩ := s.addData_ok_iff.mp (mapError_eq_ok hadd)
    rfl
  · cases h

theorem newState_updatedData {db : Database.Content} {s : State} (h : newState db = .ok s) :
    s.updatedData = ∅ := by
  have hfold : ∀ (entries : List PutRequest) (t : State), entries.foldlM loadEntry t = .ok s →
      s.updatedData = t.updatedData := by
    intro entries
    induction entries with
    | nil =>
      intro t ht
      cases ht
      rfl
    | cons e entries ih =>
      intro t ht
      obtain ⟨t',hload,ht⟩ := bind_eq_ok ht
      exact (ih t' ht).trans (loadEntry_updatedData hload)
  exact hfold db.entries .empty h

/-! ## Runs from any database -/

namespace Store

def Starts (s : Store) : Prop := ∃ state, newState s.db = .ok state ∧ s.system = .new state

def Loaded : Store → Prop := Reaches Starts (fun _ _ => True) step

theorem marksRight_new {db : Database.Content} {state : State} (h : newState db = .ok state) :
    state.MarksRight := by
  intro vID hvID
  rw [newState_updatedData h] at hvID
  exact absurd hvID Finmap.notMem_empty

theorem step_marksRight {s : Store} (h : s.system.state.MarksRight) (op : Op) :
    (s.step op).system.state.MarksRight := by
  cases op with
  | call op => exact h.tracks (s.system.step_tracks op)
  | setUptime nodeID upDuration lastUpdated =>
    exact h.tracks (s.system.state.setUptime_tracks nodeID upDuration lastUpdated)
  | writeState order faults => exact h.writeState faults s.db order
  | restart =>
    cases hload : newState s.db with
    | error e => simpa only [step,hload] using h
    | ok state =>
      rw [step,hload]
      exact marksRight_new hload

theorem Loaded.marksRight {s : Store} (h : s.Loaded) : s.system.state.MarksRight := by
  refine Reaches.invariant (P := fun t : Store => t.system.state.MarksRight) (fun t ht => ?_)
    (fun t op ht _ => step_marksRight ht op) h
  obtain ⟨state,hstate,hsystem⟩ := ht
  rw [hsystem]
  exact marksRight_new hstate

/-- The three maps agree through every run, and a call that fails leaves them and the listeners
alone. -/
theorem representation_invariant {s : Store} (h : s.Loaded) :
    (∀ nodeID vID, s.system.state.index.lookup nodeID = some vID ↔
      ∃ d, s.system.state.data.lookup vID = some d ∧ d.nodeID = nodeID) ∧
    (∀ vID, s.system.state.updatedData.lookup vID = some .updatedStatus →
      ∃ d, s.system.state.data.lookup vID = some d) ∧
    (∀ vID, s.system.state.updatedData.lookup vID = some .deletedStatus →
      s.system.state.data.lookup vID = none) ∧
    ∀ (call : StateCall) {σ : Type} (l : Listening σ) (x : σ), l.state x = s.system.state →
      (call.run l x).1 ≠ none → (call.run l x).2 = x := by
  have hmarked : ∀ vID status, s.system.state.updatedData.lookup vID = some status →
      s.system.state.status vID = status := by
    intro vID status hstatus
    have hright := h.marksRight vID (Finmap.mem_iff.mpr ⟨status,hstatus⟩)
    rw [State.Marked,hstatus] at hright
    exact (Option.some.inj hright).symm
  refine ⟨fun nodeID vID => s.system.state.index_iff,fun vID hupdated => ?_,
    fun vID hdeleted => ?_,fun call σ l x _ hfailed => call.run_error hfailed⟩
  · exact State.status_eq_updated.mp (hmarked vID _ hupdated)
  · by_contra hne
    obtain ⟨d,hd⟩ := Option.ne_none_iff_exists'.mp hne
    have hstatus := hmarked vID _ hdeleted
    rw [State.status_eq_updated.mpr ⟨d,hd⟩] at hstatus
    cases hstatus

namespace Sample
open System.Sample (vdr otherVdr)

theorem added_lookup : added.system.state.data.lookup vdr.validationID = some (.new vdr) := by
  obtain ⟨hv,hn,hstate⟩ := added_state
  rw [hstate,State.mark_data,State.insertData_data]
  exact Finmap.lookup_insert _

def refusedBatch : WriteFaults := .ofWrite (some .closed)

theorem refusedBatch_removed (s : State) (order : List ID) :
    refusedBatch.removed s order = order := by
  refine List.takeWhile_eq_self_iff.mpr fun vID _ => ?_
  rw [WriteFaults.stops]
  cases s.status vID with
  | updatedStatus => rfl
  | deletedStatus => rfl

/-- The only mark is gone, and the new validator is not in the database. -/
theorem refusedBatch_forgets :
    (refusedBatch.writeState added.system.state added.db [vdr.validationID]).1 ≠ none ∧
    ¬Covers (refusedBatch.writeState added.system.state added.db [vdr.validationID]).2.2
      (refusedBatch.writeState added.system.state added.db [vdr.validationID]).2.1 := by
  have hfailed : (refusedBatch.writeState added.system.state added.db
      [vdr.validationID]).1 ≠ none := by
    rw [WriteFaults.writeState]
    cases hloop : refusedBatch.collect [vdr.validationID] added.system.state [] with
    | mk result s' =>
      cases result with
      | error e => exact fun h => by cases h
      | ok batch => exact fun h => by cases h
  refine ⟨hfailed,fun hcovers => ?_⟩
  have hmarked : ∀ vID ∈ [vdr.validationID], added.system.state.Marked vID :=
    List.forall_mem_singleton.mpr added_marked
  obtain ⟨hdata,hmarks⟩ := refusedBatch.collect_removes added_orders.1 hmarked []
  rw [WriteFaults.writeState_failed hfailed] at hcovers
  have hmissing : added.db.get vdr.validationID.1 ≠
      ((refusedBatch.collect [vdr.validationID] added.system.state []).2.data.lookup
        vdr.validationID).map ValidatorData.bytes := by
    rw [hdata,added_lookup]
    exact fun h => by cases h
  obtain ⟨status,hstatus⟩ := Finmap.mem_iff.mp (hcovers _ hmissing)
  rw [hmarks,refusedBatch_removed,if_pos List.mem_cons_self] at hstatus
  cases hstatus

def refusedSet : WriteFaults := ⟨fun _ => none,fun _ => some .closed,fun _ => none,none⟩

/-- A validator comes and goes before anything is written, and another one comes. -/
def replaced : Store :=
  (added.step (.call (.deleteValidator vdr.validationID 0))).step (.call (.addValidator otherVdr 0))

theorem replaced_reached : replaced.Reached := .step (.step added_reached trivial) trivial

theorem replaced_orders :
    Orders replaced.system.state [vdr.validationID,otherVdr.validationID] := by
  have hmarks : replaced.system.state.updatedData = Finmap.insert otherVdr.validationID .updatedStatus
      (Finmap.insert vdr.validationID .deletedStatus
        (Finmap.insert vdr.validationID .updatedStatus ∅)) := rfl
  refine ⟨by decide,fun vID => ?_⟩
  rw [hmarks]
  simp
  tauto

/-- The mark of the validator that is gone is removed, and nothing is forgotten. -/
theorem refusedSet_covers :
    refusedSet.removed replaced.system.state [vdr.validationID,otherVdr.validationID] =
      [vdr.validationID] ∧
    Covers (refusedSet.writeState replaced.system.state replaced.db
        [vdr.validationID,otherVdr.validationID]).2.2
      (refusedSet.writeState replaced.system.state replaced.db
        [vdr.validationID,otherVdr.validationID]).2.1 := by
  have hremoved : refusedSet.removed replaced.system.state
      [vdr.validationID,otherVdr.validationID] = [vdr.validationID] := by decide +kernel
  refine ⟨hremoved,((failed_writeState_covers_iff replaced_reached.valid.synced replaced_orders
    ?_).mpr fun vID hvID => ?_).1⟩
  · decide +kernel
  · rw [hremoved,List.mem_singleton] at hvID
    rw [hvID]
    rfl

theorem added_loaded : added.Loaded := by
  have hload : newState new.db = .ok .empty := rfl
  have hstart : new.Loaded := .start ⟨.empty,hload,rfl⟩
  exact .step hstart trivial

theorem added_updated :
    added.system.state.updatedData.lookup vdr.validationID = some .updatedStatus ∧
      ∃ d, added.system.state.data.lookup vdr.validationID = some d := by
  obtain ⟨hv,hn,hstate⟩ := added_state
  have hmark : added.system.state.updatedData.lookup vdr.validationID = some .updatedStatus := by
    rw [hstate,State.mark_updatedData]
    exact Finmap.lookup_insert _
  exact ⟨hmark,(representation_invariant added_loaded).2.1 _ hmark⟩

end Sample
end Store
end Landslide.Uptime
