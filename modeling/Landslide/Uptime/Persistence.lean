import Landslide.Database.Batch
import Landslide.Uptime.Pausing

/-! # The validator state on disk

`WriteState` writes the validators that are marked and no others, and `NewState` reads the
whole database back. So a validator without a mark has to be on disk as it is in memory, and a
mark has to say whether the validator is there; both hold through any history of calls.
-/
namespace Landslide.Uptime
open Codec Database
open Warp (ID)

/-! ## The codec of the validators -/

inductive VdrTypeName where
  | validatorData
  deriving DecidableEq

def validatorDataType : GoType VdrTypeName := .struct .validatorData

def vdrTypeEnv : TypeEnv VdrTypeName where
  fields
    | .validatorData => [⟨"UpDuration",.int .long,true,true⟩,⟨"LastUpdated",.uint .long,true,true⟩,
        ⟨"NodeID",.array nodeIDLen (.uint .byte),true,true⟩,⟨"Weight",.uint .long,true,true⟩,
        ⟨"StartTime",.uint .long,true,true⟩,⟨"IsActive",.bool,true,true⟩,
        ⟨"IsL1Validator",.bool,true,true⟩,
        ⟨"validationID",.array Warp.idLen (.uint .byte),false,false⟩]
  implements _ _ := false

/-- There is no map in the type, so the order of maps does not matter. -/
def vdrCodec : Codec.Manager VdrTypeName :=
  ⟨vdrTypeEnv,(Registry.new.registerType validatorDataType).toOption.getD .new,maxInt32,
    ⟨id,fun _ => .refl _⟩⟩

/-- As deep as a pointer to the struct goes. -/
def vdrDepth : ℕ := 3

namespace ValidatorData

def value (d : ValidatorData) : Val VdrTypeName :=
  .struct [.int d.upDuration.toInt,.num d.lastUpdated.toNat,.bytes d.nodeID.1,.num d.weight.toNat,
    .num d.startTime.toNat,.bool d.isActive,.bool d.isL1Validator]

def blank (vID : ID) : ValidatorData :=
  ⟨0,0,⟨List.replicate nodeIDLen 0,length_emptyNodeID⟩,0,0,false,false,vID⟩

end ValidatorData

/-- `vdrCodec.Marshal` of an entry of the map, which is a nil pointer if there is none. -/
def marshalData (d : Option ValidatorData) : Except CodecError Bytes :=
  vdrCodec.marshal vdrDepth (.ptr validatorDataType) (match d with
    | none => .nil
    | some d => .ptr d.value)

def parseValidatorData (bytes : Bytes) (d : ValidatorData) : Except CodecError ValidatorData :=
  if bytes.length ≠ 0 then do
    match ← vdrCodec.unmarshal vdrDepth validatorDataType bytes with
    | .struct [.int upDuration,.num lastUpdated,.bytes nodeID,.num weight,.num startTime,
        .bool isActive,.bool isL1Validator] =>
      .ok ⟨Int64.ofInt upDuration,UInt64.ofNat lastUpdated,Warp.ByteArrayOf.copy nodeID,
        UInt64.ofNat weight,UInt64.ofNat startTime,isActive,isL1Validator,d.validationID⟩
    | _ => .error .unsupportedType
  else .ok d

/-- What stands behind the version. -/
def ValidatorData.body (d : ValidatorData) : Bytes :=
  beBytes 8 (ofSigned 8 d.upDuration.toInt) ++ (beBytes 8 d.lastUpdated.toNat ++ (d.nodeID.1 ++
    (beBytes 8 d.weight.toNat ++ (beBytes 8 d.startTime.toNat ++
      (beBytes 1 (if d.isActive then 1 else 0) ++
        (beBytes 1 (if d.isL1Validator then 1 else 0) ++ []))))))

def ValidatorData.bytes (d : ValidatorData) : Bytes := beBytes 2 defaultVersion ++ d.body

theorem ValidatorData.bytes_length (d : ValidatorData) : d.bytes.length = 56 := by
  simp only [bytes,body,List.length_append,beBytes_length,d.nodeID.2,List.length_nil]
  rfl

theorem ValidatorData.bytes_drop (d : ValidatorData) : d.bytes.drop 2 = d.body :=
  List.drop_left' (beBytes_length 2 defaultVersion)

theorem toSigned_upDuration (t : Duration) : toSigned 8 (ofSigned 8 t.toInt) = t.toInt := by
  have hlow := t.le_toInt
  have hhigh := t.toInt_lt
  apply toSigned_ofSigned
  · norm_num at hlow ⊢
    exact hlow
  · norm_num at hhigh ⊢
    exact hhigh

theorem readBody (d : ValidatorData) {fuel : ℕ} :
    Codec.unmarshal vdrCodec.env vdrCodec.registry (fuel + 2) validatorDataType [] d.body =
      .ok (d.value,[]) := by
  have hfields : getSerializedFields (vdrCodec.env.fields .validatorData) =
      .ok [.int .long,.uint .long,.array nodeIDLen (.uint .byte),.uint .long,.uint .long,.bool,
        .bool] := rfl
  rw [validatorDataType,unmarshal_struct hfields,Reader.map_eq_ok]
  refine ⟨_,?_,rfl⟩
  refine readEach_cons_eq_ok.mpr ⟨_,_,_,unmarshal_int_ok_iff.mpr
    ⟨_,rfl,ofSigned_lt _ _,congrArg _ (toSigned_upDuration d.upDuration)⟩,?_,rfl⟩
  refine readEach_cons_eq_ok.mpr ⟨_,_,_,unmarshal_uint_ok_iff.mpr
    ⟨_,rfl,d.lastUpdated.toNat_lt,rfl⟩,?_,rfl⟩
  refine readEach_cons_eq_ok.mpr ⟨_,_,_,unmarshal_byteArray_ok_iff.mpr
    ⟨_,rfl,d.nodeID.2,rfl⟩,?_,rfl⟩
  refine readEach_cons_eq_ok.mpr ⟨_,_,_,unmarshal_uint_ok_iff.mpr
    ⟨_,rfl,d.weight.toNat_lt,rfl⟩,?_,rfl⟩
  refine readEach_cons_eq_ok.mpr ⟨_,_,_,unmarshal_uint_ok_iff.mpr
    ⟨_,rfl,d.startTime.toNat_lt,rfl⟩,?_,rfl⟩
  refine readEach_cons_eq_ok.mpr ⟨_,_,_,unmarshal_bool_append d.isActive _,?_,rfl⟩
  exact readEach_cons_eq_ok.mpr ⟨_,_,_,unmarshal_bool_append d.isL1Validator _,
    readEach_nil_eq_ok.mpr ⟨rfl,rfl⟩,rfl⟩

theorem bytes_bounds (d : ValidatorData) :
    d.bytes.length ≤ vdrCodec.maxSize ∧ 2 ≤ d.bytes.length := by
  rw [d.bytes_length]
  change 56 ≤ maxInt32 ∧ 2 ≤ 56
  decide

theorem marshalData_some (d : ValidatorData) : marshalData (some d) = .ok d.bytes := by
  have hread : vdrCodec.unmarshal vdrDepth (.ptr validatorDataType) d.bytes =
      .ok (.ptr d.value) := by
    rw [Codec.Manager.unmarshal_ok_iff,d.bytes_drop]
    exact ⟨(bytes_bounds d).1,(bytes_bounds d).2,unmarshal_ptr_ok_iff.mpr ⟨_,readBody d,rfl⟩⟩
  have hmarshal := Codec.Manager.marshal_of_unmarshal hread
  rwa [d.bytes_drop] at hmarshal

theorem parseValidatorData_bytes (d : ValidatorData) :
    parseValidatorData d.bytes (.blank d.validationID) = .ok d := by
  have hread : vdrCodec.unmarshal vdrDepth validatorDataType d.bytes = .ok d.value := by
    rw [Codec.Manager.unmarshal_ok_iff,d.bytes_drop]
    exact ⟨(bytes_bounds d).1,(bytes_bounds d).2,readBody d⟩
  have hne : d.bytes.length ≠ 0 := by
    rw [d.bytes_length]
    decide
  rw [parseValidatorData,if_pos hne,hread]
  change Except.ok (⟨Int64.ofInt d.upDuration.toInt,UInt64.ofNat d.lastUpdated.toNat,
    Warp.ByteArrayOf.copy d.nodeID.1,UInt64.ofNat d.weight.toNat,UInt64.ofNat d.startTime.toNat,
    d.isActive,d.isL1Validator,d.validationID⟩ : ValidatorData) = _
  rw [Int64.ofInt_toInt,UInt64.ofNat_toNat,UInt64.ofNat_toNat,UInt64.ofNat_toNat,
    Warp.ByteArrayOf.copy_of_length d.nodeID.2]

/-! ## Writing and loading -/

namespace State

def unmark (s : State) (vID : ID) : State := { s with updatedData := s.updatedData.erase vID }

end State

inductive WriteError where
  | marshal (e : CodecError)
  | db (e : DBError)

/-- The failures of the calls that `WriteState` makes. -/
structure WriteFaults where
  marshal : ID → Option CodecError
  set : ID → Option DBError
  delete : ID → Option DBError
  write : Option DBError

namespace WriteFaults

/-- Only `batch.Write` may fail. -/
def ofWrite (write : Option DBError) : WriteFaults :=
  ⟨fun _ => none,fun _ => none,fun _ => none,write⟩

/-- The loop of `WriteState` over the marks, in the order of the map's iteration. The marks
behind it are gone also if it fails. -/
def collect (faults : WriteFaults) : List ID → State → List Request →
    Except WriteError (List Request) × State
  | [], s, batch => (.ok batch,s)
  | vID :: rest, s, batch => match s.updatedData.lookup vID with
    | none => faults.collect rest s batch
    | some .updatedStatus =>
      match (faults.marshal vID).elim (marshalData (s.data.lookup vID)) .error with
      | .error e => (.error (.marshal e),s)
      | .ok dataBytes => match faults.set vID with
        | some e => (.error (.db e),s)
        | none => faults.collect rest (s.unmark vID) (batch ++ [.put ⟨vID.1,dataBytes⟩])
    | some .deletedStatus => match faults.delete vID with
      | some e => (.error (.db e),s)
      | none => faults.collect rest (s.unmark vID) (batch ++ [.delete vID.1])

def writeState (faults : WriteFaults) (s : State) (db : Database.Content) (order : List ID) :
    Option WriteError × State × Database.Content :=
  match faults.collect order s [] with
  | (.error e,s) => (some e,s,db)
  | (.ok batch,s) => match faults.write with
    | some e => (some (.db e),s,db)
    | none => (none,s,batch.foldl Database.Content.apply db)

theorem writeState_ok {faults : WriteFaults} {s : State} {db : Database.Content} {order : List ID}
    (h : (faults.writeState s db order).1 = none) :
    ∃ batch s', faults.collect order s [] = (.ok batch,s') ∧
      faults.writeState s db order = (none,s',batch.foldl Database.Content.apply db) := by
  unfold writeState at h ⊢
  cases hloop : faults.collect order s [] with
  | mk result s' =>
    rw [hloop] at h
    cases result with
    | error e => cases h
    | ok batch =>
      cases hwrite : faults.write with
      | some e =>
        rw [hwrite] at h
        cases h
      | none => exact ⟨batch,s',rfl,rfl⟩

end WriteFaults

inductive LoadError where
  | parseValidatorID (len : ℕ)
  | parseValidatorData (e : CodecError)
  | addData (e : UptimeError)

def LoadError.text (idString : ID → String) (nodeString : NodeID → String) (e : LoadError) :
    String :=
  "failed to load data from disk: " ++ match e with
    | parseValidatorID len => "failed to parse validator ID: invalid hash length: expected 32 " ++
        "bytes but got " ++ toString len
    | parseValidatorData e => "failed to parse validator data: " ++ e.text
    | addData e => e.text idString nodeString

/-- One turn of `loadFromDisk`. -/
def loadEntry (s : State) (e : PutRequest) : Except LoadError State :=
  if h : e.key.length = Warp.idLen then do
    let d ← (parseValidatorData e.value (.blank ⟨e.key,h⟩)).mapError .parseValidatorData
    (s.addData d).mapError .addData
  else .error (.parseValidatorID e.key.length)

def newState (db : Database.Content) : Except LoadError State := db.entries.foldlM loadEntry .empty

/-! ## A written database -/

/-- The database holds the validators of the state and nothing else. -/
structure Holds (db : Database.Content) (s : State) : Prop where
  keys : ∀ e ∈ db.entries, e.key.length = Warp.idLen
  get : ∀ vID : ID, db.get vID.1 = (s.data.lookup vID).map ValidatorData.bytes

theorem State.ext_data {s s' : State} (h : s.data = s'.data) : s.index = s'.index := by
  apply Finmap.ext_lookup
  intro nodeID
  apply Option.ext
  intro vID
  rw [s.index_iff,s'.index_iff,h]

theorem loadEntry_of_free {s t : State} {e : PutRequest} {vID : ID} {d : ValidatorData}
    (hd : s.data.lookup vID = some d) (hkey : e.key = vID.1) (hvalue : e.value = d.bytes)
    (hsub : ∀ w d', t.data.lookup w = some d' → s.data.lookup w = some d') (hfree : vID ∉ t.data) :
    ∃ t', loadEntry t e = .ok t' ∧ t'.data = t.data.insert vID d ∧
      t'.updatedData = t.updatedData := by
  obtain ⟨key,value⟩ := e
  dsimp only at hkey hvalue
  subst hkey hvalue
  obtain rfl := s.validationID_eq hd
  have hnode : d.nodeID ∉ t.index := by
    rw [State.nodeID_mem_index_iff]
    rintro ⟨w,d',hw,hnode⟩
    have hw' := s.eq_of_nodeID_eq (hsub w d' hw) hd hnode
    subst hw'
    exact hfree (Finmap.mem_iff.mpr ⟨d',hw⟩)
  refine ⟨t.insertData d hfree hnode,?_,rfl,rfl⟩
  rw [loadEntry,dif_pos d.validationID.2,parseValidatorData_bytes d]
  change (t.addData d).mapError LoadError.addData = _
  rw [t.addData_ok_iff.mpr ⟨hfree,hnode,rfl⟩]
  rfl

theorem loadEntries {s : State} (entries : List PutRequest) (t : State)
    (hentries : ∀ e ∈ entries, ∃ vID d, s.data.lookup vID = some d ∧ e.key = vID.1 ∧
      e.value = d.bytes)
    (hkeys : (entries.map PutRequest.key).Nodup)
    (hsub : ∀ w d, t.data.lookup w = some d → s.data.lookup w = some d)
    (hfree : ∀ vID : ID, vID.1 ∈ entries.map PutRequest.key → vID ∉ t.data) :
    ∃ t', entries.foldlM loadEntry t = .ok t' ∧ t'.updatedData = t.updatedData ∧
      ∀ vID : ID, t'.data.lookup vID = if vID.1 ∈ entries.map PutRequest.key
        then s.data.lookup vID else t.data.lookup vID := by
  induction entries generalizing t with
  | nil => exact ⟨t,rfl,rfl,fun vID => by simp⟩
  | cons e entries ih =>
    obtain ⟨vID,d,hd,hkey,hvalue⟩ := hentries e List.mem_cons_self
    obtain ⟨hnew,hkeys⟩ := List.nodup_cons.mp hkeys
    have hmem : vID.1 ∈ (e :: entries).map PutRequest.key := by simp [hkey]
    obtain ⟨t',hload,hdata,hmarks⟩ := loadEntry_of_free hd hkey hvalue hsub (hfree vID hmem)
    have hlookup (w : ID) : t'.data.lookup w = if w = vID then some d else t.data.lookup w := by
      rw [hdata]
      split
      · next hw => rw [hw,Finmap.lookup_insert]
      · next hw => rw [Finmap.lookup_insert_of_ne _ hw]
    have hsub' : ∀ w d', t'.data.lookup w = some d' → s.data.lookup w = some d' := by
      intro w d' hw
      rw [hlookup] at hw
      split at hw
      · next hv => rw [hv,hd,hw]
      · exact hsub w d' hw
    have hfree' : ∀ w : ID, w.1 ∈ entries.map PutRequest.key → w ∉ t'.data := by
      intro w hw
      have hne : w ≠ vID := by
        rintro rfl
        exact hnew (hkey ▸ hw)
      rw [← Finmap.lookup_eq_none,hlookup,if_neg hne,Finmap.lookup_eq_none]
      exact hfree w (List.mem_cons_of_mem _ hw)
    obtain ⟨t'',hrest,hmarks',hall⟩ := ih t' (fun e he => hentries e (List.mem_cons_of_mem _ he))
      hkeys hsub' hfree'
    refine ⟨t'',?_,hmarks'.trans hmarks,fun w => ?_⟩
    · rw [List.foldlM_cons,hload]
      exact hrest
    · rw [hall,hlookup,List.map_cons]
      by_cases hw : w = vID
      · subst hw
        simp [hkey,hd]
      · have hne : w.1 ≠ e.key := fun h => hw (Subtype.ext (h.trans hkey))
        simp [hne,hw]

theorem Holds.newState {db : Database.Content} {s : State} (h : Holds db s) :
    ∃ loaded, newState db = .ok loaded ∧ loaded.data = s.data ∧ loaded.index = s.index ∧
      loaded.updatedData = ∅ := by
  have hentries : ∀ e ∈ db.entries, ∃ vID d, s.data.lookup vID = some d ∧ e.key = vID.1 ∧
      e.value = d.bytes := by
    intro e he
    have hget : db.get e.key = some e.value := db.get_eq_some.mpr he
    have hs := h.get ⟨e.key,h.keys e he⟩
    obtain ⟨d,hd,hvalue⟩ := Option.map_eq_some_iff.mp (hs.symm.trans hget)
    exact ⟨_,d,hd,rfl,hvalue.symm⟩
  have hkeys : (db.entries.map PutRequest.key).Nodup :=
    List.pairwise_map.mpr (db.sorted.imp key_ne_of_lt)
  obtain ⟨loaded,hloaded,hmarks,hall⟩ := loadEntries db.entries .empty hentries hkeys
    (fun w d hw => by simp [State.empty] at hw) (fun _ _ => Finmap.notMem_empty)
  have hdata : loaded.data = s.data := by
    apply Finmap.ext_lookup
    intro vID
    rw [hall]
    split
    · rfl
    · next hmem =>
      have hnone : db.get vID.1 = none := by
        cases hget : db.get vID.1 with
        | none => rfl
        | some value => exact absurd (List.mem_map_of_mem (db.get_eq_some.mp hget)) hmem
      rw [h.get] at hnone
      rw [Option.map_eq_none_iff.mp hnone]
      rfl
  exact ⟨loaded,hloaded,hdata,State.ext_data hdata,hmarks⟩

/-! ## What the marks say -/

namespace State

/-- The status that a mark of this key has to have. -/
def status (s : State) (vID : ID) : DbUpdateStatus :=
  if (s.data.lookup vID).isSome then .updatedStatus else .deletedStatus

def Marked (s : State) (vID : ID) : Prop := s.updatedData.lookup vID = some (s.status vID)

/-- The key is as it was, or it has the right mark. -/
def Tracks (s s' : State) (vID : ID) : Prop :=
  s'.updatedData.lookup vID = s.updatedData.lookup vID ∧ s'.data.lookup vID = s.data.lookup vID ∨
    s'.Marked vID

variable {s s' s'' : State} {vID v : ID}

theorem Tracks.refl (s : State) (vID : ID) : s.Tracks s vID := Or.inl ⟨rfl,rfl⟩

theorem Tracks.trans (h : s.Tracks s' vID) (h' : s'.Tracks s'' vID) : s.Tracks s'' vID := by
  rcases h' with ⟨hmark',hdata'⟩ | h'
  · rcases h with ⟨hmark,hdata⟩ | h
    · exact Or.inl ⟨hmark'.trans hmark,hdata'.trans hdata⟩
    · refine Or.inr ?_
      rw [Marked,status,hmark',hdata']
      exact h
  · exact Or.inr h'

theorem isSome_lookup_of_getValidator (h : s'.getValidator = s.getValidator) (vID : ID) :
    (s'.data.lookup vID).isSome = (s.data.lookup vID).isSome := by
  have hv := congrArg Option.isSome (congrFun h vID)
  rwa [getValidator,getValidator,Option.isSome_map,Option.isSome_map] at hv

theorem marked_mark (s : State) (vID : ID) : (s.mark vID (s.status vID)).Marked vID := by
  rw [Marked,mark_updatedData,Finmap.lookup_insert]
  rfl

theorem lookup_mark_of_ne {status : DbUpdateStatus} (h : v ≠ vID) :
    (s.mark vID status).updatedData.lookup v = s.updatedData.lookup v := by
  rw [mark_updatedData,Finmap.lookup_insert_of_ne _ h]

theorem tracks_mark {status : DbUpdateStatus} (hmarks : s'.updatedData = s.updatedData)
    (hstatus : s'.status v = status) (hothers : vID ≠ v → s'.data.lookup vID = s.data.lookup vID) :
    s.Tracks (s'.mark v status) vID := by
  by_cases hvID : vID = v
  · rw [hvID,← hstatus]
    exact Or.inr (marked_mark _ _)
  · exact Or.inl ⟨(lookup_mark_of_ne hvID).trans (by rw [hmarks]),hothers hvID⟩

theorem setUptime_tracks (s : State) (nodeID : NodeID) (upDuration : Duration)
    (lastUpdated : Time) (v : ID) : s.Tracks (s.setUptime nodeID upDuration lastUpdated).2 v := by
  cases hdata : s.getData nodeID with
  | none =>
    rw [s.setUptime_of_none hdata]
    exact .refl s v
  | some d =>
    obtain ⟨hd,hnode⟩ := s.getData_eq_some_iff.mp hdata
    have hmarks := (s.setUptime_of_some hdata upDuration lastUpdated).2
    have hlookup := s.setUptime_lookup nodeID upDuration lastUpdated v
    by_cases hv : v = d.validationID
    · subst hv
      refine Or.inr ?_
      rw [Marked,hmarks,Finmap.lookup_insert,status,hlookup,hd]
      rfl
    · refine Or.inl ⟨by rw [hmarks,Finmap.lookup_insert_of_ne _ hv],?_⟩
      rw [hlookup]
      cases hw : s.data.lookup v with
      | none => rw [Option.map_none]
      | some e =>
        have hne : e.nodeID ≠ nodeID := fun he => hv (s.eq_of_nodeID_eq hw hd (he.trans hnode.symm))
        rw [Option.map_some,if_neg hne]

/-- Every validator but this one is tracked, and this one is still there if it was: so it is
between a change of a validator and its mark. -/
structure TracksOthers (vID : ID) (s s' : State) : Prop where
  tracks : ∀ v, v ≠ vID → s.Tracks s' v
  isSome : ∀ v, (s'.data.lookup v).isSome = (s.data.lookup v).isSome

theorem TracksOthers.refl (vID : ID) (s : State) : s.TracksOthers vID s :=
  ⟨fun v _ => .refl s v,fun _ => rfl⟩

theorem TracksOthers.setWeight (h : s.TracksOthers vID s') (weight : UInt64) :
    s.TracksOthers vID (s'.setWeight vID weight) where
  tracks v hne := by
    refine (h.tracks v hne).trans (Or.inl ⟨rfl,?_⟩)
    rw [setWeight_lookup,if_neg hne,Option.map_id,id]
  isSome v := by rw [setWeight_lookup,Option.isSome_map,h.isSome]

end State

theorem Absorbs.tracks (now : Time) : Absorbs (fun s s' => ∀ vID, s.Tracks s' vID) now where
  refl s vID := .refl s vID
  trans h h' vID := (h vID).trans (h' vID)
  update m s nodeID vID := by
    cases hdata : s.getData nodeID with
    | none =>
      rw [m.updateUptime_of_none hdata]
      exact .refl s vID
    | some d =>
      rw [m.updateUptime_of_some hdata]
      exact s.setUptime_tracks ..

namespace System
variable {s : System}

theorem addValidator_tracks (s : System) (vdr : Validator) (now : Time) (vID : ID) :
    s.state.Tracks (s.addValidator vdr now).2.state vID := by
  refine s.addValidator_cases (P := fun t => s.state.Tracks t.state vID) vdr now (.refl _ vID)
    fun state hadd => ?_
  have hnotify := (Absorbs.tracks now).notify
    ((Absorbs.tracks now).onValidatorAdded vdr.nodeID vdr.isActive)
    { s with state := state.mark vdr.validationID .updatedStatus }
  refine State.Tracks.trans ?_ (hnotify vID)
  obtain ⟨hv,hn,rfl⟩ := s.state.addData_ok_iff.mp hadd
  change s.state.Tracks ((s.state.insertData (.new vdr) hv hn).mark
    (ValidatorData.new vdr).validationID .updatedStatus) vID
  refine State.tracks_mark (State.insertData_updatedData ..) ?_ fun hvID => ?_
  · rw [State.status,State.insertData_data,Finmap.lookup_insert]
    rfl
  · rw [State.insertData_data,Finmap.lookup_insert_of_ne _ hvID]

theorem tracksOthers_notify (s : System) (d : ValidatorData) (vID : ID) (isActive : Bool)
    (now : Time) : s.state.TracksOthers vID (notify (onValidatorStatusUpdated d.nodeID isActive now)
      { s with state := s.state.setIsActive vID isActive }).state where
  tracks v hne := by
    have hnotify := (Absorbs.tracks now).notify
      ((Absorbs.tracks now).onValidatorStatusUpdated d.nodeID isActive)
      { s with state := s.state.setIsActive vID isActive }
    refine State.Tracks.trans ?_ (hnotify v)
    refine Or.inl ⟨rfl,?_⟩
    rw [State.setIsActive_lookup,if_neg hne,Option.map_id,id]
  isSome v := by
    have hnotify := (Absorbs.getValidator now).notify
      ((Absorbs.getValidator now).onValidatorStatusUpdated d.nodeID isActive)
      { s with state := s.state.setIsActive vID isActive }
    rw [State.isSome_lookup_of_getValidator hnotify,State.setIsActive_lookup,Option.isSome_map]

theorem updateValidator_tracks (s : System) (vdr : Validator) (now : Time) (vID : ID) :
    s.state.Tracks (s.updateValidator vdr now).2.state vID := by
  rcases s.updateValidator_cases
    (P := fun t => s.state.TracksOthers vdr.validationID t.state) vdr now (.refl _ _)
    (fun d _ => s.tracksOthers_notify d _ _ now)
    (fun t ht => ht.setWeight vdr.weight) with heq | ⟨d,t,hd,ht,heq⟩
  · rw [heq]
    exact .refl _ vID
  · rw [heq]
    by_cases hvID : vID = vdr.validationID
    · subst hvID
      have hstatus : t.state.status vdr.validationID = .updatedStatus := by
        rw [State.status,ht.isSome,hd]
        rfl
      refine Or.inr ?_
      rw [← hstatus]
      exact State.marked_mark _ _
    · exact (ht.tracks vID hvID).trans (Or.inl ⟨State.lookup_mark_of_ne hvID,rfl⟩)

theorem deleteValidator_tracks (s : System) (v : ID) (now : Time) (vID : ID) :
    s.state.Tracks (s.deleteValidator v now).2.state vID := by
  refine s.deleteValidator_cases (P := fun t => s.state.Tracks t.state vID) v now
    (fun _ => .refl _ vID) fun d hd => ?_
  obtain rfl := s.state.validationID_eq hd
  have hnotify := (Absorbs.tracks now).notify
    ((Absorbs.tracks now).onValidatorRemoved d.nodeID)
    { s with state :=
      (s.state.eraseData d.validationID).mark d.validationID .deletedStatus }
  refine State.Tracks.trans ?_ (hnotify vID)
  refine State.tracks_mark (State.eraseData_updatedData ..) ?_ fun hvID => ?_
  · rw [State.status,State.eraseData_data,Finmap.lookup_erase]
    rfl
  · rw [State.eraseData_data,Finmap.lookup_erase_ne hvID]

theorem setStatus_tracks (s : System) (v : ID) (isActive : Bool) (now : Time) (vID : ID) :
    s.state.Tracks (s.setStatus v isActive now).2.state vID := by
  refine s.setStatus_cases (P := fun t => s.state.Tracks t.state vID) v isActive now (.refl _ vID)
    fun d hd => ?_
  have hnotify := (Absorbs.tracks now).notify
    ((Absorbs.tracks now).onValidatorStatusUpdated d.nodeID isActive)
    { s with state := (s.state.setIsActive v isActive).mark v .updatedStatus }
  refine State.Tracks.trans ?_ (hnotify vID)
  refine State.tracks_mark (State.setIsActive_updatedData ..) ?_ fun hvID => ?_
  · rw [State.status,State.setIsActive_lookup,hd]
    rfl
  · rw [State.setIsActive_lookup,if_neg hvID,Option.map_id,id]

theorem step_tracks (s : System) (op : Op) (vID : ID) : s.state.Tracks (s.step op).state vID := by
  have hrefl : ∀ s : State, ∀ vID, s.Tracks s vID := fun s vID => .refl s vID
  unfold step
  cases op with
  | addValidator vdr now => exact s.addValidator_tracks vdr now vID
  | updateValidator vdr now => exact s.updateValidator_tracks vdr now vID
  | deleteValidator v now => exact s.deleteValidator_tracks v now vID
  | setStatus v isActive now => exact s.setStatus_tracks v isActive now vID
  | registerListener order =>
    exact s.registerListener_absorbed hrefl (fun entry _ => Absorbs.tracks entry.2) vID
  | connect nodeID now => exact (Absorbs.tracks now).connect s nodeID vID
  | disconnect nodeID now => exact (Absorbs.tracks now).disconnect s nodeID vID
  | startTracking nodes =>
    exact s.startTracking_absorbed hrefl (fun entry _ => Absorbs.tracks entry.2) vID
  | stopTracking nodes =>
    exact s.stopTracking_absorbed hrefl (fun entry _ => Absorbs.tracks entry.2) vID

end System

/-! ## The database and the marks -/

/-- A validator is on disk as it is in memory, or it has the right mark. -/
structure Synced (db : Database.Content) (s : State) : Prop where
  keys : ∀ e ∈ db.entries, e.key.length = Warp.idLen
  unmarked : ∀ vID : ID, s.Marked vID ∨ s.updatedData.lookup vID = none ∧
    db.get vID.1 = (s.data.lookup vID).map ValidatorData.bytes

theorem Synced.tracks {db : Database.Content} {s s' : State} (h : Synced db s)
    (htracks : ∀ vID, s.Tracks s' vID) : Synced db s' := by
  refine ⟨h.keys,fun vID => ?_⟩
  rcases htracks vID with ⟨hmark,hdata⟩ | hmarked
  · rcases h.unmarked vID with hmarked | ⟨hnone,hget⟩
    · refine Or.inl ?_
      rw [State.Marked,State.status,hmark,hdata]
      exact hmarked
    · exact Or.inr ⟨hmark.trans hnone,by rw [hget,hdata]⟩
  · exact Or.inl hmarked

theorem Synced.holds {db : Database.Content} {s : State} (h : Synced db s) (hmarks : s.updatedData = ∅) :
    Holds db s := by
  refine ⟨h.keys,fun vID => ?_⟩
  rcases h.unmarked vID with hmarked | ⟨-,hget⟩
  · rw [State.Marked,hmarks] at hmarked
    simp at hmarked
  · exact hget

theorem Holds.synced {db : Database.Content} {s s' : State} (h : Holds db s) (hdata : s'.data = s.data)
    (hmarks : s'.updatedData = ∅) : Synced db s' :=
  ⟨h.keys,fun vID => Or.inr ⟨by simp [hmarks],by rw [h.get,hdata]⟩⟩

def State.request (s : State) (vID : ID) : Request :=
  match s.data.lookup vID with
  | some d => .put ⟨vID.1,d.bytes⟩
  | none => .delete vID.1

theorem Synced.write {db : Database.Content} {s : State} (h : Synced db s) (vID : ID) :
    Synced (db.apply (s.request vID)) (s.unmark vID) := by
  have hget : (db.apply (s.request vID)).get = Function.update db.get vID.1
      ((s.data.lookup vID).map ValidatorData.bytes) := by
    rw [Database.Content.get_apply,State.request]
    cases s.data.lookup vID <;> rfl
  refine ⟨fun e he => ?_,fun v => ?_⟩
  · have hvalue := (Database.Content.get_eq_some _).mpr he
    rw [hget] at hvalue
    by_cases hkey : e.key = vID.1
    · rw [hkey]
      exact vID.2
    · rw [Function.update_of_ne hkey] at hvalue
      exact h.keys e (db.get_eq_some.mp hvalue)
  · by_cases hv : v = vID
    · subst hv
      refine Or.inr ⟨Finmap.lookup_erase _ _,?_⟩
      rw [hget,Function.update_self]
      rfl
    · have hmarks : (s.unmark vID).updatedData.lookup v = s.updatedData.lookup v :=
        Finmap.lookup_erase_ne hv
      have hne : v.1 ≠ vID.1 := fun heq => hv (Subtype.ext heq)
      rw [hget,Function.update_of_ne hne,hmarks,State.Marked,hmarks]
      exact h.unmarked v

theorem State.status_eq_updated {s : State} {vID : ID} :
    s.status vID = .updatedStatus ↔ ∃ d, s.data.lookup vID = some d := by
  rw [State.status,← Option.isSome_iff_exists]
  cases (s.data.lookup vID).isSome with
  | true => simp
  | false => simp

namespace WriteFaults

/-- The calls for this key fail. -/
def stops (faults : WriteFaults) (s : State) (vID : ID) : Bool :=
  match s.status vID with
  | .updatedStatus => (faults.marshal vID).isSome || (faults.set vID).isSome
  | .deletedStatus => (faults.delete vID).isSome

variable {faults : WriteFaults} {s : State}

theorem collect_cons (batch : List Request) (vID : ID) (rest : List ID) (h : s.Marked vID) :
    faults.stops s vID = true ∧
      (∃ e, faults.collect (vID :: rest) s batch = (.error e,s)) ∨
    faults.stops s vID = false ∧
      faults.collect (vID :: rest) s batch =
        faults.collect rest (s.unmark vID) (batch ++ [s.request vID]) := by
  rw [State.Marked] at h
  rw [collect,h,stops,State.request]
  cases hstatus : s.status vID with
  | updatedStatus =>
    obtain ⟨d,hd⟩ := State.status_eq_updated.mp hstatus
    rw [hd]
    cases hmarshal : faults.marshal vID with
    | some e => exact .inl ⟨rfl,_,rfl⟩
    | none =>
      simp only [Option.elim,marshalData_some]
      cases hset : faults.set vID with
      | some e => exact .inl ⟨rfl,_,rfl⟩
      | none => exact .inr ⟨rfl,rfl⟩
  | deletedStatus =>
    have hnone : s.data.lookup vID = none := by
      cases hd : s.data.lookup vID with
      | none => rfl
      | some d =>
        rw [State.status_eq_updated.mpr ⟨d,hd⟩] at hstatus
        cases hstatus
    rw [hnone]
    cases hdelete : faults.delete vID with
    | some e => exact .inl ⟨rfl,_,rfl⟩
    | none => exact .inr ⟨rfl,rfl⟩

theorem collect_synced {order : List ID} {db : Database.Content} {batch batch' : List Request}
    {s' : State} (h : Synced (batch.foldl Database.Content.apply db) s)
    (hok : faults.collect order s batch = (.ok batch',s')) :
    Synced (batch'.foldl Database.Content.apply db) s' ∧ s'.data = s.data ∧
      ∀ vID, vID ∈ s'.updatedData ↔ vID ∈ s.updatedData ∧ vID ∉ order := by
  induction order generalizing s batch with
  | nil =>
    cases hok
    exact ⟨h,rfl,fun vID => by simp⟩
  | cons vID order ih =>
    rcases h.unmarked vID with hmarked | ⟨hnone,-⟩
    · rcases collect_cons batch vID order hmarked with ⟨_,e,heq⟩ | ⟨_,heq⟩
      · rw [heq] at hok
        cases hok
      · rw [heq] at hok
        have hwrite : Synced ((batch ++ [s.request vID]).foldl Database.Content.apply db)
            (s.unmark vID) := by
          rw [List.foldl_append]
          exact h.write vID
        obtain ⟨hsynced,hdata,hleft⟩ := ih hwrite hok
        refine ⟨hsynced,hdata,fun v => ?_⟩
        have hmarks : v ∈ (s.unmark vID).updatedData ↔ v ≠ vID ∧ v ∈ s.updatedData :=
          Finmap.mem_erase
        rw [hleft,hmarks,List.mem_cons]
        tauto
    · rw [collect,hnone] at hok
      obtain ⟨hsynced,hdata,hleft⟩ := ih h hok
      refine ⟨hsynced,hdata,fun v => ?_⟩
      rw [hleft,List.mem_cons]
      have hfree : vID ∉ s.updatedData := Finmap.lookup_eq_none.mp hnone
      refine and_congr_right fun hv => ?_
      have hne : v ≠ vID := fun heq => hfree (heq ▸ hv)
      simp [hne]

end WriteFaults

/-- The order of an iteration over the marks. -/
def Orders (s : State) (order : List ID) : Prop :=
  order.Nodup ∧ ∀ vID, vID ∈ order ↔ vID ∈ s.updatedData

theorem Synced.writeState {db : Database.Content} {s : State} (h : Synced db s) {order : List ID}
    (horder : Orders s order) {faults : WriteFaults}
    (hok : (faults.writeState s db order).1 = none) :
    Holds (faults.writeState s db order).2.2 (faults.writeState s db order).2.1 ∧
      (faults.writeState s db order).2.1.data = s.data ∧
      (faults.writeState s db order).2.1.updatedData = ∅ := by
  obtain ⟨batch,state,hloop,hwritten⟩ := WriteFaults.writeState_ok hok
  have hnone : Synced (([] : List Request).foldl Database.Content.apply db) s := h
  obtain ⟨hsynced,hdata,hleft⟩ := WriteFaults.collect_synced hnone hloop
  have hmarks : state.updatedData = ∅ := by
    apply Finmap.ext_lookup
    intro vID
    rw [Finmap.lookup_empty,Finmap.lookup_eq_none,hleft,horder.2]
    tauto
  rw [hwritten]
  exact ⟨hsynced.holds hmarks,hdata,hmarks⟩

/-! ## Histories -/

/-- The validator state with its listeners, over a database. -/
structure Store where
  system : System
  db : Database.Content

namespace Store

inductive Op where
  | call (op : System.Op)
  | setUptime (nodeID : NodeID) (upDuration : Duration) (lastUpdated : Time)
  | writeState (order : List ID) (faults : WriteFaults)
  /-- The node starts again, with a state that it loads from the database. -/
  | restart

def step (s : Store) : Op → Store
  | .call op => { s with system := s.system.step op }
  | .setUptime nodeID upDuration lastUpdated =>
    { s with system :=
      { s.system with state := (s.system.state.setUptime nodeID upDuration lastUpdated).2 } }
  | .writeState order faults =>
    let written := faults.writeState s.system.state s.db order
    ⟨{ s.system with state := written.2.1 },written.2.2⟩
  | .restart => match newState s.db with
    | .error _ => s
    | .ok state => ⟨.new state,s.db⟩

/-- The order goes over all marks, and the write succeeds. -/
def Writes (s : Store) (order : List ID) (faults : WriteFaults) : Prop :=
  Orders s.system.state order ∧ (faults.writeState s.system.state s.db order).1 = none

def Allows (s : Store) : Op → Prop
  | .writeState order faults => s.Writes order faults
  | _ => True

def new : Store := ⟨.new .empty,⟨[],.nil⟩⟩

/-- Histories from an empty database, with any number of restarts. -/
def Reached : Store → Prop := Reaches (· = new) Allows step

/-- The database was written for some state, and the state at hand agrees with it up to the
marks. -/
structure Valid (s : Store) : Prop where
  synced : Synced s.db s.system.state
  written : ∃ state, Holds s.db state

theorem valid_new : new.Valid := by
  have hholds : Holds new.db .empty :=
    ⟨fun e he => (nomatch he),fun vID => by simp [new,Database.Content.get,State.empty]⟩
  exact ⟨hholds.synced rfl rfl,_,hholds⟩

theorem Valid.step {s : Store} (h : s.Valid) {op : Op} (hop : s.Allows op) : (s.step op).Valid := by
  cases op with
  | call op => exact ⟨h.synced.tracks (s.system.step_tracks op),h.written⟩
  | setUptime nodeID upDuration lastUpdated =>
    exact ⟨h.synced.tracks (s.system.state.setUptime_tracks nodeID upDuration lastUpdated),h.written⟩
  | writeState order faults =>
    obtain ⟨hholds,_,hmarks⟩ := h.synced.writeState hop.1 hop.2
    exact ⟨hholds.synced rfl hmarks,_,hholds⟩
  | restart =>
    obtain ⟨state,hholds⟩ := h.written
    obtain ⟨loaded,hloaded,hdata,_,hmarks⟩ := hholds.newState
    have hstep : s.step .restart = ⟨.new loaded,s.db⟩ := by simp only [Store.step,hloaded]
    rw [hstep]
    exact ⟨hholds.synced hdata hmarks,state,hholds⟩

theorem Reached.valid {s : Store} (h : s.Reached) : s.Valid :=
  Reaches.invariant (fun _ hs => hs ▸ valid_new) (fun _ _ ht hop => ht.step hop) h

/-- Right after a write, loading the database gives the validators and the index that are in
memory, which the write has left as they were. -/
theorem newState_after_writeState {s : Store} (h : s.Reached) {order : List ID}
    {faults : WriteFaults} (hwrite : s.Writes order faults) :
    ∃ loaded, newState (s.step (.writeState order faults)).db = .ok loaded ∧
      loaded.data = (s.step (.writeState order faults)).system.state.data ∧
      loaded.index = (s.step (.writeState order faults)).system.state.index ∧
      loaded.data = s.system.state.data ∧ loaded.index = s.system.state.index := by
  obtain ⟨hholds,hsame,_⟩ := h.valid.synced.writeState hwrite.1 hwrite.2
  obtain ⟨loaded,hloaded,hdata,hindex,_⟩ := hholds.newState
  exact ⟨loaded,hloaded,hdata,hindex,hdata.trans hsame,State.ext_data (hdata.trans hsame)⟩

namespace Sample
open System.Sample (vdr)

def added : Store := new.step (.call (.addValidator vdr 0))

theorem added_reached : added.Reached := Reaches.step (.start rfl) trivial

theorem added_state : ∃ hv hn, added.system.state =
    ((State.empty.insertData (.new vdr) hv hn).mark vdr.validationID .updatedStatus) := by
  have hv : (ValidatorData.new vdr).validationID ∉ State.empty.data := Finmap.notMem_empty
  have hn : (ValidatorData.new vdr).nodeID ∉ State.empty.index := Finmap.notMem_empty
  refine ⟨hv,hn,?_⟩
  change ((System.new .empty).addValidator vdr 0).2.state = _
  have hadd : (System.new .empty).state.addData (.new vdr) =
      .ok (State.empty.insertData (.new vdr) hv hn) := State.empty.addData_ok_iff.mpr ⟨hv,hn,rfl⟩
  rw [System.addValidator_of_ok hadd]
  rfl

theorem added_orders : Orders added.system.state [vdr.validationID] := by
  obtain ⟨hv,hn,hstate⟩ := added_state
  refine ⟨List.nodup_singleton _,fun vID => ?_⟩
  rw [hstate,State.mark_updatedData,Finmap.mem_insert,List.mem_singleton]
  exact (or_iff_left Finmap.notMem_empty).symm

theorem added_marked : added.system.state.Marked vdr.validationID := by
  obtain ⟨hv,hn,hstate⟩ := added_state
  rw [hstate]
  exact Finmap.lookup_insert _

theorem added_writes : added.Writes [vdr.validationID] (.ofWrite none) := by
  refine ⟨added_orders,?_⟩
  rcases (WriteFaults.ofWrite none).collect_cons [] vdr.validationID [] added_marked with
    ⟨hstops,_⟩ | ⟨_,heq⟩
  · rw [WriteFaults.stops] at hstops
    split at hstops
    · cases hstops
    · cases hstops
  · rw [WriteFaults.writeState,heq]
    rfl

theorem added_reloaded : ∃ loaded,
    newState (added.step (.writeState [vdr.validationID] (.ofWrite none))).db = .ok loaded ∧
      loaded.data.lookup vdr.validationID = some (.new vdr) := by
  obtain ⟨loaded,hloaded,_,_,hdata,_⟩ := newState_after_writeState added_reached added_writes
  obtain ⟨hv,hn,hstate⟩ := added_state
  refine ⟨loaded,hloaded,?_⟩
  rw [hdata,hstate,State.mark_data,State.insertData_data]
  exact Finmap.lookup_insert _

end Sample
end Store
end Landslide.Uptime
