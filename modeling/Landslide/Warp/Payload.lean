import Landslide.Warp.Messages

/-! # Payloads

The payloads of unsigned messages: block hashes and addressed calls. The payload of an
addressed call may itself be a message, of which there is one kind, the uptime of a
validator. Payloads are marshalled as interface values, so the bytes begin with the ID
under which their type is registered.
-/
namespace Landslide.Warp
open Codec

structure Hash where
  hash : ID
  bytes : Bytes
  deriving DecidableEq

structure AddressedCall where
  sourceAddress : Bytes
  payload : Bytes
  bytes : Bytes
  deriving DecidableEq

inductive Payload where
  | hash (p : Hash)
  | addressedCall (p : AddressedCall)
  deriving DecidableEq

def parsePayload (bytes : Bytes) : Except CodecError Payload := do
  match ← payloadCodec.unmarshal depth (.interface .payload) bytes with
  | .iface (.ptr (.struct .hash)) (.ptr (.struct [.bytes hash])) =>
    .ok (.hash ⟨ID.ofBytes hash,bytes⟩)
  | .iface (.ptr (.struct .addressedCall)) (.ptr (.struct [.bytes sourceAddress,.bytes payload])) =>
    .ok (.addressedCall ⟨sourceAddress,payload,bytes⟩)
  | _ => .error .unsupportedType

def parseAddressedCall (b : Bytes) : Except MessageError AddressedCall :=
  match parsePayload b with
  | .error e => .error (.codec e)
  | .ok (.addressedCall p) => .ok p
  | .ok (.hash _) => .error .wrongType

def newHash (hash : ID) : Except MessageError Hash := do
  let bytes ← (payloadCodec.marshal depth (.interface .payload)
    (.iface (pointer .hash) (.ptr (.struct [.bytes hash.1])))).mapError (.marshalPayload "*payload.Hash")
  .ok ⟨hash,bytes⟩

/-- What stands behind the version; hashes are the first type of the package. -/
def Hash.body (hash : ID) : Bytes := beBytes 4 0 ++ hash.1

theorem unmarshal_hash {b : Bytes} {hash : ID} (hlen : 2 ≤ b.length)
    (hbody : b.drop 2 = Hash.body hash) :
    payloadCodec.unmarshal depth (.interface .payload) b =
      .ok (.iface (pointer .hash) (.ptr (.struct [.bytes hash.1]))) := by
  have hfields : getSerializedFields (payloadCodec.env.fields .hash) = .ok [idType] := rfl
  have hsize : b.length ≤ payloadCodec.maxSize := by
    have hdrop := congrArg List.length hbody
    simp only [List.length_drop,Hash.body,List.length_append,beBytes_length,hash.2] at hdrop
    change _ ≤ 24 * 1024
    unfold idLen at hdrop
    omega
  rw [Manager.unmarshal_ok_iff,depth,unmarshal_interface_ok_iff]
  refine ⟨hsize,hlen,pointer .hash,0,hash.1,_,hbody,rfl,rfl,List.not_mem_nil,
    unmarshal_ptr_ok_iff.mpr ⟨_,?_,rfl⟩,rfl⟩
  rw [unmarshal_struct hfields,Reader.map_eq_ok]
  exact ⟨_,readEach_cons_eq_ok.mpr ⟨_,[],_,
    unmarshal_byteArray_ok_iff.mpr ⟨_,(List.append_nil _).symm,hash.2,rfl⟩,
    readEach_nil_eq_ok.mpr ⟨rfl,rfl⟩,rfl⟩,rfl⟩

theorem newHash_ok (hash : ID) :
    newHash hash = .ok ⟨hash,beBytes 2 defaultVersion ++ Hash.body hash⟩ := by
  have hdrop : (beBytes 2 defaultVersion ++ Hash.body hash).drop 2 = Hash.body hash :=
    List.drop_left' (beBytes_length 2 defaultVersion)
  have hv := unmarshal_hash (b := beBytes 2 defaultVersion ++ Hash.body hash)
    (by rw [List.length_append,beBytes_length]; omega) hdrop
  have hm := Manager.marshal_of_unmarshal hv
  rw [hdrop] at hm
  rw [newHash,hm]
  rfl

theorem parsePayload_hash {b : Bytes} {hash : ID} (hlen : 2 ≤ b.length)
    (hbody : b.drop 2 = Hash.body hash) : parsePayload b = .ok (.hash ⟨hash,b⟩) := by
  rw [parsePayload,unmarshal_hash hlen hbody]
  change Except.ok (Payload.hash ⟨ID.ofBytes hash.1,b⟩) = _
  rw [ID.ofBytes_val]

/-! ## Validator uptimes -/

structure ValidatorUptime where
  validationID : ID
  totalUptime : UInt64
  bytes : Bytes
  deriving DecidableEq

def ValidatorUptime.value (validationID : ID) (totalUptime : UInt64) : Val TypeName :=
  .iface (pointer .validatorUptime) (.ptr (.struct [.bytes validationID.1,.num totalUptime.toNat]))

section
variable (registry : Registry TypeName)

/-- `messages.Parse`. No other type implements the interface, so the type assertion of
`ParseValidatorUptime` always holds and both functions are one. -/
def parseValidatorUptime (b : Bytes) : Except CodecError ValidatorUptime := do
  match ← (messagesCodec registry).unmarshal depth (.interface .messagesPayload) b with
  | .iface _ (.ptr (.struct [.bytes validationID,.num totalUptime])) =>
    .ok ⟨ID.ofBytes validationID,UInt64.ofNat totalUptime,b⟩
  | _ => .error .unsupportedType

def newValidatorUptime (validationID : ID) (totalUptime : UInt64) :
    Except MessageError ValidatorUptime := do
  let bytes ← ((messagesCodec registry).marshal depth (.interface .messagesPayload)
    (ValidatorUptime.value validationID totalUptime)).mapError
      (.marshalPayload "*messages.ValidatorUptime")
  .ok ⟨validationID,totalUptime,bytes⟩

end

def ValidatorUptime.body (typeID : UInt32) (validationID : ID) (totalUptime : UInt64) : Bytes :=
  beBytes 4 typeID.toNat ++ (validationID.1 ++ beBytes 8 totalUptime.toNat)

/-- The ID under which the uptime type is registered. -/
def uptimeTypeID (registry : Registry TypeName) : Option UInt32 :=
  registry.registeredTypes.getKey (pointer .validatorUptime)

section
variable {registry : Registry TypeName} {b : Bytes} {p : ValidatorUptime}

theorem unmarshal_validatorUptime_iff {v : Val TypeName} :
    (messagesCodec registry).unmarshal depth (.interface .messagesPayload) b = .ok v ↔
      ∃ typeID validationID totalUptime, uptimeTypeID registry = some typeID ∧
        v = ValidatorUptime.value validationID totalUptime ∧ 2 ≤ b.length ∧
        b.drop 2 = ValidatorUptime.body typeID validationID totalUptime := by
  have hfields : getSerializedFields ((messagesCodec registry).env.fields .validatorUptime) =
      .ok [idType,.uint .long] := rfl
  rw [Manager.unmarshal_ok_iff,depth,unmarshal_interface_ok_iff]
  constructor
  · rintro ⟨_,hlen,type,typeID,mid,v',hp,hkey,himp,_,h,rfl⟩
    have htype : type = pointer .validatorUptime := by
      have hmem := of_decide_eq_true himp
      simpa using hmem
    subst htype
    obtain ⟨v₀,h₀,rfl⟩ := unmarshal_ptr_ok_iff.mp h
    rw [unmarshal_struct hfields,Reader.map_eq_ok] at h₀
    obtain ⟨vs,hvs,rfl⟩ := h₀
    obtain ⟨v₁,p₁,vs₁,h₁,hvs₁,rfl⟩ := readEach_cons_eq_ok.mp hvs
    obtain ⟨v₂,p₂,vs₂,h₂,hvs₂,rfl⟩ := readEach_cons_eq_ok.mp hvs₁
    obtain ⟨rfl,rfl⟩ := readEach_nil_eq_ok.mp hvs₂
    obtain ⟨id,rfl,hid,rfl⟩ := unmarshal_byteArray_ok_iff.mp h₁
    obtain ⟨n,rfl,hn,rfl⟩ := unmarshal_uint_ok_iff.mp h₂
    have hnat : (UInt64.ofNat n).toNat = n := UInt64.toNat_ofNat_of_lt' hn
    refine ⟨typeID,⟨id,hid⟩,UInt64.ofNat n,hkey,?_,hlen,?_⟩
    · rw [ValidatorUptime.value,hnat]
    · rw [hp,ValidatorUptime.body,hnat,List.append_nil]
      rfl
  · rintro ⟨typeID,validationID,totalUptime,hkey,rfl,hlen,hbody⟩
    have hsize : b.length ≤ (messagesCodec registry).maxSize := by
      have hdrop := congrArg List.length hbody
      simp only [List.length_drop,ValidatorUptime.body,List.length_append,beBytes_length,
        validationID.2] at hdrop
      change _ ≤ 24 * 1024
      unfold idLen at hdrop
      omega
    refine ⟨hsize,hlen,pointer .validatorUptime,typeID,_,_,hbody,hkey,rfl,List.not_mem_nil,
      unmarshal_ptr_ok_iff.mpr ⟨_,?_,rfl⟩,rfl⟩
    rw [unmarshal_struct hfields,Reader.map_eq_ok]
    refine ⟨_,readEach_cons_eq_ok.mpr ⟨_,_,_,
      unmarshal_byteArray_ok_iff.mpr ⟨_,rfl,validationID.2,rfl⟩,?_,rfl⟩,rfl⟩
    exact readEach_cons_eq_ok.mpr ⟨_,[],_,
      unmarshal_uint_ok_iff.mpr ⟨_,(List.append_nil _).symm,totalUptime.toNat_lt,rfl⟩,
      readEach_nil_eq_ok.mpr ⟨rfl,rfl⟩,rfl⟩

theorem parseValidatorUptime_ok_iff : parseValidatorUptime registry b = .ok p ↔
    2 ≤ b.length ∧ p.bytes = b ∧ ∃ typeID, uptimeTypeID registry = some typeID ∧
      b.drop 2 = ValidatorUptime.body typeID p.validationID p.totalUptime := by
  constructor
  · intro h
    obtain ⟨v,hv,h⟩ := bind_eq_ok h
    obtain ⟨typeID,validationID,totalUptime,hkey,rfl,hlen,hbody⟩ :=
      unmarshal_validatorUptime_iff.mp hv
    have hp : (⟨ID.ofBytes validationID.1,UInt64.ofNat totalUptime.toNat,b⟩ : ValidatorUptime) = p :=
      Except.ok.inj h
    rw [UInt64.ofNat_toNat,ID.ofBytes_val] at hp
    subst hp
    exact ⟨hlen,rfl,typeID,hkey,hbody⟩
  · rintro ⟨hlen,rfl,typeID,hkey,hbody⟩
    have hv := unmarshal_validatorUptime_iff.mpr ⟨typeID,_,_,hkey,rfl,hlen,hbody⟩
    rw [parseValidatorUptime,hv]
    change Except.ok (⟨ID.ofBytes p.validationID.1,UInt64.ofNat p.totalUptime.toNat,p.bytes⟩ :
      ValidatorUptime) = _
    rw [UInt64.ofNat_toNat,ID.ofBytes_val]

theorem newValidatorUptime_of_registered {typeID : UInt32} (h : uptimeTypeID registry = some typeID)
    (validationID : ID) (totalUptime : UInt64) :
    newValidatorUptime registry validationID totalUptime = .ok ⟨validationID,totalUptime,
      beBytes 2 defaultVersion ++ ValidatorUptime.body typeID validationID totalUptime⟩ := by
  have hdrop : (beBytes 2 defaultVersion ++
      ValidatorUptime.body typeID validationID totalUptime).drop 2 =
      ValidatorUptime.body typeID validationID totalUptime :=
    List.drop_left' (beBytes_length 2 defaultVersion)
  have hv := unmarshal_validatorUptime_iff.mpr ⟨typeID,validationID,totalUptime,h,rfl,
    by rw [List.length_append,beBytes_length]; omega,hdrop⟩
  have hm := Manager.marshal_of_unmarshal hv
  rw [hdrop] at hm
  rw [newValidatorUptime,hm]
  rfl

theorem newValidatorUptime_of_unregistered (h : uptimeTypeID registry = none) (validationID : ID)
    (totalUptime : UInt64) : newValidatorUptime registry validationID totalUptime =
      .error (.marshalPayload "*messages.ValidatorUptime" .unregisteredType) := by
  have hm : (messagesCodec registry).marshal depth (.interface .messagesPayload)
      (ValidatorUptime.value validationID totalUptime) = .error .unregisteredType := by
    have hversion : packUint maxMessageSize 2 defaultVersion [] =
        .ok ([] ++ beBytes 2 defaultVersion) := packUint_of_le (by decide)
    unfold Manager.marshal messagesCodec newManager
    rw [hversion]
    exact marshal_interface_unregistered h List.not_mem_nil
  rw [newValidatorUptime,hm]
  rfl

def RoundTrips (registry : Registry TypeName) (validationID : ID) (totalUptime : UInt64) : Prop :=
  ∃ p, newValidatorUptime registry validationID totalUptime = .ok p ∧
    p.validationID = validationID ∧ p.totalUptime = totalUptime ∧
    parseValidatorUptime registry p.bytes = .ok p

/-- The bytes are those of a payload that was created. -/
def Produced (registry : Registry TypeName) (b : Bytes) : Prop :=
  ∃ validationID totalUptime p,
    newValidatorUptime registry validationID totalUptime = .ok p ∧ p.bytes = b

theorem roundTrips_iff (registry : Registry TypeName) (validationID : ID) (totalUptime : UInt64) :
    RoundTrips registry validationID totalUptime ↔ uptimeTypeID registry ≠ none := by
  cases hkey : uptimeTypeID registry with
  | none =>
    refine ⟨?_,fun h => absurd rfl h⟩
    rintro ⟨p,hp,_⟩
    rw [newValidatorUptime_of_unregistered hkey] at hp
    cases hp
  | some typeID =>
    refine ⟨fun _ => Option.some_ne_none _,fun _ => ?_⟩
    refine ⟨_,newValidatorUptime_of_registered hkey validationID totalUptime,rfl,rfl,
      parseValidatorUptime_ok_iff.mpr ⟨?_,rfl,typeID,hkey,List.drop_left' (beBytes_length 2 _)⟩⟩
    rw [List.length_append,beBytes_length]
    omega

theorem produced_iff (h : parseValidatorUptime registry b = .ok p) :
    Produced registry b ↔ b.take 2 = beBytes 2 defaultVersion := by
  obtain ⟨hlen,_,typeID,hkey,hbody⟩ := parseValidatorUptime_ok_iff.mp h
  constructor
  · rintro ⟨validationID,totalUptime,p',hnew,rfl⟩
    rw [newValidatorUptime_of_registered hkey] at hnew
    cases hnew
    exact List.take_left' (beBytes_length 2 _)
  · intro hversion
    refine ⟨p.validationID,p.totalUptime,_,newValidatorUptime_of_registered hkey _ _,?_⟩
    rw [← hbody,← hversion]
    exact List.take_append_drop 2 b

/-- The payload round trips exactly if its type is registered, and a byte string that is
accepted was produced exactly if it has the default version. -/
theorem validatorUptime_bijective_iff (registry : Registry TypeName) :
    (∀ validationID totalUptime,
      RoundTrips registry validationID totalUptime ↔ uptimeTypeID registry ≠ none) ∧
    ∀ b, (∃ p, parseValidatorUptime registry b = .ok p) →
      (Produced registry b ↔ b.take 2 = beBytes 2 defaultVersion) :=
  ⟨roundTrips_iff registry,fun _ ⟨_,h⟩ => produced_iff h⟩

/-- The messages package registers nothing. -/
theorem Sample.validatorUptime_unregistered :
    newValidatorUptime messagesRegistry zeroID 0 =
      .error (.marshalPayload "*messages.ValidatorUptime" .unregisteredType) ∧
    ¬RoundTrips messagesRegistry zeroID 0 := by
  have hnone : uptimeTypeID messagesRegistry = none := rfl
  exact ⟨newValidatorUptime_of_unregistered hnone _ _,fun h => (roundTrips_iff _ _ _).mp h hnone⟩

end
end Landslide.Warp
