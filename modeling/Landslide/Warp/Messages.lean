import Landslide.Codec.Manager

/-! # Warp messages

The messages of the warp packages and their codecs. Each package has a codec with types of
its own: the payload package knows hashes and addressed calls, the warp package knows
bit-set signatures, and the messages package knows no type at all.
-/
namespace Landslide.Warp
open Codec

/-- The named types that are marshalled. -/
inductive TypeName where
  | unsignedMessage
  | message
  | signature
  | bitSetSignature
  | payload
  | hash
  | addressedCall
  | messagesPayload
  | validatorUptime
  deriving DecidableEq

def idLen : ℕ := 32
def signatureLen : ℕ := 96

def bytesType : GoType TypeName := .slice (.uint .byte)
def idType : GoType TypeName := .array idLen (.uint .byte)
def pointer (name : TypeName) : GoType TypeName := .ptr (.struct name)

def serialized (name : String) (type : GoType TypeName) : StructField TypeName := ⟨name,type,true,true⟩
def internal (name : String) (type : GoType TypeName) : StructField TypeName := ⟨name,type,false,false⟩

def typeEnv : TypeEnv TypeName where
  fields
    | .unsignedMessage => [serialized "NetworkID" (.uint .int),serialized "SourceChainID" idType,
        serialized "Payload" bytesType,internal "bytes" bytesType,internal "id" idType]
    | .message => [serialized "UnsignedMessage" (.struct .unsignedMessage),
        serialized "Signature" (.interface .signature),internal "bytes" bytesType]
    | .bitSetSignature => [serialized "Signers" bytesType,
        serialized "Signature" (.array signatureLen (.uint .byte))]
    | .hash => [serialized "Hash" idType,internal "bytes" bytesType]
    | .addressedCall => [serialized "SourceAddress" bytesType,serialized "Payload" bytesType,
        internal "bytes" bytesType]
    | .validatorUptime => [serialized "ValidationID" idType,serialized "TotalUptime" (.uint .long),
        internal "bytes" bytesType]
    | .signature | .payload | .messagesPayload => []
  implements type name :=
    (type,name) ∈ [(pointer .bitSetSignature,.signature),(pointer .hash,.payload),
      (pointer .addressedCall,.payload),(pointer .validatorUptime,.messagesPayload)]

/-! ## Codecs -/

def registryOf (types : List (GoType TypeName)) : Registry TypeName :=
  (types.foldlM Registry.registerType .new).toOption.getD .new

/-- No type here has a map, so their order does not matter. -/
def newManager (maxSize : ℕ) (registry : Registry TypeName) : Manager TypeName :=
  ⟨typeEnv,registry,maxSize,⟨id,fun _ => .refl _⟩⟩

def maxInt : ℕ := 2 ^ 63 - 1
def maxMessageSize : ℕ := 24 * 1024

def warpCodec : Manager TypeName := newManager maxInt (registryOf [pointer .bitSetSignature])

def payloadCodec : Manager TypeName :=
  newManager maxMessageSize (registryOf [pointer .hash,pointer .addressedCall])

/-- The codec of the messages package with these types. -/
def messagesCodec (registry : Registry TypeName) : Manager TypeName :=
  newManager maxMessageSize registry

/-- What the messages package registers. -/
def messagesRegistry : Registry TypeName := registryOf []

/-- As deep as the types here go. -/
def depth : ℕ := 6

inductive MessageError where
  | codec (e : CodecError)
  | marshalUnsignedMessage (e : CodecError)
  | marshalPayload (type : String) (e : CodecError)
  | wrongType
  deriving DecidableEq

def MessageError.text : MessageError → String
  | codec e => e.text
  | marshalUnsignedMessage e => "couldn't marshal warp unsigned message: " ++ e.text
  | marshalPayload type e => "couldn't marshal " ++ type ++ " payload: " ++ e.text
  | wrongType => "wrong payload type: *payload.Hash"

/-! ## Byte arrays -/

abbrev ByteArrayOf (n : ℕ) := { bytes : Bytes // bytes.length = n }

/-- `copy` into the array. -/
def ByteArrayOf.copy {n : ℕ} (bytes : Bytes) : ByteArrayOf n :=
  ⟨(bytes ++ List.replicate n 0).take n,by simp⟩

theorem ByteArrayOf.copy_of_length {n : ℕ} {bytes : Bytes} (h : bytes.length = n) :
    ByteArrayOf.copy bytes = ⟨bytes,h⟩ :=
  Subtype.ext (List.take_left' h)

abbrev ID := ByteArrayOf idLen

def ID.ofBytes (bytes : Bytes) : ID := ByteArrayOf.copy bytes

@[simp] theorem ID.ofBytes_val (id : ID) : ID.ofBytes id.1 = id := ByteArrayOf.copy_of_length id.2

/-! ## Unsigned messages -/

structure UnsignedMessage where
  networkID : UInt32
  sourceChainID : ID
  payload : Bytes
  bytes : Bytes
  id : ID
  deriving DecidableEq

def UnsignedMessage.value (networkID : UInt32) (sourceChainID : ID) (payload : Bytes) :
    Val TypeName :=
  .struct [.num networkID.toNat,.bytes sourceChainID.1,.bytes payload]

section
variable (computeHash256 : Bytes → ID)

def parseUnsignedMessage (b : Bytes) : Except CodecError UnsignedMessage := do
  match ← warpCodec.unmarshal depth (.struct .unsignedMessage) b with
  | .struct [.num networkID,.bytes sourceChainID,.bytes payload] =>
    .ok ⟨UInt32.ofNat networkID,ID.ofBytes sourceChainID,payload,b,computeHash256 b⟩
  | _ => .error .unsupportedType

def newUnsignedMessage (networkID : UInt32) (sourceChainID : ID) (payload : Bytes) :
    Except MessageError UnsignedMessage := do
  let bytes ← (warpCodec.marshal depth (.struct .unsignedMessage)
    (UnsignedMessage.value networkID sourceChainID payload)).mapError .marshalUnsignedMessage
  .ok ⟨networkID,sourceChainID,payload,bytes,computeHash256 bytes⟩

end

/-- What stands behind the version. -/
def UnsignedMessage.body (networkID : UInt32) (sourceChainID : ID) (payload : Bytes) : Bytes :=
  beBytes 4 networkID.toNat ++ (sourceChainID.1 ++ (beBytes 4 payload.length ++ payload))

theorem unmarshal_unsignedMessage_iff {b : Bytes} {v : Val TypeName} :
    warpCodec.unmarshal depth (.struct .unsignedMessage) b = .ok v ↔
      ∃ networkID sourceChainID payload,
        v = UnsignedMessage.value networkID sourceChainID payload ∧ 2 ≤ b.length ∧
        b.drop 2 = UnsignedMessage.body networkID sourceChainID payload ∧
        payload.length ≤ maxInt32 := by
  have hfields : getSerializedFields (warpCodec.env.fields .unsignedMessage) =
      .ok [.uint .int,idType,bytesType] := rfl
  rw [Manager.unmarshal_ok_iff,depth,unmarshal_struct hfields,Reader.map_eq_ok]
  constructor
  · rintro ⟨_,hlen,vs,hvs,rfl⟩
    obtain ⟨v₁,p₁,vs₁,h₁,hvs₁,rfl⟩ := readEach_cons_eq_ok.mp hvs
    obtain ⟨v₂,p₂,vs₂,h₂,hvs₂,rfl⟩ := readEach_cons_eq_ok.mp hvs₁
    obtain ⟨v₃,p₃,vs₃,h₃,hvs₃,rfl⟩ := readEach_cons_eq_ok.mp hvs₂
    obtain ⟨rfl,rfl⟩ := readEach_nil_eq_ok.mp hvs₃
    obtain ⟨n,hp,hn,rfl⟩ := unmarshal_uint_ok_iff.mp h₁
    obtain ⟨id,rfl,hid,rfl⟩ := unmarshal_byteArray_ok_iff.mp h₂
    obtain ⟨payload,rfl,hpayload,rfl⟩ := unmarshal_bytes_ok_iff.mp h₃
    have hnat : (UInt32.ofNat n).toNat = n := UInt32.toNat_ofNat_of_lt' hn
    refine ⟨UInt32.ofNat n,⟨id,hid⟩,payload,?_,hlen,?_,hpayload⟩
    · rw [UnsignedMessage.value,hnat]
    · rw [hp,UnsignedMessage.body,hnat,List.append_nil]
      rfl
  · rintro ⟨networkID,sourceChainID,payload,rfl,hlen,hbody,hpayload⟩
    have hsize : b.length ≤ warpCodec.maxSize := by
      have hdrop := congrArg List.length hbody
      simp only [List.length_drop,UnsignedMessage.body,List.length_append,beBytes_length,
        sourceChainID.2] at hdrop
      change _ ≤ 2 ^ 63 - 1
      unfold maxInt32 at hpayload
      unfold idLen at hdrop
      omega
    refine ⟨hsize,hlen,_,?_,rfl⟩
    rw [hbody]
    refine readEach_cons_eq_ok.mpr ⟨_,_,_,
      unmarshal_uint_ok_iff.mpr ⟨_,rfl,networkID.toNat_lt,rfl⟩,?_,rfl⟩
    refine readEach_cons_eq_ok.mpr ⟨_,_,_,
      unmarshal_byteArray_ok_iff.mpr ⟨_,rfl,sourceChainID.2,rfl⟩,?_,rfl⟩
    exact readEach_cons_eq_ok.mpr ⟨_,[],_,
      unmarshal_bytes_ok_iff.mpr ⟨payload,(List.append_nil _).symm,hpayload,rfl⟩,
      readEach_nil_eq_ok.mpr ⟨rfl,rfl⟩,rfl⟩

section
variable {computeHash256 : Bytes → ID} {b : Bytes} {m : UnsignedMessage}

theorem parseUnsignedMessage_ok_iff : parseUnsignedMessage computeHash256 b = .ok m ↔
    2 ≤ b.length ∧ b.drop 2 = UnsignedMessage.body m.networkID m.sourceChainID m.payload ∧
      m.payload.length ≤ maxInt32 ∧ m.bytes = b ∧ m.id = computeHash256 b := by
  constructor
  · intro h
    obtain ⟨v,hv,h⟩ := bind_eq_ok h
    obtain ⟨networkID,sourceChainID,payload,rfl,hlen,hbody,hpayload⟩ :=
      unmarshal_unsignedMessage_iff.mp hv
    have hm : (⟨UInt32.ofNat networkID.toNat,ID.ofBytes sourceChainID.1,payload,b,
        computeHash256 b⟩ : UnsignedMessage) = m := Except.ok.inj h
    rw [UInt32.ofNat_toNat,ID.ofBytes_val] at hm
    subst hm
    exact ⟨hlen,hbody,hpayload,rfl,rfl⟩
  · rintro ⟨hlen,hbody,hpayload,rfl,hid⟩
    have hv := unmarshal_unsignedMessage_iff.mpr ⟨_,_,_,rfl,hlen,hbody,hpayload⟩
    rw [parseUnsignedMessage,hv]
    change Except.ok (⟨UInt32.ofNat m.networkID.toNat,ID.ofBytes m.sourceChainID.1,m.payload,m.bytes,
      computeHash256 m.bytes⟩ : UnsignedMessage) = _
    rw [UInt32.ofNat_toNat,ID.ofBytes_val,← hid]

theorem newUnsignedMessage_of_le {networkID : UInt32} {sourceChainID : ID} {payload : Bytes}
    (h : payload.length ≤ maxInt32) :
    newUnsignedMessage computeHash256 networkID sourceChainID payload =
      .ok ⟨networkID,sourceChainID,payload,
        beBytes 2 defaultVersion ++ UnsignedMessage.body networkID sourceChainID payload,
        computeHash256
          (beBytes 2 defaultVersion ++ UnsignedMessage.body networkID sourceChainID payload)⟩ := by
  have hdrop : (beBytes 2 defaultVersion ++
      UnsignedMessage.body networkID sourceChainID payload).drop 2 =
      UnsignedMessage.body networkID sourceChainID payload :=
    List.drop_left' (beBytes_length 2 defaultVersion)
  have hv := unmarshal_unsignedMessage_iff.mpr ⟨networkID,sourceChainID,payload,rfl,
    by rw [List.length_append,beBytes_length]; omega,hdrop,h⟩
  have hm := Manager.marshal_of_unmarshal hv
  rw [hdrop] at hm
  rw [newUnsignedMessage,hm]
  rfl

/-- The message is what its bytes say, as every message from `NewUnsignedMessage` and
`ParseUnsignedMessage` is. -/
def UnsignedMessage.Initialized (computeHash256 : Bytes → ID) (m : UnsignedMessage) : Prop :=
  parseUnsignedMessage computeHash256 m.bytes = .ok m

theorem UnsignedMessage.Initialized.id_eq (h : m.Initialized computeHash256) :
    m.id = computeHash256 m.bytes :=
  (parseUnsignedMessage_ok_iff.mp h).2.2.2.2

theorem initialized_of_parse (h : parseUnsignedMessage computeHash256 b = .ok m) :
    m.Initialized computeHash256 := by
  have hb := (parseUnsignedMessage_ok_iff.mp h).2.2.2.1
  rw [UnsignedMessage.Initialized,hb]
  exact h

end

/-! ## A message with two forms -/

namespace Sample

def zeroID : ID := ⟨List.replicate idLen 0,List.length_replicate⟩

/-- The empty message under a version. -/
def versioned (version : ℕ) : Bytes := beBytes 2 version ++ UnsignedMessage.body 0 zeroID []

theorem versioned_drop (version : ℕ) :
    (versioned version).drop 2 = UnsignedMessage.body 0 zeroID [] :=
  List.drop_left' (beBytes_length 2 version)

theorem versioned_length (version : ℕ) : 2 ≤ (versioned version).length := by
  rw [versioned,List.length_append,beBytes_length]
  omega

theorem unmarshals_versioned (version : ℕ) :
    warpCodec.Unmarshals (.struct .unsignedMessage) (versioned version)
      (UnsignedMessage.value 0 zeroID []) :=
  ⟨depth,unmarshal_unsignedMessage_iff.mpr ⟨0,zeroID,[],rfl,versioned_length version,
    versioned_drop version,Nat.zero_le _⟩⟩

theorem parse_versioned (computeHash256 : Bytes → ID) (version : ℕ) :
    parseUnsignedMessage computeHash256 (versioned version) =
      .ok ⟨0,zeroID,[],versioned version,computeHash256 (versioned version)⟩ :=
  parseUnsignedMessage_ok_iff.mpr ⟨versioned_length version,versioned_drop version,Nat.zero_le _,
    rfl,rfl⟩

/-- Two byte strings for one message; marshalling gives only one of them back, and their IDs
differ for every hash function that tells the strings apart. -/
theorem unsignedMessage_two_forms : versioned 0 ≠ versioned 1 ∧
    warpCodec.Unmarshals (.struct .unsignedMessage) (versioned 0)
      (UnsignedMessage.value 0 zeroID []) ∧
    warpCodec.Unmarshals (.struct .unsignedMessage) (versioned 1)
      (UnsignedMessage.value 0 zeroID []) ∧
    ¬warpCodec.Marshals (.struct .unsignedMessage) (UnsignedMessage.value 0 zeroID [])
      (versioned 1) ∧
    ∀ computeHash256 : Bytes → ID, computeHash256 (versioned 0) ≠ computeHash256 (versioned 1) →
      ∃ m m', parseUnsignedMessage computeHash256 (versioned 0) = .ok m ∧
        parseUnsignedMessage computeHash256 (versioned 1) = .ok m' ∧
        m.networkID = m'.networkID ∧ m.sourceChainID = m'.sourceChainID ∧
        m.payload = m'.payload ∧ m.id ≠ m'.id := by
  refine ⟨by decide,unmarshals_versioned 0,unmarshals_versioned 1,?_,?_⟩
  · rintro ⟨fuel,h⟩
    have htake := Manager.marshal_take h
    revert htake
    decide
  · intro computeHash256 hne
    exact ⟨_,_,parse_versioned computeHash256 0,parse_versioned computeHash256 1,rfl,rfl,rfl,hne⟩

theorem versioned_zero_canonical :
    (warpCodec.Marshals (.struct .unsignedMessage) (UnsignedMessage.value 0 zeroID [])
      (versioned 0) ↔ (versioned 0).take 2 = beBytes 2 defaultVersion) ∧
    ∀ bytes' value', warpCodec.Unmarshals (.struct .unsignedMessage) bytes' value' →
      (UnsignedMessage.value 0 zeroID []).Same value' →
      (bytes' = versioned 0 ↔ bytes'.take 2 = (versioned 0).take 2) :=
  Manager.unmarshals_canonical_iff warpCodec _ _ _ (unmarshals_versioned 0)

end Sample
end Landslide.Warp
