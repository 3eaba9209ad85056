import Landslide.Comet.Types
import Landslide.Lib.BigEndian
import Landslide.Lib.BiMap
import Landslide.Lib.Reader

/-! # Packers, types and values of the codec

The codec walks over Go types by reflection. The types it knows are a data type here; a
struct or an interface is a name, which a type environment explains, so that types may
refer to themselves. A packer that reads is the input that is left, a packer that writes
is the output so far.
-/
namespace Landslide.Codec

inductive CodecError where
  | insufficientLength
  | negativeOffset
  | badBool
  | invalidInput
  | unmarshal (kind : String) (e : CodecError)
  | maxSliceLenExceeded (what : String) (len : ℕ)
  | marshalZeroLength (what : String)
  | unmarshalZeroLength (what : String)
  | keysNotSorted
  | unknownTypeID (typeID : ℕ)
  | doesNotImplement
  | unregisteredType
  | duplicateType
  | recursiveInterfaceTypes
  | unexportedField (name : String)
  | unsupportedType
  | unknownKind (kind : String)
  | marshalNil
  | unmarshalTooBig (len maxSize : ℕ)
  | cantPackVersion
  | cantUnpackVersion
  | extraSpace (read provided : ℕ)
  /-- The recursion went deeper than the model follows it. -/
  | outOfFuel
  deriving DecidableEq

/-- A verb stands where the source prints a Go type or value. -/
def CodecError.text : CodecError → String
  | insufficientLength => "packer has insufficient length for input"
  | negativeOffset => "negative offset"
  | badBool => "unexpected value when unpacking bool"
  | invalidInput => "input does not match expected format"
  | unmarshal kind e => "couldn't unmarshal " ++ kind ++ ": " ++ e.text
  | maxSliceLenExceeded what len => "max slice length exceeded; " ++ what ++ " length, " ++
      toString len ++ ", exceeds maximum length, 2147483647"
  | marshalZeroLength what =>
    "couldn't marshal " ++ what ++ ": can't marshal zero length value"
  | unmarshalZeroLength what =>
    "couldn't unmarshal " ++ what ++ ": can't unmarshal zero length value"
  | keysNotSorted => "keys aren't sorted: (%s, %s)"
  | unknownTypeID typeID => "couldn't unmarshal interface: unknown type ID " ++ toString typeID
  | doesNotImplement => "couldn't unmarshal interface: %s does not implement interface %s"
  | unregisteredType => "can't marshal unregistered type %q"
  | duplicateType => "duplicate type registration: %v"
  | recursiveInterfaceTypes => "recursive interface types: %s"
  | unexportedField name => "can not marshal unexported field: " ++ name
  | unsupportedType => "unsupported type: %s"
  | unknownKind kind => "can't unmarshal unknown type " ++ kind
  | marshalNil => "can't marshal nil pointer or interface"
  | unmarshalTooBig len maxSize =>
    "byte array exceeds maximum length: " ++ toString len ++ " > " ++ toString maxSize
  | cantPackVersion => "couldn't pack codec version"
  | cantUnpackVersion => "couldn't unpack codec version"
  | extraSpace read provided =>
    "trailing buffer space: read " ++ toString read ++ " provided " ++ toString provided
  | outOfFuel => "stack overflow"

/-! ## Packers -/

abbrev Unpack (α : Type) := Reader UInt8 CodecError α
abbrev Pack (α : Type) := Writer UInt8 CodecError α

def maxStringLen : ℕ := 65535
def maxInt32 : ℕ := 2 ^ 31 - 1

/-- `PackFixedBytes`, and the part of every other `Pack` that makes room. -/
def packFixedBytes (maxSize : ℕ) : Pack Bytes := fun bytes out =>
  if out.length + bytes.length > maxSize then .error .insufficientLength else .ok (out ++ bytes)

def unpackFixedBytes (size : ℕ) : Unpack Bytes := fun p =>
  if p.length < size then .error .insufficientLength else .ok (p.take size,p.drop size)

/-- `PackByte`, `PackShort`, `PackInt` and `PackLong` by their length. -/
def packUint (maxSize len : ℕ) : Pack ℕ := fun n => packFixedBytes maxSize (beBytes len n)

def unpackUint (len : ℕ) : Unpack ℕ := (unpackFixedBytes len).map beNat

def packBool (maxSize : ℕ) : Pack Bool := fun b => packUint maxSize 1 (if b then 1 else 0)

def unpackBool : Unpack Bool := (unpackUint 1).bind fun b p =>
  if b = 0 then .ok (false,p) else if b = 1 then .ok (true,p) else .error .badBool

def packStr (maxSize : ℕ) : Pack Bytes := fun str out =>
  if str.length > maxStringLen then .error .invalidInput
  else do
    let out ← packUint maxSize 2 str.length out
    packFixedBytes maxSize str out

def unpackStr : Unpack Bytes := (unpackUint 2).bind unpackFixedBytes

theorem packFixedBytes_of_le {maxSize : ℕ} {bytes out : Bytes}
    (h : out.length + bytes.length ≤ maxSize) :
    packFixedBytes maxSize bytes out = .ok (out ++ bytes) := if_neg (not_lt.mpr h)

theorem unpackFixedBytes_ok {size : ℕ} {p bytes rest : Bytes}
    (h : unpackFixedBytes size p = .ok (bytes,rest)) : p = bytes ++ rest ∧ bytes.length = size := by
  unfold unpackFixedBytes at h
  split at h
  · cases h
  · next hlen =>
    cases h
    exact ⟨(List.take_append_drop size p).symm,List.length_take_of_le (not_lt.mp hlen)⟩

@[simp] theorem unpackFixedBytes_append (bytes rest : Bytes) :
    unpackFixedBytes bytes.length (bytes ++ rest) = .ok (bytes,rest) := by
  have hlen : ¬(bytes ++ rest).length < bytes.length := by
    rw [List.length_append]
    omega
  simp [unpackFixedBytes]

theorem unpackUint_ok {len n : ℕ} {p rest : Bytes} (h : unpackUint len p = .ok (n,rest)) :
    p = beBytes len n ++ rest ∧ n < 256 ^ len := by
  obtain ⟨bytes,hb,rfl⟩ := Reader.map_eq_ok.mp h
  obtain ⟨hp,rfl⟩ := unpackFixedBytes_ok hb
  exact ⟨by rw [beBytes_beNat,hp],beNat_lt bytes⟩

theorem unpackUint_append {len n : ℕ} (h : n < 256 ^ len) (rest : Bytes) :
    unpackUint len (beBytes len n ++ rest) = .ok (n,rest) := by
  have hbytes := unpackFixedBytes_append (beBytes len n) rest
  rw [beBytes_length] at hbytes
  exact Reader.map_eq_ok.mpr ⟨_,hbytes,beNat_beBytes h⟩

theorem unpackFixedBytes_ok_iff {size : ℕ} {p bytes rest : Bytes} :
    unpackFixedBytes size p = .ok (bytes,rest) ↔ p = bytes ++ rest ∧ bytes.length = size := by
  refine ⟨unpackFixedBytes_ok,?_⟩
  rintro ⟨rfl,rfl⟩
  exact unpackFixedBytes_append bytes rest

theorem unpackUint_ok_iff {len n : ℕ} {p rest : Bytes} :
    unpackUint len p = .ok (n,rest) ↔ p = beBytes len n ++ rest ∧ n < 256 ^ len := by
  refine ⟨unpackUint_ok,?_⟩
  rintro ⟨rfl,h⟩
  exact unpackUint_append h rest

theorem packUint_of_le {maxSize len n : ℕ} {out : Bytes} (h : out.length + len ≤ maxSize) :
    packUint maxSize len n out = .ok (out ++ beBytes len n) :=
  packFixedBytes_of_le (by rwa [beBytes_length])

theorem undoes_unpackFixedBytes (maxSize size : ℕ) :
    Undoes maxSize (packFixedBytes maxSize) (unpackFixedBytes size) := by
  intro p bytes rest h
  exact ⟨bytes,(unpackFixedBytes_ok h).1,fun out => packFixedBytes_of_le⟩

theorem undoes_unpackUint (maxSize len : ℕ) :
    Undoes maxSize (packUint maxSize len) (unpackUint len) := by
  intro p n rest h
  refine ⟨beBytes len n,(unpackUint_ok h).1,fun out hlen => packUint_of_le ?_⟩
  rwa [beBytes_length] at hlen

theorem undoes_unpackBool (maxSize : ℕ) : Undoes maxSize (packBool maxSize) unpackBool := by
  intro p b rest h
  obtain ⟨n,mid,hn,h⟩ := Reader.bind_eq_ok.mp h
  obtain ⟨taken,hp,hw⟩ := undoes_unpackUint maxSize 1 _ _ _ hn
  split at h
  · next hzero =>
    cases h
    subst hzero
    exact ⟨taken,hp,hw⟩
  · split at h
    · next hone =>
      cases h
      subst hone
      exact ⟨taken,hp,hw⟩
    · cases h

theorem undoes_unpackStr (maxSize : ℕ) : Undoes maxSize (packStr maxSize) unpackStr := by
  refine (undoes_unpackUint maxSize 2).bind (undoes_unpackFixedBytes maxSize) ?_
  intro p n mid str rest hn hstr out
  obtain ⟨_,hsmall⟩ := unpackUint_ok hn
  obtain ⟨_,rfl⟩ := unpackFixedBytes_ok hstr
  have hmax : ¬str.length > maxStringLen := by
    unfold maxStringLen
    omega
  rw [packStr,if_neg hmax]

/-! ## Types and values -/

inductive Width where
  | byte
  | short
  | int
  | long
  deriving DecidableEq

def Width.len : Width → ℕ
  | byte => 1
  | short => 2
  | int => 4
  | long => 8

def Width.name : Width → String
  | byte => "int8"
  | short => "int16"
  | int => "int32"
  | long => "int64"

/-- Go types, with structs and interfaces by name. -/
inductive GoType (N : Type) where
  | uint (w : Width)
  | int (w : Width)
  | bool
  | string
  | slice (elem : GoType N)
  | array (len : ℕ) (elem : GoType N)
  | map (key elem : GoType N)
  | ptr (elem : GoType N)
  | struct (name : N)
  | interface (name : N)
  | other (kind : String)
  deriving DecidableEq

structure StructField (N : Type) where
  name : String
  type : GoType N
  /-- The field has the tag `serialize:"true"`. -/
  serialize : Bool
  exported : Bool

structure TypeEnv (N : Type) where
  fields : N → List (StructField N)
  implements : GoType N → N → Bool

/-- Values, as far as the codec reads them: a struct is the list of its serialized
fields, a byte slice or byte array is a byte string. -/
inductive Val (N : Type) where
  | num (n : ℕ)
  | int (z : ℤ)
  | bool (b : Bool)
  | string (str : Bytes)
  | bytes (bytes : Bytes)
  | list (vs : List (Val N))
  | map (entries : List (Val N × Val N))
  | struct (vs : List (Val N))
  | ptr (v : Val N)
  | iface (type : GoType N) (v : Val N)
  /-- A nil pointer or interface. -/
  | nil

variable {N : Type}

/-- Equal up to the order in which maps list their entries. -/
inductive Val.Same : Val N → Val N → Prop
  | num (n : ℕ) : Same (.num n) (.num n)
  | int (z : ℤ) : Same (.int z) (.int z)
  | bool (b : Bool) : Same (.bool b) (.bool b)
  | string (str : Bytes) : Same (.string str) (.string str)
  | bytes (bytes : Bytes) : Same (.bytes bytes) (.bytes bytes)
  | list {vs vs' : List (Val N)} (h : List.Forall₂ Same vs vs') : Same (.list vs) (.list vs')
  | map {entries entries' ordered : List (Val N × Val N)} (hperm : entries.Perm ordered)
      (hkeys : List.Forall₂ Same (ordered.map Prod.fst) (entries'.map Prod.fst))
      (hvalues : List.Forall₂ Same (ordered.map Prod.snd) (entries'.map Prod.snd)) :
      Same (.map entries) (.map entries')
  | struct {vs vs' : List (Val N)} (h : List.Forall₂ Same vs vs') : Same (.struct vs) (.struct vs')
  | ptr {v v' : Val N} (h : Same v v') : Same (.ptr v) (.ptr v')
  | iface (type : GoType N) {v v' : Val N} (h : Same v v') : Same (.iface type v) (.iface type v')
  | nil : Same .nil .nil

theorem Val.Same.int_inj {z z' : ℤ} (h : Same (.int z : Val N) (.int z')) : z = z' := by
  cases h
  rfl

/-- `GetSerializedFields`, with the types of the fields in the place of their indices. -/
def getSerializedFields : List (StructField N) → Except CodecError (List (GoType N))
  | [] => .ok []
  | field :: fields =>
    if field.serialize then
      if field.exported then do
        let types ← getSerializedFields fields
        .ok (field.type :: types)
      else .error (.unexportedField field.name)
    else getSerializedFields fields

/-! ## Registered types -/

/-- The types that a `linearCodec` knows, with their IDs. -/
structure Registry (N : Type) where
  nextTypeID : UInt32
  registeredTypes : BiMap UInt32 (GoType N)

namespace Registry
variable [DecidableEq N]

def new : Registry N := ⟨0,.empty⟩

def registerType (r : Registry N) (valType : GoType N) : Except CodecError (Registry N) :=
  if (r.registeredTypes.getKey valType).isSome then .error .duplicateType
  else .ok ⟨r.nextTypeID + 1,r.registeredTypes.put r.nextTypeID valType⟩

def packPrefix (r : Registry N) (maxSize : ℕ) : Pack (GoType N) := fun valueType out =>
  match r.registeredTypes.getKey valueType with
  | none => .error .unregisteredType
  | some typeID => packUint maxSize 4 typeID.toNat out

def unpackPrefix (r : Registry N) (env : TypeEnv N) (valueType : N) : Unpack (GoType N) :=
  ((unpackUint 4).mapError (.unmarshal "interface")).bind fun typeID p =>
    match r.registeredTypes.getValue (UInt32.ofNat typeID) with
    | none => .error (.unknownTypeID typeID)
    | some implementingType =>
      if env.implements implementingType valueType then .ok (implementingType,p)
      else .error .doesNotImplement

theorem unpackPrefix_ok_iff {r : Registry N} {env : TypeEnv N} {valueType : N} {p rest : Bytes}
    {type : GoType N} : r.unpackPrefix env valueType p = .ok (type,rest) ↔
    ∃ typeID, unpackUint 4 p = .ok (typeID.toNat,rest) ∧
      r.registeredTypes.getKey type = some typeID ∧ env.implements type valueType := by
  unfold unpackPrefix
  rw [Reader.bind_eq_ok]
  simp only [Reader.mapError_eq_ok]
  constructor
  · rintro ⟨n,mid,hn,h⟩
    have hnat : (UInt32.ofNat n).toNat = n := UInt32.toNat_ofNat_of_lt' (unpackUint_ok hn).2
    split at h
    · cases h
    · next implementingType hvalue =>
      split at h
      · next himp =>
        cases h
        exact ⟨UInt32.ofNat n,by rwa [hnat],BiMap.getValue_eq_some_iff_getKey.mp hvalue,himp⟩
      · cases h
  · rintro ⟨typeID,hid,hkey,himp⟩
    have hvalue := BiMap.getValue_eq_some_iff_getKey.mpr hkey
    refine ⟨typeID.toNat,rest,hid,?_⟩
    rw [UInt32.ofNat_toNat,hvalue]
    exact if_pos himp

theorem undoes_unpackPrefix (r : Registry N) (env : TypeEnv N) (maxSize : ℕ) (valueType : N) :
    Undoes maxSize (r.packPrefix maxSize) (r.unpackPrefix env valueType) := by
  intro p type rest h
  obtain ⟨typeID,hid,hkey,_⟩ := unpackPrefix_ok_iff.mp h
  obtain ⟨taken,hp,hw⟩ := undoes_unpackUint maxSize 4 _ _ _ hid
  refine ⟨taken,hp,fun out hlen => ?_⟩
  rw [packPrefix,hkey]
  exact hw out hlen

end Registry
end Landslide.Codec
