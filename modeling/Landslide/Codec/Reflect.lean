import Landslide.Codec.Types

/-! # The reflection codec

`marshal` and `unmarshal` of the codec, as functions of a type. Types may be recursive
through pointers and slices, so both follow them to a depth that is given. The type stack
holds the types behind the interfaces that are open. A Go map has no order: what order
`MapKeys` gives is a parameter, and what is written does not depend on it.
-/
namespace Landslide.Codec
variable {N : Type} [DecidableEq N]

/-- The order in which the entries of a map are visited. -/
structure MapOrder (N : Type) where
  order : List (Val N × Val N) → List (Val N × Val N)
  perm : ∀ entries, (order entries).Perm entries

/-! ## Slices -/

def packSlice {α : Type} (maxSize : ℕ) (packElems : Pack (List α)) : Pack (List α) :=
  fun elems out =>
    if elems.length > maxInt32 then .error (.maxSliceLenExceeded "slice" elems.length)
    else do
      let out ← packUint maxSize 4 elems.length out
      packElems elems out

def unpackSlice {α : Type} (unpackElems : ℕ → Unpack (List α)) : Unpack (List α) :=
  ((unpackUint 4).mapError (.unmarshal "slice")).bind fun numElts =>
    if numElts > maxInt32 then .fail (.maxSliceLenExceeded "array" numElts)
    else unpackElems numElts

/-! ## Maps -/

def packKeys (packKey : Pack (Val N)) :
    List (Val N × Val N) → Bytes → Except CodecError (List (Bytes × Val N))
  | [], _ => .ok []
  | (key,v) :: entries, out => do
    let out' ← packKey key out
    let sortedKeys ← packKeys packKey entries out'
    .ok ((out'.drop out.length,v) :: sortedKeys)

/-- The pass over the sorted keys. -/
def packEntries (maxSize : ℕ) (packValue : Pack (Val N)) : Pack (List (Bytes × Val N)) :=
  writeAll (writeSome (.marshalZeroLength "map with zero length entries") fun entry out => do
    let out ← packFixedBytes maxSize entry.1 out
    packValue entry.2 out)

def packMap (maxSize : ℕ) (o : MapOrder N) (packKey packValue : Pack (Val N)) :
    Pack (List (Val N × Val N)) := fun entries out =>
  if entries.length > maxInt32 then .error (.maxSliceLenExceeded "slice" entries.length)
  else do
    let out ← packUint maxSize 4 entries.length out
    let keys ← packKeys packKey (o.order entries) out
    packEntries maxSize packValue (keys.mergeSort fun a b => ¬b.1 < a.1) out

def unpackEntries (unpackKey unpackValue : Unpack (Val N)) :
    ℕ → Option Bytes → Unpack (List (Val N × Val N))
  | 0, _, p => .ok ([],p)
  | n + 1, prevKey, p => do
    let (key,mid) ← unpackKey p
    let keyBytes := p.take (p.length - mid.length)
    if prevKey.any fun prev => ¬prev < keyBytes then .error .keysNotSorted
    else do
      let (v,rest) ← unpackValue mid
      if rest.length = p.length then
        .error (.unmarshalZeroLength "map with zero length entries")
      else do
        let (entries,rest) ← unpackEntries unpackKey unpackValue n (some keyBytes) rest
        .ok ((key,v) :: entries,rest)

def unpackMap (unpackKey unpackValue : Unpack (Val N)) : Unpack (List (Val N × Val N)) :=
  ((unpackUint 4).mapError (.unmarshal "map")).bind fun numElts =>
    if numElts > maxInt32 then .fail (.maxSliceLenExceeded "map" numElts)
    else unpackEntries unpackKey unpackValue numElts none

/-! ## The codec -/

def unmarshal (env : TypeEnv N) (r : Registry N) : ℕ → GoType N → List (GoType N) → Unpack (Val N)
  | 0, _, _ => .fail .outOfFuel
  | fuel + 1, type, typeStack => match type with
    | .uint w => ((unpackUint w.len).mapError (.unmarshal ("u" ++ w.name))).map .num
    | .int w => ((unpackUint w.len).mapError (.unmarshal w.name)).map (.int ∘ toSigned w.len)
    | .bool => (unpackBool.mapError (.unmarshal "bool")).map .bool
    | .string => (unpackStr.mapError (.unmarshal "string")).map .string
    | .slice elem =>
      if elem = .uint .byte then (unpackSlice unpackFixedBytes).map .bytes
      else (unpackSlice (readN (readSome (.unmarshalZeroLength "slice of zero length values")
        (unmarshal env r fuel elem typeStack)))).map .list
    | .array len elem =>
      if elem = .uint .byte then (unpackFixedBytes len).map .bytes
      else (readN (unmarshal env r fuel elem typeStack) len).map .list
    | .interface name => (r.unpackPrefix env name).bind fun intfImplementor =>
      (if intfImplementor ∈ typeStack then .fail .recursiveInterfaceTypes
        else unmarshal env r fuel intfImplementor (intfImplementor :: typeStack)).map
          (.iface intfImplementor)
    | .struct name => match getSerializedFields (env.fields name) with
      | .error e => .fail (.unmarshal "struct" e)
      | .ok types => (readEach (fun type => unmarshal env r fuel type typeStack) types).map .struct
    | .ptr elem => (unmarshal env r fuel elem typeStack).map .ptr
    | .map key elem => (unpackMap (unmarshal env r fuel key typeStack)
        (unmarshal env r fuel elem typeStack)).map .map
    | .other kind => .fail (.unknownKind kind)

/-- A value that is not of the type is refused; the Go type system has no such value. -/
def marshal (env : TypeEnv N) (r : Registry N) (maxSize : ℕ) (o : MapOrder N) :
    ℕ → GoType N → List (GoType N) → Pack (Val N)
  | 0, _, _, _, _ => .error .outOfFuel
  | fuel + 1, type, typeStack, value, out => match type, value with
    | .uint w, .num n => packUint maxSize w.len n out
    | .int w, .int z => packUint maxSize w.len (ofSigned w.len z) out
    | .bool, .bool b => packBool maxSize b out
    | .string, .string str => packStr maxSize str out
    | .slice _, .bytes bytes => packSlice maxSize (packFixedBytes maxSize) bytes out
    | .slice elem, .list vs => packSlice maxSize
        (writeAll (writeSome (.marshalZeroLength "slice of zero length values")
          (marshal env r maxSize o fuel elem typeStack))) vs out
    -- the source asks for the kind of the array, not of its elements, and so packs the
    -- bytes one by one
    | .array _ _, .bytes bytes => writeAll (fun b => packUint maxSize 1 b.toNat) bytes out
    | .array _ elem, .list vs => writeAll (marshal env r maxSize o fuel elem typeStack) vs out
    | .interface _, .iface underlyingType v =>
      if underlyingType ∈ typeStack then .error .recursiveInterfaceTypes
      else do
        let out ← r.packPrefix maxSize underlyingType out
        marshal env r maxSize o fuel underlyingType (underlyingType :: typeStack) v out
    | .struct name, .struct vs => do
      let types ← getSerializedFields (env.fields name)
      writeEach (fun type => marshal env r maxSize o fuel type typeStack) .unsupportedType
        types vs out
    | .ptr elem, .ptr v => marshal env r maxSize o fuel elem typeStack v out
    | .map key elem, .map entries => packMap maxSize o
        (marshal env r maxSize o fuel key typeStack) (marshal env r maxSize o fuel elem typeStack)
        entries out
    | .ptr _, .nil => .error .marshalNil
    | .interface _, .nil => .error .marshalNil
    | _, _ => .error .unsupportedType

/-! ## Some types -/

section
variable {env : TypeEnv N} {r : Registry N} {fuel : ℕ} {typeStack : List (GoType N)}
variable {p rest : Bytes} {v : Val N}

theorem unpackSlice_bytes_ok_iff {bytes : Bytes} :
    unpackSlice unpackFixedBytes p = .ok (bytes,rest) ↔
      p = beBytes 4 bytes.length ++ bytes ++ rest ∧ bytes.length ≤ maxInt32 := by
  unfold unpackSlice
  rw [Reader.bind_eq_ok]
  constructor
  · rintro ⟨n,mid,hn,h⟩
    obtain ⟨rfl,_⟩ := unpackUint_ok (Reader.mapError_eq_ok.mp hn)
    split at h
    · cases h
    · next hmax =>
      obtain ⟨rfl,rfl⟩ := unpackFixedBytes_ok h
      exact ⟨(List.append_assoc ..).symm,not_lt.mp hmax⟩
  · rintro ⟨rfl,hmax⟩
    refine ⟨bytes.length,bytes ++ rest,?_,?_⟩
    · rw [Reader.mapError_eq_ok,List.append_assoc]
      exact unpackUint_append (lt_of_le_of_lt hmax (by decide)) _
    · rw [if_neg (not_lt.mpr hmax),unpackFixedBytes_append]

theorem unmarshal_uint_ok_iff {w : Width} :
    unmarshal env r (fuel + 1) (.uint w) typeStack p = .ok (v,rest) ↔
      ∃ n, p = beBytes w.len n ++ rest ∧ n < 256 ^ w.len ∧ .num n = v := by
  change Reader.map _ _ p = _ ↔ _
  rw [Reader.map_eq_ok]
  simp only [Reader.mapError_eq_ok,unpackUint_ok_iff,and_assoc]

theorem unmarshal_int_ok_iff {w : Width} :
    unmarshal env r (fuel + 1) (.int w) typeStack p = .ok (v,rest) ↔
      ∃ n, p = beBytes w.len n ++ rest ∧ n < 256 ^ w.len ∧ .int (toSigned w.len n) = v := by
  change Reader.map _ _ p = _ ↔ _
  rw [Reader.map_eq_ok]
  simp only [Reader.mapError_eq_ok,unpackUint_ok_iff,and_assoc,Function.comp_apply]

theorem unmarshal_bool_append (b : Bool) (rest : Bytes) :
    unmarshal env r (fuel + 1) .bool typeStack (beBytes 1 (if b then 1 else 0) ++ rest) =
      .ok (.bool b,rest) := by
  change Reader.map _ _ _ = _
  rw [Reader.map_eq_ok]
  refine ⟨b,?_,rfl⟩
  rw [Reader.mapError_eq_ok,unpackBool,Reader.bind_eq_ok]
  cases b with
  | false => exact ⟨0,rest,unpackUint_append (by decide) rest,rfl⟩
  | true => exact ⟨1,rest,unpackUint_append (by decide) rest,rfl⟩

theorem unmarshal_bytes_ok_iff :
    unmarshal env r (fuel + 1) (.slice (.uint .byte)) typeStack p = .ok (v,rest) ↔
      ∃ bytes, p = beBytes 4 bytes.length ++ bytes ++ rest ∧ bytes.length ≤ maxInt32 ∧
        .bytes bytes = v := by
  change Reader.map _ _ p = _ ↔ _
  rw [Reader.map_eq_ok]
  simp only [unpackSlice_bytes_ok_iff,and_assoc]

theorem unmarshal_byteArray_ok_iff {len : ℕ} :
    unmarshal env r (fuel + 1) (.array len (.uint .byte)) typeStack p = .ok (v,rest) ↔
      ∃ bytes, p = bytes ++ rest ∧ bytes.length = len ∧ .bytes bytes = v := by
  change Reader.map _ _ p = _ ↔ _
  rw [Reader.map_eq_ok]
  simp only [unpackFixedBytes_ok_iff,and_assoc]

theorem unmarshal_struct {name : N} {types : List (GoType N)}
    (h : getSerializedFields (env.fields name) = .ok types) :
    unmarshal env r (fuel + 1) (.struct name) typeStack =
      (readEach (fun type => unmarshal env r fuel type typeStack) types).map .struct := by
  rw [unmarshal,h]

theorem unmarshal_ptr_ok_iff {elem : GoType N} :
    unmarshal env r (fuel + 1) (.ptr elem) typeStack p = .ok (v,rest) ↔
      ∃ v', unmarshal env r fuel elem typeStack p = .ok (v',rest) ∧ .ptr v' = v := by
  change Reader.map _ _ p = _ ↔ _
  rw [Reader.map_eq_ok]

theorem unmarshal_interface_ok_iff {name : N} :
    unmarshal env r (fuel + 1) (.interface name) typeStack p = .ok (v,rest) ↔
      ∃ type typeID mid v', p = beBytes 4 typeID.toNat ++ mid ∧
        r.registeredTypes.getKey type = some typeID ∧ env.implements type name ∧
        type ∉ typeStack ∧
        unmarshal env r fuel type (type :: typeStack) mid = .ok (v',rest) ∧ .iface type v' = v := by
  rw [unmarshal,Reader.bind_eq_ok]
  simp only [Registry.unpackPrefix_ok_iff,Reader.map_eq_ok,unpackUint_ok_iff]
  constructor
  · rintro ⟨type,mid,⟨typeID,⟨hp,_⟩,hkey,himp⟩,v',h,hv⟩
    split at h
    · cases h
    · next hnew => exact ⟨type,typeID,mid,v',hp,hkey,himp,hnew,h,hv⟩
  · rintro ⟨type,typeID,mid,v',hp,hkey,himp,hnew,h,hv⟩
    exact ⟨type,mid,⟨typeID,⟨hp,typeID.toNat_lt⟩,hkey,himp⟩,v',by rwa [if_neg hnew],hv⟩

theorem marshal_interface_unregistered {maxSize : ℕ} {o : MapOrder N} {name : N} {type : GoType N}
    {out : Bytes} (h : r.registeredTypes.getKey type = none) (hnew : type ∉ typeStack) :
    marshal env r maxSize o (fuel + 1) (.interface name) typeStack (.iface type v) out =
      .error .unregisteredType := by
  rw [marshal,if_neg hnew,Registry.packPrefix,h]
  rfl

end
end Landslide.Codec
