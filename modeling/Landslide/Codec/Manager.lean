import Landslide.Codec.Canonical

/-! # The codec manager

The manager puts a version in front of what the codec writes, and reads a version without
looking at it. Up to the version, a byte string that is accepted is the only one for its
value.
-/
namespace Landslide.Codec
variable {N : Type} [DecidableEq N]

def defaultVersion : ℕ := 0

structure Manager (N : Type) where
  env : TypeEnv N
  registry : Registry N
  maxSize : ℕ
  mapOrder : MapOrder N

namespace Manager

def marshal (m : Manager N) (fuel : ℕ) (type : GoType N) (value : Val N) :
    Except CodecError Bytes :=
  match packUint m.maxSize 2 defaultVersion [] with
  | .error _ => .error .cantPackVersion
  | .ok out => Codec.marshal m.env m.registry m.maxSize m.mapOrder fuel type [] value out

def unmarshal (m : Manager N) (fuel : ℕ) (type : GoType N) (bytes : Bytes) :
    Except CodecError (Val N) :=
  if bytes.length > m.maxSize then .error (.unmarshalTooBig bytes.length m.maxSize)
  else match unpackUint 2 bytes with
    | .error _ => .error .cantUnpackVersion
    | .ok (_,p) => do
      let (value,rest) ← Codec.unmarshal m.env m.registry fuel type [] p
      if rest = [] then .ok value
      else .error (.extraSpace (bytes.length - rest.length) bytes.length)

def Marshals (m : Manager N) (type : GoType N) (value : Val N) (bytes : Bytes) : Prop :=
  ∃ fuel, m.marshal fuel type value = .ok bytes

def Unmarshals (m : Manager N) (type : GoType N) (bytes : Bytes) (value : Val N) : Prop :=
  ∃ fuel, m.unmarshal fuel type bytes = .ok value

end Manager

/-! ## Depth -/

theorem unpackSlice_le {α : Type} {unpackElems unpackElems' : ℕ → Unpack (List α)}
    (h : ∀ n, Reader.LE (unpackElems n) (unpackElems' n)) :
    Reader.LE (unpackSlice unpackElems) (unpackSlice unpackElems') := by
  refine Reader.LE.bind fun n => ?_
  split
  · exact Reader.LE.refl _
  · exact h n

omit [DecidableEq N] in
theorem unpackEntries_le {unpackKey unpackKey' unpackValue unpackValue' : Unpack (Val N)}
    (hkey : Reader.LE unpackKey unpackKey') (hvalue : Reader.LE unpackValue unpackValue') (n : ℕ)
    (prevKey : Option Bytes) : Reader.LE (unpackEntries unpackKey unpackValue n prevKey)
      (unpackEntries unpackKey' unpackValue' n prevKey) := by
  induction n generalizing prevKey with
  | zero => exact Reader.LE.refl _
  | succ n ih =>
    rintro p ⟨entries,rest⟩ h
    obtain ⟨⟨key,mid⟩,hk,h⟩ := bind_eq_ok h
    rw [unpackEntries,hkey _ _ hk]
    change (if _ then _ else _) = _ at h
    change (if _ then _ else _) = _
    split at h
    · cases h
    · next hprev =>
      rw [if_neg hprev]
      obtain ⟨⟨v,rest₁⟩,hv,h⟩ := bind_eq_ok h
      rw [hvalue _ _ hv]
      change (if _ then _ else _) = _ at h
      change (if _ then _ else _) = _
      split at h
      · cases h
      · next hne =>
        rw [if_neg hne]
        obtain ⟨⟨entries',rest₂⟩,hrest,h⟩ := bind_eq_ok h
        rw [ih _ _ _ hrest]
        exact h

theorem unmarshal_le_succ (env : TypeEnv N) (r : Registry N) (fuel : ℕ) (type : GoType N)
    (typeStack : List (GoType N)) :
    Reader.LE (unmarshal env r fuel type typeStack) (unmarshal env r (fuel + 1) type typeStack) := by
  induction fuel generalizing type typeStack with
  | zero => exact fun _ _ h => nomatch h
  | succ fuel ih =>
    cases type with
    | slice elem =>
      rw [unmarshal,unmarshal]
      split
      · exact Reader.LE.refl _
      · exact (unpackSlice_le ((ih elem typeStack).readSome _).readN).map _
    | array len elem =>
      rw [unmarshal,unmarshal]
      split
      · exact Reader.LE.refl _
      · exact ((ih elem typeStack).readN len).map _
    | map key elem =>
      refine Reader.LE.map (Reader.LE.bind fun n => ?_) _
      split
      · exact Reader.LE.refl _
      · exact unpackEntries_le (ih key typeStack) (ih elem typeStack) n none
    | ptr elem => exact (ih elem typeStack).map _
    | struct name =>
      rw [unmarshal,unmarshal]
      split
      · exact Reader.LE.refl _
      · exact (Reader.LE.readEach (fun type => ih type typeStack) _).map _
    | interface name =>
      rw [unmarshal,unmarshal]
      refine Reader.LE.bind fun type => Reader.LE.map ?_ _
      split
      · exact Reader.LE.refl _
      · exact ih type (type :: typeStack)
    | _ => exact Reader.LE.refl _

theorem unmarshal_le (env : TypeEnv N) (r : Registry N) {fuel fuel' : ℕ} (h : fuel ≤ fuel')
    (type : GoType N) (typeStack : List (GoType N)) :
    Reader.LE (unmarshal env r fuel type typeStack) (unmarshal env r fuel' type typeStack) := by
  induction h with
  | refl => exact Reader.LE.refl _
  | step _ ih => exact fun p x hx => unmarshal_le_succ env r _ type typeStack _ _ (ih _ _ hx)

/-! ## Output -/

theorem packFixedBytes_appends (maxSize : ℕ) : Writer.Appends (packFixedBytes maxSize) := by
  intro bytes out out' h
  unfold packFixedBytes at h
  split at h
  · cases h
  · cases h
    exact List.prefix_append _ _

theorem packUint_appends (maxSize len : ℕ) : Writer.Appends (packUint maxSize len) :=
  fun n => packFixedBytes_appends maxSize (beBytes len n)

theorem packStr_appends (maxSize : ℕ) : Writer.Appends (packStr maxSize) := by
  intro str out out' h
  unfold packStr at h
  split at h
  · cases h
  · obtain ⟨mid,hlen,h⟩ := bind_eq_ok h
    exact (packUint_appends _ _ _ _ _ hlen).trans (packFixedBytes_appends _ _ _ _ h)

theorem packPrefix_appends (r : Registry N) (maxSize : ℕ) :
    Writer.Appends (r.packPrefix maxSize) := by
  intro type out out' h
  unfold Registry.packPrefix at h
  split at h
  · cases h
  · exact packUint_appends _ _ _ _ _ h

theorem packSlice_appends {α : Type} {packElems : Pack (List α)} (maxSize : ℕ)
    (helems : Writer.Appends packElems) : Writer.Appends (packSlice maxSize packElems) := by
  intro elems out out' h
  unfold packSlice at h
  split at h
  · cases h
  · obtain ⟨mid,hlen,h⟩ := bind_eq_ok h
    exact (packUint_appends _ _ _ _ _ hlen).trans (helems _ _ _ h)

omit [DecidableEq N] in
theorem packMap_appends {packKey packValue : Pack (Val N)} (maxSize : ℕ) (o : MapOrder N)
    (hvalue : Writer.Appends packValue) :
    Writer.Appends (packMap maxSize o packKey packValue) := by
  intro entries out out' h
  unfold packMap at h
  split at h
  · cases h
  · obtain ⟨mid,hlen,h⟩ := bind_eq_ok h
    obtain ⟨keys,_,h⟩ := bind_eq_ok h
    refine (packUint_appends _ _ _ _ _ hlen).trans (Writer.Appends.writeAll ?_ _ _ _ h)
    refine Writer.Appends.writeSome (fun entry out out' h => ?_) _
    obtain ⟨mid,hkey,h⟩ := bind_eq_ok h
    exact (packFixedBytes_appends _ _ _ _ hkey).trans (hvalue _ _ _ h)

theorem marshal_appends (env : TypeEnv N) (r : Registry N) (maxSize : ℕ) (o : MapOrder N)
    (fuel : ℕ) (type : GoType N) (typeStack : List (GoType N)) :
    Writer.Appends (marshal env r maxSize o fuel type typeStack) := by
  induction fuel generalizing type typeStack with
  | zero => exact fun _ _ _ h => nomatch h
  | succ fuel ih =>
    intro value out out' h
    unfold marshal at h
    split at h
    · exact packUint_appends _ _ _ _ _ h
    · exact packUint_appends _ _ _ _ _ h
    · exact packUint_appends _ _ _ _ _ h
    · exact packStr_appends _ _ _ _ h
    · exact packSlice_appends _ (packFixedBytes_appends _) _ _ _ h
    · exact packSlice_appends _ ((ih _ _).writeSome _).writeAll _ _ _ h
    · exact Writer.Appends.writeAll (fun b => packUint_appends _ _ _) _ _ _ h
    · exact (ih _ _).writeAll _ _ _ h
    · split at h
      · cases h
      · obtain ⟨mid,htype,h⟩ := bind_eq_ok h
        exact (packPrefix_appends _ _ _ _ _ htype).trans (ih _ _ _ _ _ h)
    · obtain ⟨types,_,h⟩ := bind_eq_ok h
      exact Writer.Appends.writeEach (fun type => ih type typeStack) _ _ _ _ _ h
    · exact ih _ _ _ _ _ h
    · exact packMap_appends _ _ (ih _ _) _ _ _ h
    all_goals cases h

/-! ## One form for each value -/

namespace Manager
variable {m : Manager N} {type : GoType N} {bytes : Bytes} {value : Val N} {fuel : ℕ}

theorem unmarshal_ok_iff : m.unmarshal fuel type bytes = .ok value ↔
    bytes.length ≤ m.maxSize ∧ 2 ≤ bytes.length ∧
      Codec.unmarshal m.env m.registry fuel type [] (bytes.drop 2) = .ok (value,[]) := by
  unfold unmarshal
  by_cases hmax : bytes.length > m.maxSize
  · rw [if_pos hmax]
    exact ⟨fun h => (nomatch h),fun h => absurd hmax (not_lt.mpr h.1)⟩
  rw [if_neg hmax]
  by_cases hlen : bytes.length < 2
  · have hversion : unpackUint 2 bytes = .error .insufficientLength := by
      unfold unpackUint Reader.map unpackFixedBytes
      rw [if_pos hlen]
      rfl
    rw [hversion]
    exact ⟨fun h => (nomatch h),fun h => absurd hlen (not_lt.mpr h.2.1)⟩
  · have hversion : unpackUint 2 bytes = .ok (beNat (bytes.take 2),bytes.drop 2) := by
      unfold unpackUint Reader.map unpackFixedBytes
      rw [if_neg hlen]
      rfl
    rw [hversion]
    refine Iff.trans ⟨fun h => ?_,fun h => ?_⟩
      (and_iff_right_of_imp fun _ => not_lt.mp hmax).symm
    · obtain ⟨⟨value',rest⟩,hvalue,h⟩ := bind_eq_ok h
      dsimp only at h
      split at h
      · next hrest =>
        cases h
        subst hrest
        exact ⟨not_lt.mp hlen,hvalue⟩
      · cases h
    · change (Codec.unmarshal m.env m.registry fuel type [] (bytes.drop 2) >>= _) = _
      rw [h.2]
      rfl

theorem marshal_of_unmarshal (h : m.unmarshal fuel type bytes = .ok value) :
    m.marshal fuel type value = .ok (beBytes 2 defaultVersion ++ bytes.drop 2) := by
  obtain ⟨hmax,hlen,hvalue⟩ := unmarshal_ok_iff.mp h
  have hdrop : (bytes.drop 2).length = bytes.length - 2 := List.length_drop
  obtain ⟨taken,htaken,hw⟩ := undoes_unmarshal m.env m.registry m.maxSize m.mapOrder fuel type []
    _ _ _ hvalue
  rw [List.append_nil] at htaken
  have hversion : packUint m.maxSize 2 defaultVersion [] =
      .ok ([] ++ beBytes 2 defaultVersion) :=
    packUint_of_le (by rw [List.length_nil]; omega)
  rw [marshal,hversion,htaken]
  refine hw _ ?_
  rw [List.nil_append,beBytes_length,← htaken]
  omega

theorem marshal_take (h : m.marshal fuel type value = .ok bytes) :
    bytes.take 2 = beBytes 2 defaultVersion := by
  unfold marshal at h
  split at h
  · cases h
  · next out hversion =>
    have hout : out = beBytes 2 defaultVersion := by
      unfold packUint packFixedBytes at hversion
      split at hversion
      · cases hversion
      · cases hversion
        rfl
    obtain ⟨body,rfl⟩ := marshal_appends _ _ _ _ _ _ _ _ _ _ h
    subst hout
    exact List.take_left' (beBytes_length 2 defaultVersion)

/-- Marshalling the value gives back the bytes it was read from exactly if they have the
default version, and other bytes for the value differ from them in the version. -/
theorem unmarshals_canonical_iff (m : Manager N) (type : GoType N) (bytes : Bytes) (value : Val N)
    (h : m.Unmarshals type bytes value) :
    (m.Marshals type value bytes ↔ bytes.take 2 = beBytes 2 defaultVersion) ∧
      ∀ bytes' value', m.Unmarshals type bytes' value' → value.Same value' →
        (bytes' = bytes ↔ bytes'.take 2 = bytes.take 2) := by
  obtain ⟨fuel,h⟩ := h
  refine ⟨⟨fun ⟨_,hm⟩ => marshal_take hm,fun hversion => ⟨fuel,?_⟩⟩,?_⟩
  · rw [marshal_of_unmarshal h,← hversion,List.take_append_drop]
  · rintro bytes' value' ⟨fuel',h'⟩ hsame
    refine ⟨congrArg _,fun hversion => ?_⟩
    -- both are read to the same depth
    have hr := unmarshal_le m.env m.registry (le_max_left fuel fuel') type [] _ _
      (unmarshal_ok_iff.mp h).2.2
    have hr' := unmarshal_le m.env m.registry (le_max_right fuel fuel') type [] _ _
      (unmarshal_ok_iff.mp h').2.2
    obtain ⟨taken,ht,ht'⟩ := separates_unmarshal m.env m.registry m.mapOrder _ type [] _ _ _ _ _ _
      hr hr' hsame
    rw [← List.take_append_drop 2 bytes',hversion,ht',← ht,List.take_append_drop]

end Manager
end Landslide.Codec
