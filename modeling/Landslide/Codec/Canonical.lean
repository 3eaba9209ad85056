import Landslide.Codec.MapEntries

/-! # Packing undoes unpacking

What `unmarshal` accepts, `marshal` gives back byte for byte. The recursion of both is
followed by one induction on the depth. In the same way, values that differ only in the
order of their maps are read from the same bytes.
-/
namespace Landslide.Codec
variable {N : Type}

theorem writeAll_packByte {maxSize : ℕ} {bytes out : Bytes}
    (h : out.length + bytes.length ≤ maxSize) :
    writeAll (fun b => packUint maxSize 1 b.toNat) bytes out = .ok (out ++ bytes) := by
  induction bytes generalizing out with
  | nil => rw [List.append_nil,writeAll]
  | cons b bytes ih =>
    rw [List.length_cons] at h
    have hbyte : beBytes 1 b.toNat = [b] := by
      have hlt := b.toNat_lt
      simp [beBytes]
    rw [writeAll,packUint_of_le (by omega),hbyte]
    change writeAll _ bytes (out ++ [b]) = _
    rw [ih (by rw [List.length_append,List.length_singleton]; omega),List.append_assoc]
    rfl

theorem undoes_unpackByteArray (maxSize len : ℕ) :
    Undoes maxSize (writeAll fun b => packUint maxSize 1 b.toNat) (unpackFixedBytes len) := by
  intro p bytes rest h
  exact ⟨bytes,(unpackFixedBytes_ok h).1,fun out => writeAll_packByte⟩

theorem undoes_unpackSlice {α : Type} {maxSize : ℕ} {packElems : Pack (List α)}
    {unpackElems : ℕ → Unpack (List α)} (h : ∀ n, Undoes maxSize packElems (unpackElems n))
    (hlen : ∀ n p elems rest, unpackElems n p = .ok (elems,rest) → elems.length = n) :
    Undoes maxSize (packSlice maxSize packElems) (unpackSlice unpackElems) := by
  refine ((undoes_unpackUint maxSize 4).mapError _).bind (w := fun _ => packElems)
    (fun n => ?_) ?_
  · split
    · exact Undoes.fail _ _
    · exact h n
  · intro p n mid elems rest _ helems out
    split at helems
    · cases helems
    · next hmax =>
      obtain rfl := hlen _ _ _ _ helems
      rw [packSlice,if_neg hmax]

/-! ## Every type -/

theorem undoes_unmarshal [DecidableEq N] (env : TypeEnv N) (r : Registry N) (maxSize : ℕ)
    (o : MapOrder N) (fuel : ℕ) (type : GoType N) (typeStack : List (GoType N)) :
    Undoes maxSize (marshal env r maxSize o fuel type typeStack)
      (unmarshal env r fuel type typeStack) := by
  induction fuel generalizing type typeStack with
  | zero => exact Undoes.fail _ _
  | succ fuel ih =>
    cases type with
    | uint w => exact ((undoes_unpackUint maxSize w.len).mapError _).map _ fun _ _ _ _ => rfl
    | int w =>
      refine ((undoes_unpackUint maxSize w.len).mapError _).map _ fun p n rest hn => ?_
      have hsmall := (unpackUint_ok (mapError_eq_ok hn)).2
      funext out
      change packUint maxSize w.len (ofSigned w.len (toSigned w.len n)) out = _
      rw [ofSigned_toSigned hsmall]
    | bool => exact ((undoes_unpackBool maxSize).mapError _).map _ fun _ _ _ _ => rfl
    | string => exact ((undoes_unpackStr maxSize).mapError _).map _ fun _ _ _ _ => rfl
    | slice elem =>
      rw [unmarshal]
      split
      · exact (undoes_unpackSlice (undoes_unpackFixedBytes maxSize)
          fun _ _ _ _ h => (unpackFixedBytes_ok h).2).map _ fun _ _ _ _ => rfl
      · exact (undoes_unpackSlice (((ih elem typeStack).readSome _ _).readN)
          fun _ _ _ _ h => readN_length h).map _ fun _ _ _ _ => rfl
    | array len elem =>
      rw [unmarshal]
      split
      · exact (undoes_unpackByteArray maxSize len).map _ fun _ _ _ _ => rfl
      · exact ((ih elem typeStack).readN len).map _ fun _ _ _ _ => rfl
    | map key elem =>
      exact (undoes_unpackMap o (ih key typeStack) (ih elem typeStack)).map _ fun _ _ _ _ => rfl
    | ptr elem => exact (ih elem typeStack).map _ fun _ _ _ _ => rfl
    | struct name =>
      rw [unmarshal]
      split
      · exact Undoes.fail _ _
      · next types htypes =>
        refine (Undoes.readEach (fun type => ih type typeStack) .unsupportedType types).map _
          fun _ vs _ _ => ?_
        funext out
        rw [marshal,htypes]
        rfl
    | interface name =>
      rw [unmarshal]
      refine (r.undoes_unpackPrefix env maxSize name).bindMap
        (w := fun type => marshal env r maxSize o fuel type (type :: typeStack))
        (fun type => ?_) Val.iface ?_
      · split
        · exact Undoes.fail _ _
        · exact ih type (type :: typeStack)
      · intro p type mid v rest _ hv out
        split at hv
        · cases hv
        · next hnew => rw [marshal,if_neg hnew]
    | other kind => exact Undoes.fail _ _

/-! ## One form for each value -/

theorem separates_unpackSlice {α : Type} {S : List α → List α → Prop}
    {unpackElems : ℕ → Unpack (List α)} (h : ∀ n, Separates S (unpackElems n))
    (hlen : ∀ n p elems rest, unpackElems n p = .ok (elems,rest) → elems.length = n)
    (hS : ∀ elems elems', S elems elems' → elems.length = elems'.length) :
    Separates S (unpackSlice unpackElems) := by
  refine ((Undoes.separates fun m => undoes_unpackUint m 4).mapError _).bind (fun n => ?_) ?_
  · split
    · exact Separates.fail _
    · exact h n
  · intro n n' mid mid' elems elems' rest rest' he he' hsame
    split at he
    · cases he
    · split at he'
      · cases he'
      · rw [← hlen _ _ _ _ he,← hlen _ _ _ _ he',hS _ _ hsame]

theorem separates_unpackFixedBytes (size : ℕ) : Separates (· = ·) (unpackFixedBytes size) :=
  Undoes.separates fun m => undoes_unpackFixedBytes m size

theorem separates_unmarshal [DecidableEq N] (env : TypeEnv N) (r : Registry N) (o : MapOrder N)
    (fuel : ℕ) (type : GoType N) (typeStack : List (GoType N)) :
    Separates Val.Same (unmarshal env r fuel type typeStack) := by
  induction fuel generalizing type typeStack with
  | zero => exact Separates.fail _
  | succ fuel ih =>
    cases type with
    | uint w =>
      refine ((Undoes.separates fun m => undoes_unpackUint m w.len).mapError _).map ?_
      rintro _ n _ _ n' _ _ _ ⟨⟩
      rfl
    | int w =>
      refine ((Undoes.separates fun m => undoes_unpackUint m w.len).mapError _).map ?_
      intro _ n _ _ n' _ hn hn' hsame
      have heq : toSigned w.len n = toSigned w.len n' := Val.Same.int_inj hsame
      rw [← ofSigned_toSigned (unpackUint_ok (mapError_eq_ok hn)).2,heq,
        ofSigned_toSigned (unpackUint_ok (mapError_eq_ok hn')).2]
    | bool =>
      refine ((Undoes.separates undoes_unpackBool).mapError _).map ?_
      rintro _ b _ _ b' _ _ _ ⟨⟩
      rfl
    | string =>
      refine ((Undoes.separates undoes_unpackStr).mapError _).map ?_
      rintro _ str _ _ str' _ _ _ ⟨⟩
      rfl
    | slice elem =>
      rw [unmarshal]
      split
      · refine (separates_unpackSlice separates_unpackFixedBytes
          (fun _ _ _ _ h => (unpackFixedBytes_ok h).2) fun _ _ => congrArg _).map ?_
        rintro _ bytes _ _ bytes' _ _ _ ⟨⟩
        rfl
      · refine (separates_unpackSlice ((ih elem typeStack).readSome _).readN
          (fun _ _ _ _ h => readN_length h) fun _ _ h => h.length_eq).map ?_
        rintro _ vs _ _ vs' _ _ _ ⟨⟩
        assumption
    | array len elem =>
      rw [unmarshal]
      split
      · refine (separates_unpackFixedBytes len).map ?_
        rintro _ bytes _ _ bytes' _ _ _ ⟨⟩
        rfl
      · refine ((ih elem typeStack).readN len).map ?_
        rintro _ vs _ _ vs' _ _ _ ⟨⟩
        assumption
    | map key elem =>
      exact (separates_unpackMap (undoes_unmarshal env r 0 o fuel key typeStack)
        (undoes_unmarshal env r 0 o fuel elem typeStack) (ih key typeStack)
        (ih elem typeStack)).map fun _ _ _ _ _ _ _ _ h => h
    | ptr elem =>
      refine (ih elem typeStack).map ?_
      rintro _ v _ _ v' _ _ _ ⟨⟩
      assumption
    | struct name =>
      rw [unmarshal]
      split
      · exact Separates.fail _
      · refine (Separates.readEach (fun type => ih type typeStack) _).map ?_
        rintro _ vs _ _ vs' _ _ _ ⟨⟩
        assumption
    | interface name =>
      rw [unmarshal]
      refine (Undoes.separates fun m => r.undoes_unpackPrefix env m name).bind (fun type => ?_) ?_
      · refine Separates.map (S := Val.Same) ?_ ?_
        · split
          · exact Separates.fail _
          · exact ih type (type :: typeStack)
        · rintro _ v _ _ v' _ _ _ ⟨⟩
          assumption
      · intro type type' mid mid' v v' rest rest' hv hv' hsame
        obtain ⟨w,_,rfl⟩ := Reader.map_eq_ok.mp hv
        obtain ⟨w',_,rfl⟩ := Reader.map_eq_ok.mp hv'
        cases hsame
        rfl
    | other kind => exact Separates.fail _

end Landslide.Codec
