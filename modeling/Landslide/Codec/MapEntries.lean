import Landslide.Codec.Reflect
import Landslide.Lib.KeySort

/-! # Entries of a map

A map is written with its keys in increasing order of their bytes, and read back only in
that order. The entries are followed here together with the bytes they were read from.
-/
namespace Landslide.Codec
variable {N : Type}

structure PackedEntry (maxSize : ℕ) (packKey packValue : Pack (Val N))
    (unpackKey unpackValue : Unpack (Val N)) where
  entry : Val N × Val N
  keyBytes : Bytes
  valueBytes : Bytes
  key_unpacks : ∃ rest, unpackKey (keyBytes ++ rest) = .ok (entry.1,rest)
  value_unpacks : ∃ rest, unpackValue (valueBytes ++ rest) = .ok (entry.2,rest)
  key_packs : ∀ out, out.length + keyBytes.length ≤ maxSize →
    packKey entry.1 out = .ok (out ++ keyBytes)
  value_packs : ∀ out, out.length + valueBytes.length ≤ maxSize →
    packValue entry.2 out = .ok (out ++ valueBytes)
  nonempty : keyBytes.length + valueBytes.length ≠ 0

namespace PackedEntry
variable {maxSize : ℕ} {packKey packValue : Pack (Val N)}
variable {unpackKey unpackValue : Unpack (Val N)}

def bytes (e : PackedEntry maxSize packKey packValue unpackKey unpackValue) : Bytes :=
  e.keyBytes ++ e.valueBytes

def sortedKey (e : PackedEntry maxSize packKey packValue unpackKey unpackValue) : Bytes × Val N :=
  (e.keyBytes,e.entry.2)

theorem packKeys_map (es : List (PackedEntry maxSize packKey packValue unpackKey unpackValue))
    (out : Bytes) (h : out.length + (es.flatMap bytes).length ≤ maxSize) :
    packKeys packKey (es.map entry) out = .ok (es.map sortedKey) := by
  induction es generalizing out with
  | nil => rfl
  | cons e es ih =>
    rw [List.flatMap_cons,List.length_append,bytes,List.length_append] at h
    have hkey := e.key_packs out (by omega)
    have hrest := ih (out ++ e.keyBytes) (by rw [List.length_append]; omega)
    rw [List.map_cons,packKeys,hkey]
    change (packKeys packKey (es.map entry) (out ++ e.keyBytes) >>= _) = _
    rw [hrest,List.drop_left]
    rfl

theorem packEntries_map (es : List (PackedEntry maxSize packKey packValue unpackKey unpackValue))
    (out : Bytes) (h : out.length + (es.flatMap bytes).length ≤ maxSize) :
    packEntries maxSize packValue (es.map sortedKey) out = .ok (out ++ es.flatMap bytes) := by
  induction es generalizing out with
  | nil => simp [packEntries,writeAll]
  | cons e es ih =>
    rw [List.flatMap_cons,List.length_append] at h
    have hlen : e.bytes.length = e.keyBytes.length + e.valueBytes.length := List.length_append
    have hvalue := e.value_packs (out ++ e.keyBytes) (by rw [List.length_append]; omega)
    have hrest := ih (out ++ e.bytes) (by rw [List.length_append]; omega)
    have hne : ¬(out ++ e.bytes).length = out.length := by
      have := e.nonempty
      rw [List.length_append]
      omega
    rw [List.append_assoc] at hvalue
    have hfirst : packFixedBytes maxSize e.keyBytes out = .ok (out ++ e.keyBytes) :=
      packFixedBytes_of_le (by omega)
    rw [List.map_cons,packEntries,writeAll,writeSome,sortedKey,hfirst]
    change ((packValue e.entry.2 (out ++ e.keyBytes) >>= _) >>= _) = _
    rw [hvalue]
    change ((if (out ++ e.bytes).length = out.length then _ else _) >>= _) = _
    rw [if_neg hne]
    change packEntries maxSize packValue (es.map sortedKey) (out ++ e.bytes) = _
    rw [hrest,List.append_assoc,List.flatMap_cons]

/-- The keys as `unmarshal` wants them. -/
def Sorted (es : List (PackedEntry maxSize packKey packValue unpackKey unpackValue)) : Prop :=
  (es.map keyBytes).Pairwise (· < ·)

/-- Whatever order the keys are visited in, sorting brings them back. -/
theorem Sorted.mergeSort_eq
    {es es' : List (PackedEntry maxSize packKey packValue unpackKey unpackValue)}
    (h : Sorted es) (hperm : es'.Perm es) :
    ((es'.map sortedKey).mergeSort fun a b => ¬b.1 < a.1) = es.map sortedKey :=
  mergeSort_key_eq (hperm.map sortedKey) (List.pairwise_map.mpr (List.pairwise_map.mp h))

theorem exists_reordered (es : List (PackedEntry maxSize packKey packValue unpackKey unpackValue))
    {ordered : List (Val N × Val N)} (h : ordered.Perm (es.map entry)) :
    ∃ es' : List (PackedEntry maxSize packKey packValue unpackKey unpackValue),
      ordered = es'.map entry ∧ es'.Perm es := by
  have hsame : List.Forall₂ (fun e e' => e = e'.entry) (es.map entry) es :=
    List.forall₂_map_left_iff.mpr (List.forall₂_same.mpr fun _ _ => rfl)
  obtain ⟨es',horder,hperm⟩ := List.perm_comp_forall₂ h hsame
  refine ⟨es',?_,hperm⟩
  rwa [← List.forall₂_map_right_iff,List.forall₂_eq_eq_eq] at horder

theorem packMap_map [DecidableEq N] (o : MapOrder N)
    {es : List (PackedEntry maxSize packKey packValue unpackKey unpackValue)} (hs : Sorted es)
    (hmax : es.length ≤ maxInt32) {out : Bytes}
    (h : out.length + (4 + (es.flatMap bytes).length) ≤ maxSize) :
    packMap maxSize o packKey packValue (es.map entry) out =
      .ok (out ++ (beBytes 4 es.length ++ es.flatMap bytes)) := by
  obtain ⟨es',horder,hperm⟩ := exists_reordered es (o.perm (es.map entry))
  have hbytes : (es'.flatMap bytes).length = (es.flatMap bytes).length :=
    (hperm.flatMap_right bytes).length_eq
  have hlen : (out ++ beBytes 4 es.length).length = out.length + 4 := by
    rw [List.length_append,beBytes_length]
  have hkeys := packKeys_map es' (out ++ beBytes 4 es.length) (by omega)
  have hentries := packEntries_map es (out ++ beBytes 4 es.length) (by omega)
  rw [packMap,List.length_map,if_neg (not_lt.mpr hmax),packUint_of_le (by omega)]
  change (packKeys packKey (o.order (es.map entry)) (out ++ beBytes 4 es.length) >>= _) = _
  rw [horder,hkeys]
  change packEntries maxSize packValue (List.mergeSort _ _) (out ++ beBytes 4 es.length) = _
  rw [hs.mergeSort_eq hperm,hentries,List.append_assoc]

/-- What `unpackEntries` reads is a sorted list of entries, all keys after the last one. -/
theorem of_unpackEntries
    (hkey : Undoes maxSize packKey unpackKey) (hvalue : Undoes maxSize packValue unpackValue)
    {n : ℕ} {prevKey : Option Bytes} {p rest : Bytes} {entries : List (Val N × Val N)}
    (h : unpackEntries unpackKey unpackValue n prevKey p = .ok (entries,rest)) :
    ∃ es : List (PackedEntry maxSize packKey packValue unpackKey unpackValue),
      es.map entry = entries ∧ es.length = n ∧
      p = es.flatMap bytes ++ rest ∧ (prevKey.toList ++ es.map keyBytes).IsChain (· < ·) := by
  induction n generalizing prevKey p entries with
  | zero =>
    cases h
    refine ⟨[],rfl,rfl,rfl,?_⟩
    cases prevKey <;> simp
  | succ n ih =>
    obtain ⟨⟨key,mid⟩,hk,h⟩ := bind_eq_ok h
    obtain ⟨keyBytes,rfl,hkw⟩ := hkey _ _ _ hk
    have htake : (keyBytes ++ mid).take ((keyBytes ++ mid).length - mid.length) = keyBytes := by
      rw [List.length_append,Nat.add_sub_cancel,List.take_left]
    dsimp only at h
    rw [htake] at h
    split at h
    · cases h
    · next hprev =>
      obtain ⟨⟨v,rest₁⟩,hv,h⟩ := bind_eq_ok h
      obtain ⟨valueBytes,rfl,hvw⟩ := hvalue _ _ _ hv
      dsimp only at h
      split at h
      · cases h
      · next hne =>
        obtain ⟨⟨entries',rest₂⟩,hrest,h⟩ := bind_eq_ok h
        cases h
        obtain ⟨es,hentries,hlen,rfl,hchain⟩ := ih hrest
        have hpos : keyBytes.length + valueBytes.length ≠ 0 := by
          simp only [List.length_append] at hne
          omega
        refine ⟨⟨(key,v),keyBytes,valueBytes,⟨_,hk⟩,⟨_,hv⟩,hkw,hvw,hpos⟩ :: es,?_,?_,?_,?_⟩
        · rw [List.map_cons,hentries]
        · rw [List.length_cons,hlen]
        · simp [bytes]
        · cases prevKey with
          | none => exact hchain
          | some prev =>
            have hlt : prev < keyBytes := by simpa using hprev
            exact List.isChain_cons_cons.mpr ⟨hlt,hchain⟩

theorem keyBytes_eq (hkey : Separates Val.Same unpackKey)
    {e e' : PackedEntry maxSize packKey packValue unpackKey unpackValue}
    (h : Val.Same e.entry.1 e'.entry.1) : e.keyBytes = e'.keyBytes := by
  obtain ⟨rest,hr⟩ := e.key_unpacks
  obtain ⟨rest',hr'⟩ := e'.key_unpacks
  obtain ⟨taken,ht,ht'⟩ := hkey _ _ _ _ _ _ hr hr' h
  rw [List.append_cancel_right ht,List.append_cancel_right ht']

theorem valueBytes_eq (hvalue : Separates Val.Same unpackValue)
    {e e' : PackedEntry maxSize packKey packValue unpackKey unpackValue}
    (h : Val.Same e.entry.2 e'.entry.2) : e.valueBytes = e'.valueBytes := by
  obtain ⟨rest,hr⟩ := e.value_unpacks
  obtain ⟨rest',hr'⟩ := e'.value_unpacks
  obtain ⟨taken,ht,ht'⟩ := hvalue _ _ _ _ _ _ hr hr' h
  rw [List.append_cancel_right ht,List.append_cancel_right ht']

def pair (e : PackedEntry maxSize packKey packValue unpackKey unpackValue) : Bytes × Bytes :=
  (e.keyBytes,e.valueBytes)

theorem flatMap_bytes (es : List (PackedEntry maxSize packKey packValue unpackKey unpackValue)) :
    es.flatMap bytes = (es.map pair).flatMap fun kv => kv.1 ++ kv.2 := by
  rw [List.flatMap_map]
  rfl

theorem Sorted.pairs {es : List (PackedEntry maxSize packKey packValue unpackKey unpackValue)}
    (h : Sorted es) : (es.map pair).Pairwise fun kv kv' => kv.1 < kv'.1 :=
  List.pairwise_map.mpr (List.pairwise_map.mp h)

/-- Sorted entries of maps that are the same have the same bytes. -/
theorem Sorted.map_pair_eq {es es' : List (PackedEntry maxSize packKey packValue unpackKey unpackValue)}
    (hs : Sorted es) (hs' : Sorted es') (hkey : Separates Val.Same unpackKey)
    (hvalue : Separates Val.Same unpackValue)
    (h : Val.Same (.map (es.map entry)) (.map (es'.map entry))) :
    es.map pair = es'.map pair := by
  cases h with
  | @map _ _ ordered hperm hkeys hvalues =>
    obtain ⟨es₁,rfl,hperm₁⟩ := exists_reordered es hperm.symm
    rw [List.map_map,List.map_map,List.forall₂_map_left_iff,List.forall₂_map_right_iff]
      at hkeys hvalues
    have hk : es₁.map keyBytes = es'.map keyBytes := by
      rw [← List.forall₂_eq_eq_eq,List.forall₂_map_left_iff,List.forall₂_map_right_iff]
      exact hkeys.imp fun _ _ => keyBytes_eq hkey
    have hv : es₁.map valueBytes = es'.map valueBytes := by
      rw [← List.forall₂_eq_eq_eq,List.forall₂_map_left_iff,List.forall₂_map_right_iff]
      exact hvalues.imp fun _ _ => valueBytes_eq hvalue
    have hpairs : es₁.map pair = es'.map pair := by
      unfold pair
      rw [← List.zip_map',← List.zip_map',hk,hv]
    have hp : (es.map pair).Perm (es'.map pair) := hpairs ▸ (hperm₁.map pair).symm
    exact perm_eq_of_strict hp hs.pairs hs'.pairs

theorem of_unpackMap (hkey : Undoes maxSize packKey unpackKey)
    (hvalue : Undoes maxSize packValue unpackValue) {p rest : Bytes}
    {entries : List (Val N × Val N)} (h : unpackMap unpackKey unpackValue p = .ok (entries,rest)) :
    ∃ es : List (PackedEntry maxSize packKey packValue unpackKey unpackValue),
      es.map entry = entries ∧ Sorted es ∧ es.length ≤ maxInt32 ∧
      p = beBytes 4 es.length ++ es.flatMap bytes ++ rest := by
  obtain ⟨n,mid,hn,hentries⟩ := Reader.bind_eq_ok.mp h
  obtain ⟨rfl,_⟩ := unpackUint_ok (mapError_eq_ok hn)
  split at hentries
  · cases hentries
  · next hmax =>
    obtain ⟨es,rfl,rfl,rfl,hchain⟩ := of_unpackEntries hkey hvalue hentries
    exact ⟨es,rfl,List.isChain_iff_pairwise.mp hchain,not_lt.mp hmax,(List.append_assoc ..).symm⟩

end PackedEntry

variable {maxSize : ℕ} {packKey packValue : Pack (Val N)} {unpackKey unpackValue : Unpack (Val N)}

theorem undoes_unpackMap [DecidableEq N] (o : MapOrder N)
    (hkey : Undoes maxSize packKey unpackKey) (hvalue : Undoes maxSize packValue unpackValue) :
    Undoes maxSize (packMap maxSize o packKey packValue) (unpackMap unpackKey unpackValue) := by
  intro p entries rest h
  obtain ⟨es,rfl,hs,hmax,hp⟩ := PackedEntry.of_unpackMap hkey hvalue h
  refine ⟨_,hp,fun out hlen => PackedEntry.packMap_map o hs hmax ?_⟩
  rwa [List.length_append,beBytes_length] at hlen

theorem separates_unpackMap (hkey : Undoes maxSize packKey unpackKey)
    (hvalue : Undoes maxSize packValue unpackValue) (hkey' : Separates Val.Same unpackKey)
    (hvalue' : Separates Val.Same unpackValue) :
    Separates (fun entries entries' => Val.Same (.map entries) (.map entries'))
      (unpackMap unpackKey unpackValue) := by
  intro p entries rest p' entries' rest' h h' hsame
  obtain ⟨es,rfl,hs,_,hp⟩ := PackedEntry.of_unpackMap hkey hvalue h
  obtain ⟨es',rfl,hs',_,hp'⟩ := PackedEntry.of_unpackMap hkey hvalue h'
  have hpairs := hs.map_pair_eq hs' hkey' hvalue' hsame
  have hlen : es.length = es'.length := by
    simpa using congrArg List.length hpairs
  refine ⟨_,hp,?_⟩
  rw [hp',PackedEntry.flatMap_bytes,PackedEntry.flatMap_bytes,hpairs,hlen]

end Landslide.Codec
