import Mathlib.Data.List.Nodup
import Mathlib.Tactic.Common

/-! # One-to-one maps

A map that can be asked in both directions: no key and no value stands in it twice, so
what one direction finds the other one finds too.
-/
namespace Landslide

theorem find?_key_eq_some_iff {α κ : Type} [DecidableEq κ] {key : α → κ} {l : List α}
    (h : (l.map key).Nodup) {k : κ} {a : α} :
    l.find? (fun x => key x = k) = some a ↔ a ∈ l ∧ key a = k := by
  constructor
  · intro hfind
    exact ⟨List.mem_of_find?_eq_some hfind,by simpa using List.find?_some hfind⟩
  · rintro ⟨hmem,hkey⟩
    obtain ⟨b,hfind⟩ : ∃ b, l.find? (fun x => key x = k) = some b :=
      Option.isSome_iff_exists.mp (List.find?_isSome.mpr ⟨a,hmem,by simpa using hkey⟩)
    have hb : key b = k := by simpa using List.find?_some hfind
    rw [hfind,List.inj_on_of_nodup_map h (List.mem_of_find?_eq_some hfind) hmem (hb.trans hkey.symm)]

structure BiMap (K V : Type) where
  entries : List (K × V)
  keys_nodup : (entries.map Prod.fst).Nodup
  values_nodup : (entries.map Prod.snd).Nodup

namespace BiMap
variable {K V : Type} [DecidableEq K] [DecidableEq V] {m : BiMap K V} {k : K} {v : V}

def empty : BiMap K V := ⟨[],List.nodup_nil,List.nodup_nil⟩

def put (m : BiMap K V) (k : K) (v : V) : BiMap K V where
  entries := (k,v) :: m.entries.filter (fun e => e.1 ≠ k ∧ e.2 ≠ v)
  keys_nodup := by
    rw [List.map_cons,List.nodup_cons]
    refine ⟨?_,(List.filter_sublist.map Prod.fst).nodup m.keys_nodup⟩
    simp
  values_nodup := by
    rw [List.map_cons,List.nodup_cons]
    refine ⟨?_,(List.filter_sublist.map Prod.snd).nodup m.values_nodup⟩
    simp

def getKey (m : BiMap K V) (v : V) : Option K :=
  (m.entries.find? (fun e => e.2 = v)).map Prod.fst

def getValue (m : BiMap K V) (k : K) : Option V :=
  (m.entries.find? (fun e => e.1 = k)).map Prod.snd

omit [DecidableEq K] in
theorem getKey_eq_some_iff : m.getKey v = some k ↔ (k,v) ∈ m.entries := by
  rw [getKey,Option.map_eq_some_iff]
  constructor
  · rintro ⟨e,he,rfl⟩
    obtain ⟨hmem,rfl⟩ := (find?_key_eq_some_iff m.values_nodup).mp he
    exact hmem
  · exact fun h => ⟨(k,v),(find?_key_eq_some_iff m.values_nodup).mpr ⟨h,rfl⟩,rfl⟩

omit [DecidableEq V] in
theorem getValue_eq_some_iff : m.getValue k = some v ↔ (k,v) ∈ m.entries := by
  rw [getValue,Option.map_eq_some_iff]
  constructor
  · rintro ⟨e,he,rfl⟩
    obtain ⟨hmem,rfl⟩ := (find?_key_eq_some_iff m.keys_nodup).mp he
    exact hmem
  · exact fun h => ⟨(k,v),(find?_key_eq_some_iff m.keys_nodup).mpr ⟨h,rfl⟩,rfl⟩

theorem getValue_eq_some_iff_getKey : m.getValue k = some v ↔ m.getKey v = some k :=
  getValue_eq_some_iff.trans getKey_eq_some_iff.symm

end BiMap
end Landslide
