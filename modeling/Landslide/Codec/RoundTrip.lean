import Landslide.Codec.Canonical

/-! # Unpacking restores what was packed

What `marshal` writes for a value of a type, `unmarshal` reads back as the same value, up to
the order of maps. The keys of a map have to differ in what is written of them: two keys of a Go
map may differ in fields that are not serialized.
-/
namespace Landslide.Codec
variable {N : Type}

/-! ## Packers -/

section
variable {maxSize : ℕ} {packKey packValue : Pack (Val N)} {unpackKey unpackValue : Unpack (Val N)}

/-- The packed entry has the value of the entry, and its bytes are those of the key. -/
def KeyOf (unpackKey : Unpack (Val N)) (e : Val N × Val N) (k : Bytes × Val N) : Prop :=
  k.2 = e.2 ∧ ∃ key, Val.Same e.1 key ∧ ∀ rest, unpackKey (k.1 ++ rest) = .ok (key,rest)

/-- No two keys are written in the same way. -/
def KeysDiffer (entries : List (Val N × Val N)) : Prop :=
  entries.Pairwise fun e e' => ¬∃ key, Val.Same e.1 key ∧ Val.Same e'.1 key

theorem KeysDiffer.perm {entries entries' : List (Val N × Val N)} (h : KeysDiffer entries)
    (hperm : entries.Perm entries') : KeysDiffer entries' := by
  refine (List.Perm.pairwise_iff ?_ hperm).mp h
  rintro e e' hdiffer ⟨key,hkey,hkey'⟩
  exact hdiffer ⟨key,hkey',hkey⟩

/-- Sorted keys that differ increase strictly. -/
theorem KeysDiffer.sorted {entries : List (Val N × Val N)} {keys : List (Bytes × Val N)}
    (h : KeysDiffer entries) (hkeys : List.Forall₂ (KeyOf unpackKey) entries keys)
    (hsorted : keys.Pairwise fun a b => ¬b.1 < a.1) : keys.Pairwise fun a b => a.1 < b.1 := by
  induction hkeys with
  | nil => exact .nil
  | @cons e k entries keys hk hkeys ih =>
    obtain ⟨hnot,hrest⟩ := List.pairwise_cons.mp hsorted
    obtain ⟨hdiffer,hdiffers⟩ := List.pairwise_cons.mp h
    refine List.pairwise_cons.mpr ⟨fun k' hk' => ?_,ih hdiffers hrest⟩
    refine Decidable.byContradiction fun hlt => ?_
    have heq : k.1 = k'.1 := List.le_antisymm (hnot k' hk') hlt
    obtain ⟨i,hi,rfl⟩ := List.getElem_of_mem hk'
    have hi' : i < entries.length := by rwa [hkeys.length_eq]
    obtain ⟨_,key',hsame',hread'⟩ := hkeys.get hi' hi
    obtain ⟨_,key,hsame,hread⟩ := hk
    have hboth := (hread []).symm.trans (heq ▸ hread' [])
    cases hboth
    exact hdiffer _ (List.getElem_mem hi') ⟨_,hsame,hsame'⟩

end

/-! ## Every type -/

end Landslide.Codec
