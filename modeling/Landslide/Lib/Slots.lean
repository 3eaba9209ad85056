import Mathlib.Data.List.Nodup
import Mathlib.Data.List.Perm.Basic

/-! # Lists whose members know their position

A list of members of which each carries its own position. An element is removed by moving the
last one into its place, which keeps the positions of all others.
-/
namespace Landslide
variable {α : Type}

def Indexed (index : α → ℕ) (l : List α) : Prop := ∀ i a, l[i]? = some a → index a = i

namespace Indexed
variable {index : α → ℕ} {l : List α}

theorem nodup (h : Indexed index l) : l.Nodup := by
  rw [List.nodup_iff_getElem?_ne_getElem?]
  intro i j hij hj heq
  have hsome : l[j]? = some (l.get ⟨j,hj⟩) := List.getElem?_eq_getElem hj
  have hi := h i _ (heq.trans hsome)
  have hj' := h j _ hsome
  omega

theorem getElem? (h : Indexed index l) {a : α} (ha : a ∈ l) : l[index a]? = some a := by
  obtain ⟨i,hi⟩ := List.mem_iff_getElem?.mp ha
  rwa [h i a hi]

theorem lt_length (h : Indexed index l) {a : α} (ha : a ∈ l) : index a < l.length := by
  obtain ⟨hlt,_⟩ := List.getElem?_eq_some_iff.mp (h.getElem? ha)
  exact hlt

theorem append (h : Indexed index l) {a : α} (ha : index a = l.length) :
    Indexed index (l ++ [a]) := by
  intro i b hb
  rw [List.getElem?_append] at hb
  split at hb
  · exact h i b hb
  · next hge =>
    obtain ⟨hlt,hab⟩ := List.getElem?_eq_some_iff.mp hb
    rw [List.length_singleton] at hlt
    have hi : i = l.length := by omega
    subst hi
    rw [← ha]
    congr 1
    simpa using hab.symm

theorem congr {index' : α → ℕ} (h : Indexed index l) (hsame : ∀ a ∈ l, index' a = index a) :
    Indexed index' l := by
  intro i a ha
  rw [hsame a (List.mem_of_getElem? ha)]
  exact h i a ha

end Indexed

def swapRemove (l : List α) (i : ℕ) (last : α) : List α := (l.set i last).take (l.length - 1)

theorem getElem?_swapRemove (l : List α) (i : ℕ) (last : α) (j : ℕ) :
    (swapRemove l i last)[j]? =
      if j < l.length - 1 then if i = j then some last else l[j]? else none := by
  unfold swapRemove
  rw [List.getElem?_take]
  split
  · next hj =>
    rw [List.getElem?_set]
    split
    · next hij =>
      rw [if_pos (by omega)]
    · rfl
  · rfl

section
variable {index : α → ℕ} {l : List α} {a last : α}

theorem mem_swapRemove (h : Indexed index l) (ha : a ∈ l) (hlast : l.getLast? = some last) (b : α) :
    b ∈ swapRemove l (index a) last ↔ b ∈ l ∧ b ≠ a := by
  have hlastAt : l[l.length - 1]? = some last := by rw [← List.getLast?_eq_getElem?,hlast]
  have hlastIndex := h _ _ hlastAt
  have hlt := h.lt_length ha
  constructor
  · intro hb
    obtain ⟨j,hj⟩ := List.mem_iff_getElem?.mp hb
    rw [getElem?_swapRemove] at hj
    split at hj
    · next hjlt =>
      split at hj
      · next hij =>
        cases hj
        refine ⟨List.mem_of_getElem? hlastAt,?_⟩
        rintro rfl
        omega
      · next hij =>
        refine ⟨List.mem_of_getElem? hj,?_⟩
        rintro rfl
        exact hij (h j b hj)
    · cases hj
  · rintro ⟨hb,hne⟩
    have hbAt := h.getElem? hb
    have hblt := h.lt_length hb
    by_cases hend : index b = l.length - 1
    · have hbl : b = last := by
        rw [hend,hlastAt] at hbAt
        exact (Option.some.inj hbAt).symm
      have hia : index a ≠ l.length - 1 := by
        intro hia
        have haAt := h.getElem? ha
        rw [hia,hlastAt] at haAt
        exact hne (hbl.trans (Option.some.inj haAt))
      refine List.mem_of_getElem? (i := index a) ?_
      rw [getElem?_swapRemove,if_pos (by omega),if_pos rfl,hbl]
    · refine List.mem_of_getElem? (i := index b) ?_
      have hij : index a ≠ index b := by
        intro hij
        have haAt := h.getElem? ha
        rw [hij,hbAt] at haAt
        exact hne (Option.some.inj haAt)
      rw [getElem?_swapRemove,if_pos (by omega),if_neg hij,hbAt]

theorem Indexed.swapRemove {index' : α → ℕ} (h : Indexed index l)
    (hlast : l.getLast? = some last) (hmoved : index' last = index a)
    (hsame : ∀ b, b ≠ last → index' b = index b) :
    Indexed index' (swapRemove l (index a) last) := by
  have hlastAt : l[l.length - 1]? = some last := by rw [← List.getLast?_eq_getElem?,hlast]
  intro j b hb
  rw [getElem?_swapRemove] at hb
  split at hb
  · next hjlt =>
    split at hb
    · next hij =>
      cases hb
      rw [hmoved,hij]
    · next hij =>
      have hbj := h j b hb
      have hne : b ≠ last := by
        rintro rfl
        have := h _ _ hlastAt
        omega
      rw [hsame b hne,hbj]
  · cases hb

theorem perm_swapRemove (h : Indexed index l) (ha : a ∈ l) (hlast : l.getLast? = some last)
    (hnodup : (swapRemove l (index a) last).Nodup) :
    l.Perm (a :: swapRemove l (index a) last) := by
  have hmem := mem_swapRemove h ha hlast
  refine (List.perm_ext_iff_of_nodup h.nodup (List.nodup_cons.mpr ⟨?_,hnodup⟩)).mpr fun b => ?_
  · rw [hmem]
    exact fun hself => hself.2 rfl
  · rw [List.mem_cons,hmem]
    constructor
    · intro hb
      by_cases hba : b = a
      · exact .inl hba
      · exact .inr ⟨hb,hba⟩
    · rintro (rfl | hb)
      · exact ha
      · exact hb.1

end
end Landslide
