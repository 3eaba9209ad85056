import Landslide.Lib.Slots
import Mathlib.Data.Finmap

/-! # Lists with a map of positions

A list whose members have keys, and a map from every key to the position of its member. New
members come to the end; a member is removed by moving the last one into its place.
-/
namespace Landslide
variable {α K : Type} [DecidableEq K]

def Positions (key : α → K) (index : Finmap fun _ : K => ℕ) (l : List α) : Prop :=
  ∀ k i, index.lookup k = some i ↔ ∃ a, l[i]? = some a ∧ key a = k

namespace Positions
variable {key : α → K} {index : Finmap fun _ : K => ℕ} {l : List α} {k : K} {i : ℕ}

theorem empty (key : α → K) : Positions key ∅ [] := by
  intro k i
  simp

theorem lookup (h : Positions key index l) {a : α} (ha : l[i]? = some a) :
    index.lookup (key a) = some i := (h (key a) i).mpr ⟨a,ha,rfl⟩

theorem getElem? (h : Positions key index l) (hk : index.lookup k = some i) :
    ∃ a, l[i]? = some a ∧ key a = k := (h k i).mp hk

theorem lt_length (h : Positions key index l) (hk : index.lookup k = some i) : i < l.length := by
  obtain ⟨a,ha,_⟩ := h.getElem? hk
  exact (List.getElem?_eq_some_iff.mp ha).1

theorem key_inj (h : Positions key index l) {j : ℕ} {a b : α} (ha : l[i]? = some a)
    (hb : l[j]? = some b) (hkey : key a = key b) : i = j := by
  have hi := h.lookup ha
  rw [hkey,h.lookup hb] at hi
  exact (Option.some.inj hi).symm

theorem member_inj (h : Positions key index l) {a b : α} (ha : a ∈ l) (hb : b ∈ l)
    (hkey : key a = key b) : a = b := by
  obtain ⟨i,hi⟩ := List.mem_iff_getElem?.mp ha
  obtain ⟨j,hj⟩ := List.mem_iff_getElem?.mp hb
  obtain rfl := h.key_inj hi hj hkey
  rw [hi] at hj
  exact Option.some.inj hj

theorem lookup_isSome_iff (h : Positions key index l) :
    (index.lookup k).isSome ↔ ∃ a ∈ l, key a = k := by
  rw [Option.isSome_iff_exists]
  constructor
  · rintro ⟨i,hi⟩
    obtain ⟨a,ha,hkey⟩ := h.getElem? hi
    exact ⟨a,List.mem_of_getElem? ha,hkey⟩
  · rintro ⟨a,ha,rfl⟩
    obtain ⟨i,hi⟩ := List.mem_iff_getElem?.mp ha
    exact ⟨i,h.lookup hi⟩

theorem append (h : Positions key index l) {a : α} (hnew : index.lookup (key a) = none) :
    Positions key (index.insert (key a) l.length) (l ++ [a]) := by
  intro k i
  rw [List.getElem?_append]
  by_cases hk : k = key a
  · subst hk
    rw [Finmap.lookup_insert,Option.some.injEq]
    constructor
    · rintro rfl
      exact ⟨a,by simp,rfl⟩
    · rintro ⟨b,hb,hkey⟩
      split at hb
      · have hold := h.lookup hb
        rw [hkey,hnew] at hold
        cases hold
      · have hlt := (List.getElem?_eq_some_iff.mp hb).1
        rw [List.length_singleton] at hlt
        omega
  · rw [Finmap.lookup_insert_of_ne _ hk,h k i]
    split
    · rfl
    · next hge =>
      rw [List.getElem?_eq_none (not_lt.mp hge)]
      refine iff_of_false (by simp) ?_
      rintro ⟨b,hb,hkey⟩
      have hmem := List.mem_of_getElem? hb
      rw [List.mem_singleton] at hmem
      exact hk (by rw [← hkey,hmem])

theorem set (h : Positions key index l) {a : α} (hi : index.lookup (key a) = some i) :
    Positions key index (l.set i a) := by
  intro k j
  obtain ⟨b,hb,hkey⟩ := h.getElem? hi
  have hlt := h.lt_length hi
  rw [h k j]
  by_cases hij : j = i
  · subst hij
    rw [List.getElem?_set_self hlt,hb]
    simp [hkey]
  · rw [List.getElem?_set_ne (Ne.symm hij)]

theorem swapRemove (h : Positions key index l) (hk : index.lookup k = some i) {last : α}
    (hlast : l.getLast? = some last) :
    Positions key ((index.insert (key last) i).erase k) (swapRemove l i last) := by
  obtain ⟨a,ha,hkey⟩ := h.getElem? hk
  have hlastAt : l[l.length - 1]? = some last := by rw [← List.getLast?_eq_getElem?,hlast]
  have hlt := h.lt_length hk
  intro k' j
  rw [getElem?_swapRemove]
  by_cases hself : k' = k
  · subst hself
    rw [Finmap.lookup_erase]
    refine iff_of_false (by simp) ?_
    rintro ⟨b,hb,hbkey⟩
    split at hb
    · next hj =>
      split at hb
      · cases hb
        have hpos := h.key_inj hlastAt ha (hbkey.trans hkey.symm)
        omega
      · next hij => exact hij (h.key_inj ha hb (hkey.trans hbkey.symm))
    · cases hb
  rw [Finmap.lookup_erase_ne hself]
  by_cases hend : k' = key last
  · subst hend
    rw [Finmap.lookup_insert,Option.some.injEq]
    have hne : i ≠ l.length - 1 := by
      rintro rfl
      rw [ha] at hlastAt
      cases hlastAt
      exact hself hkey
    constructor
    · rintro rfl
      exact ⟨last,by rw [if_pos (by omega),if_pos rfl],rfl⟩
    · rintro ⟨b,hb,hbkey⟩
      split at hb
      · split at hb
        · next hij => exact hij
        · have hpos := h.key_inj hb hlastAt hbkey
          omega
      · cases hb
  · rw [Finmap.lookup_insert_of_ne _ hend,h k' j]
    constructor
    · rintro ⟨b,hb,hbkey⟩
      have hbound := (List.getElem?_eq_some_iff.mp hb).1
      have hjend : j ≠ l.length - 1 := by
        rintro rfl
        rw [hb] at hlastAt
        cases hlastAt
        exact hend hbkey.symm
      have hij : i ≠ j := by
        rintro rfl
        rw [ha] at hb
        cases hb
        exact hself (hbkey.symm.trans hkey)
      exact ⟨b,by rw [if_pos (by omega),if_neg hij,hb],hbkey⟩
    · rintro ⟨b,hb,hbkey⟩
      split at hb
      · split at hb
        · cases hb
          exact absurd hbkey.symm hend
        · exact ⟨b,hb,hbkey⟩
      · cases hb

/-- For the last member nothing has to be moved. -/
theorem swapRemove_last (h : Positions key index l) (hk : index.lookup k = some i) {last : α}
    (hlast : l.getLast? = some last) (hi : l.length - 1 = i) :
    Positions key (index.erase k) (Landslide.swapRemove l i last) := by
  have hkey : key last = k := by
    obtain ⟨a,ha,hkey⟩ := h.getElem? hk
    rw [← hi,← List.getLast?_eq_getElem?,hlast] at ha
    cases ha
    exact hkey
  have hmap : (index.insert (key last) i).erase k = index.erase k := by
    refine Finmap.ext_lookup fun k' => ?_
    by_cases hself : k' = k
    · rw [hself,Finmap.lookup_erase,Finmap.lookup_erase]
    · rw [Finmap.lookup_erase_ne hself,Finmap.lookup_erase_ne hself,hkey,
        Finmap.lookup_insert_of_ne _ hself]
  rw [← hmap]
  exact h.swapRemove hk hlast

theorem mem_append (h : Positions key index l) {a : α} (hnew : index.lookup (key a) = none)
    (b : α) : b ∈ l ++ [a] ↔ b = a ∨ (b ∈ l ∧ key b ≠ key a) := by
  have hne : b ∈ l → key b ≠ key a := by
    intro hb heq
    have hsome := h.lookup_isSome_iff.mpr ⟨b,hb,heq⟩
    rw [hnew] at hsome
    cases hsome
  simp only [List.mem_append,List.mem_singleton]
  tauto

theorem mem_set (h : Positions key index l) {a : α} (hi : index.lookup (key a) = some i) (b : α) :
    b ∈ l.set i a ↔ b = a ∨ (b ∈ l ∧ key b ≠ key a) := by
  obtain ⟨old,hold,hkey⟩ := h.getElem? hi
  have hlt := h.lt_length hi
  simp only [List.mem_iff_getElem?]
  constructor
  · rintro ⟨j,hj⟩
    by_cases hij : i = j
    · subst hij
      rw [List.getElem?_set_self hlt] at hj
      exact .inl (Option.some.inj hj).symm
    · rw [List.getElem?_set_ne hij] at hj
      exact .inr ⟨⟨j,hj⟩,fun heq => hij (h.key_inj hold hj (hkey.trans heq.symm))⟩
  · rintro (rfl | ⟨⟨j,hj⟩,hne⟩)
    · exact ⟨i,List.getElem?_set_self hlt⟩
    · refine ⟨j,?_⟩
      rw [List.getElem?_set_ne,hj]
      rintro rfl
      rw [hold] at hj
      cases hj
      exact hne hkey

theorem mem_swapRemove (h : Positions key index l) (hk : index.lookup k = some i) {last : α}
    (hlast : l.getLast? = some last) (b : α) :
    b ∈ Landslide.swapRemove l i last ↔ b ∈ l ∧ key b ≠ k := by
  obtain ⟨a,ha,rfl⟩ := h.getElem? hk
  have hindexed : Indexed (fun b => (index.lookup (key b)).getD 0) l := by
    intro j c hc
    dsimp only
    rw [h.lookup hc,Option.getD_some]
  have hmem := Landslide.mem_swapRemove hindexed (List.mem_of_getElem? ha) hlast b
  rw [hk,Option.getD_some] at hmem
  rw [hmem]
  refine and_congr_right fun hb => not_congr ⟨fun heq => by rw [heq],fun heq => ?_⟩
  exact h.member_inj hb (List.mem_of_getElem? ha) heq

end Positions
end Landslide
