import Mathlib.Data.List.Nodup
import Mathlib.Data.List.Perm.Basic

/-! # Sorting by a byte string

Values with distinct keys have one order, whatever order they come in.
-/
namespace Landslide
variable {α : Type} {key : α → List UInt8} {l l' : List α}

theorem mergeSort_key_pairwise (key : α → List UInt8) (l : List α) :
    (l.mergeSort fun a b => ¬key b < key a).Pairwise fun a b => ¬key b < key a := by
  refine (List.pairwise_mergeSort (fun a b c hab hbc => ?_) (fun a b => ?_) l).imp
    fun {a b} hab => of_decide_eq_true hab
  · exact decide_eq_true (List.le_trans (of_decide_eq_true hab) (of_decide_eq_true hbc))
  · rw [Bool.or_eq_true]
    exact (List.le_total (key a) (key b)).imp decide_eq_true decide_eq_true

theorem nodup_keys_of_pairwise (h : l.Pairwise fun a b => key a < key b) : (l.map key).Nodup := by
  rw [List.Nodup,List.pairwise_map]
  refine h.imp fun {a b} hlt heq => ?_
  rw [heq] at hlt
  exact List.lt_irrefl _ hlt

theorem mergeSort_key_strict (h : (l.map key).Nodup) :
    (l.mergeSort fun a b => ¬key b < key a).Pairwise fun a b => key a < key b := by
  have hnodup := (List.mergeSort_perm l fun a b => ¬key b < key a).map key |>.nodup_iff.mpr h
  refine (mergeSort_key_pairwise key l).imp₂ (fun a b hle hne => ?_) (List.pairwise_map.mp hnodup)
  exact Decidable.byContradiction fun hlt => hne (List.le_antisymm hle hlt)

theorem perm_eq_of_strict (hp : l.Perm l') (h : l.Pairwise fun a b => key a < key b)
    (h' : l'.Pairwise fun a b => key a < key b) : l = l' :=
  hp.eq_of_pairwise (fun _ _ _ _ hab hba => absurd hba (List.lt_asymm hab)) h h'

theorem mergeSort_key_eq (hp : l.Perm l') (h : l'.Pairwise fun a b => key a < key b) :
    (l.mergeSort fun a b => ¬key b < key a) = l' :=
  perm_eq_of_strict ((List.mergeSort_perm _ _).trans hp)
    (mergeSort_key_strict ((hp.map key).nodup_iff.mpr (nodup_keys_of_pairwise h))) h

end Landslide
