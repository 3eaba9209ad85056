import Mathlib.Data.Finmap
import Mathlib.Data.List.Nodup
import Mathlib.Data.List.Perm.Basic
import Mathlib.Logic.Function.Basic

/-! # Sequences of updates of a map

An update sets or removes the value of one key. A sequence of updates can be cut down to
the last update of each key, and what is left can be carried out in any order.
-/
namespace Landslide
variable {α K V : Type} [DecidableEq K]

/-- What an update does: the key it is for and the value the key gets. -/
structure Updating (α K V : Type) where
  key : α → K
  value : α → Option V

/-- The first element of each key, the keys in `seen` left out. -/
def firstSeen (key : α → K) : List α → List K → List α
  | [], _ => []
  | a :: l, seen =>
    if key a ∈ seen then firstSeen key l seen else a :: firstSeen key l (key a :: seen)

theorem firstSeen_keys (key : α → K) (l : List α) (seen : List K) :
    ((firstSeen key l seen).map key).Nodup ∧ ∀ k ∈ (firstSeen key l seen).map key, k ∉ seen := by
  induction l generalizing seen with
  | nil => simp [firstSeen]
  | cons a l ih =>
    rw [firstSeen]
    by_cases ha : key a ∈ seen
    · rw [if_pos ha]
      exact ih seen
    · obtain ⟨hnodup,hdisjoint⟩ := ih (key a :: seen)
      rw [if_neg ha,List.map_cons]
      refine ⟨List.nodup_cons.mpr ⟨fun h => hdisjoint _ h List.mem_cons_self,hnodup⟩,?_⟩
      intro k hk
      rcases List.mem_cons.mp hk with rfl | hk
      · exact ha
      · exact fun hseen => hdisjoint k hk (List.mem_cons_of_mem _ hseen)

namespace Updating
variable (U : Updating α K V)

def apply (f : K → Option V) (a : α) : K → Option V := Function.update f (U.key a) (U.value a)

def applyAll (f : K → Option V) (l : List α) : K → Option V := l.foldl U.apply f

theorem applyAll_concat (f : K → Option V) (l : List α) (a : α) :
    U.applyAll f (l ++ [a]) = U.apply (U.applyAll f l) a := by
  simp [applyAll]

/-- The value of a key depends on what the key had before and on the updates only. -/
theorem applyAll_congr {f g : K → Option V} {k : K} (h : f k = g k) (l : List α) :
    U.applyAll f l k = U.applyAll g l k := by
  induction l generalizing f g with
  | nil => exact h
  | cons a l ih =>
    apply ih
    by_cases hk : k = U.key a
    · subst hk
      simp [apply]
    · simp [apply,hk,h]

/-- Updates of different keys can be carried out in any order. -/
theorem applyAll_perm {l l' : List α} (h : l.Perm l') (hkeys : (l.map U.key).Nodup)
    (f : K → Option V) : U.applyAll f l = U.applyAll f l' := by
  apply h.foldl_eq'
  intro a ha b hb f
  by_cases hab : U.key a = U.key b
  · rw [List.inj_on_of_nodup_map hkeys ha hb hab]
  · exact Function.update_comm hab _ _ f

/-- Reading a sequence backwards and keeping the first update of each key leaves the
effect of the sequence unchanged. -/
theorem applyAll_firstSeen (l : List α) (seen : List K) (f : K → Option V) (k : K) :
    U.applyAll f (firstSeen U.key l seen) k =
      if k ∈ seen then f k else U.applyAll f l.reverse k := by
  induction l generalizing seen f with
  | nil => simp [firstSeen,applyAll]
  | cons a l ih =>
    rw [firstSeen,List.reverse_cons,applyAll_concat]
    by_cases ha : U.key a ∈ seen
    · rw [if_pos ha,ih]
      by_cases hk : k ∈ seen
      · rw [if_pos hk,if_pos hk]
      · have hne : k ≠ U.key a := fun h => hk (h ▸ ha)
        simp [hk,apply,hne]
    · have hcons : U.applyAll f (a :: firstSeen U.key l (U.key a :: seen)) k =
          U.applyAll (U.apply f a) (firstSeen U.key l (U.key a :: seen)) k := rfl
      rw [if_neg ha,hcons,ih]
      by_cases hka : k = U.key a
      · -- the update that is kept was the last of its key
        subst hka
        simp [ha,apply]
      · have hbefore : U.apply f a k = f k := by simp [apply,hka]
        rw [U.applyAll_congr hbefore]
        simp [apply,hka]

end Updating
/-! ## Finite maps -/

theorem lookup_insert_eq_ite (m : Finmap fun _ : K => V) (k k' : K) (v : V) :
    (m.insert k v).lookup k' = if k' = k then some v else m.lookup k' := by
  split
  · next h => rw [h,Finmap.lookup_insert]
  · next h => rw [Finmap.lookup_insert_of_ne _ h]

theorem lookup_erase_eq_ite (m : Finmap fun _ : K => V) (k k' : K) :
    (m.erase k).lookup k' = if k' = k then none else m.lookup k' := by
  split
  · next h => rw [h,Finmap.lookup_erase]
  · next h => rw [Finmap.lookup_erase_ne h]

def modifyAt (f : V → V) (m : Finmap fun _ : K => V) (k : K) : Finmap fun _ : K => V :=
  match m.lookup k with
  | none => m
  | some v => m.insert k (f v)

theorem lookup_modifyAt (f : V → V) (m : Finmap fun _ : K => V) (k k' : K) :
    (modifyAt f m k).lookup k' = if k' = k then (m.lookup k').map f else m.lookup k' := by
  unfold modifyAt
  split
  · next h =>
    split
    · next heq => rw [heq,h,Option.map_none]
    · rfl
  · next v h =>
    rw [lookup_insert_eq_ite]
    split
    · next heq => rw [heq,h,Option.map_some]
    · rfl

def modifyAll (f : V → V) (order : List K) (m : Finmap fun _ : K => V) : Finmap fun _ : K => V :=
  order.foldl (modifyAt f) m

theorem lookup_modifyAll (f : V → V) {order : List K} (hnodup : order.Nodup)
    (m : Finmap fun _ : K => V) (k : K) :
    (modifyAll f order m).lookup k = if k ∈ order then (m.lookup k).map f else m.lookup k := by
  induction order generalizing m with
  | nil => simp [modifyAll]
  | cons k' order ih =>
    obtain ⟨hnew,hrest⟩ := List.nodup_cons.mp hnodup
    change (modifyAll f order (modifyAt f m k')).lookup k = _
    rw [ih hrest,lookup_modifyAt]
    by_cases heq : k = k'
    · subst heq
      simp [hnew]
    · simp [heq]

end Landslide
