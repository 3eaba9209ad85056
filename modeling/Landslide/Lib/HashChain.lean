import Mathlib.Algebra.Order.Group.Int
import Mathlib.Tactic.Common

/-! # Chains of blocks linked by identifiers

A list of entries, newest first, each of which names its predecessor and is one higher.
Such a list has one entry for each height, and everything that is monotone along the
links is monotone in the height.
-/
namespace Landslide
variable {α ι : Type}

/-- What an entry of a chain shows: its height, its own identifier, the identifier of
its predecessor and its time. -/
structure Linking (α ι : Type) where
  height : α → ℤ
  id : α → ι
  parent : α → ι
  time : α → ℤ

namespace Linking
variable (L : Linking α ι)

structure Extends (newer older : α) : Prop where
  height : L.height newer = L.height older + 1
  parent : L.parent newer = L.id older
  time : L.time older ≤ L.time newer

inductive ChainFrom (first : ℤ) : List α → Prop
  | single (a : α) (h : L.height a = first) : ChainFrom first [a]
  | extend (a b : α) (l : List α) (h : L.Extends a b) (hl : ChainFrom first (b :: l)) :
      ChainFrom first (a :: b :: l)

namespace ChainFrom
variable {L} {first : ℤ}

theorem height_bounds {a : α} {l : List α} (h : L.ChainFrom first (a :: l)) {x : α}
    (hx : x ∈ a :: l) : first ≤ L.height x ∧ L.height x ≤ L.height a := by
  induction l generalizing a x with
  | nil =>
    cases h with
    | single _ ha =>
      obtain rfl := List.mem_singleton.mp hx
      exact ⟨ha.ge,le_rfl⟩
  | cons b l ih =>
    cases h with
    | extend _ _ _ hab hl =>
      have hb := hab.height
      rcases List.mem_cons.mp hx with rfl | hx
      · have := ih hl List.mem_cons_self
        omega
      · have := ih hl hx
        omega

theorem exists_height {a : α} {l : List α} (h : L.ChainFrom first (a :: l)) {k : ℤ}
    (hfirst : first ≤ k) (hlast : k ≤ L.height a) : ∃ x ∈ a :: l, L.height x = k := by
  induction l generalizing a with
  | nil =>
    cases h with
    | single _ ha => exact ⟨a,List.mem_cons_self,by omega⟩
  | cons b l ih =>
    cases h with
    | extend _ _ _ hab hl =>
      by_cases hk : k = L.height a
      · exact ⟨a,List.mem_cons_self,hk.symm⟩
      · have hb := hab.height
        obtain ⟨x,hx,hxk⟩ := ih hl (by omega)
        exact ⟨x,List.mem_cons_of_mem a hx,hxk⟩

/-- The heights tell the entries apart; the times follow them, and so do the links. -/
theorem ordered {l : List α} (h : L.ChainFrom first l) {x y : α} (hx : x ∈ l) (hy : y ∈ l)
    (hxy : L.height x ≤ L.height y) : L.time x ≤ L.time y ∧ (L.height x = L.height y → x = y) ∧
      (L.height y = L.height x + 1 → L.parent y = L.id x) := by
  induction h generalizing x y with
  | single a ha =>
    obtain rfl := List.mem_singleton.mp hx
    obtain rfl := List.mem_singleton.mp hy
    exact ⟨le_rfl,fun _ => rfl,fun hnext => by omega⟩
  | extend a b l hab hl ih =>
    have hb := hab.height
    rcases List.mem_cons.mp hx with rfl | hxl
    · -- nothing is above the newest entry
      rcases List.mem_cons.mp hy with rfl | hyl
      · exact ⟨le_rfl,fun _ => rfl,fun hnext => by omega⟩
      · have := (hl.height_bounds hyl).2
        omega
    · rcases List.mem_cons.mp hy with rfl | hyl
      · have hle := (hl.height_bounds hxl).2
        obtain ⟨htime,heq,_⟩ := ih hxl List.mem_cons_self hle
        refine ⟨htime.trans hab.time,fun hsame => by omega,fun hnext => ?_⟩
        rw [heq (by omega)]
        exact hab.parent
      · exact ih hxl hyl hxy

end ChainFrom
end Linking
end Landslide
