import Mathlib.Algebra.BigOperators.Group.Finset.Piecewise

/-! # Threads over a shared state

Threads are numbered in the order in which they start. Each has a place in its program, and a
step moves one thread and may change the shared state. What the threads own together is a sum
over the threads, of which a step changes one term.
-/
namespace Landslide

structure Threads (σ π : Type) where
  shared : σ
  started : ℕ
  place : ℕ → π

namespace Threads
variable {σ π : Type}

def start (t : Threads σ π) (p : π) : Threads σ π :=
  ⟨t.shared,t.started + 1,Function.update t.place t.started p⟩

/-- The thread comes to another place, in a shared state that it may have changed. -/
def move (t : Threads σ π) (i : ℕ) (next : σ × π) : Threads σ π :=
  ⟨next.1,t.started,Function.update t.place i next.2⟩

end Threads

/-- What the first `n` members own together. -/
def totalOf {π : Type} (f : π → ℕ) (n : ℕ) (place : ℕ → π) : ℕ :=
  ∑ i ∈ Finset.range n, f (place i)

section
variable {π : Type} {f : π → ℕ} {n i : ℕ} {place : ℕ → π}

theorem totalOf_update (hi : i < n) (p : π) :
    totalOf f n (Function.update place i p) + f (place i) = totalOf f n place + f p := by
  have hmem : i ∈ Finset.range n := Finset.mem_range.mpr hi
  have hafter : totalOf f n (Function.update place i p) =
      f p + ∑ j ∈ Finset.range n \ {i}, f (place j) :=
    calc totalOf f n (Function.update place i p)
      _ = ∑ j ∈ Finset.range n, Function.update (f ∘ place) i (f p) j := by
        rw [← Function.comp_update]
        rfl
      _ = f p + ∑ j ∈ Finset.range n \ {i}, f (place j) := Finset.sum_update_of_mem hmem _ _
  rw [hafter,totalOf,Finset.sum_eq_sum_sdiff_singleton_add hmem]
  omega

theorem totalOf_succ_update (p : π) :
    totalOf f (n + 1) (Function.update place n p) = totalOf f n place + f p := by
  have hrest : ∑ j ∈ Finset.range n, f (Function.update place n p j) = totalOf f n place :=
    Finset.sum_congr rfl fun j hj => by
      rw [Function.update_of_ne (Finset.mem_range.mp hj).ne]
  rw [totalOf,Finset.sum_range_succ,hrest,Function.update_self]

theorem totalOf_eq_zero (h : ∀ i, f (place i) = 0) : totalOf f n place = 0 :=
  Finset.sum_eq_zero fun i _ => h i

theorem totalOf_eq_single (hi : i < n) (h : ∀ j, j ≠ i → f (place j) = 0) :
    totalOf f n place = f (place i) :=
  Finset.sum_eq_single i (fun j _ hj => h j hj)
    fun hnot => absurd (Finset.mem_range.mpr hi) hnot

theorem le_totalOf (hi : i < n) : f (place i) ≤ totalOf f n place := by
  rw [totalOf,Finset.sum_eq_sum_sdiff_singleton_add (Finset.mem_range.mpr hi)]
  exact Nat.le_add_left _ _

/-- A number of the shared state that the threads own together stays so, if a step changes it as
it changes what the thread owns. -/
theorem Threads.counted_move {σ : Type} {t : Threads σ π} {g : σ → ℕ} {s : σ} {p : π}
    (h : g t.shared = totalOf f t.started t.place) (hi : i < t.started)
    (hmove : g s + f (t.place i) = g t.shared + f p) :
    g (t.move i (s,p)).shared = totalOf f (t.move i (s,p)).started (t.move i (s,p)).place := by
  have htotal : totalOf f t.started (Function.update t.place i p) + f (t.place i) =
      totalOf f t.started t.place + f p := totalOf_update hi p
  change g s = totalOf f t.started (Function.update t.place i p)
  omega

end
end Landslide
