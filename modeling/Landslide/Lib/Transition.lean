import Mathlib.Tactic.Common

/-! # Guarded runs of a state machine

The states a machine can be in after any sequence of inputs, when every input
meets a guard that may look at the state it is given in. A stronger guard gives
fewer runs, so what holds for all runs is the case of the guard that is always true.
-/
namespace Landslide
variable {σ α : Type}

inductive Reaches (start : σ → Prop) (guard : σ → α → Prop) (step : σ → α → σ) : σ → Prop
  | start {s : σ} (h : start s) : Reaches start guard step s
  | step {s : σ} {a : α} (hs : Reaches start guard step s) (h : guard s a) :
      Reaches start guard step (step s a)

namespace Reaches
variable {start start' : σ → Prop} {guard guard' : σ → α → Prop} {step : σ → α → σ}

theorem invariant {P : σ → Prop} (hstart : ∀ s, start s → P s)
    (hstep : ∀ s a, P s → guard s a → P (step s a)) {s : σ}
    (hs : Reaches start guard step s) : P s := by
  induction hs with
  | start h => exact hstart _ h
  | step _ h ih => exact hstep _ _ ih h

end Reaches

/-- A stretch of a run: the inputs between two states, each meeting the guard. -/
inductive Steps (guard : σ → α → Prop) (step : σ → α → σ) : σ → List α → σ → Prop
  | nil (s : σ) : Steps guard step s [] s
  | cons {s t : σ} {a : α} {as : List α} (h : guard s a) (hs : Steps guard step (step s a) as t) :
      Steps guard step s (a :: as) t

theorem Reaches.steps {start : σ → Prop} {guard guard' : σ → α → Prop} {step : σ → α → σ}
    (hguard : ∀ s a, guard' s a → guard s a) {s t : σ} {as : List α}
    (hs : Reaches start guard step s) (h : Steps guard' step s as t) : Reaches start guard step t := by
  induction h with
  | nil s => exact hs
  | cons ha _ ih => exact ih (hs.step (hguard _ _ ha))

/-- When a condition on each input decides whether a property survives the step, the property
holds all along a run exactly when it holds at first and every input meets the condition. -/
theorem forall_isPrefix_iff {P : σ → Prop} {condition : σ → α → Prop} {step : σ → α → σ}
    (hstep : ∀ s a, P s → (P (step s a) ↔ condition s a)) (s : σ) (as : List α) :
    (∀ pre, pre <+: as → P (pre.foldl step s)) ↔
      P s ∧ ∀ pre a, pre ++ [a] <+: as → condition (pre.foldl step s) a := by
  induction as generalizing s with
  | nil =>
    constructor
    · intro h
      refine ⟨h [] List.prefix_rfl,fun pre a hpre => ?_⟩
      simp at hpre
    · rintro ⟨hs,_⟩ pre hpre
      rwa [List.prefix_nil.mp hpre]
  | cons a as ih =>
    constructor
    · intro h
      have hs : P s := h [] List.nil_prefix
      obtain ⟨hnext,hrest⟩ := (ih (step s a)).mp fun pre hpre =>
        h (a :: pre) (List.cons_prefix_cons.mpr ⟨rfl,hpre⟩)
      refine ⟨hs,fun pre b hpre => ?_⟩
      cases pre with
      | nil =>
        obtain ⟨rfl,_⟩ := List.cons_prefix_cons.mp hpre
        exact (hstep s b hs).mp hnext
      | cons c pre =>
        obtain ⟨rfl,htail⟩ := List.cons_prefix_cons.mp hpre
        exact hrest pre b htail
    · rintro ⟨hs,h⟩ pre hpre
      have hnext : P (step s a) := (hstep s a hs).mpr (h [] a (by simp))
      cases pre with
      | nil => exact hs
      | cons c pre =>
        obtain ⟨rfl,htail⟩ := List.cons_prefix_cons.mp hpre
        refine (ih (step s c)).mpr ⟨hnext,fun pre b hb => ?_⟩ pre htail
        exact h (c :: pre) b (List.cons_prefix_cons.mpr ⟨rfl,hb⟩)

end Landslide
