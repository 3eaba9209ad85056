import Mathlib.Algebra.Order.BigOperators.Group.List
import Mathlib.Tactic.Linarith

/-! # The weighted median

The elements of a list carry a time and a weight. The scan over the times in
ascending order stops where half of the weight is used up. A minority with less
than a third of the weight can not move the result past the times of the others.
-/
namespace Landslide
namespace WeightedMedian
variable {α : Type} (time weight : α → ℤ)

/-- The first element at which the weight `half` is used up. -/
def scan : ℤ → List α → Option α
  | _,[] => none
  | half,a :: rest => if half ≤ weight a then some a else scan (half - weight a) rest

def total (elements : List α) : ℤ := (elements.map weight).sum

section
variable {weight}

@[simp] theorem total_nil : total weight [] = 0 := rfl

@[simp] theorem total_cons (a : α) (rest : List α) :
    total weight (a :: rest) = weight a + total weight rest := by
  simp [total]

@[simp] theorem total_append (before after : List α) :
    total weight (before ++ after) = total weight before + total weight after := by
  simp [total]

theorem total_perm {l l' : List α} (h : l.Perm l') : total weight l = total weight l' :=
  (h.map _).sum_eq

theorem total_nonneg {elements : List α} (hpos : ∀ a ∈ elements, 0 < weight a) :
    0 ≤ total weight elements := by
  apply List.sum_nonneg
  intro n hn
  obtain ⟨a,ha,rfl⟩ := List.mem_map.mp hn
  exact (hpos a ha).le

theorem scan_isSome {elements : List α} (hne : elements ≠ []) {half : ℤ}
    (h : half ≤ total weight elements) : ∃ a, scan weight half elements = some a := by
  induction elements generalizing half with
  | nil => exact absurd rfl hne
  | cons a rest ih =>
    rw [total_cons] at h
    by_cases ha : half ≤ weight a
    · exact ⟨a,if_pos ha⟩
    · have hrest : rest ≠ [] := by
        rintro rfl
        simp only [total_nil] at h
        omega
      obtain ⟨b,hb⟩ := ih hrest (show half - weight a ≤ _ by omega)
      exact ⟨b,(if_neg ha).trans hb⟩

theorem scan_map {β : Type} {f : β → α} {half : ℤ} {elements : List β} :
    scan weight half (elements.map f) = (scan (fun b => weight (f b)) half elements).map f := by
  induction elements generalizing half with
  | nil => rfl
  | cons b rest ih =>
    by_cases hb : half ≤ weight (f b)
    · simp [scan,hb]
    · simp [scan,hb,ih]

/-- Where the scan stops, the weight up to and with the element reaches the half, and the
weight before it does not. -/
theorem scan_split {elements : List α} {half : ℤ} {a : α}
    (h : scan weight half elements = some a) :
    ∃ before after, elements = before ++ a :: after ∧
      half ≤ total weight before + weight a ∧ (before = [] ∨ total weight before < half) := by
  induction elements generalizing half with
  | nil => cases h
  | cons b rest ih =>
    by_cases hb : half ≤ weight b
    · obtain rfl : b = a := Option.some.inj ((if_pos hb).symm.trans h)
      exact ⟨[],rest,rfl,by simpa using hb,.inl rfl⟩
    · obtain ⟨before,after,rfl,hreach,hbefore⟩ := ih ((if_neg hb).symm.trans h)
      refine ⟨b :: before,after,rfl,?_,.inr ?_⟩
      · rw [total_cons]
        omega
      · rw [total_cons]
        rcases hbefore with rfl | hbefore
        · simp only [total_nil]
          omega
        · omega

end

section
variable {time weight} {elements : List α} {a : α} {faulty : α → Bool}
  (hsorted : elements.Pairwise (fun a b => time a ≤ time b))
  (hpos : ∀ a ∈ elements, 0 < weight a)
  (hminority : 3 * total weight (elements.filter faulty) < total weight elements)
  (h : scan weight (total weight elements / 2) elements = some a)
include hsorted hpos hminority h

/-- If all other times were later, the faulty elements would use up the half. -/
theorem exists_time_le : ∃ b ∈ elements, faulty b = false ∧ time b ≤ time a := by
  by_contra hnone
  push Not at hnone
  obtain ⟨before,after,rfl,hreach,_⟩ := scan_split h
  have hfaulty : ∀ b ∈ before ++ [a], faulty b = true := by
    intro b hb
    by_contra hb'
    have hle : time b ≤ time a := by
      rcases List.mem_append.mp hb with hb | hb
      · exact (List.pairwise_append.mp hsorted).2.2 b hb a List.mem_cons_self
      · rw [List.mem_singleton.mp hb]
    have hmem : b ∈ before ++ a :: after := by
      rcases List.mem_append.mp hb with hb | hb
      · exact List.mem_append_left _ hb
      · rw [List.mem_singleton.mp hb]
        simp
    exact absurd hle (not_le.mpr (hnone b hmem (by simpa using hb')))
  have hprefix : (before ++ [a]).filter faulty = before ++ [a] := List.filter_eq_self.mpr hfaulty
  have hsplit : (before ++ a :: after).filter faulty = before ++ [a] ++ after.filter faulty := by
    rw [← hprefix,← List.filter_append,List.append_assoc,List.singleton_append]
  have hafter : 0 ≤ total weight (after.filter faulty) :=
    total_nonneg (fun b hb => hpos b
      (List.mem_append_right _ (List.mem_cons_of_mem _ (List.mem_of_mem_filter hb))))
  have hbefore : 0 ≤ total weight before :=
    total_nonneg (fun b hb => hpos b (List.mem_append_left _ hb))
  have ha : 0 < weight a := hpos a (by simp)
  rw [hsplit] at hminority
  simp only [total_append,total_cons,total_nil] at hminority hreach
  omega

/-- If all other times were earlier, they would have used up the half before. -/
theorem exists_le_time : ∃ b ∈ elements, faulty b = false ∧ time a ≤ time b := by
  by_contra hnone
  push Not at hnone
  obtain ⟨before,after,rfl,_,hbefore⟩ := scan_split h
  have hfaulty : ∀ b ∈ a :: after, faulty b = true := by
    intro b hb
    by_contra hb'
    have hle : time a ≤ time b := by
      rcases List.mem_cons.mp hb with rfl | hb
      · exact le_rfl
      · exact (List.pairwise_cons.mp (List.pairwise_append.mp hsorted).2.1).1 b hb
    exact absurd hle (not_le.mpr (hnone b (List.mem_append_right _ hb) (by simpa using hb')))
  have hsplit : (before ++ a :: after).filter faulty = before.filter faulty ++ a :: after := by
    rw [List.filter_append,List.filter_eq_self.mpr hfaulty]
  have hpart : 0 ≤ total weight (before.filter faulty) :=
    total_nonneg (fun b hb => hpos b (List.mem_append_left _ (List.mem_of_mem_filter hb)))
  have hrest : 0 < total weight (a :: after) := by
    have hafter : 0 ≤ total weight after :=
      total_nonneg (fun b hb => hpos b (List.mem_append_right _ (List.mem_cons_of_mem _ hb)))
    have ha : 0 < weight a := hpos a (by simp)
    rw [total_cons]
    omega
  rw [hsplit] at hminority
  rw [total_append] at hminority hbefore
  rw [total_append] at hminority
  rcases hbefore with rfl | hbefore
  · simp only [total_nil] at hminority
    omega
  · omega

end
end WeightedMedian
end Landslide
