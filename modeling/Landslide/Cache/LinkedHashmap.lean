import Mathlib.Data.List.Nodup
import Mathlib.Tactic.Common

/-! # The linked hash map behind both block caches

The source keeps a Go map from keys to elements of a doubly linked list, oldest
element first. The two always describe the same entries, so the map is embedded as
its list of entries, and the field says that no key has two of them.
-/
namespace Landslide
variable {K V : Type}

@[ext] structure LinkedHashmap (K V : Type) where
  entries : List (K × V)
  nodup : (entries.map Prod.fst).Nodup

namespace LinkedHashmap

def new : LinkedHashmap K V := ⟨[],List.nodup_nil⟩

def len (m : LinkedHashmap K V) : ℕ := m.entries.length

def oldest (m : LinkedHashmap K V) : Option (K × V) := m.entries.head?

variable [DecidableEq K]

def without (k : K) (entries : List (K × V)) : List (K × V) :=
  entries.filter (fun e => e.1 ≠ k)

theorem without_keys_sublist (k : K) (entries : List (K × V)) :
    ((without k entries).map Prod.fst).Sublist (entries.map Prod.fst) :=
  List.filter_sublist.map _

theorem notMem_without_keys (k : K) (entries : List (K × V)) :
    k ∉ (without k entries).map Prod.fst := by
  simp [without]

theorem without_eq_self {k : K} {entries : List (K × V)} (h : k ∉ entries.map Prod.fst) :
    without k entries = entries := by
  refine List.filter_eq_self.mpr fun e he => ?_
  have hne : e.1 ≠ k := fun hk => h (List.mem_map.mpr ⟨e,he,hk⟩)
  simpa using hne

def get (m : LinkedHashmap K V) (k : K) : Option V :=
  (m.entries.find? (fun e => e.1 = k)).map Prod.snd

/-- An entry of an existing key moves to the back and takes the new value; a new
key is pushed to the back. -/
def put (m : LinkedHashmap K V) (k : K) (v : V) : LinkedHashmap K V where
  entries := without k m.entries ++ [(k,v)]
  nodup := by
    rw [List.map_append,List.nodup_append]
    refine ⟨m.nodup.sublist (without_keys_sublist k m.entries),by simp,?_⟩
    intro a ha b hb hab
    have hk : a = k := hab.trans (by simpa using hb)
    subst hk
    exact notMem_without_keys a m.entries ha

def delete (m : LinkedHashmap K V) (k : K) : LinkedHashmap K V where
  entries := without k m.entries
  nodup := m.nodup.sublist (without_keys_sublist k m.entries)

/-- Dropping the oldest `n` entries, as the eviction loops do one by one. -/
def dropOldest (m : LinkedHashmap K V) (n : ℕ) : LinkedHashmap K V where
  entries := m.entries.drop n
  nodup := m.nodup.sublist ((List.drop_sublist n m.entries).map _)

theorem find_eq_some_iff {entries : List (K × V)} (h : (entries.map Prod.fst).Nodup)
    {k : K} {v : V} :
    (entries.find? (fun e => e.1 = k)).map Prod.snd = some v ↔ (k,v) ∈ entries := by
  induction entries with
  | nil => simp
  | cons e rest ih =>
    obtain ⟨a,b⟩ := e
    rw [List.map_cons,List.nodup_cons] at h
    by_cases hak : a = k
    · subst hak
      have hnot : ∀ w, (a,w) ∉ rest := fun w hw => h.1 (List.mem_map.mpr ⟨(a,w),hw,rfl⟩)
      simp [hnot v,eq_comm]
    · simp only [List.find?_cons,hak,decide_false,List.mem_cons,Prod.mk.injEq,Ne.symm hak,
        false_and,false_or]
      exact ih h.2

theorem get_eq_some_iff (m : LinkedHashmap K V) {k : K} {v : V} :
    m.get k = some v ↔ (k,v) ∈ m.entries := find_eq_some_iff m.nodup

theorem get_eq_none_iff (m : LinkedHashmap K V) {k : K} :
    m.get k = none ↔ ∀ v, (k,v) ∉ m.entries := by
  constructor
  · intro h v hv
    rw [(m.get_eq_some_iff).mpr hv] at h
    cases h
  · intro h
    cases hg : m.get k with
    | none => rfl
    | some v => exact absurd ((m.get_eq_some_iff).mp hg) (h v)

theorem notMem_keys_of_get_eq_none {m : LinkedHashmap K V} {k : K} (h : m.get k = none) :
    k ∉ m.entries.map Prod.fst := by
  intro hk
  obtain ⟨e,he,rfl⟩ := List.mem_map.mp hk
  exact m.get_eq_none_iff.mp h e.2 he

theorem exists_split_of_get {m : LinkedHashmap K V} {k : K} {v : V} (h : m.get k = some v) :
    ∃ before after, m.entries = before ++ (k,v) :: after :=
  List.append_of_mem (m.get_eq_some_iff.mp h)

omit [DecidableEq K] in
theorem notMem_of_split {m : LinkedHashmap K V} {k : K} {v : V} {before after : List (K × V)}
    (h : m.entries = before ++ (k,v) :: after) : k ∉ (before ++ after).map Prod.fst := by
  have hnodup := m.nodup
  rw [h,List.map_append,List.map_cons,List.nodup_middle,List.nodup_cons,← List.map_append] at hnodup
  exact hnodup.1

theorem without_of_split {m : LinkedHashmap K V} {k : K} {v : V} {before after : List (K × V)}
    (h : m.entries = before ++ (k,v) :: after) : without k m.entries = before ++ after := by
  have hself := without_eq_self (notMem_of_split h)
  rw [← hself,h]
  simp [without]

theorem delete_oldest {m : LinkedHashmap K V} {e : K × V} {rest : List (K × V)}
    (h : m.entries = e :: rest) : m.delete e.1 = m.dropOldest 1 := by
  refine LinkedHashmap.ext ?_
  have hsplit : m.entries = [] ++ (e.1,e.2) :: rest := h
  have hrest : without e.1 m.entries = rest := without_of_split hsplit
  change without e.1 m.entries = m.entries.drop 1
  rw [hrest,h,List.drop_one,List.tail_cons]

@[simp] theorem get_new (k : K) : (new : LinkedHashmap K V).get k = none := rfl

theorem mem_without_iff {k : K} {entries : List (K × V)} {e : K × V} :
    e ∈ without k entries ↔ e ∈ entries ∧ e.1 ≠ k := by
  simp [without]

theorem get_put (m : LinkedHashmap K V) (k k' : K) (v : V) :
    (m.put k v).get k' = if k' = k then some v else m.get k' := by
  split
  · next h =>
    subst h
    rw [get_eq_some_iff]
    simp [put]
  · next h =>
    apply Option.ext
    intro w
    rw [get_eq_some_iff,get_eq_some_iff]
    simp [put,mem_without_iff,h]

theorem get_delete (m : LinkedHashmap K V) (k k' : K) :
    (m.delete k).get k' = if k' = k then none else m.get k' := by
  split
  · next h =>
    subst h
    rw [get_eq_none_iff]
    intro w hw
    exact (mem_without_iff.mp hw).2 rfl
  · next h =>
    apply Option.ext
    intro w
    rw [get_eq_some_iff,get_eq_some_iff]
    simp [delete,mem_without_iff,h]

theorem get_put_self (m : LinkedHashmap K V) {k : K} {v : V} (h : m.get k = some v) (k' : K) :
    (m.put k v).get k' = m.get k' := by
  rw [get_put]
  split
  · next hk => rw [hk,h]
  · rfl

theorem get_dropOldest (m : LinkedHashmap K V) {n : ℕ} {k : K} {v : V}
    (h : (m.dropOldest n).get k = some v) : m.get k = some v := by
  rw [get_eq_some_iff] at h ⊢
  exact List.mem_of_mem_drop h

end LinkedHashmap
end Landslide
