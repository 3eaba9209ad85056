import Landslide.Cache.LinkedHashmap
import Mathlib.Data.Int.Basic

/-! # The byte-bounded least-recently-used cache

Entries carry a size given by the cache's own size function. A value larger than
the whole cache empties it; otherwise the oldest entries leave until the new one fits.
-/
namespace Landslide
variable {K V : Type}

structure SizedLRU (K V : Type) where
  elements : LinkedHashmap K V
  maxSize : ℤ
  currentSize : ℤ
  size : K → V → ℤ

namespace SizedLRU

def new (maxSize : ℤ) (size : K → V → ℤ) : SizedLRU K V := ⟨.new,maxSize,0,size⟩

def flush (c : SizedLRU K V) : SizedLRU K V := { c with elements := .new, currentSize := 0 }

/-- How many of the oldest entries the eviction loop removes, and the size it is
left with. The loop looks at the front of the list while the size exceeds `room`;
an empty list ends it. -/
def evictions (size : K → V → ℤ) (room : ℤ) : List (K × V) → ℤ → ℕ × ℤ
  | [], currentSize => (0,currentSize)
  | (k,v) :: rest, currentSize =>
    if currentSize > room then
      let next := evictions size room rest (currentSize - size k v)
      (next.1 + 1,next.2)
    else (0,currentSize)

variable [DecidableEq K]

def peek (c : SizedLRU K V) (k : K) : Option V := c.elements.get k

def get (c : SizedLRU K V) (k : K) : Option V × SizedLRU K V :=
  match c.elements.get k with
  | none => (none,c)
  | some v => (some v,{ c with elements := c.elements.put k v })

/-- The size without the value a key has now; its entry stays in the list. -/
def releasedSize (c : SizedLRU K V) (k : K) : ℤ :=
  match c.elements.get k with
  | some old => c.currentSize - c.size k old
  | none => c.currentSize

def put (c : SizedLRU K V) (k : K) (v : V) : SizedLRU K V :=
  let newEntrySize := c.size k v
  if newEntrySize > c.maxSize then c.flush
  else
    let evicted := evictions c.size (c.maxSize - newEntrySize) c.elements.entries (c.releasedSize k)
    { c with
      elements := (c.elements.dropOldest evicted.1).put k v
      currentSize := evicted.2 + newEntrySize }

def evict (c : SizedLRU K V) (k : K) : SizedLRU K V :=
  match c.elements.get k with
  | none => c
  | some v =>
    { c with elements := c.elements.delete k, currentSize := c.currentSize - c.size k v }

@[simp] theorem peek_new (maxSize : ℤ) (size : K → V → ℤ) (k : K) :
    (new maxSize size).peek k = none := rfl

@[simp] theorem get_new (maxSize : ℤ) (size : K → V → ℤ) (k : K) :
    (new maxSize size).get k = (none,new maxSize size) := rfl

@[simp] theorem peek_flush (c : SizedLRU K V) (k : K) : c.flush.peek k = none := rfl

@[simp] theorem get_fst (c : SizedLRU K V) (k : K) : (c.get k).1 = c.peek k := by
  unfold get peek
  cases c.elements.get k <;> rfl

@[simp] theorem peek_get (c : SizedLRU K V) (k k' : K) : (c.get k).2.peek k' = c.peek k' := by
  unfold get
  cases h : c.elements.get k with
  | none => rfl
  | some v => exact c.elements.get_put_self h k'

theorem peek_put {c : SizedLRU K V} {k k' : K} {v v' : V}
    (h : (c.put k v).peek k' = some v') :
    (k' = k ∧ v' = v) ∨ (k' ≠ k ∧ c.peek k' = some v') := by
  by_cases hbig : c.size k v > c.maxSize
  · simp [put,hbig] at h
  · simp only [put,if_neg hbig,peek,LinkedHashmap.get_put] at h
    split at h
    · next hk => exact .inl ⟨hk,(Option.some.inj h).symm⟩
    · next hk => exact .inr ⟨hk,c.elements.get_dropOldest h⟩

theorem peek_put_self {c : SizedLRU K V} {k : K} {v v' : V}
    (h : (c.put k v).peek k = some v') : v' = v := by
  rcases peek_put h with h | h
  · exact h.2
  · exact absurd rfl h.1

theorem put_of_lt {c : SizedLRU K V} {k : K} {v : V} (h : c.maxSize < c.size k v) :
    c.put k v = c.flush := by
  unfold put
  exact if_pos h

theorem peek_put_of_le {c : SizedLRU K V} {k : K} {v : V} (h : c.size k v ≤ c.maxSize) :
    (c.put k v).peek k = some v := by
  have hfit : ¬c.size k v > c.maxSize := by omega
  simp only [put,if_neg hfit,peek,LinkedHashmap.get_put,if_true]

theorem peek_evict (c : SizedLRU K V) (k k' : K) :
    (c.evict k).peek k' = if k' = k then none else c.peek k' := by
  cases h : c.elements.get k with
  | none =>
    simp only [evict,h]
    by_cases hk : k' = k
    · rw [if_pos hk,hk]
      exact h
    · rw [if_neg hk]
  | some v =>
    simp only [evict,h]
    exact c.elements.get_delete k k'

end SizedLRU
end Landslide
