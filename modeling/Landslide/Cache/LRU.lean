import Landslide.Cache.LinkedHashmap
import Mathlib.Data.Int.Basic

/-! # The count-bounded least-recently-used cache

This is the cache of missing block IDs. A non-positive size counts as one, and
every operation first drops the oldest entries above the size.
-/
namespace Landslide
variable {K V : Type}

structure LRU (K V : Type) where
  elements : LinkedHashmap K V
  size : ℤ

namespace LRU

def new (size : ℤ) : LRU K V := ⟨.new,size⟩

def flush (c : LRU K V) : LRU K V := { c with elements := .new }

variable [DecidableEq K]

def resize (c : LRU K V) : LRU K V :=
  let size := if c.size ≤ 0 then 1 else c.size
  { elements := c.elements.dropOldest (c.elements.len - size.toNat), size := size }

def peek (c : LRU K V) (k : K) : Option V := c.elements.get k

def get (c : LRU K V) (k : K) : Option V × LRU K V :=
  let c := c.resize
  match c.elements.get k with
  | none => (none,c)
  | some v => (some v,{ c with elements := c.elements.put k v })

/-- A full cache loses its oldest entry before the insertion, whether or not the
key is already present. -/
def put (c : LRU K V) (k : K) (v : V) : LRU K V :=
  let c := c.resize
  let elements := if (c.elements.len : ℤ) = c.size then c.elements.dropOldest 1 else c.elements
  { c with elements := elements.put k v }

def evict (c : LRU K V) (k : K) : LRU K V :=
  let c := c.resize
  { c with elements := c.elements.delete k }

@[simp] theorem peek_new (size : ℤ) (k : K) : (new size : LRU K V).peek k = none := rfl

@[simp] theorem peek_flush (c : LRU K V) (k : K) : c.flush.peek k = none := rfl

theorem peek_resize {c : LRU K V} {k : K} {v : V} (h : c.resize.peek k = some v) :
    c.peek k = some v := c.elements.get_dropOldest h

theorem get_fst_some {c : LRU K V} {k : K} {v : V} (h : (c.get k).1 = some v) :
    c.peek k = some v := by
  apply peek_resize
  unfold get at h
  unfold peek
  cases hg : c.resize.elements.get k with
  | none => simp [hg] at h
  | some w => simpa [hg] using h

theorem peek_get {c : LRU K V} {k k' : K} {v : V} (h : (c.get k).2.peek k' = some v) :
    c.peek k' = some v := by
  apply peek_resize
  unfold get at h
  cases hg : c.resize.elements.get k with
  | none => simpa [hg] using h
  | some w =>
    simp only [hg] at h
    exact (c.resize.elements.get_put_self hg k').symm.trans h

theorem peek_put {c : LRU K V} {k k' : K} {v v' : V} (h : (c.put k v).peek k' = some v') :
    k' = k ∨ c.peek k' = some v' := by
  unfold put peek at h
  rw [LinkedHashmap.get_put] at h
  split at h
  · next hk => exact .inl hk
  · right
    apply peek_resize
    split at h
    · exact c.resize.elements.get_dropOldest h
    · exact h

theorem peek_evict {c : LRU K V} {k k' : K} {v : V} (h : (c.evict k).peek k' = some v) :
    k' ≠ k ∧ c.peek k' = some v := by
  unfold evict peek at h
  rw [LinkedHashmap.get_delete] at h
  split at h
  · cases h
  · next hk => exact ⟨hk,peek_resize h⟩

end LRU
end Landslide
