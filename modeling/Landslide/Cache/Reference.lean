import Landslide.Cache.LRU
import Landslide.Lib.Transition

/-! # The reference for the count-bounded cache

A least-recently-used map: the entries in the order of their last use, of which the newest
ones up to the capacity count. The cache follows it except in one place. A `Put` into a full
cache always drops the oldest entry, also when its key is present and nothing has to go.
-/
namespace Landslide
variable {K V : Type}

/-- Entries in the order of their last use, with the size that was last asked for. -/
structure RecencyMap (K V : Type) where
  entries : List (K × V)
  size : ℤ

namespace RecencyMap

def new (size : ℤ) : RecencyMap K V := ⟨[],size⟩

def capacity (m : RecencyMap K V) : ℕ := (max 1 m.size).toNat

/-- The newest entries that the capacity allows. A smaller size takes effect here. -/
def kept (m : RecencyMap K V) : List (K × V) := m.entries.drop (m.entries.length - m.capacity)

variable [DecidableEq K]

def lookup (m : RecencyMap K V) (k : K) : Option V :=
  (m.kept.find? fun e => e.1 = k).map Prod.snd

def touch (k : K) (v : V) (entries : List (K × V)) : List (K × V) :=
  entries.filter (fun e => e.1 ≠ k) ++ [(k,v)]

def put (m : RecencyMap K V) (k : K) (v : V) : RecencyMap K V :=
  { m with entries :=
      if (m.lookup k).isSome then touch k v m.kept
      else if m.kept.length = m.capacity then m.kept.tail ++ [(k,v)]
      else m.kept ++ [(k,v)] }

def get (m : RecencyMap K V) (k : K) : Option V × RecencyMap K V :=
  match m.lookup k with
  | none => (none,{ m with entries := m.kept })
  | some v => (some v,{ m with entries := touch k v m.kept })

def evict (m : RecencyMap K V) (k : K) : RecencyMap K V :=
  { m with entries := m.kept.filter fun e => e.1 ≠ k }

def flush (m : RecencyMap K V) : RecencyMap K V := { m with entries := [] }

end RecencyMap

/-- The calls of the cache, and the assignment to its public field `Size`. -/
inductive CacheOp (K V : Type) where
  | put (k : K) (v : V)
  | get (k : K)
  | evict (k : K)
  | flush
  | setSize (size : ℤ)

variable [DecidableEq K]

def LRU.step (c : LRU K V) : CacheOp K V → LRU K V
  | .put k v => c.put k v
  | .get k => (c.get k).2
  | .evict k => c.evict k
  | .flush => c.flush
  | .setSize size => { c with size := size }

def RecencyMap.step (m : RecencyMap K V) : CacheOp K V → RecencyMap K V
  | .put k v => m.put k v
  | .get k => (m.get k).2
  | .evict k => m.evict k
  | .flush => m.flush
  | .setSize size => { m with size := size }

namespace RecencyMap

theorem lookup_eq_none_iff {m : RecencyMap K V} {k : K} :
    m.lookup k = none ↔ ∀ e ∈ m.kept, e.1 ≠ k := by
  simp [lookup,List.find?_eq_none]

theorem mem_touch {k : K} {v : V} {entries : List (K × V)} {e : K × V} (he : e ∈ entries)
    (hk : e.1 ≠ k) : e ∈ touch k v entries := by
  rw [touch,List.mem_append]
  exact .inl (List.mem_filter.mpr ⟨he,by simpa using hk⟩)

/-- A key that counts goes only with `Evict`, with `Flush`, or as the oldest of a full map when
a new key comes. -/
theorem disappears_only {m : RecencyMap K V} {e : K × V} (he : e ∈ m.kept) (op : CacheOp K V)
    (hgone : ∀ e' ∈ (m.step op).entries, e'.1 ≠ e.1) :
    op = .evict e.1 ∨ op = .flush ∨ ∃ k v, op = .put k v ∧ m.lookup k = none ∧
      m.kept.length = m.capacity ∧ m.kept.head? = some e := by
  cases op with
  | flush => exact .inr (.inl rfl)
  | setSize size => exact absurd rfl (hgone e (List.mem_of_mem_drop he))
  | evict k =>
    by_cases hk : e.1 = k
    · exact .inl (by rw [hk])
    · exact absurd rfl (hgone e (List.mem_filter.mpr ⟨he,by simpa using hk⟩))
  | get k =>
    rw [step,get] at hgone
    cases hl : m.lookup k with
    | none =>
      rw [hl] at hgone
      exact absurd rfl (hgone e he)
    | some v =>
      rw [hl] at hgone
      by_cases hk : e.1 = k
      · exact absurd hk.symm (hgone (k,v) (by simp [touch]))
      · exact absurd rfl (hgone e (mem_touch he hk))
  | put k v =>
    simp only [step,put] at hgone
    split at hgone
    · by_cases hk : e.1 = k
      · exact absurd hk.symm (hgone (k,v) (by simp [touch]))
      · exact absurd rfl (hgone e (mem_touch he hk))
    · next hnone =>
      split at hgone
      · next hfull =>
        refine .inr (.inr ⟨k,v,rfl,by simpa using hnone,hfull,?_⟩)
        cases hkept : m.kept with
        | nil =>
          rw [hkept] at he
          cases he
        | cons first rest =>
          rw [hkept] at he hgone
          rcases List.mem_cons.mp he with rfl | hrest
          · rfl
          · exact absurd rfl (hgone e (List.mem_append_left _ hrest))
      · exact absurd rfl (hgone e (List.mem_append_left _ he))

end RecencyMap

/-! ## The simulation -/

/-- The cache holds what the reference holds, in the same order, and answers alike. -/
structure Agrees (c : LRU K V) (m : RecencyMap K V) : Prop where
  entries : c.elements.entries = m.entries
  size : max 1 c.size = max 1 m.size
  answers : ∀ k, (c.get k).1 = (m.get k).1

omit [DecidableEq K] in
theorem LRU.resize_size (c : LRU K V) : c.resize.size = max 1 c.size := by
  simp only [LRU.resize]
  split <;> omega

omit [DecidableEq K] in
theorem LRU.resize_entries {c : LRU K V} {m : RecencyMap K V}
    (hentries : c.elements.entries = m.entries) (hsize : max 1 c.size = max 1 m.size) :
    c.resize.elements.entries = m.kept := by
  have hcap : c.resize.size.toNat = m.capacity := by
    rw [c.resize_size,hsize]
    rfl
  change c.elements.entries.drop (c.elements.entries.length - c.resize.size.toNat) = _
  rw [hcap,hentries]
  rfl

theorem LRU.get_fst (c : LRU K V) (k : K) : (c.get k).1 = c.resize.elements.get k := by
  simp only [LRU.get]
  cases c.resize.elements.get k <;> rfl

theorem RecencyMap.get_fst (m : RecencyMap K V) (k : K) : (m.get k).1 = m.lookup k := by
  unfold RecencyMap.get
  cases m.lookup k <;> rfl

theorem lookup_eq {c : LRU K V} {m : RecencyMap K V}
    (hentries : c.elements.entries = m.entries) (hsize : max 1 c.size = max 1 m.size) (k : K) :
    c.resize.elements.get k = m.lookup k := by
  rw [LinkedHashmap.get,LRU.resize_entries hentries hsize]
  rfl

theorem agrees_iff {c : LRU K V} {m : RecencyMap K V} :
    Agrees c m ↔ c.elements.entries = m.entries ∧ max 1 c.size = max 1 m.size := by
  constructor
  · exact fun h => ⟨h.entries,h.size⟩
  · rintro ⟨hentries,hsize⟩
    refine ⟨hentries,hsize,fun k => ?_⟩
    rw [LRU.get_fst,RecencyMap.get_fst,lookup_eq hentries hsize]

/-- A `Put` into the full cache does not meet a present key behind the oldest entry. -/
def CacheOp.KeepsOthers (c : LRU K V) : CacheOp K V → Prop
  | .put k _ => (c.resize.elements.len : ℤ) = c.resize.size → (c.resize.elements.get k).isSome →
      c.resize.elements.oldest.map Prod.fst = some k
  | _ => True

theorem LRU.put_entries (c : LRU K V) (k : K) (v : V) : (c.put k v).elements.entries =
    LinkedHashmap.without k (if (c.resize.elements.len : ℤ) = c.resize.size
      then c.resize.elements.entries.tail else c.resize.elements.entries) ++ [(k,v)] := by
  simp only [LRU.put]
  split
  · simp [LinkedHashmap.put,LinkedHashmap.dropOldest]
  · rfl

theorem put_entries_eq_iff {c : LRU K V} {m : RecencyMap K V}
    (hentries : c.elements.entries = m.entries) (hsize : max 1 c.size = max 1 m.size) (k : K)
    (v : V) : (c.put k v).elements.entries = (m.put k v).entries ↔
      (CacheOp.put k v).KeepsOthers c := by
  have hkept := LRU.resize_entries hentries hsize
  have hfull : (c.resize.elements.len : ℤ) = c.resize.size ↔ m.kept.length = m.capacity := by
    rw [LinkedHashmap.len,hkept,LRU.resize_size,hsize,RecencyMap.capacity]
    omega
  have hlookup := lookup_eq hentries hsize k
  rw [LRU.put_entries,CacheOp.KeepsOthers,hlookup,LinkedHashmap.oldest,hkept]
  simp only [hfull,RecencyMap.put]
  cases hl : m.lookup k with
  | none =>
    -- a key that is not present is in no part of the list
    have habsent : k ∉ m.kept.map Prod.fst := by
      intro hk
      obtain ⟨e,he,rfl⟩ := List.mem_map.mp hk
      exact RecencyMap.lookup_eq_none_iff.mp hl e he rfl
    have htail : k ∉ m.kept.tail.map Prod.fst := fun hk =>
      habsent ((List.tail_sublist _).map _ |>.subset hk)
    by_cases hf : m.kept.length = m.capacity
    · simp [hf,LinkedHashmap.without_eq_self htail]
    · simp [hf,LinkedHashmap.without_eq_self habsent]
  | some old =>
    by_cases hf : m.kept.length = m.capacity
    · rw [if_pos hf,Option.isSome_some,if_pos rfl,RecencyMap.touch]
      simp only [hf,true_implies,List.append_cancel_right_eq]
      cases hk : m.kept with
      | nil =>
        rw [RecencyMap.lookup,hk] at hl
        cases hl
      | cons e rest =>
        by_cases he : e.1 = k
        · simp [LinkedHashmap.without,he]
        · simp [LinkedHashmap.without,he]
    · simp [hf,RecencyMap.touch,LinkedHashmap.without]

theorem agrees_step_iff {c : LRU K V} {m : RecencyMap K V} (h : Agrees c m) (op : CacheOp K V) :
    Agrees (c.step op) (m.step op) ↔ op.KeepsOthers c := by
  obtain ⟨hentries,hsize⟩ := agrees_iff.mp h
  have hkept := LRU.resize_entries hentries hsize
  have hresized : max 1 c.resize.size = max 1 m.size := by
    rw [c.resize_size,← hsize]
    omega
  rw [agrees_iff]
  cases op with
  | put k v =>
    have hafter : max 1 (c.put k v).size = max 1 (m.put k v).size := hresized
    rw [LRU.step,RecencyMap.step,put_entries_eq_iff hentries hsize,and_iff_left hafter]
  | get k =>
    refine iff_of_true ?_ trivial
    have hlookup := lookup_eq hentries hsize k
    simp only [LRU.step,RecencyMap.step,LRU.get,RecencyMap.get]
    cases hl : m.lookup k with
    | none =>
      rw [hlookup,hl]
      exact ⟨hkept,hresized⟩
    | some v =>
      rw [hlookup,hl]
      refine ⟨?_,hresized⟩
      change LinkedHashmap.without k c.resize.elements.entries ++ [(k,v)] = _
      rw [hkept]
      rfl
  | evict k =>
    refine iff_of_true ⟨?_,hresized⟩ trivial
    change LinkedHashmap.without k c.resize.elements.entries = _
    rw [hkept]
    rfl
  | flush => exact iff_of_true ⟨rfl,hsize⟩ trivial
  | setSize size => exact iff_of_true ⟨hentries,rfl⟩ trivial

theorem foldl_both (c : LRU K V) (m : RecencyMap K V) (ops : List (CacheOp K V)) :
    ops.foldl (fun s op => (s.1.step op,s.2.step op)) (c,m) =
      (ops.foldl LRU.step c,ops.foldl RecencyMap.step m) := by
  induction ops generalizing c m with
  | nil => rfl
  | cons op ops ih => exact ih _ _

/-- Along a run of calls and changes of the size the cache is the reference map if and only if
no `Put` finds its key present, but not as the oldest one, in a full cache. -/
theorem agrees_iff_keepsOthers (size : ℤ) (ops : List (CacheOp K V)) :
    (∀ pre, pre <+: ops →
      Agrees (pre.foldl LRU.step (LRU.new size)) (pre.foldl RecencyMap.step (.new size))) ↔
      ∀ pre op, pre ++ [op] <+: ops → op.KeepsOthers (pre.foldl LRU.step (LRU.new size)) := by
  have hnew : Agrees (LRU.new size : LRU K V) (.new size) := agrees_iff.mpr ⟨rfl,rfl⟩
  have hstep : ∀ (s : LRU K V × RecencyMap K V) (op : CacheOp K V), Agrees s.1 s.2 →
      (Agrees (s.1.step op,s.2.step op).1 (s.1.step op,s.2.step op).2 ↔ op.KeepsOthers s.1) :=
    fun s op h => agrees_step_iff h op
  have hrun := forall_isPrefix_iff hstep (LRU.new size,.new size) ops
  simp only [foldl_both] at hrun
  rw [hrun]
  exact and_iff_right hnew

namespace Sample

/-- A cache for two keys. The key of the last `Put` is the newest one. -/
def putNewest : List (CacheOp ℕ ℕ) := [.put 0 5,.put 1 6,.put 1 7]

/-- The `Put` of the present key 1 throws key 0 out. -/
theorem putNewest_loses_other :
    (putNewest.foldl LRU.step (LRU.new 2)).elements.entries = [(1,7)] ∧
    (putNewest.foldl RecencyMap.step (.new 2)).entries = [(0,5),(1,7)] ∧
    ¬∀ pre, pre <+: putNewest →
      Agrees (pre.foldl LRU.step (LRU.new 2)) (pre.foldl RecencyMap.step (.new 2)) := by
  refine ⟨by decide,by decide,fun h => ?_⟩
  exact absurd (h putNewest List.prefix_rfl).entries (by decide)

end Sample
end Landslide
