import Landslide.Cache.SizedLRU
import Landslide.Lib.Transition
import Mathlib.Logic.Function.Iterate

/-! # The size that the byte-bounded cache keeps

The cache keeps the sum of the sizes of its entries in a counter. An overwriting `Put` takes
the old size of the key from the counter and only then looks for entries to evict, with the
old entry still in the list. If the loop gets as far as that entry, its size is taken off a
second time, and the counter stays below the sum from then on.
-/
namespace Landslide.SizedLRU
variable {K V : Type}

def totalSize (size : K → V → ℤ) : List (K × V) → ℤ
  | [] => 0
  | e :: entries => size e.1 e.2 + totalSize size entries

section
variable {size : K → V → ℤ}

@[simp] theorem totalSize_nil : totalSize size [] = 0 := rfl

@[simp] theorem totalSize_cons (e : K × V) (entries : List (K × V)) :
    totalSize size (e :: entries) = size e.1 e.2 + totalSize size entries := rfl

@[simp] theorem totalSize_append (entries entries' : List (K × V)) :
    totalSize size (entries ++ entries') = totalSize size entries + totalSize size entries' := by
  induction entries with
  | nil => simp
  | cons e entries ih => simp [ih,Int.add_assoc]

theorem totalSize_nonneg (hsize : ∀ k v, 0 < size k v) (entries : List (K × V)) :
    0 ≤ totalSize size entries := by
  induction entries with
  | nil => exact Int.le_refl 0
  | cons e rest ih =>
    have hpos := hsize e.1 e.2
    rw [totalSize_cons]
    omega

theorem evictions_snd (room : ℤ) (entries : List (K × V)) (currentSize : ℤ) :
    (evictions size room entries currentSize).2 = currentSize -
      totalSize size (entries.take (evictions size room entries currentSize).1) := by
  induction entries generalizing currentSize with
  | nil => simp [evictions]
  | cons e rest ih =>
    rw [evictions]
    split
    · dsimp only
      rw [ih,List.take_succ_cons,totalSize_cons]
      omega
    · simp

theorem evictions_fst_le_length (room : ℤ) (entries : List (K × V)) (currentSize : ℤ) :
    (evictions size room entries currentSize).1 ≤ entries.length := by
  induction entries generalizing currentSize with
  | nil => exact le_rfl
  | cons e rest ih =>
    rw [evictions]
    split
    · exact Nat.succ_le_succ (ih _)
    · exact Nat.zero_le _

theorem evictions_fst_le_iff (hsize : ∀ k v, 0 < size k v) (room : ℤ) (before after : List (K × V))
    (currentSize : ℤ) :
    (evictions size room (before ++ after) currentSize).1 ≤ before.length ↔
      after = [] ∨ currentSize - totalSize size before ≤ room := by
  induction before generalizing currentSize with
  | nil =>
    cases after with
    | nil => simp [evictions]
    | cons e rest =>
      rw [List.nil_append,evictions]
      split
      · simp
        omega
      · simp
        omega
  | cons e before ih =>
    have hpos := hsize e.1 e.2
    have hrest := totalSize_nonneg hsize before
    rw [List.cons_append,evictions]
    split
    · dsimp only
      rw [List.length_cons,Nat.add_le_add_iff_right,ih,totalSize_cons,Int.sub_sub]
    · rw [totalSize_cons]
      constructor
      · intro _
        right
        omega
      · intro _
        exact Nat.zero_le _

theorem evictions_snd_le {room : ℤ} {entries : List (K × V)} {currentSize : ℤ}
    (hroom : 0 ≤ room) (h : currentSize ≤ totalSize size entries) :
    (evictions size room entries currentSize).2 ≤ room := by
  induction entries generalizing currentSize with
  | nil => exact Int.le_trans h hroom
  | cons e rest ih =>
    rw [totalSize_cons] at h
    rw [evictions]
    split
    · exact ih (by omega)
    · omega

end

theorem lt_of_lt_evictions {size : K → V → ℤ} {room : ℤ} {entries : List (K × V)} {currentSize : ℤ}
    {m : ℕ} (h : m < (evictions size room entries currentSize).1) :
    room < currentSize - totalSize size (entries.take m) := by
  induction entries generalizing currentSize m with
  | nil => simp [evictions] at h
  | cons e rest ih =>
    rw [evictions] at h
    split at h
    · next hroom =>
      cases m with
      | zero => simpa using hroom
      | succ m =>
        have := ih (Nat.lt_of_succ_lt_succ h)
        rw [List.take_succ_cons,totalSize_cons]
        omega
    · simp at h

variable [DecidableEq K]

/-- The size of the entry of a key, if there is one. -/
def heldSize (size : K → V → ℤ) (m : LinkedHashmap K V) (k : K) : ℤ := (m.get k).elim 0 (size k)

theorem releasedSize_eq (c : SizedLRU K V) (k : K) :
    c.releasedSize k = c.currentSize - heldSize c.size c.elements k := by
  unfold releasedSize heldSize
  cases c.elements.get k <;> simp

theorem totalSize_without (size : K → V → ℤ) (m : LinkedHashmap K V) (k : K) :
    totalSize size (LinkedHashmap.without k m.entries) =
      totalSize size m.entries - heldSize size m k := by
  cases hg : m.get k with
  | none =>
    rw [LinkedHashmap.without_eq_self (LinkedHashmap.notMem_keys_of_get_eq_none hg),heldSize,hg]
    simp
  | some old =>
    obtain ⟨before,after,hentries⟩ := LinkedHashmap.exists_split_of_get hg
    rw [LinkedHashmap.without_of_split hentries,hentries,heldSize,hg]
    simp only [totalSize_append,totalSize_cons,Option.elim_some]
    omega

theorem totalSize_put (size : K → V → ℤ) (m : LinkedHashmap K V) (k : K) (v : V) :
    totalSize size (m.put k v).entries =
      totalSize size m.entries - heldSize size m k + size k v := by
  have h := totalSize_without size m k
  simp only [LinkedHashmap.put,totalSize_append,totalSize_cons,totalSize_nil,h]
  omega

/-! ## The loop as it is written -/

/-- One turn of the eviction loop. Of an empty list `Oldest` returns zero values. -/
def evictOldest (zero : K × V) (c : SizedLRU K V) : SizedLRU K V :=
  let oldest := c.elements.oldest.getD zero
  { c with
    elements := c.elements.delete oldest.1
    currentSize := c.currentSize - c.size oldest.1 oldest.2 }

theorem iterate_evictOldest (zero : K × V) (c : SizedLRU K V) {n : ℕ} (hn : n ≤ c.elements.len) :
    (evictOldest zero)^[n] c = { c with
      elements := c.elements.dropOldest n
      currentSize := c.currentSize - totalSize c.size (c.elements.entries.take n) } := by
  induction n with
  | zero => simp [LinkedHashmap.dropOldest]
  | succ n ih =>
    have hlt : n < c.elements.entries.length := hn
    have hdrop : (c.elements.dropOldest n).entries =
        c.elements.entries[n] :: c.elements.entries.drop (n + 1) := List.drop_eq_getElem_cons hlt
    have holdest : (c.elements.dropOldest n).oldest = some c.elements.entries[n] := by
      rw [LinkedHashmap.oldest,hdrop,List.head?_cons]
    have hdelete : (c.elements.dropOldest n).delete c.elements.entries[n].1 =
        c.elements.dropOldest (n + 1) := by
      rw [LinkedHashmap.delete_oldest hdrop]
      refine LinkedHashmap.ext ?_
      exact List.drop_drop
    rw [Function.iterate_succ_apply',ih (Nat.le_of_lt hn)]
    simp only [evictOldest,holdest,Option.getD_some,hdelete,List.take_add_one,
      List.getElem?_eq_getElem hlt,Option.toList_some,totalSize_append,totalSize_cons,totalSize_nil]
    congr 1
    omega

/-- After `n` turns the loop of `Put` stops, and what follows gives the result of `Put`. -/
structure LoopStops (zero : K × V) (c : SizedLRU K V) (k : K) (v : V) (n : ℕ) : Prop where
  turns : ∀ m < n, c.maxSize - c.size k v <
    ((evictOldest zero)^[m] { c with currentSize := c.releasedSize k }).currentSize
  stops : ((evictOldest zero)^[n] { c with currentSize := c.releasedSize k }).currentSize ≤
    c.maxSize - c.size k v
  put_eq : let evicted := (evictOldest zero)^[n] { c with currentSize := c.releasedSize k }
    c.put k v = { evicted with
      elements := evicted.elements.put k v
      currentSize := evicted.currentSize + c.size k v }

theorem put_of_le {c : SizedLRU K V} {k : K} {v : V} (h : c.size k v ≤ c.maxSize) :
    c.put k v =
      let evicted := evictions c.size (c.maxSize - c.size k v) c.elements.entries (c.releasedSize k)
      { c with
        elements := (c.elements.dropOldest evicted.1).put k v
        currentSize := evicted.2 + c.size k v } := by
  unfold put
  exact if_neg (by omega)

theorem heldSize_nonneg {c : SizedLRU K V} (hsize : ∀ k v, 0 < c.size k v) (m : LinkedHashmap K V)
    (k : K) : 0 ≤ heldSize c.size m k := by
  unfold heldSize
  cases m.get k with
  | none => exact Int.le_refl 0
  | some old => exact Int.le_of_lt (hsize k old)

/-- The loop ends as long as the counter is not above the sum of the entries. -/
theorem exists_loopStops (zero : K × V) {c : SizedLRU K V} (hsize : ∀ k v, 0 < c.size k v)
    (hle : c.currentSize ≤ totalSize c.size c.elements.entries) {k : K} {v : V}
    (hfit : c.size k v ≤ c.maxSize) : ∃ n, LoopStops zero c k v n := by
  have hheld := heldSize_nonneg hsize c.elements k
  have hreleased : c.releasedSize k ≤ totalSize c.size c.elements.entries := by
    rw [releasedSize_eq]
    omega
  have hlen : (evictions c.size (c.maxSize - c.size k v) c.elements.entries
      (c.releasedSize k)).1 ≤ c.elements.len := evictions_fst_le_length _ _ _
  have hiterate : ∀ m ≤ c.elements.len,
      (evictOldest zero)^[m] { c with currentSize := c.releasedSize k } = { c with
        elements := c.elements.dropOldest m
        currentSize := c.releasedSize k - totalSize c.size (c.elements.entries.take m) } :=
    fun m hm => iterate_evictOldest zero { c with currentSize := c.releasedSize k } hm
  refine ⟨(evictions c.size (c.maxSize - c.size k v) c.elements.entries (c.releasedSize k)).1,
    fun m hm => ?_,?_,?_⟩
  · rw [hiterate m (Nat.le_of_lt (Nat.lt_of_lt_of_le hm hlen))]
    exact lt_of_lt_evictions hm
  · rw [hiterate _ hlen]
    dsimp only
    rw [← evictions_snd]
    exact evictions_snd_le (by omega) hreleased
  · rw [hiterate _ hlen,put_of_le hfit]
    dsimp only
    rw [← evictions_snd]

/-! ## What a call does to the counter -/

def drift (c : SizedLRU K V) : ℤ := totalSize c.size c.elements.entries - c.currentSize

omit [DecidableEq K] in
theorem drift_flush (c : SizedLRU K V) : c.flush.drift = 0 := rfl

theorem drift_get (c : SizedLRU K V) (k : K) : (c.get k).2.drift = c.drift := by
  unfold get
  cases hg : c.elements.get k with
  | none => rfl
  | some v =>
    have hput := totalSize_put c.size c.elements k v
    rw [heldSize,hg,Option.elim_some] at hput
    simp only [drift,hput]
    omega

theorem drift_evict (c : SizedLRU K V) (k : K) : (c.evict k).drift = c.drift := by
  unfold evict
  cases hg : c.elements.get k with
  | none => rfl
  | some v =>
    have hwithout := totalSize_without c.size c.elements k
    rw [heldSize,hg,Option.elim_some] at hwithout
    simp only [drift,LinkedHashmap.delete,hwithout]
    omega

/-- How many entries `Put` evicts when the value fits. -/
def evictedBy (c : SizedLRU K V) (k : K) (v : V) : ℕ :=
  (evictions c.size (c.maxSize - c.size k v) c.elements.entries (c.releasedSize k)).1

theorem drift_put {c : SizedLRU K V} {k : K} {v : V} (hfit : c.size k v ≤ c.maxSize) :
    (c.put k v).drift = c.drift + heldSize c.size c.elements k -
      heldSize c.size (c.elements.dropOldest (c.evictedBy k v)) k := by
  have hsplit : totalSize c.size c.elements.entries =
      totalSize c.size (c.elements.entries.take (c.evictedBy k v)) +
        totalSize c.size (c.elements.entries.drop (c.evictedBy k v)) := by
    rw [← totalSize_append,List.take_append_drop]
  rw [put_of_le hfit]
  simp only [drift,totalSize_put,evictions_snd,LinkedHashmap.dropOldest,hsplit]
  rw [releasedSize_eq]
  simp only [evictedBy,releasedSize_eq]
  omega

theorem heldSize_dropOldest (size : K → V → ℤ) (m : LinkedHashmap K V) (n : ℕ) (k : K) :
    heldSize size (m.dropOldest n) k = heldSize size m k ∨
      (m.dropOldest n).get k = none ∧ heldSize size (m.dropOldest n) k = 0 := by
  cases hg : (m.dropOldest n).get k with
  | none => exact .inr ⟨rfl,by rw [heldSize,hg,Option.elim_none]⟩
  | some old => exact .inl (by rw [heldSize,heldSize,hg,m.get_dropOldest hg])

/-- The value fits together with all entries that were used after those of its key. A value
that does not fit into the cache at all empties it. -/
def FitsWithNewer (c : SizedLRU K V) (k : K) (v : V) : Prop :=
  c.size k v ≤ c.maxSize → ∀ before old after, c.elements.entries = before ++ (k,old) :: after →
    totalSize c.size after + c.size k v ≤ c.maxSize

/-- In an exact cache the loop leaves the entry of the key alone exactly when the value fits
with the newer ones. -/
theorem evictedBy_le_iff {c : SizedLRU K V} (hsize : ∀ k v, 0 < c.size k v) (hexact : c.drift = 0)
    {k : K} {old v : V} {before after : List (K × V)}
    (h : c.elements.entries = before ++ (k,old) :: after) :
    c.evictedBy k v ≤ before.length ↔ totalSize c.size after + c.size k v ≤ c.maxSize := by
  have hget : c.elements.get k = some old := by
    rw [LinkedHashmap.get_eq_some_iff,h]
    simp
  have hreleased : c.releasedSize k = totalSize c.size before + totalSize c.size after := by
    rw [drift,h,totalSize_append,totalSize_cons] at hexact
    dsimp only at hexact
    rw [releasedSize_eq,heldSize,hget,Option.elim_some]
    omega
  rw [evictedBy,h,evictions_fst_le_iff hsize,hreleased]
  constructor
  · rintro (hnil | hle)
    · cases hnil
    · omega
  · intro hle
    right
    omega

theorem get_dropOldest_eq_none {m : LinkedHashmap K V} {k : K} {old : V} {before after : List (K × V)}
    (h : m.entries = before ++ (k,old) :: after) {n : ℕ} :
    (m.dropOldest n).get k = none ↔ before.length < n := by
  rw [LinkedHashmap.get_eq_none_iff]
  constructor
  · intro hnone
    by_contra hle
    refine hnone old ?_
    change (k,old) ∈ m.entries.drop n
    rw [h,List.drop_append_of_le_length (by omega)]
    simp
  · intro hlt v hv
    have hdrop : (k,v) ∈ after := by
      change (k,v) ∈ m.entries.drop n at hv
      rw [h,List.drop_append,List.drop_eq_nil_of_le (by omega),List.nil_append] at hv
      obtain ⟨d,hd⟩ := Nat.exists_eq_add_of_lt hlt
      have hpos : n - before.length = d + 1 := by omega
      rw [hpos,List.drop_succ_cons] at hv
      exact List.mem_of_mem_drop hv
    refine LinkedHashmap.notMem_of_split h ?_
    exact List.mem_map.mpr ⟨(k,v),List.mem_append_right _ hdrop,rfl⟩

/-- The step that may go wrong: the counter of an exact cache is exact after `Put` just when
the loop does not reach the entry of the key. -/
theorem drift_put_eq_zero_iff {c : SizedLRU K V} (hsize : ∀ k v, 0 < c.size k v)
    (hexact : c.drift = 0) (k : K) (v : V) : (c.put k v).drift = 0 ↔ c.FitsWithNewer k v := by
  by_cases hfit : c.size k v ≤ c.maxSize
  · rw [drift_put hfit,hexact]
    cases hget : c.elements.get k with
    | none =>
      have hheld : heldSize c.size c.elements k = 0 := by rw [heldSize,hget,Option.elim_none]
      have hafter : heldSize c.size (c.elements.dropOldest (c.evictedBy k v)) k = 0 := by
        rcases heldSize_dropOldest c.size c.elements (c.evictedBy k v) k with heq | heq
        · rw [heq,hheld]
        · exact heq.2
      constructor
      · intro _ _ before old after h
        have hmem : (k,old) ∈ c.elements.entries := by
          rw [h]
          simp
        exact absurd hmem (c.elements.get_eq_none_iff.mp hget old)
      · intro _
        omega
    | some old =>
      obtain ⟨before,after,h⟩ := LinkedHashmap.exists_split_of_get hget
      have hpos := hsize k old
      have hheld : heldSize c.size c.elements k = c.size k old := by
        rw [heldSize,hget,Option.elim_some]
      constructor
      · intro hzero _ before old after h
        rw [← evictedBy_le_iff hsize hexact h]
        by_contra hgt
        have hnone := (get_dropOldest_eq_none h).mpr (not_le.mp hgt)
        rw [heldSize,heldSize,hnone,hget,Option.elim_none,Option.elim_some] at hzero
        omega
      · intro hfits
        have hle := (evictedBy_le_iff hsize hexact h).mpr (hfits hfit before old after h)
        rcases heldSize_dropOldest c.size c.elements (c.evictedBy k v) k with heq | heq
        · omega
        · exact absurd ((get_dropOldest_eq_none h).mp heq.1) (not_lt.mpr hle)
  · rw [put_of_lt (by omega),drift_flush]
    exact ⟨fun _ h => absurd h hfit,fun _ => rfl⟩

/-! ## Whole runs -/

inductive Op (K V : Type) where
  | put (k : K) (v : V)
  | get (k : K)
  | evict (k : K)
  | flush

def step (c : SizedLRU K V) : Op K V → SizedLRU K V
  | .put k v => c.put k v
  | .get k => (c.get k).2
  | .evict k => c.evict k
  | .flush => c.flush

/-- What is expected of the cache in every state. -/
structure Accounted (zero : K × V) (c : SizedLRU K V) : Prop where
  exact : c.currentSize = totalSize c.size c.elements.entries
  nonneg : 0 ≤ c.currentSize
  le_maxSize : c.currentSize ≤ c.maxSize
  loop_stops : ∀ k v, c.size k v ≤ c.maxSize → ∃ n, LoopStops zero c k v n
  get_put : ∀ k v, c.size k v ≤ c.maxSize → ((c.put k v).get k).1 = some v

theorem accounted_iff (zero : K × V) {c : SizedLRU K V} (hsize : ∀ k v, 0 < c.size k v) :
    Accounted zero c ↔ c.drift = 0 ∧ c.currentSize ≤ c.maxSize := by
  constructor
  · intro h
    have := h.exact
    exact ⟨by rw [drift]; omega,h.le_maxSize⟩
  · rintro ⟨hdrift,hmax⟩
    have hexact : c.currentSize = totalSize c.size c.elements.entries := by
      rw [drift] at hdrift
      omega
    refine ⟨hexact,?_,hmax,?_,?_⟩
    · rw [hexact]
      exact totalSize_nonneg hsize _
    · exact fun k v hfit => exists_loopStops zero hsize (Int.le_of_eq hexact) hfit
    · intro k v hfit
      rw [get_fst,peek_put_of_le hfit]

@[simp] theorem size_step (c : SizedLRU K V) (op : Op K V) : (c.step op).size = c.size := by
  cases op with
  | put k v =>
    simp only [step,put]
    split <;> rfl
  | get k =>
    simp only [step,get]
    cases c.elements.get k <;> rfl
  | evict k =>
    simp only [step,evict]
    cases c.elements.get k <;> rfl
  | flush => rfl

@[simp] theorem maxSize_step (c : SizedLRU K V) (op : Op K V) :
    (c.step op).maxSize = c.maxSize := by
  cases op with
  | put k v =>
    simp only [step,put]
    split <;> rfl
  | get k =>
    simp only [step,get]
    cases c.elements.get k <;> rfl
  | evict k =>
    simp only [step,evict]
    cases c.elements.get k <;> rfl
  | flush => rfl

theorem size_foldl (c : SizedLRU K V) (ops : List (Op K V)) :
    (ops.foldl step c).size = c.size := by
  induction ops generalizing c with
  | nil => rfl
  | cons op ops ih => rw [List.foldl_cons,ih,size_step]

theorem currentSize_put_le {c : SizedLRU K V} (hsize : ∀ k v, 0 < c.size k v) (hdrift : 0 ≤ c.drift)
    (hmax : 0 ≤ c.maxSize) (k : K) (v : V) : (c.put k v).currentSize ≤ c.maxSize := by
  by_cases hfit : c.size k v ≤ c.maxSize
  · have hheld := heldSize_nonneg hsize c.elements k
    have hreleased : c.releasedSize k ≤ totalSize c.size c.elements.entries := by
      rw [releasedSize_eq]
      rw [drift] at hdrift
      omega
    have hroom : (evictions c.size (c.maxSize - c.size k v) c.elements.entries
        (c.releasedSize k)).2 ≤ c.maxSize - c.size k v := evictions_snd_le (by omega) hreleased
    rw [put_of_le hfit]
    dsimp only
    omega
  · rw [put_of_lt (by omega)]
    exact hmax

/-- An overwriting `Put` does not evict the entry it overwrites. -/
def Op.SparesOwn (c : SizedLRU K V) : Op K V → Prop
  | .put k v => c.FitsWithNewer k v
  | _ => True

theorem accounted_step_iff (zero : K × V) {c : SizedLRU K V} (hsize : ∀ k v, 0 < c.size k v)
    (h : Accounted zero c) (op : Op K V) : Accounted zero (c.step op) ↔ op.SparesOwn c := by
  have hmax : 0 ≤ c.maxSize := Int.le_trans h.nonneg h.le_maxSize
  obtain ⟨hdrift,hle⟩ := (accounted_iff zero hsize).mp h
  rw [accounted_iff zero (by rwa [size_step]),maxSize_step]
  cases op with
  | put k v =>
    rw [step,drift_put_eq_zero_iff hsize hdrift]
    exact and_iff_left (currentSize_put_le hsize (Int.le_of_eq hdrift.symm) hmax k v)
  | get k =>
    have hsame : (c.get k).2.currentSize = c.currentSize := by
      unfold get
      cases c.elements.get k <;> rfl
    rw [step,drift_get,hsame]
    exact iff_of_true ⟨hdrift,hle⟩ trivial
  | evict k =>
    have hless : (c.evict k).currentSize ≤ c.currentSize := by
      unfold evict
      cases c.elements.get k with
      | none => exact Int.le_refl _
      | some v =>
        have := hsize k v
        dsimp only
        omega
    rw [step,drift_evict]
    exact iff_of_true ⟨hdrift,Int.le_trans hless hle⟩ trivial
  | flush => exact iff_of_true ⟨drift_flush c,hmax⟩ trivial

/-- In a run of calls with positive sizes the counter is right after every call, within its
bounds, and the loop ends, if and only if the cache may hold nothing or more and every `Put`
leaves room for what was used after the entry it overwrites. -/
theorem accounted_iff_sparesOwn {size : K → V → ℤ} (hsize : ∀ k v, 0 < size k v) (maxSize : ℤ)
    (zero : K × V) (ops : List (Op K V)) :
    (∀ pre, pre <+: ops → Accounted zero (pre.foldl step (new maxSize size))) ↔
      0 ≤ maxSize ∧ ∀ pre op, pre ++ [op] <+: ops →
        op.SparesOwn (pre.foldl step (new maxSize size)) := by
  have hkeeps : ∀ pre : List (Op K V), (pre.foldl step (new maxSize size)).size = size :=
    size_foldl (new maxSize size)
  have hnew : Accounted zero (new maxSize size) ↔ 0 ≤ maxSize := by
    rw [accounted_iff zero hsize]
    exact and_iff_right rfl
  have hstep : ∀ (c : SizedLRU K V) (op : Op K V), (c.size = size ∧ Accounted zero c) →
      (((c.step op).size = size ∧ Accounted zero (c.step op)) ↔ op.SparesOwn c) := by
    rintro c op ⟨rfl,hc⟩
    rw [size_step,accounted_step_iff zero hsize hc]
    exact and_iff_right rfl
  have hrun := forall_isPrefix_iff hstep (new maxSize size) ops
  simp only [hkeeps,true_and] at hrun
  rw [hrun,hnew]
  exact and_congr_left' (and_iff_right rfl)

namespace Sample

def size (_ v : ℕ) : ℤ := v + 1

theorem size_pos (k v : ℕ) : 0 < size k v := Int.natCast_succ_pos v

/-- Key 0 takes nine of ten bytes and key 1 the last one, then key 0 gets a value of ten. -/
def overwrite : List (Op ℕ ℕ) := [.put 0 8,.put 1 0,.put 0 9]

/-- The entries take eleven bytes, the counter says two, and after `Evict` it is negative. -/
theorem overwrite_loses_size :
    (overwrite.foldl step (new 10 size)).currentSize = 2 ∧
    totalSize size (overwrite.foldl step (new 10 size)).elements.entries = 11 ∧
    ((overwrite ++ [Op.evict 0]).foldl step (new 10 size)).currentSize = -8 ∧
    ¬∀ pre, pre <+: overwrite → Accounted (0,0) (pre.foldl step (new 10 size)) := by
  have hsize : (overwrite.foldl step (new 10 size)).currentSize = 2 := by decide
  have htotal : totalSize size (overwrite.foldl step (new 10 size)).elements.entries = 11 := by
    decide
  refine ⟨hsize,htotal,by decide,fun h => ?_⟩
  have hexact := (h overwrite List.prefix_rfl).exact
  rw [size_foldl,hsize] at hexact
  change 2 = totalSize size (overwrite.foldl step (new 10 size)).elements.entries at hexact
  rw [htotal] at hexact
  exact absurd hexact (by decide)

/-- Without the overwriting `Put` nothing is lost. -/
theorem first_puts_accounted : (∀ k v, 0 < size k v) ∧
    ∀ pre, pre <+: [Op.put 0 8,.put 1 0] → Accounted (0,0) (pre.foldl step (new 10 size)) := by
  refine ⟨size_pos,(accounted_iff_sparesOwn size_pos 10 (0,0) _).mpr ⟨by decide,?_⟩⟩
  intro pre op hpre
  have hlen := hpre.length_le
  match pre,hpre with
  | [],hpre =>
    obtain ⟨rfl,_⟩ := List.cons_prefix_cons.mp hpre
    intro _ before old after h
    cases before <;> cases h
  | [op'],hpre =>
    obtain ⟨rfl,htail⟩ := List.cons_prefix_cons.mp hpre
    obtain ⟨rfl,_⟩ := List.cons_prefix_cons.mp htail
    intro _ before old after h
    have hmem : (1,old) ∈ [((0 : ℕ),(8 : ℕ))] := by
      change [((0 : ℕ),(8 : ℕ))] = _ at h
      rw [h]
      simp
    simp at hmem
  | _ :: _ :: _,_ =>
    simp at hlen

end Sample
end Landslide.SizedLRU
