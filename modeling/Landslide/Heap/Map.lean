import Landslide.Lib.Exec
import Landslide.Lib.Heap
import Mathlib.Data.Finmap

/-! # Heaps with keys

A heap whose entries have keys, together with the position of every key. The heap algorithms
move entries through the callbacks `Swap`, `Push` and `Pop` only, and each of them keeps the
positions in step with the slice.
-/
namespace Landslide.Heap
variable {K V : Type}

structure Entry (K V : Type) where
  k : K
  v : V
  deriving DecidableEq

structure IndexedQueue (K V : Type) where
  entries : List (Entry K V)
  index : Finmap fun _ : K => ℕ

namespace IndexedQueue

/-- Wherever the heap algorithms ask, both positions are in the slice. -/
def less (lt : V → V → Bool) (h : IndexedQueue K V) (i j : ℕ) : Bool :=
  match h.entries[i]?, h.entries[j]? with
  | some a, some b => lt a.v b.v
  | _, _ => false

variable [DecidableEq K]

def swap (h : IndexedQueue K V) (i j : ℕ) : IndexedQueue K V :=
  match h.entries[i]?, h.entries[j]? with
  | some a, some b => ⟨swapAt h.entries i j,(h.index.insert b.k i).insert a.k j⟩
  | _, _ => h

def push (h : IndexedQueue K V) (entry : Entry K V) : IndexedQueue K V :=
  ⟨h.entries ++ [entry],h.index.insert entry.k h.index.keys.card⟩

def pop (h : IndexedQueue K V) : Option (Entry K V × IndexedQueue K V) :=
  match h.entries.getLast? with
  | none => none
  | some popped => some (popped,⟨h.entries.dropLast,h.index.erase popped.k⟩)

/-- The queue as `heap.Interface`. -/
def interface (lt : V → V → Bool) : HeapInterface (IndexedQueue K V) (Entry K V) where
  len h := h.entries.length
  less := less lt
  swap := swap
  push := push
  pop := pop

end IndexedQueue

structure Map (K V : Type) where
  less : V → V → Bool
  queue : IndexedQueue K V

/-- The message of the runtime goes on with the index. -/
def outOfRange : String := "index out of range"

namespace Map

def newMap (less : V → V → Bool) : Map K V := ⟨less,⟨[],∅⟩⟩

def len (m : Map K V) : ℕ := m.queue.entries.length

def peek (m : Map K V) : Outcome Empty (Option (K × V)) :=
  if m.len = 0 then .ok none
  else match m.queue.entries[0]? with
    | none => .panic outOfRange
    | some entry => .ok (some (entry.k,entry.v))

variable [DecidableEq K]

def interface (m : Map K V) : HeapInterface (IndexedQueue K V) (Entry K V) :=
  IndexedQueue.interface m.less

def push (m : Map K V) (k : K) (v : V) : Outcome Empty (Option V × Map K V) :=
  match m.queue.index.lookup k with
  | some i => match m.queue.entries[i]? with
    | none => .panic outOfRange
    | some prev =>
      let queue := { m.queue with entries := m.queue.entries.set i ⟨prev.k,v⟩ }
      .ok (some prev.v,{ m with queue := m.interface.fix queue i })
  | none => .ok (none,{ m with queue := m.interface.heapPush m.queue ⟨k,v⟩ })

def pop (m : Map K V) : Outcome Empty (Option (K × V) × Map K V) :=
  if m.len = 0 then .ok (none,m)
  else match m.interface.heapPop m.queue with
    | none => .panic outOfRange
    | some (popped,queue) => .ok (some (popped.k,popped.v),{ m with queue := queue })

def remove (m : Map K V) (k : K) : Outcome Empty (Option V × Map K V) :=
  match m.queue.index.lookup k with
  | some i => match m.interface.heapRemove m.queue i with
    | none => .panic outOfRange
    | some (removed,queue) => .ok (some removed.v,{ m with queue := queue })
  | none => .ok (none,m)

def contains (m : Map K V) (k : K) : Bool := (m.queue.index.lookup k).isSome

def get (m : Map K V) (k : K) : Outcome Empty (Option V) :=
  match m.queue.index.lookup k with
  | some i => match m.queue.entries[i]? with
    | none => .panic outOfRange
    | some got => .ok (some got.v)
  | none => .ok none

def fix (m : Map K V) (k : K) : Map K V :=
  match m.queue.index.lookup k with
  | some i => { m with queue := m.interface.fix m.queue i }
  | none => m

end Map

/-! ## Calls -/

inductive Op (K V : Type) where
  | push (k : K) (v : V)
  | pop
  | peek
  | get (k : K)
  | contains (k : K)
  | remove (k : K)
  | fix (k : K)

inductive Answer (K V : Type) where
  | value (v : Option V)
  | entry (e : Option (K × V))
  | flag (b : Bool)
  | done
  deriving DecidableEq

namespace Map
variable [DecidableEq K]

def call (m : Map K V) : Op K V → Outcome Empty (Answer K V × Map K V)
  | .push k v => do
    let (old,m) ← m.push k v
    .ok (.value old,m)
  | .pop => do
    let (popped,m) ← m.pop
    .ok (.entry popped,m)
  | .peek => do
    let entry ← m.peek
    .ok (.entry entry,m)
  | .get k => do
    let got ← m.get k
    .ok (.value got,m)
  | .contains k => .ok (.flag (m.contains k),m)
  | .remove k => do
    let (removed,m) ← m.remove k
    .ok (.value removed,m)
  | .fix k => .ok (.done,m.fix k)

def calls (m : Map K V) : List (Op K V) → Outcome Empty (List (Answer K V) × Map K V)
  | [] => .ok ([],m)
  | op :: ops => do
    let (answer,m) ← m.call op
    let (answers,m) ← m.calls ops
    .ok (answer :: answers,m)

end Map

inductive Effect (less : V → V → Bool) :
    Op K V → Answer K V → List (Entry K V) → List (Entry K V) → Prop
  | pushNew {k : K} {v : V} {l l' : List (Entry K V)} (hnew : ∀ e ∈ l, e.k ≠ k)
      (h : l'.Perm (⟨k,v⟩ :: l)) : Effect less (.push k v) (.value none) l l'
  | pushOld {k : K} {v prev : V} {l l' rest : List (Entry K V)} (hold : l.Perm (⟨k,prev⟩ :: rest))
      (h : l'.Perm (⟨k,v⟩ :: rest)) : Effect less (.push k v) (.value (some prev)) l l'
  | popNone : Effect less .pop (.entry none) [] []
  | pop {k : K} {v : V} {l l' : List (Entry K V)} (hleast : ∀ e ∈ l, ¬less e.v v)
      (h : l.Perm (⟨k,v⟩ :: l')) : Effect less .pop (.entry (some (k,v))) l l'
  | peekNone : Effect less .peek (.entry none) [] []
  | peek {k : K} {v : V} {l : List (Entry K V)} (hleast : ∀ e ∈ l, ¬less e.v v)
      (h : ⟨k,v⟩ ∈ l) : Effect less .peek (.entry (some (k,v))) l l
  | getNone {k : K} {l : List (Entry K V)} (h : ∀ e ∈ l, e.k ≠ k) :
      Effect less (.get k) (.value none) l l
  | get {k : K} {v : V} {l : List (Entry K V)} (h : ⟨k,v⟩ ∈ l) :
      Effect less (.get k) (.value (some v)) l l
  | contains {k : K} {b : Bool} {l : List (Entry K V)} (h : b = true ↔ ∃ e ∈ l, e.k = k) :
      Effect less (.contains k) (.flag b) l l
  | removeNone {k : K} {l : List (Entry K V)} (h : ∀ e ∈ l, e.k ≠ k) :
      Effect less (.remove k) (.value none) l l
  | remove {k : K} {v : V} {l l' : List (Entry K V)} (h : l.Perm (⟨k,v⟩ :: l')) :
      Effect less (.remove k) (.value (some v)) l l'
  | fix {k : K} {l l' : List (Entry K V)} (h : l'.Perm l) : Effect less (.fix k) .done l l'

/-! ## Positions -/

namespace IndexedQueue
variable {h : IndexedQueue K V}

variable [DecidableEq K]

/-- The index of a key is its position in the slice. -/
def Synced (h : IndexedQueue K V) : Prop :=
  ∀ k i, h.index.lookup k = some i ↔ ∃ v, h.entries[i]? = some ⟨k,v⟩

theorem Synced.position (hs : Synced h) {i : ℕ} {e : Entry K V} (he : h.entries[i]? = some e) :
    h.index.lookup e.k = some i := (hs e.k i).mpr ⟨e.v,he⟩

theorem Synced.keys_nodup (hs : Synced h) : (h.entries.map Entry.k).Nodup := by
  rw [List.nodup_iff_getElem?_ne_getElem?]
  intro i j hij hj heq
  rw [List.length_map] at hj
  simp only [List.getElem?_map,List.getElem?_eq_getElem hj,
    List.getElem?_eq_getElem (show i < h.entries.length by omega),Option.map_some,
    Option.some.injEq] at heq
  have hi := hs.position (List.getElem?_eq_getElem (show i < h.entries.length by omega))
  have hj' := hs.position (List.getElem?_eq_getElem hj)
  rw [heq,hj'] at hi
  cases hi
  omega

theorem Synced.lookup_eq_none_iff (hs : Synced h) {k : K} :
    h.index.lookup k = none ↔ ∀ e ∈ h.entries, e.k ≠ k := by
  constructor
  · rintro hnone e he rfl
    obtain ⟨i,hi⟩ := List.mem_iff_getElem?.mp he
    rw [hs.position hi] at hnone
    cases hnone
  · intro hall
    cases hlookup : h.index.lookup k with
    | none => rfl
    | some i =>
      obtain ⟨v,hv⟩ := (hs k i).mp hlookup
      exact absurd rfl (hall _ (List.mem_of_getElem? hv))

theorem Synced.card (hs : Synced h) : h.index.keys.card = h.entries.length := by
  have hkeys : h.index.keys = (h.entries.map Entry.k).toFinset := by
    ext k
    rw [Finmap.mem_keys,Finmap.mem_iff,List.mem_toFinset,List.mem_map]
    constructor
    · rintro ⟨i,hi⟩
      obtain ⟨v,hv⟩ := (hs k i).mp hi
      exact ⟨⟨k,v⟩,List.mem_of_getElem? hv,rfl⟩
    · rintro ⟨e,he,rfl⟩
      obtain ⟨i,hi⟩ := List.mem_iff_getElem?.mp he
      exact ⟨i,hs.position hi⟩
  rw [hkeys,List.toFinset_card_of_nodup hs.keys_nodup,List.length_map]

theorem Synced.key_eq (hs : Synced h) {k k' : K} {i : ℕ} (hk : h.index.lookup k = some i)
    (hk' : h.index.lookup k' = some i) : k = k' := by
  obtain ⟨v,hv⟩ := (hs k i).mp hk
  obtain ⟨v',hv'⟩ := (hs k' i).mp hk'
  rw [hv] at hv'
  cases hv'
  rfl

theorem Synced.swap (hs : Synced h) {i j : ℕ} (hi : i < h.entries.length)
    (hj : j < h.entries.length) : Synced (h.swap i j) := by
  intro k p
  have ha := hs.position (List.getElem?_eq_getElem hi)
  have hb := hs.position (List.getElem?_eq_getElem hj)
  simp only [IndexedQueue.swap,List.getElem?_eq_getElem hi,List.getElem?_eq_getElem hj,
    getElem?_swapAt hi hj,← hs k]
  by_cases hka : k = h.entries[i].k
  · rw [hka,Finmap.lookup_insert,ha,Option.some.injEq,Option.some.injEq,eq_comm (a := i),
      Equiv.swap_apply_eq_iff,Equiv.swap_apply_left]
    exact eq_comm
  rw [Finmap.lookup_insert_of_ne _ hka]
  by_cases hkb : k = h.entries[j].k
  · rw [hkb,Finmap.lookup_insert,hb,Option.some.injEq,Option.some.injEq,eq_comm (a := j),
      Equiv.swap_apply_eq_iff,Equiv.swap_apply_right]
    exact eq_comm
  · rw [Finmap.lookup_insert_of_ne _ hkb]
    -- the key is at neither of the two positions
    by_cases hpi : p = i
    · subst hpi
      rw [Equiv.swap_apply_left]
      exact iff_of_false (fun hk => hka (hs.key_eq hk ha)) fun hk => hkb (hs.key_eq hk hb)
    by_cases hpj : p = j
    · subst hpj
      rw [Equiv.swap_apply_right]
      exact iff_of_false (fun hk => hkb (hs.key_eq hk hb)) fun hk => hka (hs.key_eq hk ha)
    · rw [Equiv.swap_apply_of_ne_of_ne hpi hpj]

theorem Synced.push (hs : Synced h) {entry : Entry K V} (hnew : h.index.lookup entry.k = none) :
    Synced (h.push entry) := by
  intro k p
  simp only [IndexedQueue.push,hs.card]
  by_cases hk : k = entry.k
  · subst hk
    rw [Finmap.lookup_insert,Option.some.injEq]
    constructor
    · rintro rfl
      exact ⟨entry.v,by simp⟩
    · rintro ⟨v,hv⟩
      rw [List.getElem?_append] at hv
      split at hv
      · have hold := hs.position hv
        rw [hnew] at hold
        cases hold
      · next hge =>
        obtain ⟨hlt,_⟩ := List.getElem?_eq_some_iff.mp hv
        rw [List.length_singleton] at hlt
        omega
  · rw [Finmap.lookup_insert_of_ne _ hk,hs k p,List.getElem?_append]
    split
    · rfl
    · next hge =>
      rw [List.getElem?_eq_none (not_lt.mp hge)]
      refine iff_of_false (by simp) ?_
      rintro ⟨v,hv⟩
      have hmem := List.mem_of_getElem? hv
      rw [List.mem_singleton] at hmem
      exact hk (by rw [← hmem])

theorem Synced.pop (hs : Synced h) {popped : Entry K V} {h' : IndexedQueue K V}
    (hpop : h.pop = some (popped,h')) : Synced h' := by
  cases hlast : h.entries.getLast? with
  | none =>
    rw [IndexedQueue.pop,hlast] at hpop
    cases hpop
  | some last =>
    rw [IndexedQueue.pop,hlast] at hpop
    cases hpop
    have hend := hlast
    rw [List.getLast?_eq_getElem?] at hend
    have hposition := hs.position hend
    intro k p
    simp only [List.getElem?_dropLast]
    by_cases hk : k = popped.k
    · subst hk
      rw [Finmap.lookup_erase]
      refine iff_of_false (by simp) ?_
      rintro ⟨v,hv⟩
      split at hv
      · have hold := hs.position hv
        rw [hposition] at hold
        cases hold
        omega
      · cases hv
    · rw [Finmap.lookup_erase_ne hk,hs k p]
      split
      · rfl
      · next hge =>
        refine iff_of_false ?_ (by simp)
        rintro ⟨v,hv⟩
        obtain ⟨hlt,_⟩ := List.getElem?_eq_some_iff.mp hv
        have hp : p = h.entries.length - 1 := by omega
        rw [hp,hend] at hv
        cases hv
        exact hk rfl

theorem Synced.swaps {lt : V → V → Bool} {h' : IndexedQueue K V} (hs : Synced h)
    (hswaps : Swaps (interface lt) h h') : Synced h' :=
  hswaps.keeps hs fun _ _ _ hi hj hs => hs.swap hi hj

theorem interface_lawful {lt : V → V → Bool} (hlt : StrictWeak lt) :
    LawfulHeap (interface lt) (IndexedQueue.entries (K := K)) fun a b => lt a.v b.v where
  order := ⟨fun a b => hlt.asymm a.v b.v,fun a b c => hlt.negTrans a.v b.v c.v⟩
  len _ := rfl
  less h i j hi hj := by
    change IndexedQueue.less lt h i j = _
    change i < h.entries.length at hi
    change j < h.entries.length at hj
    rw [IndexedQueue.less,List.getElem?_eq_getElem hi,List.getElem?_eq_getElem hj]
    rfl
  swap h i j hi hj := by
    change (h.swap i j).entries = _
    change i < h.entries.length at hi
    change j < h.entries.length at hj
    rw [IndexedQueue.swap,List.getElem?_eq_getElem hi,List.getElem?_eq_getElem hj]
  push _ _ := rfl
  pop h l x hl := by
    change ∃ h', h.pop = some (x,h') ∧ h'.entries = l
    refine ⟨⟨l,h.index.erase x.k⟩,?_,rfl⟩
    rw [IndexedQueue.pop,hl,List.getLast?_concat,List.dropLast_concat]

end IndexedQueue

/-! ## Runs -/

namespace Map
variable [DecidableEq K]

structure Valid (m : Map K V) : Prop where
  order : StrictWeak m.less
  synced : m.queue.Synced
  ordered : LawfulHeap.Ordered IndexedQueue.entries (fun a b => m.less a.v b.v) m.queue

variable {m : Map K V}

theorem newMap_valid {less : V → V → Bool} (hless : StrictWeak less) :
    Valid (newMap less : Map K V) := by
  refine ⟨hless,?_,?_⟩
  · intro k i
    simp [newMap]
  · intro i hpos hi
    simp [newMap] at hi

theorem Valid.lawful (hm : m.Valid) :
    LawfulHeap m.interface IndexedQueue.entries fun a b => m.less a.v b.v :=
  IndexedQueue.interface_lawful hm.order

theorem Valid.push (hm : m.Valid) (k : K) (v : V) : ∃ old queue,
    m.push k v = .ok (old,{ m with queue := queue }) ∧ Valid { m with queue := queue } ∧
      Effect m.less (.push k v) (.value old) m.queue.entries queue.entries := by
  cases hlookup : m.queue.index.lookup k with
  | none =>
    obtain ⟨hswaps,hordered⟩ := hm.lawful.heapPush_spec hm.ordered ⟨k,v⟩
    have hperm := hm.lawful.swaps_perm hswaps
    refine ⟨none,m.interface.heapPush m.queue ⟨k,v⟩,by rw [Map.push,hlookup],
      ⟨hm.order,(hm.synced.push hlookup).swaps hswaps,hordered⟩,?_⟩
    refine .pushNew (hm.synced.lookup_eq_none_iff.mp hlookup) (hperm.trans ?_)
    exact List.perm_append_singleton _ _
  | some i =>
    obtain ⟨prev,hprev⟩ := (hm.synced k i).mp hlookup
    obtain ⟨hi,_⟩ := List.getElem?_eq_some_iff.mp hprev
    have hset : ∀ p, p ≠ i → (m.queue.entries.set i ⟨k,v⟩)[p]? = m.queue.entries[p]? :=
      fun p hp => List.getElem?_set_ne (Ne.symm hp)
    have hself : (m.queue.entries.set i ⟨k,v⟩)[i]? = some ⟨k,v⟩ := List.getElem?_set_self hi
    have hsynced : IndexedQueue.Synced ⟨m.queue.entries.set i ⟨k,v⟩,m.queue.index⟩ := by
      intro k' p
      rw [hm.synced k' p]
      by_cases hp : p = i
      · subst hp
        rw [hprev,hself]
        constructor
        · rintro ⟨_,h⟩
          cases h
          exact ⟨v,rfl⟩
        · rintro ⟨_,h⟩
          cases h
          exact ⟨prev,rfl⟩
      · rw [hset p hp]
    have hlength : (m.queue.entries.set i ⟨k,v⟩).length = m.queue.entries.length :=
      List.length_set
    have hready : FixReady (ltLast fun a b : Entry K V => m.less a.v b.v)
        (LawfulHeap.view IndexedQueue.entries ⟨m.queue.entries.set i ⟨k,v⟩,m.queue.index⟩)
        (m.queue.entries.set i ⟨k,v⟩).length i := by
      rw [hlength]
      exact hm.ordered.fixReady hm.lawful.order.ltLast hi fun p _ hp => hset p hp
    obtain ⟨hswaps,hordered⟩ := hm.lawful.fix_spec hready
    have hperm := hm.lawful.swaps_perm hswaps
    refine ⟨some prev,m.interface.fix ⟨m.queue.entries.set i ⟨k,v⟩,m.queue.index⟩ i,
      by rw [Map.push,hlookup]; simp only [hprev],⟨hm.order,hsynced.swaps hswaps,hordered⟩,?_⟩
    have hold := List.getElem_cons_eraseIdx_perm hi
    rw [List.getElem_eq_iff hi |>.mpr hprev] at hold
    exact .pushOld hold.symm (hperm.trans (List.set_perm_cons_eraseIdx hi _))

theorem Valid.first_least (hm : m.Valid) {e : Entry K V} (he : m.queue.entries[0]? = some e) :
    ∀ e' ∈ m.queue.entries, ¬m.less e'.v e.v :=
  fun _ he' => LawfulHeap.Ordered.first hm.lawful hm.ordered he he'

theorem Valid.pop (hm : m.Valid) : ∃ popped queue,
    m.pop = .ok (popped,{ m with queue := queue }) ∧ Valid { m with queue := queue } ∧
      Effect m.less .pop (.entry popped) m.queue.entries queue.entries := by
  cases hentries : m.queue.entries with
  | nil =>
    refine ⟨none,m.queue,by rw [Map.pop,len,hentries]; rfl,hm,?_⟩
    rw [hentries]
    exact .popNone
  | cons e rest =>
    have hfirst : m.queue.entries[0]? = some e := by rw [hentries]; rfl
    obtain ⟨q,queue,hswaps,hpop,hheap,hperm,hordered⟩ := hm.lawful.heapPop_spec hm.ordered hfirst
    have hlen : m.len ≠ 0 := by
      rw [len,hentries]
      exact Nat.succ_ne_zero _
    refine ⟨some (e.k,e.v),queue,by rw [Map.pop,if_neg hlen,hheap],
      ⟨hm.order,(hm.synced.swaps hswaps).pop hpop,hordered⟩,?_⟩
    rw [← hentries]
    exact .pop (hm.first_least hfirst) hperm.symm

theorem Valid.peek (hm : m.Valid) : ∃ entry, m.peek = .ok entry ∧
    Effect m.less .peek (.entry entry) m.queue.entries m.queue.entries := by
  cases hentries : m.queue.entries with
  | nil => exact ⟨none,by rw [Map.peek,len,hentries]; rfl,.peekNone⟩
  | cons e rest =>
    have hfirst : m.queue.entries[0]? = some e := by rw [hentries]; rfl
    have hlen : m.len ≠ 0 := by
      rw [len,hentries]
      exact Nat.succ_ne_zero _
    refine ⟨some (e.k,e.v),by rw [Map.peek,if_neg hlen,hfirst],?_⟩
    rw [← hentries]
    exact .peek (hm.first_least hfirst) (List.mem_of_getElem? hfirst)

theorem Valid.get (hm : m.Valid) (k : K) : ∃ got, m.get k = .ok got ∧
    Effect m.less (.get k) (.value got) m.queue.entries m.queue.entries := by
  cases hlookup : m.queue.index.lookup k with
  | none =>
    exact ⟨none,by rw [Map.get,hlookup],.getNone (hm.synced.lookup_eq_none_iff.mp hlookup)⟩
  | some i =>
    obtain ⟨v,hv⟩ := (hm.synced k i).mp hlookup
    exact ⟨some v,by rw [Map.get,hlookup]; simp only [hv],.get (List.mem_of_getElem? hv)⟩

theorem Valid.contains (hm : m.Valid) (k : K) :
    Effect m.less (.contains k) (.flag (m.contains k)) m.queue.entries m.queue.entries := by
  refine .contains ?_
  rw [Map.contains,Option.isSome_iff_ne_none,ne_eq,hm.synced.lookup_eq_none_iff]
  simp only [ne_eq,not_forall,Decidable.not_not,exists_prop]

theorem Valid.remove (hm : m.Valid) (k : K) : ∃ removed queue,
    m.remove k = .ok (removed,{ m with queue := queue }) ∧ Valid { m with queue := queue } ∧
      Effect m.less (.remove k) (.value removed) m.queue.entries queue.entries := by
  cases hlookup : m.queue.index.lookup k with
  | none =>
    exact ⟨none,m.queue,by rw [Map.remove,hlookup],hm,
      .removeNone (hm.synced.lookup_eq_none_iff.mp hlookup)⟩
  | some i =>
    obtain ⟨v,hv⟩ := (hm.synced k i).mp hlookup
    obtain ⟨q,queue,hswaps,hpop,hheap,hperm,hordered⟩ := hm.lawful.heapRemove_spec hm.ordered hv
    exact ⟨some v,queue,by rw [Map.remove,hlookup]; simp only [hheap],
      ⟨hm.order,(hm.synced.swaps hswaps).pop hpop,hordered⟩,.remove hperm.symm⟩

theorem Valid.fix (hm : m.Valid) (k : K) : ∃ queue,
    m.fix k = { m with queue := queue } ∧ Valid { m with queue := queue } ∧
      Effect m.less (.fix k) .done m.queue.entries queue.entries := by
  unfold Map.fix
  cases hlookup : m.queue.index.lookup k with
  | none => exact ⟨m.queue,rfl,hm,.fix (List.Perm.refl _)⟩
  | some i =>
    obtain ⟨v,hv⟩ := (hm.synced k i).mp hlookup
    obtain ⟨hi,_⟩ := List.getElem?_eq_some_iff.mp hv
    obtain ⟨hswaps,hordered⟩ := hm.lawful.fix_spec
      (hm.ordered.fixReady hm.lawful.order.ltLast hi fun _ _ _ => rfl)
    exact ⟨_,rfl,⟨hm.order,hm.synced.swaps hswaps,hordered⟩,.fix (hm.lawful.swaps_perm hswaps)⟩

theorem Valid.call (hm : m.Valid) (op : Op K V) : ∃ answer queue,
    m.call op = .ok (answer,{ m with queue := queue }) ∧ Valid { m with queue := queue } ∧
      Effect m.less op answer m.queue.entries queue.entries := by
  cases op with
  | push k v =>
    obtain ⟨old,queue,hcall,hvalid,heffect⟩ := hm.push k v
    exact ⟨.value old,queue,by rw [Map.call,hcall]; rfl,hvalid,heffect⟩
  | pop =>
    obtain ⟨popped,queue,hcall,hvalid,heffect⟩ := hm.pop
    exact ⟨.entry popped,queue,by rw [Map.call,hcall]; rfl,hvalid,heffect⟩
  | peek =>
    obtain ⟨entry,hcall,heffect⟩ := hm.peek
    exact ⟨.entry entry,m.queue,by rw [Map.call,hcall]; rfl,hm,heffect⟩
  | get k =>
    obtain ⟨got,hcall,heffect⟩ := hm.get k
    exact ⟨.value got,m.queue,by rw [Map.call,hcall]; rfl,hm,heffect⟩
  | contains k => exact ⟨.flag (m.contains k),m.queue,rfl,hm,hm.contains k⟩
  | remove k =>
    obtain ⟨removed,queue,hcall,hvalid,heffect⟩ := hm.remove k
    exact ⟨.value removed,queue,by rw [Map.call,hcall]; rfl,hvalid,heffect⟩
  | fix k =>
    obtain ⟨queue,hcall,hvalid,heffect⟩ := hm.fix k
    exact ⟨.done,queue,by rw [Map.call,hcall],hvalid,heffect⟩

theorem Valid.calls (hm : m.Valid) (ops : List (Op K V)) : ∃ answers queue,
    m.calls ops = .ok (answers,{ m with queue := queue }) ∧ Valid { m with queue := queue } := by
  induction ops generalizing m with
  | nil => exact ⟨[],m.queue,rfl,hm⟩
  | cons op ops ih =>
    obtain ⟨answer,queue,hcall,hvalid,_⟩ := hm.call op
    obtain ⟨answers,queue',hcalls,hvalid'⟩ := ih hvalid
    refine ⟨answer :: answers,queue',?_,hvalid'⟩
    rw [Map.calls,hcall,Outcome.ok_bind]
    dsimp only
    rw [hcalls]
    rfl

/-- After any calls the keys are unique, the index of every key is its position and the slice is
in heap order; the next call does not panic and has its effect. -/
theorem keyed_heap (less : V → V → Bool) (hless : StrictWeak less) (ops : List (Op K V))
    (op : Op K V) : ∃ answers queue answer queue',
      (newMap less).calls ops = .ok (answers,⟨less,queue⟩) ∧
      (queue.entries.map Entry.k).Nodup ∧
      (∀ k i, queue.index.lookup k = some i ↔ ∃ v, queue.entries[i]? = some ⟨k,v⟩) ∧
      (∀ i a b, 0 < i → queue.entries[i]? = some a →
        queue.entries[(i - 1) / 2]? = some b → ¬less a.v b.v) ∧
      (⟨less,queue⟩ : Map K V).call op = .ok (answer,⟨less,queue'⟩) ∧
      Effect less op answer queue.entries queue'.entries := by
  obtain ⟨answers,queue,hcalls,hvalid⟩ := (newMap_valid (K := K) hless).calls ops
  obtain ⟨answer,queue',hcall,_,heffect⟩ := hvalid.call op
  exact ⟨answers,queue,answer,queue',hcalls,hvalid.synced.keys_nodup,hvalid.synced,
    LawfulHeap.ordered_iff.mp hvalid.ordered,hcall,heffect⟩

end Map

namespace Sample

def lessNat (a b : ℕ) : Bool := a < b

theorem lessNat_strictWeak : StrictWeak lessNat := by
  refine ⟨fun a b h => ?_,fun a b c h h' => ?_⟩
  · simp only [lessNat,decide_eq_true_eq] at h ⊢
    omega
  · simp only [lessNat,decide_eq_true_eq] at h h' ⊢
    omega

theorem replaced_popped : ∃ answers queue answer queue',
    (Map.newMap lessNat).calls [.push 1 7,.push 2 5,.push 1 3] = .ok (answers,⟨lessNat,queue⟩) ∧
      (queue.entries.map Entry.k).Nodup ∧
      (∀ k i, queue.index.lookup k = some i ↔ ∃ v, queue.entries[i]? = some ⟨k,v⟩) ∧
      (∀ i a b, 0 < i → queue.entries[i]? = some a →
        queue.entries[(i - 1) / 2]? = some b → ¬lessNat a.v b.v) ∧
      (⟨lessNat,queue⟩ : Map ℕ ℕ).call .pop = .ok (answer,⟨lessNat,queue'⟩) ∧
      Effect lessNat .pop answer queue.entries queue'.entries :=
  Map.keyed_heap lessNat lessNat_strictWeak _ _

end Sample
end Landslide.Heap
