import Mathlib.Data.List.Perm.Basic
import Mathlib.Data.Nat.Basic
import Mathlib.Logic.Equiv.Basic
import Mathlib.Tactic.Common

/-! # Binary heaps behind an interface

The heap algorithms see their data through an interface: the number of entries, a comparison of
two positions, and a swap of two positions. They are written here over any such interface. An
interface is lawful if it is about a sequence of values that the swap exchanges. Whatever a swap
keeps, the algorithms keep.
-/
namespace Landslide
variable {σ α β : Type}

structure HeapInterface (σ α : Type) where
  len : σ → ℕ
  less : σ → ℕ → ℕ → Bool
  swap : σ → ℕ → ℕ → σ
  push : σ → α → σ
  pop : σ → Option (α × σ)

namespace HeapInterface
variable (I : HeapInterface σ α)

def parent (j : ℕ) : ℕ := (j - 1) / 2

/-- The loop of `up`; the position goes down, so that it bounds the number of rounds. -/
def upLoop : ℕ → σ → ℕ → σ
  | 0, s, _ => s
  | rounds + 1, s, j =>
    if parent j = j ∨ ¬I.less s j (parent j) then s
    else upLoop rounds (I.swap s (parent j) j) (parent j)

def up (s : σ) (j : ℕ) : σ := I.upLoop (j + 1) s j

def smallerChild (s : σ) (i n : ℕ) : ℕ :=
  if 2 * i + 2 < n ∧ I.less s (2 * i + 2) (2 * i + 1) then 2 * i + 2 else 2 * i + 1

/-- The loop of `down`, with the position where it ends. -/
def downLoop (n : ℕ) : ℕ → σ → ℕ → σ × ℕ
  | 0, s, i => (s,i)
  | rounds + 1, s, i =>
    if n ≤ 2 * i + 1 ∨ ¬I.less s (I.smallerChild s i n) i then (s,i)
    else downLoop n rounds (I.swap s i (I.smallerChild s i n)) (I.smallerChild s i n)

/-- Whether the entry moved comes second. -/
def down (s : σ) (i n : ℕ) : σ × Bool :=
  let r := I.downLoop n n s i
  (r.1,r.2 > i)

def heapPush (s : σ) (x : α) : σ :=
  let s := I.push s x
  I.up s (I.len s - 1)

def heapPop (s : σ) : Option (α × σ) :=
  let n := I.len s - 1
  I.pop (I.down (I.swap s 0 n) 0 n).1

/-- `down`, and `up` if nothing moved. -/
def sift (s : σ) (i n : ℕ) : σ :=
  let r := I.down s i n
  if r.2 then r.1 else I.up r.1 i

def heapRemove (s : σ) (i : ℕ) : Option (α × σ) :=
  let n := I.len s - 1
  I.pop (if n = i then s else I.sift (I.swap s i n) i n)

def fix (s : σ) (i : ℕ) : σ := I.sift s i (I.len s)

end HeapInterface

/-! ## Orders -/

structure StrictWeak (lt : β → β → Bool) : Prop where
  asymm : ∀ a b, lt a b → ¬lt b a
  negTrans : ∀ a b c, ¬lt a b → ¬lt b c → ¬lt a c

theorem StrictWeak.irrefl {lt : β → β → Bool} (h : StrictWeak lt) (a : β) : ¬lt a a :=
  fun haa => h.asymm a a haa haa

/-- What is not there comes last. -/
def ltLast (lt : β → β → Bool) : Option β → Option β → Bool
  | some a, some b => lt a b
  | some _, none => true
  | none, _ => false

theorem StrictWeak.ltLast {lt : β → β → Bool} (h : StrictWeak lt) : StrictWeak (ltLast lt) where
  asymm a b := by
    cases a with
    | none => simp [Landslide.ltLast]
    | some a =>
      cases b with
      | none => simp [Landslide.ltLast]
      | some b => exact h.asymm a b
  negTrans a b c := by
    cases a with
    | none => simp [Landslide.ltLast]
    | some a =>
      cases b with
      | none => simp [Landslide.ltLast]
      | some b =>
        cases c with
        | none => simp [Landslide.ltLast]
        | some c => exact h.negTrans a b c

/-! ## Heap order on a sequence -/

section
open HeapInterface
variable (lt : β → β → Bool) (v : ℕ → β) (n : ℕ)

/-- No entry is before its parent. -/
def HeapOrdered : Prop := ∀ i, 0 < i → i < n → ¬lt (v i) (v (parent i))

/-- Only the entry at `j` may be before its parent. -/
structure UpReady (j : ℕ) : Prop where
  inside : j < n
  ordered : ∀ i, 0 < i → i < n → i ≠ j → ¬lt (v i) (v (parent i))
  grand : 0 < j → ∀ i, 0 < i → i < n → parent i = j → ¬lt (v i) (v (parent j))

/-- Only the children of the entry at `i` may be before it. -/
structure DownReady (i : ℕ) : Prop where
  ordered : ∀ k, 0 < k → k < n → parent k ≠ i → ¬lt (v k) (v (parent k))
  grand : 0 < i → ∀ k, 0 < k → k < n → parent k = i → ¬lt (v k) (v (parent i))

/-- The entry at `i` may be anything. -/
structure FixReady (i : ℕ) : Prop where
  inside : i < n
  ordered : ∀ k, 0 < k → k < n → k ≠ i → parent k ≠ i → ¬lt (v k) (v (parent k))
  grand : 0 < i → ∀ k, 0 < k → k < n → parent k = i → ¬lt (v k) (v (parent i))

variable {lt v n}

theorem parent_lt {j : ℕ} (h : 0 < j) : parent j < j := by
  unfold parent
  omega

theorem child_cases {k i : ℕ} (hk : 0 < k) (h : parent k = i) : k = 2 * i + 1 ∨ k = 2 * i + 2 := by
  unfold parent at h
  omega

theorem HeapOrdered.root (hlt : StrictWeak lt) (h : HeapOrdered lt v n) (i : ℕ) (hi : i < n) :
    ¬lt (v i) (v 0) := by
  induction i using Nat.strongRecOn with
  | ind i ih =>
    rcases Nat.eq_zero_or_pos i with rfl | hpos
    · exact hlt.irrefl _
    · have hparent := parent_lt hpos
      exact hlt.negTrans _ _ _ (h i hpos hi) (ih (parent i) hparent (by omega))

theorem HeapOrdered.mono {m : ℕ} (h : HeapOrdered lt v n) (hm : m ≤ n) : HeapOrdered lt v m :=
  fun i hpos hi => h i hpos (by omega)

theorem UpReady.heapOrdered {j : ℕ} (h : UpReady lt v n j)
    (hstop : 0 < j → ¬lt (v j) (v (parent j))) : HeapOrdered lt v n := by
  intro i hpos hi
  by_cases hij : i = j
  · subst hij
    exact hstop hpos
  · exact h.ordered i hpos hi hij

theorem swap_apply_other {i j k : ℕ} (hi : k ≠ i) (hj : k ≠ j) :
    (v ∘ Equiv.swap i j) k = v k := by
  rw [Function.comp_apply,Equiv.swap_apply_of_ne_of_ne hi hj]

theorem swap_apply_first (i j : ℕ) : (v ∘ Equiv.swap i j) i = v j := by
  rw [Function.comp_apply,Equiv.swap_apply_left]

theorem swap_apply_second (i j : ℕ) : (v ∘ Equiv.swap i j) j = v i := by
  rw [Function.comp_apply,Equiv.swap_apply_right]

theorem UpReady.step (hlt : StrictWeak lt) {j : ℕ} (h : UpReady lt v n j) (hj : 0 < j)
    (hless : lt (v j) (v (parent j))) :
    UpReady lt (v ∘ Equiv.swap (parent j) j) n (parent j) := by
  have hp := parent_lt hj
  have hn := h.inside
  refine ⟨by omega,fun i hpos hi hne => ?_,fun hppos i hpos hi hpar => ?_⟩
  · by_cases hij : i = j
    · subst hij
      rw [swap_apply_second,swap_apply_first]
      exact hlt.asymm _ _ hless
    rw [swap_apply_other hne hij]
    by_cases hpj : parent i = j
    · rw [hpj,swap_apply_second]
      exact h.grand hj i hpos hi hpj
    by_cases hpp : parent i = parent j
    · rw [hpp,swap_apply_first]
      -- a sibling of the entry that moves up
      have hsib := h.ordered i hpos hi hij
      rw [hpp] at hsib
      intro hbefore
      by_cases hlevel : lt (v j) (v i)
      · exact hlt.asymm _ _ hlevel hbefore
      · exact hlt.negTrans _ _ _ hlevel hsib hless
    · rw [swap_apply_other hpp hpj]
      exact h.ordered i hpos hi hij
  · have hpp := parent_lt hppos
    rw [swap_apply_other (by omega) (by omega) (k := parent (parent j))]
    have hup := h.ordered (parent j) hppos (by omega) (by omega)
    by_cases hij : i = j
    · subst hij
      rw [swap_apply_second]
      exact hup
    · have hige := parent_lt hpos
      rw [swap_apply_other (by omega) hij]
      have hsib := h.ordered i hpos hi hij
      rw [hpar] at hsib
      exact hlt.negTrans _ _ _ hsib hup

/-- `c` is a child of `i` that no child is before. -/
structure Smaller (lt : β → β → Bool) (v : ℕ → β) (n i c : ℕ) : Prop where
  inside : c < n
  child : c = 2 * i + 1 ∨ c = 2 * i + 2
  least : ∀ k, 0 < k → k < n → parent k = i → ¬lt (v k) (v c)

theorem Smaller.parent {i c : ℕ} (h : Smaller lt v n i c) : parent c = i := by
  have hc := h.child
  unfold HeapInterface.parent
  omega

theorem FixReady.step (hlt : StrictWeak lt) {i c : ℕ} (h : FixReady lt v n i)
    (hc : Smaller lt v n i c) (hless : lt (v c) (v i)) :
    DownReady lt (v ∘ Equiv.swap i c) n c := by
  have hci := hc.child
  have hpc := hc.parent
  refine ⟨fun k hpos hk hpar => ?_,fun _ k hpos hk hpar => ?_⟩
  · have hpk := parent_lt hpos
    by_cases hki : k = i
    · subst hki
      rw [swap_apply_first,swap_apply_other (by omega) hpar]
      exact h.grand hpos c (by omega) hc.inside hpc
    by_cases hkc : k = c
    · subst hkc
      rw [swap_apply_second,hpc,swap_apply_first]
      exact hlt.asymm _ _ hless
    rw [swap_apply_other hki hkc]
    by_cases hpi : HeapInterface.parent k = i
    · rw [hpi,swap_apply_first]
      exact hc.least k hpos hk hpi
    · rw [swap_apply_other hpi hpar]
      exact h.ordered k hpos hk hki hpi
  · have hpk := parent_lt hpos
    rw [hpc,swap_apply_first,swap_apply_other (by omega) (by omega)]
    have hold := h.ordered k hpos hk (by omega) (by omega)
    rwa [hpar] at hold

theorem DownReady.fixReady {i : ℕ} (h : DownReady lt v n i) (hi : i < n) : FixReady lt v n i :=
  ⟨hi,fun k hpos hk _ => h.ordered k hpos hk,h.grand⟩

theorem DownReady.heapOrdered {i : ℕ} (h : DownReady lt v n i)
    (hstop : ∀ k, 0 < k → k < n → parent k = i → ¬lt (v k) (v i)) : HeapOrdered lt v n := by
  intro k hpos hk
  by_cases hpar : parent k = i
  · rw [hpar]
    exact hstop k hpos hk hpar
  · exact h.ordered k hpos hk hpar

theorem FixReady.up {i : ℕ} (h : FixReady lt v n i)
    (hbelow : ∀ k, 0 < k → k < n → parent k = i → ¬lt (v k) (v i)) : UpReady lt v n i := by
  refine ⟨h.inside,fun k hpos hk hki => ?_,h.grand⟩
  by_cases hpar : parent k = i
  · rw [hpar]
    exact hbelow k hpos hk hpar
  · exact h.ordered k hpos hk hki hpar

theorem HeapOrdered.fixReady (h : HeapOrdered lt v n) (hlt : StrictWeak lt) {i : ℕ} (hi : i < n)
    {w : ℕ → β} (hw : ∀ k, k < n → k ≠ i → w k = v k) : FixReady lt w n i := by
  refine ⟨hi,fun k hpos hk hki hpar => ?_,fun hipos k hpos hk hpar => ?_⟩
  · have hpk := parent_lt hpos
    rw [hw k hk hki,hw _ (by omega) hpar]
    exact h k hpos hk
  · have hp := parent_lt hipos
    have hpk := parent_lt hpos
    rw [hw k hk (by omega),hw (parent i) (by omega) (by omega)]
    have hki := h k hpos hk
    rw [hpar] at hki
    exact hlt.negTrans _ _ _ hki (h i hipos hi)

end

/-! ## Lawful interfaces -/

def swapAt (l : List α) (i j : ℕ) : List α :=
  match l[i]?, l[j]? with
  | some a, some b => (l.set i b).set j a
  | _, _ => l

theorem swapAt_length (l : List α) (i j : ℕ) : (swapAt l i j).length = l.length := by
  unfold swapAt
  split <;> simp

theorem swapAt_perm (l : List α) (i j : ℕ) : (swapAt l i j).Perm l := by
  unfold swapAt
  split
  · next a b ha hb =>
    obtain ⟨hi,rfl⟩ := List.getElem?_eq_some_iff.mp ha
    obtain ⟨hj,rfl⟩ := List.getElem?_eq_some_iff.mp hb
    exact List.set_set_perm hi hj
  · exact List.Perm.refl _

theorem getElem?_swapAt {l : List α} {i j : ℕ} (hi : i < l.length) (hj : j < l.length) (k : ℕ) :
    (swapAt l i j)[k]? = l[Equiv.swap i j k]? := by
  have hswap : swapAt l i j = (l.set i l[j]).set j l[i] := by
    unfold swapAt
    rw [List.getElem?_eq_getElem hi,List.getElem?_eq_getElem hj]
  rw [hswap]
  by_cases hkj : k = j
  · subst hkj
    rw [Equiv.swap_apply_right,List.getElem?_set_self (by simpa using hj),
      List.getElem?_eq_getElem hi]
  rw [List.getElem?_set_ne (Ne.symm hkj)]
  by_cases hki : k = i
  · subst hki
    rw [Equiv.swap_apply_left,List.getElem?_set_self hi,List.getElem?_eq_getElem hj]
  · rw [List.getElem?_set_ne (Ne.symm hki),Equiv.swap_apply_of_ne_of_ne hki hkj]

/-- The interface is about a list of entries. -/
structure LawfulHeap (I : HeapInterface σ α) (entries : σ → List α) (lt : α → α → Bool) : Prop where
  order : StrictWeak lt
  len : ∀ s, I.len s = (entries s).length
  less : ∀ s i j, i < I.len s → j < I.len s →
    I.less s i j = ltLast lt (entries s)[i]? (entries s)[j]?
  swap : ∀ s i j, i < I.len s → j < I.len s → entries (I.swap s i j) = swapAt (entries s) i j
  push : ∀ s x, entries (I.push s x) = entries s ++ [x]
  pop : ∀ s l x, entries s = l ++ [x] → ∃ s', I.pop s = some (x,s') ∧ entries s' = l

/-- Swaps of positions that there are. -/
inductive Swaps (I : HeapInterface σ α) (s : σ) : σ → Prop
  | refl : Swaps I s s
  | step {s' : σ} {i j : ℕ} (h : Swaps I s s') (hi : i < I.len s') (hj : j < I.len s') :
      Swaps I s (I.swap s' i j)

theorem Swaps.trans {I : HeapInterface σ α} {s s' s'' : σ} (h : Swaps I s s') (h' : Swaps I s' s'') :
    Swaps I s s'' := by
  induction h' with
  | refl => exact h
  | step _ hi hj ih => exact ih.step hi hj

/-- What one swap keeps, any number of them keeps. -/
theorem Swaps.keeps {I : HeapInterface σ α} {s s' : σ} {P : σ → Prop} (h : Swaps I s s') (hs : P s)
    (hswap : ∀ s i j, i < I.len s → j < I.len s → P s → P (I.swap s i j)) : P s' := by
  induction h with
  | refl => exact hs
  | step _ hi hj ih => exact hswap _ _ _ hi hj ih

namespace LawfulHeap
open HeapInterface
variable {I : HeapInterface σ α} {entries : σ → List α} {lt : α → α → Bool}
variable (L : LawfulHeap I entries lt) {s s' : σ}
include L

theorem swap_len {i j : ℕ} (hi : i < I.len s) (hj : j < I.len s) :
    I.len (I.swap s i j) = I.len s := by
  rw [L.len,L.len,L.swap s i j hi hj,swapAt_length]

theorem swaps_len (h : Swaps I s s') : I.len s' = I.len s :=
  h.keeps (P := fun s' => I.len s' = I.len s) rfl
    fun _ _ _ hi hj hlen => (L.swap_len hi hj).trans hlen

theorem swaps_perm (h : Swaps I s s') : (entries s').Perm (entries s) :=
  h.keeps (P := fun s' => (entries s').Perm (entries s)) (List.Perm.refl _)
    fun s' i j hi hj hperm => by
      rw [L.swap s' i j hi hj]
      exact (swapAt_perm _ i j).trans hperm

omit L in
def view (entries : σ → List α) (s : σ) : ℕ → Option α := fun k => (entries s)[k]?

theorem view_swap {i j : ℕ} (hi : i < I.len s) (hj : j < I.len s) :
    view entries (I.swap s i j) = view entries s ∘ Equiv.swap i j := by
  funext k
  rw [L.len] at hi hj
  simp only [view,Function.comp_apply]
  rw [L.swap s i j (by rwa [L.len]) (by rwa [L.len]),getElem?_swapAt hi hj]

/-! ### Up -/

theorem upLoop_swaps {rounds j : ℕ} (hj : j < I.len s) : Swaps I s (I.upLoop rounds s j) := by
  induction rounds generalizing s j with
  | zero => exact .refl
  | succ rounds ih =>
    rw [upLoop]
    split
    · exact .refl
    · have hp : parent j < I.len s := by
        unfold parent
        omega
      have hstep : Swaps I s (I.swap s (parent j) j) := .step .refl hp hj
      exact hstep.trans (ih (by rwa [L.swap_len hp hj]))

theorem upLoop_frame {rounds j k : ℕ} (hj : j < I.len s) (hk : j < k) :
    view entries (I.upLoop rounds s j) k = view entries s k := by
  induction rounds generalizing s j with
  | zero => rfl
  | succ rounds ih =>
    rw [upLoop]
    split
    · rfl
    · have hpj : parent j ≤ j := by
        unfold parent
        omega
      have hp : parent j < I.len s := by omega
      rw [ih (by rwa [L.swap_len hp hj]) (by omega),L.view_swap hp hj,
        swap_apply_other (by omega) (by omega)]

theorem upLoop_ordered {rounds j n : ℕ} (hn : n ≤ I.len s) (hrounds : j < rounds)
    (h : UpReady (ltLast lt) (view entries s) n j) :
    HeapOrdered (ltLast lt) (view entries (I.upLoop rounds s j)) n := by
  induction rounds generalizing s j with
  | zero => omega
  | succ rounds ih =>
    have hj := h.inside
    rw [upLoop]
    split
    · next hstop =>
      refine h.heapOrdered fun hpos => ?_
      have hp := parent_lt hpos
      have hless := hstop.resolve_left (by omega)
      rwa [L.less s j (parent j) (by omega) (by omega)] at hless
    · next hgo =>
      rw [not_or,not_not] at hgo
      have hpos : 0 < j := by
        rcases Nat.eq_zero_or_pos j with rfl | hpos
        · exact absurd rfl hgo.1
        · exact hpos
      have hp := parent_lt hpos
      have hless := hgo.2
      rw [L.less s j (parent j) (by omega) (by omega)] at hless
      have hstep := h.step L.order.ltLast hpos hless
      rw [← L.view_swap (by omega) (by omega)] at hstep
      exact ih (by rwa [L.swap_len (by omega) (by omega)]) (by omega) hstep

/-! ### Down -/

theorem smallerChild_spec {i n : ℕ} (hn : n ≤ I.len s) (hi : 2 * i + 1 < n) :
    Smaller (ltLast lt) (view entries s) n i (I.smallerChild s i n) := by
  unfold smallerChild
  split
  · next hright =>
    have hless := hright.2
    rw [L.less s _ _ (by omega) (by omega)] at hless
    refine ⟨hright.1,.inr rfl,fun k hpos hk hpar => ?_⟩
    rcases child_cases hpos hpar with rfl | rfl
    · exact L.order.ltLast.asymm _ _ hless
    · exact L.order.ltLast.irrefl _
  · next hright =>
    refine ⟨hi,.inl rfl,fun k hpos hk hpar => ?_⟩
    rcases child_cases hpos hpar with rfl | rfl
    · exact L.order.ltLast.irrefl _
    · intro hless
      refine hright ⟨hk,?_⟩
      rwa [L.less s _ _ (by omega) (by omega)]

/-- The loop swaps positions below `n` only, and moves down. -/
theorem downLoop_swaps {rounds i n : ℕ} (hn : n ≤ I.len s) :
    Swaps I s (I.downLoop n rounds s i).1 ∧
      (∀ k, n ≤ k → view entries (I.downLoop n rounds s i).1 k = view entries s k) ∧
      i ≤ (I.downLoop n rounds s i).2 := by
  induction rounds generalizing s i with
  | zero => exact ⟨.refl,fun _ _ => rfl,le_rfl⟩
  | succ rounds ih =>
    rw [downLoop]
    split
    · exact ⟨.refl,fun _ _ => rfl,le_rfl⟩
    · next hgo =>
      rw [not_or,not_not,not_le] at hgo
      have hc := L.smallerChild_spec hn hgo.1
      have hinside := hc.inside
      have hchild := hc.child
      have hi : i < I.len s := by omega
      have hstep : Swaps I s (I.swap s i (I.smallerChild s i n)) := .step .refl hi (by omega)
      have hrest := ih (s := I.swap s i (I.smallerChild s i n)) (i := I.smallerChild s i n)
        (by rwa [L.swap_len hi (by omega)])
      refine ⟨hstep.trans hrest.1,fun k hk => ?_,by have := hrest.2.2; omega⟩
      rw [hrest.2.1 k hk,L.view_swap hi (by omega),swap_apply_other (by omega) (by omega)]

theorem downLoop_ordered {rounds i n : ℕ} (hn : n ≤ I.len s) (hrounds : n ≤ i + rounds)
    (h : DownReady (ltLast lt) (view entries s) n i) :
    HeapOrdered (ltLast lt) (view entries (I.downLoop n rounds s i).1) n := by
  induction rounds generalizing s i with
  | zero =>
    refine h.heapOrdered fun k hpos hk hpar => ?_
    have hp := parent_lt hpos
    omega
  | succ rounds ih =>
    rw [downLoop]
    split
    · next hstop =>
      refine h.heapOrdered fun k hpos hk hpar => ?_
      have hchild := child_cases hpos hpar
      have hin : 2 * i + 1 < n := by omega
      have hc := L.smallerChild_spec hn hin
      have hinside := hc.inside
      have hless := hstop.resolve_left (by omega)
      rw [L.less s _ i (by omega) (by omega)] at hless
      exact L.order.ltLast.negTrans _ _ _ (hc.least k hpos hk hpar) hless
    · next hgo =>
      rw [not_or,not_not,not_le] at hgo
      have hc := L.smallerChild_spec hn hgo.1
      have hinside := hc.inside
      have hchild := hc.child
      have hless := hgo.2
      rw [L.less s _ i (by omega) (by omega)] at hless
      have hstep := (h.fixReady (by omega)).step L.order.ltLast hc hless
      rw [← L.view_swap (by omega) (by omega)] at hstep
      exact ih (by rwa [L.swap_len (by omega) (by omega)]) (by omega) hstep

/-! ### Both -/

theorem sift_swaps {i n : ℕ} (hn : n ≤ I.len s) (hi : i < n) : Swaps I s (I.sift s i n) := by
  have hdown : Swaps I s (I.down s i n).1 := (L.downLoop_swaps hn).1
  unfold sift
  dsimp only
  split
  · exact hdown
  · refine hdown.trans (L.upLoop_swaps ?_)
    rw [L.swaps_len hdown]
    omega

theorem sift_frame {i n k : ℕ} (hn : n ≤ I.len s) (hi : i < n) (hk : n ≤ k) :
    view entries (I.sift s i n) k = view entries s k := by
  have hdown : Swaps I s (I.down s i n).1 := (L.downLoop_swaps hn).1
  have hframe : view entries (I.down s i n).1 k = view entries s k := (L.downLoop_swaps hn).2.1 k hk
  unfold sift
  dsimp only
  split
  · exact hframe
  · rw [up,L.upLoop_frame (by rw [L.swaps_len hdown]; omega) (by omega),hframe]

theorem sift_ordered {i n : ℕ} (hn : n ≤ I.len s)
    (h : FixReady (ltLast lt) (view entries s) n i) :
    HeapOrdered (ltLast lt) (view entries (I.sift s i n)) n := by
  have hi := h.inside
  obtain ⟨rounds,rfl⟩ : ∃ rounds, n = rounds + 1 := ⟨n - 1,by omega⟩
  unfold sift down
  rw [downLoop]
  by_cases hstop : rounds + 1 ≤ 2 * i + 1 ∨ ¬I.less s (I.smallerChild s i (rounds + 1)) i
  · rw [if_pos hstop]
    simp only [gt_iff_lt,lt_irrefl,decide_false,Bool.false_eq_true,if_false]
    refine L.upLoop_ordered hn (by omega) (h.up fun k hpos hk hpar => ?_)
    have hchild := child_cases hpos hpar
    have hc := L.smallerChild_spec hn (by omega : 2 * i + 1 < rounds + 1)
    have hinside := hc.inside
    have hless := hstop.resolve_left (by omega)
    rw [L.less s _ i (by omega) (by omega)] at hless
    exact L.order.ltLast.negTrans _ _ _ (hc.least k hpos hk hpar) hless
  · rw [if_neg hstop]
    rw [not_or,not_not,not_le] at hstop
    have hc := L.smallerChild_spec hn hstop.1
    have hinside := hc.inside
    have hchild := hc.child
    have hless := hstop.2
    rw [L.less s _ i (by omega) (by omega)] at hless
    have hlen : rounds + 1 ≤ I.len (I.swap s i (I.smallerChild s i (rounds + 1))) := by
      rwa [L.swap_len (by omega) (by omega)]
    have hmoved : I.smallerChild s i (rounds + 1) ≤ (I.downLoop (rounds + 1) rounds
        (I.swap s i (I.smallerChild s i (rounds + 1))) (I.smallerChild s i (rounds + 1))).2 :=
      (L.downLoop_swaps hlen).2.2
    have hstep := h.step L.order.ltLast hc hless
    rw [← L.view_swap (by omega) (by omega)] at hstep
    simp only [gt_iff_lt,decide_eq_true_eq]
    rw [if_pos (by omega)]
    exact L.downLoop_ordered hlen (by omega) hstep

/-! ## The operations -/

def Ordered (entries : σ → List α) (lt : α → α → Bool) (s : σ) : Prop :=
  HeapOrdered (ltLast lt) (view entries s) (entries s).length

omit L in
theorem ordered_iff : Ordered entries lt s ↔ ∀ i a b, 0 < i → (entries s)[i]? = some a →
    (entries s)[parent i]? = some b → ¬lt a b := by
  constructor
  · intro h i a b hpos ha hb
    obtain ⟨hi,_⟩ := List.getElem?_eq_some_iff.mp ha
    have hless := h i hpos hi
    rwa [view,view,ha,hb] at hless
  · intro h i hpos hi
    have hp := parent_lt hpos
    rw [view,view,List.getElem?_eq_getElem hi,List.getElem?_eq_getElem (by omega)]
    exact h i _ _ hpos (List.getElem?_eq_getElem hi) (List.getElem?_eq_getElem _)

theorem Ordered.first (h : Ordered entries lt s) {a b : α} (ha : (entries s)[0]? = some a)
    (hb : b ∈ entries s) : ¬lt b a := by
  obtain ⟨i,hi⟩ := List.mem_iff_getElem?.mp hb
  obtain ⟨hlt,_⟩ := List.getElem?_eq_some_iff.mp hi
  have hroot := HeapOrdered.root L.order.ltLast h i hlt
  rwa [view,view,ha,hi] at hroot

theorem fix_spec {i : ℕ} (h : FixReady (ltLast lt) (view entries s) (entries s).length i) :
    Swaps I s (I.fix s i) ∧ Ordered entries lt (I.fix s i) := by
  have hi := h.inside
  have hlen := L.len s
  have hswaps : Swaps I s (I.fix s i) := L.sift_swaps le_rfl (by omega)
  refine ⟨hswaps,?_⟩
  rw [Ordered,(L.swaps_perm hswaps).length_eq,← hlen]
  rw [← hlen] at h
  exact L.sift_ordered le_rfl h

theorem heapPush_spec (h : Ordered entries lt s) (x : α) :
    Swaps I (I.push s x) (I.heapPush s x) ∧ Ordered entries lt (I.heapPush s x) := by
  have hentries := L.push s x
  have hlen : I.len (I.push s x) = (entries s).length + 1 := by
    rw [L.len,hentries,List.length_append,List.length_singleton]
  have hup : I.heapPush s x = I.up (I.push s x) (entries s).length := by
    rw [heapPush,hlen,Nat.add_sub_cancel]
  have hview : ∀ k, k < (entries s).length → view entries (I.push s x) k = view entries s k := by
    intro k hk
    rw [view,hentries,List.getElem?_append_left hk,view]
  have hswaps : Swaps I (I.push s x) (I.heapPush s x) := by
    rw [hup]
    exact L.upLoop_swaps (by omega)
  refine ⟨hswaps,?_⟩
  rw [Ordered,(L.swaps_perm hswaps).length_eq,← L.len,hup]
  refine L.upLoop_ordered le_rfl (by omega) ⟨by omega,fun i hpos hi hne => ?_,fun _ i hpos hi hpar => ?_⟩
  · have hp := parent_lt hpos
    rw [hview i (by omega),hview _ (by omega)]
    exact h i hpos (by omega)
  · have hp := parent_lt hpos
    omega

theorem pop_spec {n : ℕ} {x : α} (hlen : (entries s).length = n + 1)
    (h : HeapOrdered (ltLast lt) (view entries s) n) (hx : view entries s n = some x) :
    ∃ s', I.pop s = some (x,s') ∧ (x :: entries s').Perm (entries s) ∧ Ordered entries lt s' := by
  have hne : entries s ≠ [] := by
    intro hnil
    rw [hnil] at hlen
    cases hlen
  have hsplit := List.dropLast_append_getLast hne
  have hlast : (entries s).getLast hne = x := by
    rw [view,← Nat.add_sub_cancel (n := n) (m := 1),← hlen,← List.getLast?_eq_getElem?,
      List.getLast?_eq_some_getLast hne] at hx
    exact Option.some.inj hx
  rw [hlast] at hsplit
  obtain ⟨s',hpop,hentries⟩ := L.pop s _ x hsplit.symm
  refine ⟨s',hpop,?_,?_⟩
  · rw [hentries,← hsplit,List.dropLast_concat]
    exact (List.perm_append_singleton x _).symm
  · have hlen' : (entries s').length = n := by
      rw [hentries,List.length_dropLast,hlen,Nat.add_sub_cancel]
    rw [Ordered,hlen']
    intro i hpos hi
    have hp := parent_lt hpos
    have hview : ∀ k, k < n → view entries s' k = view entries s k := by
      intro k hk
      rw [view,view,hentries,List.getElem?_dropLast,if_pos (by omega)]
    rw [hview i hi,hview _ (by omega)]
    exact h i hpos hi

theorem heapRemove_spec (h : Ordered entries lt s) {i : ℕ} {x : α} (hx : (entries s)[i]? = some x) :
    ∃ s₁ s', Swaps I s s₁ ∧ I.pop s₁ = some (x,s') ∧ I.heapRemove s i = some (x,s') ∧
      (x :: entries s').Perm (entries s) ∧ Ordered entries lt s' := by
  obtain ⟨hi,_⟩ := List.getElem?_eq_some_iff.mp hx
  obtain ⟨n,hn⟩ : ∃ n, (entries s).length = n + 1 := ⟨(entries s).length - 1,by omega⟩
  have hlen : I.len s = n + 1 := by rw [L.len,hn]
  rw [heapRemove,hlen,Nat.add_sub_cancel]
  have hordered : HeapOrdered (ltLast lt) (view entries s) n := by
    rw [Ordered,hn] at h
    exact h.mono (by omega)
  by_cases hin : n = i
  · subst hin
    rw [if_pos rfl]
    obtain ⟨s',hpop,hperm,hord⟩ := L.pop_spec hn hordered hx
    exact ⟨s,s',.refl,hpop,hpop,hperm,hord⟩
  · rw [if_neg hin]
    have hswap : Swaps I s (I.swap s i n) := .step .refl (by omega) (by omega)
    have hlen₁ := L.swaps_len hswap
    have hview := L.view_swap (i := i) (j := n) (s := s) (by omega) (by omega)
    have hfix : FixReady (ltLast lt) (view entries (I.swap s i n)) n i := by
      refine hordered.fixReady L.order.ltLast (by omega) fun k hk hne => ?_
      rw [hview,swap_apply_other hne (by omega)]
    have hsift : Swaps I (I.swap s i n) (I.sift (I.swap s i n) i n) :=
      L.sift_swaps (by omega) (by omega)
    have hall := hswap.trans hsift
    have hlast : view entries (I.sift (I.swap s i n) i n) n = some x := by
      rw [L.sift_frame (by omega) (by omega) le_rfl,hview,swap_apply_second]
      exact hx
    have hperm := L.swaps_perm hall
    obtain ⟨s',hpop,hperm',hord⟩ := L.pop_spec (by rw [hperm.length_eq,hn])
      (L.sift_ordered (by omega) hfix) hlast
    exact ⟨_,s',hall,hpop,hpop,hperm'.trans hperm,hord⟩

theorem heapPop_spec (h : Ordered entries lt s) {x : α} (hx : (entries s)[0]? = some x) :
    ∃ s₁ s', Swaps I s s₁ ∧ I.pop s₁ = some (x,s') ∧ I.heapPop s = some (x,s') ∧
      (x :: entries s').Perm (entries s) ∧ Ordered entries lt s' := by
  obtain ⟨hi,_⟩ := List.getElem?_eq_some_iff.mp hx
  obtain ⟨n,hn⟩ : ∃ n, (entries s).length = n + 1 := ⟨(entries s).length - 1,by omega⟩
  have hlen : I.len s = n + 1 := by rw [L.len,hn]
  rw [heapPop,hlen,Nat.add_sub_cancel]
  have hswap : Swaps I s (I.swap s 0 n) := .step .refl (by omega) (by omega)
  have hlen₁ := L.swaps_len hswap
  have hview := L.view_swap (i := 0) (j := n) (s := s) (by omega) (by omega)
  have hdown : Swaps I (I.swap s 0 n) (I.down (I.swap s 0 n) 0 n).1 :=
    (L.downLoop_swaps (by omega)).1
  have hall := hswap.trans hdown
  have hordered : HeapOrdered (ltLast lt) (view entries (I.down (I.swap s 0 n) 0 n).1) n := by
    refine L.downLoop_ordered (by omega) (by omega) ⟨fun k hpos hk hpar => ?_,fun h0 => ?_⟩
    · have hp := parent_lt hpos
      rw [hview,swap_apply_other (by omega) (by omega),swap_apply_other hpar (by omega)]
      exact h k hpos (by omega)
    · omega
  have hlast : view entries (I.down (I.swap s 0 n) 0 n).1 n = some x := by
    rw [down,(L.downLoop_swaps (by omega)).2.1 n le_rfl,hview,swap_apply_second]
    exact hx
  have hperm := L.swaps_perm hall
  obtain ⟨s',hpop,hperm',hord⟩ := L.pop_spec (by rw [hperm.length_eq,hn]) hordered hlast
  exact ⟨_,s',hall,hpop,hpop,hperm'.trans hperm,hord⟩

end LawfulHeap
end Landslide
