import Landslide.Lib.BigEndian
import Mathlib.Algebra.Group.Nat.Range
import Mathlib.Data.Finset.Card
import Mathlib.Data.List.Nodup
import Mathlib.Data.List.Perm.Subperm
import Mathlib.Data.Nat.Digits.Defs
import Mathlib.Data.Nat.Size

/-! # Sets of indices as numbers

A finite set of indices is the number whose bits are its members, and travels as the
shortest big-endian byte string of that number.
-/
namespace Landslide
variable {α β : Type}

abbrev Bits := ℕ

namespace Bits

def add (b : Bits) (i : ℕ) : Bits := b ||| 2 ^ i

def contains (b : Bits) (i : ℕ) : Bool := b.testBit i

def bitLen (b : Bits) : ℕ := Nat.size b

/-- Without leading zero bytes. -/
def bytes (b : Bits) : List UInt8 := beBytes ((Nat.size b + 7) / 8) b

def ofBytes (bytes : List UInt8) : Bits := beNat bytes

def ofList (is : List ℕ) : Bits := is.foldl add 0

theorem contains_add (b : Bits) (i j : ℕ) : (b.add i).contains j = (b.contains j || i = j) := by
  simp [contains,add,Nat.testBit_or,Nat.testBit_two_pow]

theorem contains_foldl_add (b : Bits) (is : List ℕ) (j : ℕ) :
    contains (is.foldl add b) j = (b.contains j || j ∈ is) := by
  induction is generalizing b with
  | nil => simp
  | cons i is ih =>
    rw [List.foldl_cons,ih,contains_add]
    by_cases hij : i = j
    · simp [hij]
    · simp [hij,Ne.symm hij]

@[simp] theorem contains_ofList (is : List ℕ) (j : ℕ) : (ofList is).contains j = decide (j ∈ is) := by
  rw [ofList,contains_foldl_add]
  simp [contains]

theorem bitLen_ofList_le {is : List ℕ} {n : ℕ} (h : ∀ i ∈ is, i < n) : (ofList is).bitLen ≤ n := by
  rw [bitLen,Nat.size_le]
  refine Nat.lt_pow_two_of_testBit _ fun j hj => ?_
  have hmem : j ∉ is := fun hin => absurd (h j hin) (not_lt.mpr hj)
  have hbit := contains_ofList is j
  simpa [contains,hmem] using hbit

@[simp] theorem ofBytes_bytes (b : Bits) : ofBytes b.bytes = b := by
  refine beNat_beBytes (lt_of_lt_of_le (Nat.lt_size_self b) ?_)
  have hpow : (256 : ℕ) ^ ((Nat.size b + 7) / 8) = 2 ^ (8 * ((Nat.size b + 7) / 8)) := by
    rw [pow_mul]
    norm_num
  rw [hpow]
  exact Nat.pow_le_pow_right (by norm_num) (by omega)

theorem ofList_concat (is : List ℕ) (i : ℕ) : ofList (is ++ [i]) = (ofList is).add i := by
  rw [ofList,List.foldl_append]
  rfl

/-! ## Selecting from a list -/

def select (b : Bits) (l : List α) : List α :=
  (l.zipIdx.filter fun p => b.contains p.2).map Prod.fst

theorem select_map (b : Bits) (f : α → β) (l : List α) : b.select (l.map f) = (b.select l).map f := by
  rw [select,List.zipIdx_map,List.filter_map,List.map_map,select,List.map_map]
  rfl

theorem nodup_zipIdx_snd (l : List α) : (l.zipIdx.map Prod.snd).Nodup := by
  rw [List.zipIdx_map_snd]
  exact List.nodup_range'

theorem select_ofList_perm {l : List α} {picked : List (α × ℕ)} (h : picked.Subperm l.zipIdx) :
    ((ofList (picked.map Prod.snd)).select l).Perm (picked.map Prod.fst) := by
  refine List.Perm.map Prod.fst ?_
  have hnodup : l.zipIdx.Nodup := List.Nodup.of_map Prod.snd (nodup_zipIdx_snd l)
  have hpicked : picked.Nodup := by
    obtain ⟨picked',hperm,hsub⟩ := h
    exact hperm.nodup_iff.mp (hsub.nodup hnodup)
  refine (List.perm_ext_iff_of_nodup (hnodup.filter _) hpicked).mpr fun p => ?_
  rw [List.mem_filter,contains_ofList,decide_eq_true_iff]
  constructor
  · rintro ⟨hp,hi⟩
    obtain ⟨q,hq,heq⟩ := List.mem_map.mp hi
    have hpq := List.inj_on_of_nodup_map (nodup_zipIdx_snd l) (h.subset hq) hp heq
    rwa [← hpq]
  · exact fun hp => ⟨h.subset hp,List.mem_map_of_mem hp⟩

theorem select_sublist (b : Bits) (l : List α) : (b.select l).Sublist l := by
  have hsub : (b.select l).Sublist (l.zipIdx.map Prod.fst) :=
    List.filter_sublist.map Prod.fst
  rwa [List.zipIdx_map_fst] at hsub

/-! ## Members -/

def members (b : Bits) : Finset ℕ := (Finset.range b.bitLen).filter fun i => b.contains i

theorem lt_bitLen {b : Bits} {i : ℕ} (h : b.contains i) : i < b.bitLen := by
  by_contra hle
  have hlt : b < 2 ^ i := Nat.size_le.mp (not_lt.mp hle)
  rw [contains,Nat.testBit_lt_two_pow hlt] at h
  cases h

@[simp] theorem mem_members {b : Bits} {i : ℕ} : i ∈ b.members ↔ b.contains i := by
  rw [members,Finset.mem_filter,Finset.mem_range]
  exact ⟨fun h => h.2,fun h => ⟨lt_bitLen h,h⟩⟩

theorem members_injective {b b' : Bits} (h : b.members = b'.members) : b = b' := by
  apply Nat.eq_of_testBit_eq
  intro i
  have hi : i ∈ b.members ↔ i ∈ b'.members := by rw [h]
  rw [mem_members,mem_members] at hi
  exact Bool.eq_iff_iff.mpr hi

theorem select_eq_members (b : Bits) (l : List α) :
    b.select l = (l.zipIdx.filter fun p => p.2 ∈ b.members).map Prod.fst := by
  rw [select]
  refine congrArg _ (List.filter_congr fun p _ => ?_)
  rw [Bool.eq_iff_iff,decide_eq_true_iff,mem_members]

/-! ## The number of members -/

def onesCount (word : ℕ) : ℕ := (List.range 64).countP word.testBit

/-- The ones are counted in the 64-bit words of the number, the least significant first. -/
def len (b : Bits) : ℕ := ((Nat.digits (2 ^ 64) b).map onesCount).sum

theorem onesCount_mod (b : Bits) :
    onesCount (b % 2 ^ 64) = ((Finset.range 64).filter fun i => b.contains i).card := by
  have hcard : ((Finset.range 64).filter fun i => b.contains i).card =
      (List.range 64).countP b.contains := by
    rw [List.countP_eq_length_filter]
    change Multiset.card (Multiset.filter _ (List.range 64 : Multiset ℕ)) = _
    simp
  rw [hcard,onesCount]
  refine List.countP_congr fun i hi => ?_
  rw [Nat.testBit_mod_two_pow,decide_eq_true (List.mem_range.mp hi),Bool.true_and]
  rfl

theorem members_split (b : Bits) :
    b.members = ((Finset.range 64).filter fun i => b.contains i) ∪
      (members (b / 2 ^ 64)).map (addRightEmbedding 64) := by
  ext i
  simp only [mem_members,Finset.mem_union,Finset.mem_filter,Finset.mem_range,Finset.mem_map,
    addRightEmbedding_apply]
  constructor
  · intro hi
    by_cases hlt : i < 64
    · exact .inl ⟨hlt,hi⟩
    · refine .inr ⟨i - 64,?_,by omega⟩
      rw [contains,Nat.testBit_div_two_pow,Nat.sub_add_cancel (by omega)]
      exact hi
  · rintro (⟨_,hi⟩ | ⟨j,hj,rfl⟩)
    · exact hi
    · rw [contains,Nat.testBit_div_two_pow] at hj
      exact hj

theorem len_eq_card (b : Bits) : b.len = b.members.card := by
  induction b using Nat.strongRecOn with
  | ind b ih =>
    by_cases hb : b = 0
    · subst hb
      rfl
    · have hword : len b = onesCount (b % 2 ^ 64) + len (b / 2 ^ 64) := by
        rw [len,Nat.digits_def' (by norm_num) (Nat.pos_of_ne_zero hb),List.map_cons,List.sum_cons]
        rfl
      have hdisjoint : Disjoint ((Finset.range 64).filter fun i => contains b i)
          ((members (b / 2 ^ 64)).map (addRightEmbedding 64)) :=
        (Finset.disjoint_range_addRightEmbedding 64 _).mono_left (Finset.filter_subset _ _)
      rw [hword,ih _ (Nat.div_lt_self (Nat.pos_of_ne_zero hb) (by norm_num)),onesCount_mod,
        members_split b,Finset.card_union_of_disjoint hdisjoint,Finset.card_map]

/-! ## The shortest encoding -/

/-- No shorter byte string, and no other one of this length, stands for the same set. -/
def Shortest (bytes : List UInt8) : Prop :=
  ∀ other : List UInt8, (ofBytes other).members = (ofBytes bytes).members →
    bytes.length ≤ other.length ∧ (other.length = bytes.length → other = bytes)

theorem bytes_length_le (other : List UInt8) : (ofBytes other).bytes.length ≤ other.length := by
  have hlt : ofBytes other < 2 ^ (8 * other.length) := by
    rw [pow_mul]
    exact beNat_lt other
  have hsize := Nat.size_le.mpr hlt
  rw [bytes,beBytes_length]
  omega

theorem shortest_of_length {bytes : List UInt8}
    (h : (ofBytes bytes).bytes.length = bytes.length) : Shortest bytes := by
  intro other hmembers
  have heq : ofBytes other = ofBytes bytes := members_injective hmembers
  refine ⟨?_,fun hlen => ?_⟩
  · rw [← h,← heq]
    exact bytes_length_le other
  · rw [← beBytes_beNat other,← beBytes_beNat bytes,hlen]
    exact congrArg _ heq

theorem Shortest.eq {bytes bytes' : List UInt8} (h : Shortest bytes) (h' : Shortest bytes')
    (hmembers : (ofBytes bytes').members = (ofBytes bytes).members) : bytes' = bytes :=
  (h bytes' hmembers).2 (le_antisymm (h' bytes hmembers.symm).1 (h bytes' hmembers).1)

end Bits
end Landslide
