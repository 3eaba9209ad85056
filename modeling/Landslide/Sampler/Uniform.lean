import Mathlib.Data.Finmap
import Mathlib.Data.List.Perm.Basic
import Mathlib.Data.Nat.Bitwise

/-! # Sampling without replacement

The sampler shuffles `0, 1, ..., length - 1` lazily: a map holds only the places of the array that
differ from the identity, and every draw moves the first value that is left into the place of
the value that is drawn. A number in a range comes from a source of 64-bit numbers, by masking or
by rejecting numbers that are too large. The rejection need not come to an end, so its rounds
are bounded here and nothing stands for a bound that was not enough.
-/
namespace Landslide.Sampler
variable {ρ : Type}

/-- `Source`: a number in `[0, MaxUint64]`, and the state after it. -/
structure Source (ρ : Type) where
  uint64 : ρ → UInt64 × ρ

def maxInt64 : ℕ := 2 ^ 63 - 1

namespace Source
variable (src : Source ρ)

def retry (limit : ℕ) (next : UInt64 → ℕ) : ℕ → ρ → Option (ℕ × ρ)
  | 0, _ => none
  | rounds + 1, r =>
    let (v,r) := src.uint64 r
    if next v > limit then retry limit next rounds r else some (next v,r)

def uint63 (v : UInt64) : ℕ := v.toNat &&& maxInt64

/-- The largest multiple of `n + 1` up to `2^63`, less one. -/
def max63 (n : ℕ) : ℕ := 2 ^ 63 - 1 - 2 ^ 63 % (n + 1)

def uint64Inclusive (rounds : ℕ) (r : ρ) (n : ℕ) : Option (ℕ × ρ) :=
  if n &&& ((n + 1) % 2 ^ 64) = 0 then
    let (v,r) := src.uint64 r
    some (v.toNat &&& n,r)
  else if n > maxInt64 then src.retry n UInt64.toNat rounds r
  else do
    let (v,r) ← src.retry (max63 n) uint63 rounds r
    some (v % (n + 1),r)

end Source

structure UniformReplacer where
  length : ℕ
  drawn : Finmap fun _ : ℕ => ℕ
  drawsCount : ℕ

namespace UniformReplacer

def get (drawn : Finmap fun _ : ℕ => ℕ) (key defaultVal : ℕ) : ℕ :=
  (drawn.lookup key).getD defaultVal

def start (length : UInt64) : UniformReplacer := ⟨length.toNat,∅,0⟩

def reset (s : UniformReplacer) : UniformReplacer := { s with drawn := ∅, drawsCount := 0 }

/-- Nothing if the rounds are not enough; otherwise the value, if there is one. -/
def next (src : Source ρ) (rounds : ℕ) (s : UniformReplacer) (r : ρ) :
    Option (Option ℕ × UniformReplacer × ρ) :=
  if s.drawsCount ≥ s.length then some (none,s,r)
  else do
    let (offset,r) ← src.uint64Inclusive rounds r (s.length - 1 - s.drawsCount)
    let draw := (offset + s.drawsCount) % 2 ^ 64
    let ret := get s.drawn draw draw
    let drawn := s.drawn.insert draw (get s.drawn s.drawsCount s.drawsCount)
    some (some ret,{ s with drawn := drawn, drawsCount := (s.drawsCount + 1) % 2 ^ 64 },r)

def nexts (src : Source ρ) (rounds : ℕ) :
    ℕ → UniformReplacer → ρ → Option (List (Option ℕ) × UniformReplacer × ρ)
  | 0, s, r => some ([],s,r)
  | calls + 1, s, r => do
    let (value,s,r) ← next src rounds s r
    let (values,s,r) ← nexts src rounds calls s r
    some (value :: values,s,r)

end UniformReplacer

/-! ## Numbers in a range -/

namespace Source
variable {src : Source ρ} {rounds : ℕ} {r r' : ρ}

theorem retry_le {limit v : ℕ} {next : UInt64 → ℕ}
    (h : src.retry limit next rounds r = some (v,r')) : v ≤ limit := by
  induction rounds generalizing r with
  | zero => cases h
  | succ rounds ih =>
    rw [retry] at h
    dsimp only at h
    split at h
    · exact ih h
    · next hle =>
      cases h
      exact not_lt.mp hle

theorem uint64Inclusive_le {n v : ℕ} (h : src.uint64Inclusive rounds r n = some (v,r')) :
    v ≤ n := by
  unfold uint64Inclusive at h
  split at h
  · cases h
    exact Nat.and_le_right
  · split at h
    · exact retry_le h
    · obtain ⟨⟨u,r₁⟩,_,h⟩ := Option.bind_eq_some_iff.mp h
      cases h
      exact Nat.lt_succ_iff.mp (Nat.mod_lt _ (Nat.succ_pos n))

theorem mask_two_pow_sub_one {k : ℕ} (hk : k ≤ 64) :
    (2 ^ k - 1) &&& ((2 ^ k - 1 + 1) % 2 ^ 64) = 0 := by
  have hpos : 0 < 2 ^ k := Nat.two_pow_pos k
  rw [Nat.sub_add_cancel hpos,Nat.and_comm,Nat.and_two_pow_sub_one_eq_mod]
  rcases Nat.lt_or_eq_of_le hk with hlt | rfl
  · rw [Nat.mod_eq_of_lt (Nat.pow_lt_pow_right (by omega) hlt),Nat.mod_self]
  · rw [Nat.mod_self,Nat.zero_mod]

theorem uint64Inclusive_two_pow_sub_one {k : ℕ} (hk : k ≤ 64) (rounds : ℕ) (r : ρ) :
    src.uint64Inclusive rounds r (2 ^ k - 1) =
      some ((src.uint64 r).1.toNat &&& (2 ^ k - 1),(src.uint64 r).2) := by
  rw [uint64Inclusive,if_pos (mask_two_pow_sub_one hk)]

def advance (src : Source ρ) (r : ρ) : ℕ → ρ
  | 0 => r
  | i + 1 => advance src (src.uint64 r).2 i

def value (src : Source ρ) (r : ρ) (i : ℕ) : UInt64 := (src.uint64 (src.advance r i)).1

def Accepts (n : ℕ) (v : UInt64) : Prop :=
  n &&& ((n + 1) % 2 ^ 64) = 0 ∨ (n > maxInt64 ∧ v.toNat ≤ n) ∨
    (n ≤ maxInt64 ∧ uint63 v ≤ max63 n)

/-- Whatever the range, the source comes to a value that is accepted, from any point on. -/
def Live (src : Source ρ) (r : ρ) : Prop :=
  ∀ n < 2 ^ 64, ∀ i, ∃ j, Accepts n (src.value (src.advance r i) j)

theorem advance_add (i j : ℕ) : src.advance r (i + j) = src.advance (src.advance r i) j := by
  induction i generalizing r with
  | zero => rw [Nat.zero_add]; rfl
  | succ i ih =>
    rw [Nat.succ_add]
    exact ih

theorem Live.advance (h : src.Live r) (i : ℕ) : src.Live (src.advance r i) := by
  intro n hn j
  rw [← advance_add]
  exact h n hn (i + j)

theorem retry_returns {limit j : ℕ} {next : UInt64 → ℕ} (h : next (src.value r j) ≤ limit) :
    ∃ rounds v i, src.retry limit next rounds r = some (v,src.advance r i) := by
  induction j generalizing r with
  | zero =>
    refine ⟨1,next (src.value r 0),1,?_⟩
    rw [retry]
    exact if_neg (not_lt.mpr h)
  | succ j ih =>
    obtain ⟨rounds,v,i,hretry⟩ := ih (r := (src.uint64 r).2) h
    by_cases hfirst : next (src.uint64 r).1 > limit
    · refine ⟨rounds + 1,v,i + 1,?_⟩
      rw [retry]
      exact (if_pos hfirst).trans hretry
    · refine ⟨1,next (src.uint64 r).1,1,?_⟩
      rw [retry]
      exact if_neg hfirst

theorem retry_mono {limit : ℕ} {next : UInt64 → ℕ} {more : ℕ} {x : ℕ × ρ}
    (h : src.retry limit next rounds r = some x) :
    src.retry limit next (rounds + more) r = some x := by
  induction rounds generalizing r with
  | zero => cases h
  | succ rounds ih =>
    rw [Nat.succ_add,retry]
    rw [retry] at h
    dsimp only at h ⊢
    split at h
    · next hgt =>
      rw [if_pos hgt]
      exact ih h
    · next hle =>
      rw [if_neg hle]
      exact h

theorem uint64Inclusive_mono {n : ℕ} {more : ℕ} {x : ℕ × ρ}
    (h : src.uint64Inclusive rounds r n = some x) :
    src.uint64Inclusive (rounds + more) r n = some x := by
  unfold uint64Inclusive at h ⊢
  split at h
  · next hmask =>
    rw [if_pos hmask]
    exact h
  · next hmask =>
    rw [if_neg hmask]
    split at h
    · next hlarge =>
      rw [if_pos hlarge]
      exact retry_mono h
    · next hsmall =>
      rw [if_neg hsmall]
      obtain ⟨y,hy,h⟩ := Option.bind_eq_some_iff.mp h
      exact Option.bind_eq_some_iff.mpr ⟨y,retry_mono hy,h⟩

theorem Live.uint64Inclusive (h : src.Live r) {n : ℕ} (hn : n < 2 ^ 64) :
    ∃ rounds v i, src.uint64Inclusive rounds r n = some (v,src.advance r i) := by
  obtain ⟨j,hj⟩ := h n hn 0
  unfold Source.uint64Inclusive
  by_cases hmask : n &&& ((n + 1) % 2 ^ 64) = 0
  · simp only [if_pos hmask]
    exact ⟨0,_,1,rfl⟩
  simp only [if_neg hmask]
  rcases hj.resolve_left hmask with ⟨hlarge,hle⟩ | ⟨hsmall,hle⟩
  · simp only [if_pos hlarge]
    exact retry_returns hle
  · simp only [if_neg (not_lt.mpr hsmall)]
    have haccepted : uint63 (src.value r j) ≤ max63 n := hle
    obtain ⟨rounds,v,i,hretry⟩ := retry_returns haccepted
    exact ⟨rounds,v % (n + 1),i,Option.bind_eq_some_iff.mpr ⟨_,hretry,rfl⟩⟩

end Source

/-! ## The lazy shuffle -/

theorem draw_perm (f : ℕ → ℕ) {first draw : ℕ} {rest : List ℕ} (hnodup : (first :: rest).Nodup)
    (hdraw : draw ∈ first :: rest) : ((first :: rest).map f).Perm
      (f draw :: rest.map (Function.update f draw (f first))) := by
  by_cases heq : draw = first
  · subst heq
    rw [Function.update_eq_self,List.map_cons]
  have hmem := (List.mem_cons.mp hdraw).resolve_left heq
  obtain ⟨before,after,rfl⟩ := List.append_of_mem hmem
  have hrest := (List.nodup_cons.mp hnodup).2
  rw [List.nodup_middle,List.nodup_cons,List.mem_append,not_or] at hrest
  have hbefore : before.map (Function.update f draw (f first)) = before.map f := by
    refine List.map_congr_left fun i hi => Function.update_of_ne ?_ _ _
    rintro rfl
    exact hrest.1.1 hi
  have hafter : after.map (Function.update f draw (f first)) = after.map f := by
    refine List.map_congr_left fun i hi => Function.update_of_ne ?_ _ _
    rintro rfl
    exact hrest.1.2 hi
  simp only [List.map_cons,List.map_append,hbefore,hafter,Function.update_self]
  refine (List.perm_middle.cons _).trans ((List.Perm.swap _ _ _).trans ?_)
  exact (List.perm_middle.symm).cons _

namespace UniformReplacer
variable {src : Source ρ} {rounds : ℕ} {s s' : UniformReplacer} {r r' : ρ}

def place (s : UniformReplacer) (i : ℕ) : ℕ := get s.drawn i i

/-- What was drawn, followed by the places that are left, is a permutation of the range. -/
structure Drawn (s : UniformReplacer) (values : List ℕ) : Prop where
  small : s.length < 2 ^ 64
  count : s.drawsCount = values.length
  le : values.length ≤ s.length
  perm : (values ++ (List.range' s.drawsCount (s.length - s.drawsCount)).map s.place).Perm
    (List.range s.length)

theorem start_drawn (n : UInt64) : Drawn (start n) [] := by
  refine ⟨n.toNat_lt,rfl,Nat.zero_le _,?_⟩
  have hplace : (start n).place = id := by
    funext i
    simp [place,get,start]
  rw [hplace,List.map_id,List.nil_append,start,Nat.sub_zero,← List.range_eq_range']

theorem place_insert (drawn : Finmap fun _ : ℕ => ℕ) (length count draw v : ℕ) :
    place ⟨length,drawn.insert draw v,count⟩ =
      Function.update (place ⟨length,drawn,count⟩) draw v := by
  funext i
  by_cases hi : i = draw
  · subst hi
    simp [place,get]
  · rw [Function.update_of_ne hi]
    simp [place,get,Finmap.lookup_insert_of_ne _ hi]

theorem Drawn.next {values : List ℕ} {value : Option ℕ} (h : Drawn s values)
    (hnext : next src rounds s r = some (value,s',r')) : s'.length = s.length ∧
      ((value = none ∧ s' = s ∧ s.length ≤ values.length) ∨
        ∃ v, value = some v ∧ Drawn s' (values ++ [v])) := by
  have hsmall := h.small
  have hcount := h.count
  unfold UniformReplacer.next at hnext
  split at hnext
  · next hdone =>
    cases hnext
    exact ⟨rfl,.inl ⟨rfl,rfl,by omega⟩⟩
  · next hmore =>
    obtain ⟨⟨offset,r₁⟩,hoffset,hnext⟩ := Option.bind_eq_some_iff.mp hnext
    have hle := Source.uint64Inclusive_le hoffset
    have hdraw : (offset + s.drawsCount) % 2 ^ 64 = offset + s.drawsCount :=
      Nat.mod_eq_of_lt (by omega)
    have hsucc : (s.drawsCount + 1) % 2 ^ 64 = s.drawsCount + 1 := Nat.mod_eq_of_lt (by omega)
    simp only [hdraw,hsucc] at hnext
    cases hnext
    refine ⟨rfl,.inr ⟨_,rfl,hsmall,?_,?_,?_⟩⟩
    · rw [List.length_append,List.length_singleton,← hcount]
    · rw [List.length_append,List.length_singleton]
      change values.length + 1 ≤ s.length
      omega
    · have hplace := place_insert s.drawn s.length (s.drawsCount + 1) (offset + s.drawsCount)
        (get s.drawn s.drawsCount s.drawsCount)
      change (values ++ [place s (offset + s.drawsCount)] ++ List.map _
        (List.range' (s.drawsCount + 1) (s.length - (s.drawsCount + 1)))).Perm (List.range s.length)
      rw [hplace,List.append_assoc]
      have hrange : List.range' s.drawsCount (s.length - s.drawsCount) =
          s.drawsCount :: List.range' (s.drawsCount + 1) (s.length - (s.drawsCount + 1)) := by
        rw [show s.length - s.drawsCount = s.length - (s.drawsCount + 1) + 1 by omega,
          List.range'_succ]
      have hnodup := List.nodup_range' (s := s.drawsCount) (n := s.length - s.drawsCount)
      have hmem : offset + s.drawsCount ∈ List.range' s.drawsCount (s.length - s.drawsCount) := by
        rw [List.mem_range'_1]
        omega
      rw [hrange] at hnodup hmem
      have hstep := draw_perm s.place hnodup hmem
      rw [← hrange] at hstep
      exact (hstep.symm.append_left values).trans h.perm

theorem Drawn.nexts {values : List ℕ} {calls : ℕ} {results : List (Option ℕ)}
    (h : Drawn s values) (hnexts : nexts src rounds calls s r = some (results,s',r')) :
    ∃ more, results = more.map some ++ List.replicate (calls - (s.length - values.length)) none ∧
      s'.length = s.length ∧ Drawn s' (values ++ more) ∧
      more.length = min calls (s.length - values.length) := by
  induction calls generalizing s r values results with
  | zero =>
    cases hnexts
    exact ⟨[],by simp,rfl,by simpa using h,by simp⟩
  | succ calls ih =>
    obtain ⟨⟨value,s₁,r₁⟩,hnext,hnexts⟩ := Option.bind_eq_some_iff.mp hnexts
    obtain ⟨⟨rest,s₂,r₂⟩,hrest,hnexts⟩ := Option.bind_eq_some_iff.mp hnexts
    cases hnexts
    obtain ⟨hlength,hnone | ⟨v,rfl,hdrawn⟩⟩ := h.next hnext
    · obtain ⟨rfl,rfl,hfull⟩ := hnone
      obtain ⟨more,rfl,hlength',hdrawn,hmore⟩ := ih h hrest
      have hzero : s₁.length - values.length = 0 := by omega
      rw [hzero,Nat.min_zero] at hmore
      obtain rfl := List.length_eq_zero_iff.mp hmore
      refine ⟨[],?_,hlength',hdrawn,by rw [hzero]; simp⟩
      rw [hzero]
      rfl
    · obtain ⟨more,rfl,hlength',hdrawn',hmore⟩ := ih hdrawn hrest
      have hle := hdrawn.le
      rw [List.length_append,List.length_singleton] at hmore hle
      refine ⟨v :: more,?_,hlength'.trans hlength,by simpa using hdrawn',?_⟩
      · rw [List.length_append,List.length_singleton,hlength]
        have hcalls : calls - (s.length - (values.length + 1)) =
            calls + 1 - (s.length - values.length) := by omega
        rw [hcalls,List.map_cons,List.cons_append]
      · rw [List.length_cons,hmore,hlength]
        omega

/-! ## Calls that return -/

theorem next_mono {more : ℕ} {x : Option ℕ × UniformReplacer × ρ}
    (h : next src rounds s r = some x) : next src (rounds + more) s r = some x := by
  unfold next at h ⊢
  split at h
  · next hdone =>
    rw [if_pos hdone]
    exact h
  · next hmore =>
    rw [if_neg hmore]
    obtain ⟨y,hy,h⟩ := Option.bind_eq_some_iff.mp h
    exact Option.bind_eq_some_iff.mpr ⟨y,Source.uint64Inclusive_mono hy,h⟩

theorem nexts_mono {calls more : ℕ} {x : List (Option ℕ) × UniformReplacer × ρ}
    (h : nexts src rounds calls s r = some x) : nexts src (rounds + more) calls s r = some x := by
  induction calls generalizing s r x with
  | zero => exact h
  | succ calls ih =>
    obtain ⟨y,hnext,h⟩ := Option.bind_eq_some_iff.mp h
    obtain ⟨z,hnexts,h⟩ := Option.bind_eq_some_iff.mp h
    exact Option.bind_eq_some_iff.mpr ⟨y,next_mono hnext,
      Option.bind_eq_some_iff.mpr ⟨z,ih hnexts,h⟩⟩

theorem next_returns (hlive : src.Live r) (hsmall : s.length < 2 ^ 64) :
    ∃ rounds value s' i, next src rounds s r = some (value,s',src.advance r i) := by
  by_cases hdone : s.drawsCount ≥ s.length
  · exact ⟨0,none,s,0,by rw [next,if_pos hdone]; rfl⟩
  · obtain ⟨rounds,v,i,hv⟩ := hlive.uint64Inclusive (n := s.length - 1 - s.drawsCount) (by omega)
    refine ⟨rounds,some (get s.drawn ((v + s.drawsCount) % 2 ^ 64) ((v + s.drawsCount) % 2 ^ 64)),
      { s with drawn := s.drawn.insert ((v + s.drawsCount) % 2 ^ 64)
                  (get s.drawn s.drawsCount s.drawsCount),
               drawsCount := (s.drawsCount + 1) % 2 ^ 64 },i,?_⟩
    rw [next,if_neg hdone,hv]
    rfl

theorem nexts_returns (hlive : src.Live r) {values : List ℕ} (h : Drawn s values) (calls : ℕ) :
    ∃ rounds results s' r', nexts src rounds calls s r = some (results,s',r') := by
  induction calls generalizing s r values with
  | zero => exact ⟨0,[],s,r,rfl⟩
  | succ calls ih =>
    obtain ⟨rounds₁,value,s₁,i,hnext⟩ := next_returns hlive h.small
    have hdrawn : ∃ values, Drawn s₁ values := by
      obtain ⟨_,⟨_,rfl,_⟩ | ⟨v,_,hdrawn⟩⟩ := h.next hnext
      · exact ⟨values,h⟩
      · exact ⟨_,hdrawn⟩
    obtain ⟨values₁,hdrawn⟩ := hdrawn
    obtain ⟨rounds₂,results,s',r',hnexts⟩ := ih (hlive.advance i) hdrawn
    have hnext' : next src (rounds₁ + rounds₂) s r = some _ := next_mono hnext
    have hnexts' : nexts src (rounds₂ + rounds₁) calls s₁ _ = some _ := nexts_mono hnexts
    rw [Nat.add_comm] at hnexts'
    exact ⟨rounds₁ + rounds₂,value :: results,s',r',Option.bind_eq_some_iff.mpr ⟨_,hnext',
      Option.bind_eq_some_iff.mpr ⟨_,hnexts',rfl⟩⟩⟩

theorem reset_eq_start {n : UInt64} (h : s.length = n.toNat) : s.reset = start n := by
  rw [reset,start,h]

/-- The calls return if the source comes to an accepted value again and again. Whenever calls
return, the first `n` of them give distinct values of the range, all of them if there are `n`
calls, and the later ones give none. -/
theorem sampling_without_replacement (src : Source ρ) (r : ρ) (n : UInt64) :
    (src.Live r → ∀ calls, ∃ rounds results s' r',
      nexts src rounds calls (start n) r = some (results,s',r')) ∧
    (∀ rounds calls results s' r', nexts src rounds calls (start n) r = some (results,s',r') →
      ∃ values : List ℕ,
        results = values.map some ++ List.replicate (calls - n.toNat) none ∧
        values.length = min calls n.toNat ∧ values.Nodup ∧ (∀ v ∈ values, v < n.toNat) ∧
        (n.toNat ≤ calls → values.Perm (List.range n.toNat))) ∧
    (∀ s : UniformReplacer, s.length = n.toNat → s.reset = start n) ∧
    (∀ rounds m v r', src.uint64Inclusive rounds r m = some (v,r') → v ≤ m) ∧
    ∀ k ≤ 64, ∀ rounds, ∃ v r', src.uint64Inclusive rounds r (2 ^ k - 1) = some (v,r') := by
  have hstart := start_drawn n
  refine ⟨fun hlive => nexts_returns hlive hstart,?_,fun s => reset_eq_start,
    fun rounds m v r' => Source.uint64Inclusive_le,
    fun k hk rounds => ⟨_,_,Source.uint64Inclusive_two_pow_sub_one hk rounds r⟩⟩
  intro rounds calls results s' r' hnexts
  obtain ⟨values,hresults,hlength,hdrawn,hcount⟩ := hstart.nexts hnexts
  change s'.length = n.toNat at hlength
  change values.length = min calls n.toNat at hcount
  rw [List.nil_append] at hdrawn
  have hperm := hdrawn.perm
  rw [hlength] at hperm
  have hnodup := (hperm.nodup_iff.mpr List.nodup_range)
  refine ⟨values,hresults,hcount,(List.nodup_append.mp hnodup).1,fun v hv => ?_,fun hall => ?_⟩
  · exact List.mem_range.mp (hperm.subset (List.mem_append_left _ hv))
  · have hdone : n.toNat - s'.drawsCount = 0 := by
      rw [hdrawn.count]
      omega
    rwa [hdone,List.range'_zero,List.map_nil,List.append_nil] at hperm

end UniformReplacer

namespace Sample

def constant (v : UInt64) : Source Unit := ⟨fun r => (v,r)⟩

theorem constant_retry {v : UInt64} {limit : ℕ} {next : UInt64 → ℕ} (h : next v > limit)
    (rounds : ℕ) : (constant v).retry limit next rounds () = none := by
  induction rounds with
  | zero => rfl
  | succ rounds ih =>
    rw [Source.retry]
    exact (if_pos h).trans ih

/-- A source that gives the largest number only: three values are left, and no call gives the
first of them. -/
theorem constant_never_returns : (UniformReplacer.start 3).length = 3 ∧ ∀ rounds,
    UniformReplacer.next (constant 18446744073709551615) rounds (.start 3) () = none := by
  refine ⟨rfl,fun rounds => ?_⟩
  have hlimit : Source.uint63 18446744073709551615 > Source.max63 2 := by
    simp [Source.uint63,Source.max63,maxInt64]
  have hdraw : (constant 18446744073709551615).uint64Inclusive rounds () 2 = none := by
    rw [Source.uint64Inclusive,if_neg (by decide),if_neg (by decide),constant_retry hlimit]
    rfl
  rw [UniformReplacer.next,if_neg (by decide)]
  exact congrArg (· >>= _) hdraw

theorem zeros_live : (constant 0).Live () := by
  intro n _ i
  refine ⟨0,?_⟩
  have hvalue : (constant 0).value ((constant 0).advance () i) 0 = 0 := rfl
  rw [hvalue]
  by_cases hn : n > maxInt64
  · exact .inr (.inl ⟨hn,Nat.zero_le n⟩)
  · refine .inr (.inr ⟨not_lt.mp hn,?_⟩)
    exact (Nat.zero_and _).le.trans (Nat.zero_le _)

theorem zeros_sampled : ∃ rounds, ∃ values : List ℕ, ∃ s' r',
    UniformReplacer.nexts (constant 0) rounds 5 (.start 3) () =
      some (values.map some ++ [none,none],s',r') ∧ values.Perm [0,1,2] := by
  obtain ⟨hreturns,hpermutes,_⟩ := UniformReplacer.sampling_without_replacement (constant 0) () 3
  obtain ⟨rounds,results,s',r',hnexts⟩ := hreturns zeros_live 5
  obtain ⟨values,rfl,_,_,_,hperm⟩ := hpermutes rounds 5 results s' r' hnexts
  exact ⟨rounds,values,s',r',hnexts,hperm (by decide)⟩

end Sample
end Landslide.Sampler
