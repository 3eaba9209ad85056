import Landslide.Comet.Types
import Landslide.Lib.BigEndian
import Landslide.Lib.Exec

/-! # Bloom filters

A filter has seeds and a byte string of bits. Adding a hash and asking for it derive the same
positions from it, in two loops that are written apart. The wire form is the number of seeds, the
seeds and the bits.
-/
namespace Landslide.Bloom

def minHashes : ℕ := 1
def maxHashes : ℕ := 16
def minEntries : ℕ := 1
def bitsPerByte : ℕ := 8
def bytesPerUint64 : ℕ := 8

inductive BloomError where
  | invalidNumHashes
  | tooFewHashes (count : ℤ)
  | tooManyHashes (count : ℤ)
  | tooFewEntries
  /-- An error of the random source. -/
  | random (text : String)
  deriving DecidableEq

def BloomError.text : BloomError → String
  | invalidNumHashes => "invalid num hashes"
  | tooFewHashes count => "too few hashes: " ++ toString count ++ " < 1"
  | tooManyHashes count => "too many hashes: " ++ toString count ++ " > 16"
  | tooFewEntries => "too few entries"
  | random text => text

/-- The longest slice of bytes that the runtime makes. -/
def maxAlloc : ℕ := 2 ^ 48

structure Filter where
  numBits : UInt64
  hashSeeds : List UInt64
  entries : Bytes
  count : ℕ
  numBits_eq : numBits.toNat = bitsPerByte * entries.length
  entries_pos : 0 < entries.length

structure ReadFilter where
  hashSeeds : List UInt64
  entries : Bytes

/-- `binary.BigEndian.Uint64` at an offset. -/
def uint64At (bytes : Bytes) (offset : ℕ) : UInt64 :=
  UInt64.ofNat (beNat ((bytes.drop offset).take bytesPerUint64))

/-- What `rand.Reader` puts into a buffer. -/
abbrev Random := (len : ℕ) → Except String { bytes : Bytes // bytes.length = len }

def newHashSeeds (rand : Random) (count : ℤ) : Except BloomError (List UInt64) :=
  if count < minHashes then .error (.tooFewHashes count)
  else if count > maxHashes then .error (.tooManyHashes count)
  else match rand (count.toNat * bytesPerUint64) with
    | .error e => .error (.random e)
    | .ok bytes =>
      .ok ((List.range count.toNat).map fun i => uint64At bytes.1 (i * bytesPerUint64))

def newFilter (rand : Random) (numHashes numEntries : ℤ) : Outcome BloomError Filter :=
  if h : numEntries < minEntries then .error .tooFewEntries
  else match newHashSeeds rand numHashes with
    | .error e => .error e
    | .ok hashSeeds =>
      -- without this panic the number of bits could overflow
      if hmax : numEntries.toNat > maxAlloc then .panic "runtime error: makeslice: len out of range"
      else .ok {
        numBits := UInt64.ofNat (numEntries.toNat * bitsPerByte)
        hashSeeds := hashSeeds
        entries := List.replicate numEntries.toNat 0
        count := 0
        numBits_eq := by
          rw [List.length_replicate,UInt64.toNat_ofNat',Nat.mul_comm]
          refine Nat.mod_eq_of_lt ?_
          unfold maxAlloc at hmax
          unfold bitsPerByte
          omega
        entries_pos := by
          rw [List.length_replicate]
          unfold minEntries at h
          omega }

/-- One round of both loops: `bits.RotateLeft64` by 17, and the seed. -/
def nextHash (hash seed : UInt64) : UInt64 := ((hash <<< 17) ||| (hash >>> 47)) ^^^ seed

def addLoop (numBits : UInt64) : List UInt64 → UInt64 → Bytes → Bytes
  | [], _, entries => entries
  | seed :: seeds, hash, entries =>
    let hash := nextHash hash seed
    let index := hash % numBits
    let byteIndex := index / 8
    let bitIndex := index % 8
    addLoop numBits seeds hash
      (entries.modify byteIndex.toNat fun b => b ||| ((1 : UInt8) <<< bitIndex.toUInt8))

theorem addLoop_length (numBits : UInt64) (seeds : List UInt64) (hash : UInt64) (entries : Bytes) :
    (addLoop numBits seeds hash entries).length = entries.length := by
  induction seeds generalizing hash entries with
  | nil => rfl
  | cons seed seeds ih =>
    rw [addLoop]
    exact (ih _ _).trans (List.length_modify _ _ _)

def containsLoop (numBits : UInt64) (entries : Bytes) : List UInt64 → UInt64 → UInt8 → UInt8
  | [], _, accumulator => accumulator
  | seed :: seeds, hash, accumulator =>
    if accumulator ≠ 0 then
      let hash := nextHash hash seed
      let index := hash % numBits
      let byteIndex := index / 8
      let bitIndex := index % 8
      containsLoop numBits entries seeds hash
        (accumulator &&& (entries.getD byteIndex.toNat 0 >>> bitIndex.toUInt8))
    else accumulator

def contains (hashSeeds : List UInt64) (entries : Bytes) (hash : UInt64) : Bool :=
  containsLoop (8 * UInt64.ofNat entries.length) entries hashSeeds hash 1 ≠ 0

def marshal (hashSeeds : List UInt64) (entries : Bytes) : Bytes :=
  UInt8.ofNat hashSeeds.length ::
    (hashSeeds.flatMap fun seed => beBytes bytesPerUint64 seed.toNat) ++ entries

namespace Filter

def add (f : Filter) (hash : UInt64) : Filter where
  numBits := f.numBits
  hashSeeds := f.hashSeeds
  entries := addLoop f.numBits f.hashSeeds hash f.entries
  count := f.count + 1
  numBits_eq := by rw [addLoop_length,f.numBits_eq]
  entries_pos := by rw [addLoop_length]; exact f.entries_pos

def addAll (f : Filter) (hashes : List UInt64) : Filter := hashes.foldl add f

def contains (f : Filter) (hash : UInt64) : Bool := Bloom.contains f.hashSeeds f.entries hash

def marshal (f : Filter) : Bytes := Bloom.marshal f.hashSeeds f.entries

end Filter

namespace ReadFilter

def parse (bytes : Bytes) : Except BloomError ReadFilter :=
  match bytes with
  | [] => .error .invalidNumHashes
  | numHashes :: _ =>
    let entriesOffset := 1 + numHashes.toNat * bytesPerUint64
    if numHashes.toNat < minHashes then .error (.tooFewHashes numHashes.toNat)
    else if numHashes.toNat > maxHashes then .error (.tooManyHashes numHashes.toNat)
    else if bytes.length < entriesOffset + minEntries then .error .tooFewEntries
    else .ok {
      hashSeeds := (List.range numHashes.toNat).map fun i => uint64At bytes (1 + i * bytesPerUint64)
      entries := bytes.drop entriesOffset }

def contains (f : ReadFilter) (hash : UInt64) : Bool := Bloom.contains f.hashSeeds f.entries hash

def marshal (f : ReadFilter) : Bytes := Bloom.marshal f.hashSeeds f.entries

end ReadFilter

/-! ## Bits -/

def bit (entries : Bytes) (index : ℕ) : Bool := (entries.getD (index / 8) 0).toNat.testBit (index % 8)

def indices (numBits : UInt64) : List UInt64 → UInt64 → List ℕ
  | [], _ => []
  | seed :: seeds, hash =>
    (nextHash hash seed % numBits).toNat :: indices numBits seeds (nextHash hash seed)

theorem toNat_bitIndex (index : UInt64) : (index % 8).toUInt8.toNat = index.toNat % 8 := by
  rw [UInt64.toNat_toUInt8,UInt64.toNat_mod]
  change index.toNat % 8 % 2 ^ 8 = _
  omega

theorem toNat_byteIndex (index : UInt64) : (index / 8).toNat = index.toNat / 8 := by
  rw [UInt64.toNat_div]
  rfl

theorem one_and_shiftRight (b bitIndex : UInt8) (h : bitIndex.toNat < 8) :
    1 &&& (b >>> bitIndex) = if b.toNat.testBit bitIndex.toNat then 1 else 0 := by
  refine UInt8.toNat_inj.mp ?_
  rw [UInt8.toNat_and,UInt8.toNat_shiftRight,Nat.mod_eq_of_lt h]
  change 1 &&& (b.toNat >>> bitIndex.toNat) = _
  unfold Nat.testBit
  have hmod := Nat.one_and_eq_mod_two (b.toNat >>> bitIndex.toNat)
  rcases Nat.mod_two_eq_zero_or_one (b.toNat >>> bitIndex.toNat) with hzero | hone
  · rw [hmod,hzero]
    rfl
  · rw [hmod,hone]
    rfl

theorem testBit_setBit (b bitIndex : UInt8) (h : bitIndex.toNat < 8) {i : ℕ} (hi : i < 8) :
    (b ||| ((1 : UInt8) <<< bitIndex)).toNat.testBit i =
      (b.toNat.testBit i || decide (bitIndex.toNat = i)) := by
  rw [UInt8.toNat_or,UInt8.toNat_shiftLeft,Nat.mod_eq_of_lt h,Nat.testBit_or,
    Nat.testBit_mod_two_pow]
  change (b.toNat.testBit i || (decide (i < 8) && (1 <<< bitIndex.toNat).testBit i)) = _
  rw [Nat.one_shiftLeft,Nat.testBit_two_pow]
  simp [hi]

theorem bit_modify {entries : Bytes} {index : UInt64} (h : index.toNat / 8 < entries.length)
    (i : ℕ) : bit (entries.modify (index / 8).toNat
      fun b => b ||| ((1 : UInt8) <<< (index % 8).toUInt8)) i =
        (bit entries i || decide (index.toNat = i)) := by
  have hbit := toNat_bitIndex index
  have hsmall : (index % 8).toUInt8.toNat < 8 := by omega
  unfold bit
  rw [List.getD_eq_getElem?_getD,List.getD_eq_getElem?_getD,List.getElem?_modify,toNat_byteIndex]
  by_cases hbyte : index.toNat / 8 = i / 8
  · rw [← hbyte,List.getElem?_eq_getElem h]
    simp only [Option.map_some,Option.getD_some,if_true,Option.map_eq_map]
    rw [testBit_setBit _ _ hsmall (by omega),hbit]
    congr 1
    exact decide_eq_decide.mpr (by omega)
  · have hne : index.toNat ≠ i := by
      rintro rfl
      exact hbyte rfl
    simp [hbyte,hne]

theorem bit_addLoop {numBits : UInt64} {seeds : List UInt64} {hash : UInt64} {entries : Bytes}
    (hbits : numBits.toNat = bitsPerByte * entries.length) (hpos : 0 < entries.length) (i : ℕ) :
    bit (addLoop numBits seeds hash entries) i =
      (bit entries i || decide (i ∈ indices numBits seeds hash)) := by
  induction seeds generalizing hash entries with
  | nil => simp [addLoop,indices]
  | cons seed seeds ih =>
    have hlt : (nextHash hash seed % numBits).toNat < numBits.toNat := by
      rw [UInt64.toNat_mod]
      exact Nat.mod_lt _ (by rw [hbits,bitsPerByte]; omega)
    have hindex : (nextHash hash seed % numBits).toNat / 8 < entries.length := by
      rw [hbits,bitsPerByte] at hlt
      omega
    rw [addLoop,ih (by rw [List.length_modify,hbits]) (by rwa [List.length_modify]),
      bit_modify hindex,Bool.or_assoc,indices]
    congr 1
    simp only [List.mem_cons,eq_comm (a := i),Bool.decide_or]

theorem containsLoop_zero (numBits : UInt64) (entries : Bytes) (seeds : List UInt64)
    (hash : UInt64) : containsLoop numBits entries seeds hash 0 = 0 := by
  cases seeds <;> rfl

theorem containsLoop_iff (numBits : UInt64) (entries : Bytes) (seeds : List UInt64)
    (hash : UInt64) : containsLoop numBits entries seeds hash 1 ≠ 0 ↔
      ∀ i ∈ indices numBits seeds hash, bit entries i = true := by
  induction seeds generalizing hash with
  | nil => simp [containsLoop,indices]
  | cons seed seeds ih =>
    have hbit := toNat_bitIndex (nextHash hash seed % numBits)
    rw [containsLoop,if_pos (by decide)]
    dsimp only
    rw [one_and_shiftRight _ _ (by omega),hbit,toNat_byteIndex,indices,List.forall_mem_cons]
    change containsLoop numBits entries seeds (nextHash hash seed)
      (if bit entries (nextHash hash seed % numBits).toNat then 1 else 0) ≠ 0 ↔ _
    by_cases hset : bit entries (nextHash hash seed % numBits).toNat = true
    · rw [if_pos hset,ih]
      exact (and_iff_right hset).symm
    · rw [if_neg hset,containsLoop_zero]
      exact iff_of_false (fun h => h rfl) fun h => hset h.1

/-! ## No false negatives -/

namespace Filter
variable {f : Filter} {hash : UInt64}

theorem contains_iff : f.contains hash = true ↔
    ∀ i ∈ indices f.numBits f.hashSeeds hash, bit f.entries i = true := by
  have hbits : 8 * UInt64.ofNat f.entries.length = f.numBits := by
    refine UInt64.toNat_inj.mp ?_
    have heq := f.numBits_eq
    have hlt := f.numBits.toNat_lt
    unfold bitsPerByte at heq
    rw [UInt64.toNat_mul,UInt64.toNat_ofNat']
    change 8 * _ % 2 ^ 64 = _
    omega
  rw [contains,Bloom.contains,hbits,decide_eq_true_eq]
  exact containsLoop_iff _ _ _ _

theorem contains_add (f : Filter) (hash : UInt64) : (f.add hash).contains hash = true := by
  rw [contains_iff]
  intro i hi
  change i ∈ indices f.numBits f.hashSeeds hash at hi
  change bit (addLoop f.numBits f.hashSeeds hash f.entries) i = true
  rw [bit_addLoop f.numBits_eq f.entries_pos,decide_eq_true hi,Bool.or_true]

theorem contains_add_of_contains (h : f.contains hash = true) (other : UInt64) :
    (f.add other).contains hash = true := by
  rw [contains_iff] at h ⊢
  intro i hi
  change bit (addLoop f.numBits f.hashSeeds other f.entries) i = true
  rw [bit_addLoop f.numBits_eq f.entries_pos,h i hi,Bool.true_or]

theorem contains_addAll_of_contains (h : f.contains hash = true) (hashes : List UInt64) :
    (f.addAll hashes).contains hash = true := by
  induction hashes generalizing f with
  | nil => exact h
  | cons other hashes ih => exact ih (contains_add_of_contains h other)

theorem contains_addAll {hashes : List UInt64} (h : hash ∈ hashes) (f : Filter) :
    (f.addAll hashes).contains hash = true := by
  induction hashes generalizing f with
  | nil => cases h
  | cons other hashes ih =>
    rcases List.mem_cons.mp h with rfl | h
    · exact contains_addAll_of_contains (contains_add f hash) hashes
    · exact ih h (f.add other)

theorem addAll_hashSeeds (f : Filter) (hashes : List UInt64) :
    (f.addAll hashes).hashSeeds = f.hashSeeds := by
  induction hashes generalizing f with
  | nil => rfl
  | cons other hashes ih => exact ih (f.add other)

end Filter

/-! ## The wire form -/

theorem newHashSeeds_length {rand : Random} {count : ℤ} {hashSeeds : List UInt64}
    (h : newHashSeeds rand count = .ok hashSeeds) :
    minHashes ≤ hashSeeds.length ∧ hashSeeds.length ≤ maxHashes := by
  unfold newHashSeeds at h
  split at h
  · cases h
  · next hmin =>
    split at h
    · cases h
    · next hmax =>
      cases hrand : rand (count.toNat * bytesPerUint64) with
      | error e =>
        rw [hrand] at h
        cases h
      | ok bytes =>
        rw [hrand] at h
        cases h
        rw [List.length_map,List.length_range]
        unfold minHashes at hmin ⊢
        unfold maxHashes at hmax ⊢
        omega

theorem newFilter_seeds {rand : Random} {numHashes numEntries : ℤ} {f : Filter}
    (h : newFilter rand numHashes numEntries = .ok f) :
    minHashes ≤ f.hashSeeds.length ∧ f.hashSeeds.length ≤ maxHashes := by
  unfold newFilter at h
  split at h
  · cases h
  · cases hseeds : newHashSeeds rand numHashes with
    | error e =>
      rw [hseeds] at h
      cases h
    | ok hashSeeds =>
      rw [hseeds] at h
      dsimp only at h
      split at h
      · cases h
      · cases h
        exact newHashSeeds_length hseeds

theorem take_drop_flatMap {seeds : List UInt64} {i : ℕ} {seed : UInt64}
    (h : seeds[i]? = some seed) (rest : Bytes) :
    (((seeds.flatMap fun seed => beBytes bytesPerUint64 seed.toNat) ++ rest).drop
      (i * bytesPerUint64)).take bytesPerUint64 = beBytes bytesPerUint64 seed.toNat := by
  induction seeds generalizing i with
  | nil => cases h
  | cons first seeds ih =>
    rw [List.flatMap_cons,List.append_assoc]
    cases i with
    | zero =>
      cases h
      rw [Nat.zero_mul,List.drop_zero]
      exact List.take_left' (beBytes_length _ _)
    | succ i =>
      have hdrop : (i + 1) * bytesPerUint64 =
          (beBytes bytesPerUint64 first.toNat).length + i * bytesPerUint64 := by
        rw [beBytes_length,Nat.succ_mul,Nat.add_comm]
      rw [hdrop,← List.drop_drop,List.drop_left]
      exact ih h

theorem uint64At_marshal {seeds : List UInt64} {entries : Bytes} {i : ℕ} {seed : UInt64}
    (h : seeds[i]? = some seed) : uint64At (marshal seeds entries) (1 + i * bytesPerUint64) = seed := by
  have hbytes := take_drop_flatMap h entries
  have hdrop : (marshal seeds entries).drop (1 + i * bytesPerUint64) =
      ((seeds.flatMap fun seed => beBytes bytesPerUint64 seed.toNat) ++ entries).drop
        (i * bytesPerUint64) := by
    rw [marshal,List.cons_append,Nat.add_comm,List.drop_succ_cons]
  rw [uint64At,hdrop,hbytes,beNat_beBytes seed.toNat_lt,UInt64.ofNat_toNat]

theorem marshal_length (seeds : List UInt64) (entries : Bytes) :
    (marshal seeds entries).length = 1 + seeds.length * bytesPerUint64 + entries.length := by
  have hflat : (seeds.flatMap fun seed => beBytes bytesPerUint64 seed.toNat).length =
      seeds.length * bytesPerUint64 := by
    induction seeds with
    | nil => rfl
    | cons seed seeds ih =>
      rw [List.flatMap_cons,List.length_append,ih,beBytes_length,List.length_cons,Nat.succ_mul,
        Nat.add_comm]
  rw [marshal,List.cons_append,List.length_cons,List.length_append,hflat]
  omega

theorem parse_cons (numHashes : UInt8) (rest : Bytes) :
    ReadFilter.parse (numHashes :: rest) =
      if numHashes.toNat < minHashes then .error (.tooFewHashes numHashes.toNat)
      else if numHashes.toNat > maxHashes then .error (.tooManyHashes numHashes.toNat)
      else if (numHashes :: rest).length < 1 + numHashes.toNat * bytesPerUint64 + minEntries then
        .error .tooFewEntries
      else .ok ⟨(List.range numHashes.toNat).map fun i =>
          uint64At (numHashes :: rest) (1 + i * bytesPerUint64),
        (numHashes :: rest).drop (1 + numHashes.toNat * bytesPerUint64)⟩ := rfl

theorem parse_marshal {seeds : List UInt64} {entries : Bytes} (hmin : minHashes ≤ seeds.length)
    (hmax : seeds.length ≤ maxHashes) (hpos : 0 < entries.length) :
    ReadFilter.parse (marshal seeds entries) = .ok ⟨seeds,entries⟩ := by
  have hnum : (UInt8.ofNat seeds.length).toNat = seeds.length := by
    rw [UInt8.toNat_ofNat']
    unfold maxHashes at hmax
    omega
  have hlength := marshal_length seeds entries
  have hseeds : (List.range seeds.length).map
      (fun i => uint64At (marshal seeds entries) (1 + i * bytesPerUint64)) = seeds := by
    refine List.ext_getElem? fun i => ?_
    rw [List.getElem?_map]
    by_cases hi : i < seeds.length
    · rw [List.getElem?_range hi,Option.map_some,List.getElem?_eq_getElem hi,
        uint64At_marshal (List.getElem?_eq_getElem hi)]
    · rw [List.getElem?_eq_none (by simpa using not_lt.mp hi),
        List.getElem?_eq_none (not_lt.mp hi),Option.map_none]
  have hentries : (marshal seeds entries).drop (1 + seeds.length * bytesPerUint64) = entries := by
    have hflat : (UInt8.ofNat seeds.length ::
        (seeds.flatMap fun seed => beBytes bytesPerUint64 seed.toNat)).length =
          1 + seeds.length * bytesPerUint64 := by
      have hall := hlength
      rw [marshal,List.length_append] at hall
      omega
    rw [← hflat]
    exact List.drop_left
  have hhead : marshal seeds entries = UInt8.ofNat seeds.length ::
      ((seeds.flatMap fun seed => beBytes bytesPerUint64 seed.toNat) ++ entries) := rfl
  rw [hhead,parse_cons,← hhead,hnum,if_neg (not_lt.mpr hmin),if_neg (not_lt.mpr hmax),
    if_neg (by rw [hlength]; unfold minEntries; omega),hseeds,hentries]

theorem flatMap_uint64At {bytes : Bytes} {n : ℕ} (h : 1 + n * bytesPerUint64 ≤ bytes.length) :
    (((List.range n).map fun i => uint64At bytes (1 + i * bytesPerUint64)).flatMap
      fun seed => beBytes bytesPerUint64 seed.toNat) =
        (bytes.drop 1).take (n * bytesPerUint64) := by
  induction n with
  | zero => simp
  | succ n ih =>
    have hle : 1 + n * bytesPerUint64 + bytesPerUint64 ≤ bytes.length := by
      rw [Nat.succ_mul] at h
      omega
    have hchunk : ((bytes.drop (1 + n * bytesPerUint64)).take bytesPerUint64).length =
        bytesPerUint64 := by
      rw [List.length_take,List.length_drop]
      omega
    have hlt := beNat_lt ((bytes.drop (1 + n * bytesPerUint64)).take bytesPerUint64)
    rw [hchunk] at hlt
    change _ < 2 ^ 64 at hlt
    have hseed : beBytes bytesPerUint64 (uint64At bytes (1 + n * bytesPerUint64)).toNat =
        (bytes.drop (1 + n * bytesPerUint64)).take bytesPerUint64 := by
      rw [uint64At,UInt64.toNat_ofNat',Nat.mod_eq_of_lt hlt]
      have hback := beBytes_beNat ((bytes.drop (1 + n * bytesPerUint64)).take bytesPerUint64)
      rwa [hchunk] at hback
    rw [List.range_succ,List.map_append,List.flatMap_append,ih (by omega),List.map_singleton,
      List.flatMap_singleton,hseed,Nat.succ_mul,List.take_add,List.drop_drop]

theorem marshal_parse {bytes : Bytes} {f : ReadFilter} (h : ReadFilter.parse bytes = .ok f) :
    f.marshal = bytes := by
  cases bytes with
  | nil => cases h
  | cons numHashes rest =>
    rw [parse_cons] at h
    split_ifs at h with hmin hmax hlen
    cases h
    have hoffset : 1 + numHashes.toNat * bytesPerUint64 ≤ (numHashes :: rest).length := by omega
    rw [ReadFilter.marshal,marshal,flatMap_uint64At hoffset,List.length_map,List.length_range,
      UInt8.ofNat_toNat,List.drop_succ_cons,List.drop_zero,Nat.add_comm,List.drop_succ_cons,
      List.cons_append,List.take_append_drop]

/-- A filter from `New` has every hash that was added, whatever was added since; its wire form is
read back to a filter with the same answers; and byte strings that are accepted are wire forms of
their filters. -/
theorem bloom_faithful (rand : Random) (numHashes numEntries : ℤ) (f : Filter)
    (hnew : newFilter rand numHashes numEntries = .ok f) (hashes : List UInt64) :
    (∀ hash ∈ hashes, (f.addAll hashes).contains hash = true) ∧
    (∃ g, ReadFilter.parse (f.addAll hashes).marshal = .ok g ∧
      ∀ hash, g.contains hash = (f.addAll hashes).contains hash) ∧
    ∀ bytes g, ReadFilter.parse bytes = .ok g → g.marshal = bytes := by
  refine ⟨fun hash hmem => Filter.contains_addAll hmem f,?_,fun bytes g => marshal_parse⟩
  obtain ⟨hmin,hmax⟩ := newFilter_seeds hnew
  rw [← f.addAll_hashSeeds hashes] at hmin hmax
  exact ⟨_,parse_marshal hmin hmax (f.addAll hashes).entries_pos,fun hash => rfl⟩

namespace Sample

def zeros : Random := fun len => .ok ⟨List.replicate len 0,List.length_replicate⟩

theorem oneByte_faithful : ∃ f, newFilter zeros 1 1 = .ok f ∧
    (∀ hash ∈ [5,9], (f.addAll [5,9]).contains hash = true) ∧
    (∃ g, ReadFilter.parse (f.addAll [5,9]).marshal = .ok g ∧
      ∀ hash, g.contains hash = (f.addAll [5,9]).contains hash) ∧
    ∀ bytes g, ReadFilter.parse bytes = .ok g → g.marshal = bytes :=
  ⟨_,rfl,bloom_faithful zeros 1 1 _ rfl [5,9]⟩

end Sample
end Landslide.Bloom
