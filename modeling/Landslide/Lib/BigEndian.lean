import Mathlib.Algebra.Order.Ring.Nat
import Mathlib.Data.List.Induction
import Mathlib.Tactic.Ring

/-! # Big-endian numbers

Numbers as byte strings of a fixed width, most significant byte first. A number that fits
and a byte string determine each other.
-/
namespace Landslide

/-- The last `width` digits of `n` in base 256. -/
def beBytes : ℕ → ℕ → List UInt8
  | 0, _ => []
  | width + 1, n => beBytes width (n / 256) ++ [UInt8.ofNat (n % 256)]

def beNat (bytes : List UInt8) : ℕ := bytes.foldl (fun n b => 256 * n + b.toNat) 0

@[simp] theorem beBytes_length (width n : ℕ) : (beBytes width n).length = width := by
  induction width generalizing n with
  | zero => rfl
  | succ width ih => simp [beBytes,ih]

@[simp] theorem beNat_nil : beNat [] = 0 := rfl

theorem beNat_concat (bytes : List UInt8) (b : UInt8) :
    beNat (bytes ++ [b]) = 256 * beNat bytes + b.toNat := by
  simp [beNat]

theorem beNat_lt (bytes : List UInt8) : beNat bytes < 256 ^ bytes.length := by
  induction bytes using List.reverseRecOn with
  | nil => simp
  | append_singleton bytes b ih =>
    have hb := b.toNat_lt
    rw [beNat_concat,List.length_append,List.length_singleton,pow_succ]
    omega

theorem beNat_beBytes {width n : ℕ} (h : n < 256 ^ width) : beNat (beBytes width n) = n := by
  induction width generalizing n with
  | zero =>
    have hn : n = 0 := by simpa using h
    simp [beBytes,hn]
  | succ width ih =>
    have hdiv : n / 256 < 256 ^ width := by
      rw [pow_succ] at h
      omega
    rw [beBytes,beNat_concat,ih hdiv,UInt8.toNat_ofNat']
    omega

theorem beBytes_beNat (bytes : List UInt8) : beBytes bytes.length (beNat bytes) = bytes := by
  induction bytes using List.reverseRecOn with
  | nil => rfl
  | append_singleton bytes b ih =>
    have hb := b.toNat_lt
    have hdiv : (256 * beNat bytes + b.toNat) / 256 = beNat bytes := by omega
    have hmod : (256 * beNat bytes + b.toNat) % 256 = b.toNat := by omega
    rw [beNat_concat,List.length_append,List.length_singleton,beBytes,hdiv,hmod,ih,
      UInt8.ofNat_toNat]

/-! ## Two's complement -/

def toSigned (width n : ℕ) : ℤ := (n : ℤ).bmod (256 ^ width)

def ofSigned (width : ℕ) (z : ℤ) : ℕ := (z % 256 ^ width).toNat

theorem ofSigned_toSigned {width n : ℕ} (h : n < 256 ^ width) :
    ofSigned width (toSigned width n) = n := by
  have hmod : (n : ℤ).bmod (256 ^ width) % (256 ^ width : ℕ) = (n : ℤ) % (256 ^ width : ℕ) :=
    Int.bmod_emod
  have hlt : (n : ℤ) < 256 ^ width := by exact_mod_cast h
  unfold ofSigned toSigned
  push_cast at hmod
  rw [hmod,Int.emod_eq_of_lt (Int.natCast_nonneg n) hlt,Int.toNat_natCast]

theorem ofSigned_lt (width : ℕ) (z : ℤ) : ofSigned width z < 256 ^ width := by
  have hpos : (0 : ℤ) < 256 ^ width := Int.pow_pos (by decide)
  have hlt := Int.emod_lt_of_pos z hpos
  have hnonneg := Int.emod_nonneg z hpos.ne'
  have hcast : (ofSigned width z : ℤ) < (256 ^ width : ℕ) := by
    rw [ofSigned,Int.toNat_of_nonneg hnonneg]
    exact_mod_cast hlt
  exact_mod_cast hcast

theorem toSigned_ofSigned {width : ℕ} {z : ℤ} (hlow : -(256 ^ width / 2) ≤ z)
    (hhigh : z < (256 ^ width + 1) / 2) : toSigned width (ofSigned width z) = z := by
  have hpos : (0 : ℤ) < 256 ^ width := Int.pow_pos (by decide)
  have hnonneg := Int.emod_nonneg z hpos.ne'
  unfold toSigned ofSigned
  have hmod : (z % 256 ^ width).bmod (256 ^ width) = z.bmod (256 ^ width) := by
    exact_mod_cast Int.emod_bmod z (256 ^ width)
  rw [Int.toNat_of_nonneg hnonneg,hmod]
  apply Int.bmod_eq_of_le
  · exact_mod_cast hlow
  · exact_mod_cast hhigh

end Landslide
