import Mathlib.Algebra.Ring.Nat
import Mathlib.Data.List.Induction

/-! # Numbers in big-endian bytes

A number is written on a fixed number of bytes, most significant first, and what does not fit is
cut off. Reading and writing are inverse on the bytes of a width and on the numbers below its
power.
-/
namespace HyperRuby.Library.BigEndian

/-- The last `width` bytes of a number. -/
def toBytes : ℕ → ℕ → List UInt8
  | 0, _ => []
  | width + 1, n => toBytes width (n / 256) ++ [UInt8.ofNat n]

def value (bytes : List UInt8) : ℕ := bytes.foldl (fun n b => n * 256 + b.toNat) 0

@[simp] theorem length_toBytes (width n : ℕ) : (toBytes width n).length = width := by
  induction width generalizing n with
  | zero => rfl
  | succ width ih => rw [toBytes, List.length_append, ih, List.length_singleton]

@[simp] theorem value_nil : value [] = 0 := rfl

theorem value_append (bytes : List UInt8) (b : UInt8) :
    value (bytes ++ [b]) = value bytes * 256 + b.toNat := by
  simp [value]

theorem value_lt (bytes : List UInt8) : value bytes < 256 ^ bytes.length := by
  induction bytes using List.reverseRecOn with
  | nil => simp
  | append_singleton bytes b ih =>
    have hb := b.toNat_lt
    rw [value_append, List.length_append, List.length_singleton, Nat.pow_succ]
    omega

theorem value_toBytes (width n : ℕ) : value (toBytes width n) = n % 256 ^ width := by
  induction width generalizing n with
  | zero => simp [toBytes, Nat.mod_one]
  | succ width ih =>
    have hlow : (UInt8.ofNat n).toNat = n % 256 := UInt8.toNat_ofNat'
    rw [toBytes, value_append, ih, hlow, Nat.pow_succ', Nat.mod_mul]
    omega

theorem toBytes_value (bytes : List UInt8) : toBytes bytes.length (value bytes) = bytes := by
  induction bytes using List.reverseRecOn with
  | nil => rfl
  | append_singleton bytes b ih =>
    have hb := b.toNat_lt
    have hhigh : (value bytes * 256 + b.toNat) / 256 = value bytes := by omega
    have hlow : UInt8.ofNat (value bytes * 256 + b.toNat) = b := by
      apply UInt8.toNat.inj
      rw [UInt8.toNat_ofNat']
      omega
    rw [List.length_append, List.length_singleton, value_append, toBytes, hhigh, hlow, ih]

end HyperRuby.Library.BigEndian
