import Mathlib.Algebra.Ring.Nat
import Mathlib.Tactic.Common

/-! # Machine arithmetic on words

An addition or a subtraction of words is exact, fails outside of the word, or wraps around.
Code is written once over such an arithmetic; where all its results lie in the word, the
three give the same.
-/
namespace HyperRuby.Library

/-- Addition and subtraction of words; no value is a failed overflow check. -/
structure Arithmetic where
  add : ℕ → ℕ → Option ℕ
  sub : ℕ → ℕ → Option ℕ

namespace Arithmetic

def exact : Arithmetic := ⟨fun x y => some (x + y), fun x y => some (x - y)⟩

def checked (w : ℕ) : Arithmetic where
  add x y := if x + y < 2 ^ w then some (x + y) else none
  sub x y := if y ≤ x ∧ x - y < 2 ^ w then some (x - y) else none

/-- The arithmetic of a build without them. -/
def wrapping (w : ℕ) : Arithmetic where
  add x y := some ((x + y) % 2 ^ w)
  sub x y := some ((x + 2 ^ w - y) % 2 ^ w)

variable {w x y : ℕ}

theorem checked_add (h : x + y < 2 ^ w) : (checked w).add x y = some (x + y) := if_pos h

theorem checked_add_overflow (h : 2 ^ w ≤ x + y) : (checked w).add x y = none :=
  if_neg (Nat.not_lt.mpr h)

theorem checked_sub (hy : y ≤ x) (hx : x < 2 ^ w) : (checked w).sub x y = some (x - y) :=
  if_pos ⟨hy, Nat.lt_of_le_of_lt (Nat.sub_le x y) hx⟩

theorem wrapping_add (h : x + y < 2 ^ w) : (wrapping w).add x y = some (x + y) :=
  congrArg some (Nat.mod_eq_of_lt h)

theorem wrapping_sub (hy : y ≤ x) (hx : x < 2 ^ w) : (wrapping w).sub x y = some (x - y) := by
  have hsum : x + 2 ^ w - y = x - y + 2 ^ w := by omega
  show some ((x + 2 ^ w - y) % 2 ^ w) = some (x - y)
  rw [hsum, Nat.add_mod_right, Nat.mod_eq_of_lt (by omega)]

end Arithmetic
end HyperRuby.Library
