import Mathlib.Algebra.GroupWithZero.Nat
import Mathlib.Algebra.Ring.Int.Defs

/-!
# The C++ `int`

* `toInt` : a number narrowed to 32 bits, as `static_cast<int>`, `sqlite3_column_int` and `get<int>` leave it; a sum that
  an `int` cannot hold is taken to wrap around in the same way;
* `toInt_eq_iff` : what fits is kept; `toInt_le`, `toInt_lt` : what does not becomes another number; `le_toInt`.
-/

namespace Cortrix

def toInt (n : Int) : Int := n.bmod (2 ^ 32)

variable {n : Int}

theorem toInt_eq_iff : toInt n = n ↔ -2 ^ 31 ≤ n ∧ n < 2 ^ 31 := by
  unfold toInt
  rw [Int.bmod_def]
  omega

theorem toInt_of_fits (hlow : -2 ^ 31 ≤ n) (hhigh : n < 2 ^ 31) : toInt n = n := toInt_eq_iff.mpr ⟨hlow, hhigh⟩

theorem le_toInt (n : Int) : -2 ^ 31 ≤ toInt n := by
  unfold toInt
  rw [Int.bmod_def]
  omega

theorem toInt_le (hlow : -2 ^ 31 ≤ n) : toInt n ≤ n := by
  unfold toInt
  rw [Int.bmod_def]
  omega

theorem toInt_lt (hhigh : 2 ^ 31 ≤ n) : toInt n < n := by
  unfold toInt
  rw [Int.bmod_def]
  omega

@[simp] theorem toInt_toInt (n : Int) : toInt (toInt n) = toInt n := Int.bmod_bmod

@[simp] theorem toInt_toInt_add (n m : Int) : toInt (toInt n + m) = toInt (n + m) := Int.bmod_add_bmod

@[simp] theorem toInt_add_toInt (n m : Int) : toInt (n + toInt m) = toInt (n + m) := Int.add_bmod_bmod

end Cortrix
