import Mathlib.Algebra.Order.Ring.Int
import Mathlib.Data.Int.Basic

/-!
# `Lib.CInt` — two's complement machine integers as `Int` with explicit wrapping
-/

namespace Asg1

/-- The value of a 32-bit signed integer after an operation whose exact result is `x`. -/
def wrap32 (x : Int) : Int := x.bmod 4294967296

/-- The value of a 64-bit signed integer after an operation whose exact result is `x`. -/
def wrap64 (x : Int) : Int := x.bmod 18446744073709551616

/-- In range nothing wraps. -/
theorem wrap32_of_mem {x : Int} (h₁ : -2147483648 ≤ x) (h₂ : x < 2147483648) : wrap32 x = x := by
  unfold wrap32; rw [Int.bmod_def]; omega

theorem wrap64_of_mem {x : Int} (h₁ : -9223372036854775808 ≤ x) (h₂ : x < 9223372036854775808) : wrap64 x = x := by
  unfold wrap64; rw [Int.bmod_def]; omega

/-! Only the last wrap of a chain of operations matters. -/

@[simp] theorem wrap32_wrap32_add (x y : Int) : wrap32 (wrap32 x + y) = wrap32 (x + y) := Int.bmod_add_bmod

@[simp] theorem wrap32_add_wrap32 (x y : Int) : wrap32 (x + wrap32 y) = wrap32 (x + y) := Int.add_bmod_bmod

@[simp] theorem wrap32_wrap32_sub (x y : Int) : wrap32 (wrap32 x - y) = wrap32 (x - y) := Int.bmod_sub_bmod

@[simp] theorem wrap32_neg_wrap32 (x : Int) : wrap32 (-wrap32 x) = wrap32 (-x) := Int.bmod_neg_bmod

theorem wrap32_wrap32_mul_add (x y z : Int) : wrap32 (wrap32 x * y + z) = wrap32 (x * y + z) := by
  rw [← wrap32_wrap32_add (wrap32 x * y), ← wrap32_wrap32_add (x * y)]
  unfold wrap32
  rw [Int.bmod_mul_bmod]

theorem wrap64_wrap64_mul_add (x y z : Int) : wrap64 (wrap64 x * y + z) = wrap64 (x * y + z) := by
  unfold wrap64
  rw [← Int.bmod_add_bmod, Int.bmod_mul_bmod, Int.bmod_add_bmod]

theorem wrap32_mem (x : Int) : -2147483648 ≤ wrap32 x ∧ wrap32 x < 2147483648 := by
  unfold wrap32
  have hlo := Int.le_bmod (x := x) (m := 4294967296) (by decide)
  have hhi := Int.bmod_lt (x := x) (m := 4294967296) (by decide)
  omega

/-! A word of 32 bits as a number with a sign. -/

section
variable {x : BitVec 32}

theorem toInt_lt (x : BitVec 32) : x.toInt < 2147483648 := by
  have h := BitVec.toInt_lt (x := x)
  omega

theorem toInt_small (h : x.toNat < 2 ^ 31) : x.toInt = x.toNat := BitVec.toInt_eq_toNat_of_lt (by omega)

theorem toInt_large (h : ¬ x.toNat < 2 ^ 31) : x.toInt < 0 := by
  rw [BitVec.toInt_eq_toNat_cond, if_neg (by omega)]
  omega

theorem toInt_toNat_le (x : BitVec 32) : x.toInt.toNat ≤ x.toNat := by
  by_cases h : x.toNat < 2 ^ 31
  · rw [toInt_small h]
    exact Nat.le_refl _
  · have hneg := toInt_large h
    omega

end

end Asg1
