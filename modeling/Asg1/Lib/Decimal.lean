import Mathlib.Algebra.Order.Ring.Int
import Mathlib.Data.List.TakeWhile
import Mathlib.Data.Nat.Digits.Lemmas

/-!
# `Lib.Decimal` — strings of decimal digits, the most significant first

The number a string of digits denotes, its significant digits (those from the first one on that is not zero), and
the string with all but the first `k` significant digits set to zero. A program reads such a string from the left,
so each notion comes with its equation for one more digit at the right end.
-/

namespace Asg1
namespace Decimal

open List

variable {ds : List (Fin 10)} {d : Fin 10}

/-- The number that the digits denote. -/
def value (ds : List (Fin 10)) : Nat := Nat.ofDigits 10 (ds.map Fin.val).reverse

@[simp] theorem value_nil : value [] = 0 := rfl

@[simp] theorem value_snoc (ds : List (Fin 10)) (d : Fin 10) : value (ds ++ [d]) = 10 * value ds + d.val := by
  simp only [value, map_append, map_cons, map_nil, List.reverse_append, reverse_singleton,
    singleton_append, Nat.ofDigits_cons]
  omega

theorem value_lt (ds : List (Fin 10)) : value ds < 10 ^ ds.length := by
  have h := Nat.ofDigits_lt_base_pow_length (b := 10) (l := (ds.map Fin.val).reverse) (by decide) (by simp)
  simpa [value] using h

/-! ## Significant digits -/

/-- The digits from the first one on that is not zero. -/
def significant (ds : List (Fin 10)) : List (Fin 10) := ds.dropWhile (· = 0)

/-- The number of zeros in front of the significant digits. -/
def leadingZeros (ds : List (Fin 10)) : Nat := (ds.takeWhile (· = 0)).length

@[simp] theorem significant_nil : significant [] = [] := rfl

@[simp] theorem leadingZeros_nil : leadingZeros [] = 0 := rfl

theorem length_significant (ds : List (Fin 10)) : leadingZeros ds + (significant ds).length = ds.length := by
  rw [leadingZeros, significant, ← length_append, takeWhile_append_dropWhile]

theorem significant_snoc (ds : List (Fin 10)) (d : Fin 10) :
    significant (ds ++ [d]) = if significant ds = [] ∧ d = 0 then [] else significant ds ++ [d] := by
  simp only [significant, dropWhile_append, List.isEmpty_iff]
  by_cases h : ds.dropWhile (· = 0) = [] <;> by_cases hd : d = 0 <;> simp [h, hd]

theorem significant_snoc_eq_nil_iff : significant (ds ++ [d]) = [] ↔ significant ds = [] ∧ d = 0 := by
  rw [significant_snoc]
  by_cases hc : significant ds = [] ∧ d = 0
  · simp [hc]
  · simp [hc]

theorem leadingZeros_snoc (ds : List (Fin 10)) (d : Fin 10) :
    leadingZeros (ds ++ [d]) = if significant ds = [] ∧ d = 0 then leadingZeros ds + 1 else leadingZeros ds := by
  have h := length_significant (ds ++ [d])
  have h' := length_significant ds
  rw [significant_snoc, length_append, length_singleton] at h
  by_cases hc : significant ds = [] ∧ d = 0
  · rw [if_pos hc, length_nil] at h
    rw [hc.1, length_nil] at h'
    rw [if_pos hc]
    omega
  · rw [if_neg hc, length_append, length_singleton] at h
    rw [if_neg hc]
    omega

theorem value_significant (ds : List (Fin 10)) : value (significant ds) = value ds := by
  induction ds using List.reverseRecOn with
  | nil => rfl
  | append_singleton ds d ih =>
    rw [significant_snoc]
    split
    · rename_i h
      rw [h.1] at ih
      rw [value_snoc, ← ih, h.2]
      rfl
    · rw [value_snoc, value_snoc, ih]

theorem value_eq_zero (h : significant ds = []) : value ds = 0 := by
  rw [← value_significant, h, value_nil]

/-- The first significant digit gives a lower bound. -/
theorem pow_le_value (h : significant ds ≠ []) : 10 ^ (significant ds).length ≤ 10 * value ds := by
  rw [← value_significant, value]
  have hne : ((significant ds).map Fin.val).reverse ≠ [] := by simpa using h
  have hlast : ((significant ds).map Fin.val).reverse.getLast hne ≠ 0 := by
    have hhead : decide ((significant ds).head h = 0) = false := head_dropWhile_not _ h
    rw [getLast_reverse, head_map]
    exact fun hzero => of_decide_eq_false hhead (Fin.ext hzero)
  have hle := Nat.pow_length_le_mul_ofDigits (b := 8) hne hlast
  simpa using hle

/-! ## Keeping some significant digits -/

/-- The digits, with those after the first `k` significant ones set to zero. -/
def keep (k : Nat) (ds : List (Fin 10)) : List (Fin 10) :=
  ds.take (leadingZeros ds + k) ++ List.replicate (ds.length - (leadingZeros ds + k)) 0

theorem keep_of_le {k : Nat} (h : ds.length ≤ leadingZeros ds + k) : keep k ds = ds := by
  rw [keep, take_of_length_le h, Nat.sub_eq_zero_of_le h, List.replicate_zero, append_nil]

theorem value_keep_eq_zero (k : Nat) (h : significant ds = []) : value (keep k ds) = 0 := by
  have hlen := length_significant ds
  rw [h, length_nil] at hlen
  rw [keep_of_le (by omega), value_eq_zero h]

@[simp] theorem keep_nil (k : Nat) : keep k [] = [] := keep_of_le (Nat.zero_le _)

/-- The last digit stays if fewer than `k` significant ones stand in front of it. -/
theorem keep_snoc (k : Nat) (ds : List (Fin 10)) (d : Fin 10) :
    keep k (ds ++ [d]) = keep k ds ++ [if (significant ds).length < k then d else 0] := by
  have hlen := length_significant ds
  have hz := leadingZeros_snoc ds d
  by_cases hk : (significant ds).length < k
  · have hle : (ds ++ [d]).length ≤ leadingZeros (ds ++ [d]) + k := by
      rw [length_append, length_singleton, hz]
      split <;> omega
    rw [keep_of_le hle, keep_of_le (by omega), if_pos hk]
  · rw [if_neg hk]
    by_cases hc : significant ds = [] ∧ d = 0
    · -- no significant digit at all: nothing is set to zero that is not zero already
      rw [if_pos hc] at hz
      rw [hc.1, length_nil] at hlen
      rw [keep_of_le (by rw [hz, length_append, length_singleton]; omega), keep_of_le (by omega), hc.2]
    · rw [if_neg hc] at hz
      have htake : (ds ++ [d]).take (leadingZeros ds + k) = ds.take (leadingZeros ds + k) :=
        take_append_of_le_length (by omega)
      have hrep : ds.length + 1 - (leadingZeros ds + k) = ds.length - (leadingZeros ds + k) + 1 := by omega
      rw [keep, keep, hz, htake, length_append, length_singleton, hrep, List.replicate_succ',
        List.append_assoc]

end Decimal
end Asg1
