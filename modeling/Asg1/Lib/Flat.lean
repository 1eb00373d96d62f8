import Mathlib.Algebra.Order.Ring.Int
import Mathlib.Data.List.Basic

/-!
# `Lib.Flat` — pieces of a flat memory

A flat memory is a function from addresses to cells. `slice d a n` are the `n` cells from address `a` on, and
`patch d a cells` is the memory with `cells` written there. The lemmas say how the two meet: what was written is read
back, what lies elsewhere stays, and adjacent pieces make one.
-/

namespace Asg1
namespace Flat

open List

variable {β : Type} {d d' : Nat → β} {a b n m : Nat} {cells more : List β}

/-- The `n` cells from address `a` on. -/
def slice (d : Nat → β) (a n : Nat) : List β := (List.range n).map (fun i => d (a + i))

/-- The memory with `cells` written from address `a` on. -/
def patch (d : Nat → β) (a : Nat) (cells : List β) : Nat → β :=
  fun x => if a ≤ x then (cells[x - a]?).getD (d x) else d x

/-- A list with `cells` written over it from index `a` on. -/
def overwrite (l : List β) (a : Nat) (cells : List β) : List β := l.take a ++ cells ++ l.drop (a + cells.length)

@[simp] theorem length_slice : (slice d a n).length = n := by
  simp [slice]

theorem getElem?_slice (i : Nat) : (slice d a n)[i]? = if i < n then some (d (a + i)) else none := by
  unfold slice
  split
  · rename_i hi
    simp [hi]
  · rename_i hi
    simp [Nat.le_of_not_lt hi]

variable {i x : Nat}

theorem getD_slice (hi : i < n) (z : β) : (slice d a n).getD i z = d (a + i) := by
  rw [getD_eq_getElem?_getD, getElem?_slice, if_pos hi]
  rfl

theorem slice_congr (h : ∀ x, a ≤ x → x < a + n → d x = d' x) : slice d a n = slice d' a n := by
  apply ext_getElem?
  intro i
  rw [getElem?_slice, getElem?_slice]
  split
  · rw [h (a + i) (by omega) (by omega)]
  · rfl

theorem slice_add : slice d a (n + m) = slice d a n ++ slice d (a + n) m := by
  apply ext_getElem?
  intro i
  rw [getElem?_append, length_slice, getElem?_slice, getElem?_slice, getElem?_slice]
  by_cases hi : i < n
  · rw [if_pos (by omega), if_pos hi, if_pos hi]
  · rw [if_neg hi]
    by_cases him : i < n + m
    · rw [if_pos him, if_pos (by omega)]
      have hadd : a + n + (i - n) = a + i := by omega
      rw [hadd]
    · rw [if_neg him, if_neg (by omega)]

theorem take_slice : (slice d a n).take m = slice d a (min m n) := by
  apply ext_getElem?
  intro i
  rw [getElem?_take, getElem?_slice, getElem?_slice]
  by_cases hi : i < m
  · rw [if_pos hi]
    by_cases hn : i < n
    · rw [if_pos hn, if_pos (by omega)]
    · rw [if_neg hn, if_neg (by omega)]
  · rw [if_neg hi, if_neg (by omega)]

theorem drop_slice : (slice d a n).drop m = slice d (a + m) (n - m) := by
  apply ext_getElem?
  intro i
  rw [getElem?_drop, getElem?_slice, getElem?_slice]
  by_cases hi : m + i < n
  · rw [if_pos hi, if_pos (by omega), Nat.add_assoc]
  · rw [if_neg hi, if_neg (by omega)]

theorem patch_outside (h : x < a ∨ a + cells.length ≤ x) : patch d a cells x = d x := by
  unfold patch
  split
  · have hnone : cells[x - a]? = none := List.getElem?_eq_none (by omega)
    rw [hnone]
    rfl
  · rfl

theorem patch_inside (h : i < cells.length) : patch d a cells (a + i) = cells[i] := by
  unfold patch
  rw [if_pos (Nat.le_add_right a i), Nat.add_sub_cancel_left, List.getElem?_eq_getElem h]
  rfl

theorem patch_getD (hle : a ≤ x) (hlt : x < a + cells.length) (z : β) : patch d a cells x = cells.getD (x - a) z := by
  unfold patch
  rw [if_pos hle, getD_eq_getElem?_getD, List.getElem?_eq_getElem (by omega)]
  rfl

@[simp] theorem patch_nil : patch d a [] = d := by
  funext x
  exact patch_outside (by simp only [length_nil]; omega)

/-- Two adjacent writes are one. -/
theorem patch_append : patch (patch d a cells) (a + cells.length) more = patch d a (cells ++ more) := by
  funext x
  by_cases hlt : x < a + cells.length
  · rw [patch_outside (.inl hlt)]
    by_cases hle : a ≤ x
    · obtain ⟨i, rfl⟩ := Nat.exists_eq_add_of_le hle
      have hi : i < cells.length := by omega
      have hi' : i < (cells ++ more).length := by
        rw [length_append]
        omega
      rw [patch_inside hi, patch_inside hi', getElem_append_left hi]
    · rw [patch_outside (.inl (by omega)), patch_outside (.inl (by omega))]
  · by_cases hin : x < a + cells.length + more.length
    · obtain ⟨i, rfl⟩ := Nat.exists_eq_add_of_le (Nat.le_of_not_lt hlt)
      have hi : i < more.length := by omega
      have hi' : cells.length + i < (cells ++ more).length := by
        rw [length_append]
        omega
      rw [patch_inside hi, Nat.add_assoc, patch_inside hi']
      simp
    · rw [patch_outside (.inr (by omega)), patch_outside (.inr (by omega)),
        patch_outside (.inr (by rw [length_append]; omega))]

/-- A write that covers an earlier one. -/
theorem patch_cover (h : cells.length ≤ more.length) : patch (patch d a cells) a more = patch d a more := by
  funext x
  by_cases hin : a ≤ x ∧ x < a + more.length
  · obtain ⟨i, rfl⟩ := Nat.exists_eq_add_of_le hin.1
    have hi : i < more.length := by omega
    rw [patch_inside hi, patch_inside hi]
  · rw [patch_outside (by omega), patch_outside (by omega), patch_outside (by omega)]

/-- A write that covers the second part of an earlier one. -/
theorem patch_append_cover {first : List β} (h : cells.length ≤ more.length) :
    patch (patch d a (first ++ cells)) (a + first.length) more = patch d a (first ++ more) := by
  rw [← patch_append, patch_cover h, patch_append]

/-- What was written is read back. -/
theorem slice_patch_self : slice (patch d a cells) a cells.length = cells := by
  apply ext_getElem?
  intro i
  rw [getElem?_slice]
  split
  · rename_i hi
    rw [patch_inside hi, List.getElem?_eq_getElem hi]
  · rw [List.getElem?_eq_none (by omega)]

/-- What lies elsewhere stays. -/
theorem slice_patch_other (h : a + n ≤ b ∨ b + cells.length ≤ a) : slice (patch d b cells) a n = slice d a n := by
  apply slice_congr
  intro x hle hlt
  apply patch_outside
  omega

/-- A write inside a piece overwrites part of it. -/
theorem slice_patch_within (h : m + cells.length ≤ n) :
    slice (patch d (a + m) cells) a n = overwrite (slice d a n) m cells := by
  have hsplit : n = m + (cells.length + (n - (m + cells.length))) := by omega
  have hleft : slice (patch d (a + m) cells) a m = slice d a m := slice_patch_other (.inl (Nat.le_refl _))
  have hright : slice (patch d (a + m) cells) (a + m + cells.length) (n - (m + cells.length)) =
      slice d (a + m + cells.length) (n - (m + cells.length)) := slice_patch_other (.inr (Nat.le_refl _))
  have hmin : min m n = m := by omega
  have hadd : a + (m + cells.length) = a + m + cells.length := by omega
  conv_lhs => rw [hsplit]
  rw [slice_add, slice_add, hleft, hright, slice_patch_self, overwrite, take_slice, drop_slice, hmin, hadd,
    List.append_assoc]

theorem overwrite_nil (l : List β) : overwrite l m [] = l := by
  unfold overwrite
  rw [append_nil, length_nil, Nat.add_zero, take_append_drop]

/-- Writing at the end of the first part of a list. -/
theorem overwrite_append (l rest : List β) :
    overwrite (l ++ rest) l.length cells = l ++ cells ++ rest.drop cells.length := by
  unfold overwrite
  rw [take_left, List.drop_append, drop_eq_nil_of_le (Nat.le_add_right _ _), nil_append,
    Nat.add_sub_cancel_left]

end Flat
end Asg1
