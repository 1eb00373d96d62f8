import Mathlib.Algebra.Order.Ring.Int
import Mathlib.Data.List.Basic
import Mathlib.Data.List.Nodup

/-!
# `Lib.Cursor` — walking along a list while it changes

A cursor stands on an element of a list without repetitions and moves to the `next` one. As long as the element
it stands on and the element it looks for stay on the list, the walk gets there: other elements may be removed
and new ones appended on the way.
-/

namespace Asg1
namespace Cursor

variable {α : Type} [DecidableEq α]

/-- The element after `e`. -/
def next (l : List α) (e : α) : Option α := (l.dropWhile (· ≠ e)).tail.head?

/-- `e` stands before `x`. -/
def Before (l : List α) (e x : α) : Prop := ∃ l₁ l₂, l = l₁ ++ e :: l₂ ∧ x ∈ l₂

/-- A cursor on `e` still gets to `x`. -/
def Sees (l : List α) (e x : α) : Prop := e = x ∨ Before l e x

variable {l : List α} {e x : α}

omit [DecidableEq α] in
theorem Before.mem (h : Before l e x) : e ∈ l := by
  obtain ⟨l₁, l₂, rfl, _⟩ := h
  exact List.mem_append_right l₁ List.mem_cons_self

omit [DecidableEq α] in
theorem Before.append (h : Before l e x) (l' : List α) : Before (l ++ l') e x := by
  obtain ⟨l₁, l₂, rfl, hx⟩ := h
  exact ⟨l₁, l₂ ++ l', by simp, List.mem_append_left l' hx⟩

theorem Before.remove {y : α} (h : Before l e x) (hey : e ≠ y) (hxy : x ≠ y) : Before (l.filter (· ≠ y)) e x := by
  obtain ⟨l₁, l₂, rfl, hx⟩ := h
  refine ⟨l₁.filter (· ≠ y), l₂.filter (· ≠ y), ?_, ?_⟩
  · simp [List.filter_append, hey]
  · simp [hx, hxy]

omit [DecidableEq α] in
/-- The walk starts in front of every element. -/
theorem sees_head (hx : x ∈ l) : ∃ e, l.head? = some e ∧ Sees l e x := by
  cases l with
  | nil => cases hx
  | cons a l =>
    refine ⟨a, rfl, ?_⟩
    rcases List.mem_cons.mp hx with rfl | hx
    · exact .inl rfl
    · exact .inr ⟨[], l, rfl, hx⟩

theorem next_append {l₁ l₂ : List α} (h : e ∉ l₁) : next (l₁ ++ e :: l₂) e = l₂.head? := by
  have hpos : ∀ a ∈ l₁, decide (a ≠ e) = true := by
    intro a ha
    simp only [decide_eq_true_eq]
    rintro rfl
    exact h ha
  unfold next
  rw [List.dropWhile_append_of_pos hpos]
  simp

/-- One move of the cursor. -/
theorem sees_next (hl : l.Nodup) (h : Before l e x) : ∃ e', next l e = some e' ∧ Sees l e' x := by
  obtain ⟨l₁, l₂, rfl, hx⟩ := h
  have he : e ∉ l₁ := fun hmem => (List.nodup_append.mp hl).2.2 e hmem e List.mem_cons_self rfl
  rw [next_append he]
  cases l₂ with
  | nil => cases hx
  | cons a l₂ =>
    refine ⟨a, rfl, ?_⟩
    rcases List.mem_cons.mp hx with rfl | hx
    · exact .inl rfl
    · exact .inr ⟨l₁ ++ [e], l₂, by simp, hx⟩

end Cursor
end Asg1
