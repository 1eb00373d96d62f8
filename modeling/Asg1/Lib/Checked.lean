import Mathlib.Algebra.Order.Ring.Int

/-!
# `Lib.Checked` — code that stops at a failed assertion

A function with assertions `ε` returns in `Except ε`. What is known of its result comes from the results of its parts.
-/

namespace Asg1
namespace Checked

variable {ε α β : Type} {x : Except ε α} {f : α → Except ε β} {a : α} {r : β}

/-- A sequence gets through when both parts do. -/
theorem bind_ok (h : (x >>= f) = .ok r) : ∃ a, x = .ok a ∧ f a = .ok r := by
  cases x with
  | error e => cases h
  | ok a => exact ⟨a, rfl, h⟩

theorem ok_bind (hx : x = .ok a) : (x >>= f) = f a := by
  rw [hx]
  rfl

theorem toOption_eq_some (h : x.toOption = some a) : x = .ok a := by
  cases x with
  | error e => cases h
  | ok b =>
    cases h
    rfl

end Checked
end Asg1
