import Mathlib.Algebra.Order.Ring.Int
import Mathlib.Logic.Relation

/-!
# `Lib.Rewrite` — following a relation as far as it goes

`Ends R a b`: some steps of `R` lead from `a` to `b`, and none leads on from there. When each element has at most
one successor there is at most one such `b`, and it may be looked for from any element on the way.
-/

namespace Asg1
namespace Rewrite

open Relation

variable {α : Type} {R S : α → α → Prop} {a b c : α}

/-- `b` is where the steps from `a` end. -/
structure Ends (R : α → α → Prop) (a b : α) : Prop where
  path : ReflTransGen R a b
  stuck : ∀ c, ¬ R b c

theorem Ends.head (h : R a b) (hb : Ends R b c) : Ends R a c := ⟨.head h hb.path, hb.stuck⟩

section Deterministic
variable (det : Relator.RightUnique R)
include det

/-- **The first step does not matter.** -/
theorem ends_step (h : R a b) : Ends R a c ↔ Ends R b c := by
  constructor
  · rintro ⟨path, stuck⟩
    rcases path.cases_head with rfl | ⟨b', hb', path'⟩
    · exact absurd h (stuck b)
    · cases det hb' h
      exact ⟨path', stuck⟩
  · exact Ends.head h

theorem Ends.unique (hb : Ends R a b) (hc : Ends R a c) : b = c := by
  have path := hb.path
  induction path using ReflTransGen.head_induction_on with
  | refl =>
    rcases hc.path.cases_head with rfl | ⟨c', hc', _⟩
    · rfl
    · exact absurd hc' (hb.stuck c')
  | head h _ ih => exact ih ((ends_step det h).mp hb) ((ends_step det h).mp hc)

end Deterministic

end Rewrite
end Asg1
