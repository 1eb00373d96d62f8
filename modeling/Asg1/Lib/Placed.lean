import Mathlib.Algebra.Order.Ring.Int
import Mathlib.Data.List.Nodup
import Mathlib.Logic.Function.Basic

/-!
# `Lib.Placed` — a family of queues that share the link of their elements

An element that carries one link can be in one queue at a time. `Placed place q` says that the queues `q i` agree with a
function that says of each element in which of them it is, if in any: an element is in the queue that is its place, once,
and in no other. Elements enter at the end of a queue when they are in none, and leave it at the front.
-/

namespace Asg1

/-- The queues hold each element where its place is, once. -/
structure Placed {ι τ : Type} (place : τ → Option ι) (q : ι → List τ) : Prop where
  mem : ∀ i t, t ∈ q i ↔ place t = some i
  nodup : ∀ i, (q i).Nodup

namespace Placed

variable {ι τ : Type} {place place' : τ → Option ι} {q : ι → List τ} {i j : ι} {t : τ} {ts : List τ}

/-- An element is in one queue only. -/
theorem unique (h : Placed place q) (hi : t ∈ q i) (hj : t ∈ q j) : i = j := by
  rw [h.mem] at hi hj
  exact Option.some.inj (hi.symm.trans hj)

theorem congr (h : Placed place q) (hplace : ∀ t, place' t = place t) : Placed place' q := by
  have heq : place' = place := funext hplace
  rw [heq]
  exact h

variable [DecidableEq ι] [DecidableEq τ]

/-- An element enters a queue at its end. -/
theorem push (h : Placed place q) (ht : place t = none) :
    Placed (Function.update place t (some i)) (Function.update q i (q i ++ [t])) := by
  have hout : ∀ j, t ∉ q j := by
    intro j hj
    rw [h.mem, ht] at hj
    cases hj
  constructor <;> simp only [Function.update_apply]
  case mem => grind [h.mem]
  case nodup => grind [h.nodup]

/-- The first element of a queue leaves it. -/
theorem pop (h : Placed place q) (hq : q i = t :: ts) : Placed (Function.update place t none) (Function.update q i ts) := by
  have hnodup := h.nodup i
  have hplace : place t = some i := (h.mem i t).mp (hq ▸ List.mem_cons_self)
  constructor <;> simp only [Function.update_apply]
  case mem => grind [h.mem]
  case nodup => grind [h.nodup]

end Placed
end Asg1
