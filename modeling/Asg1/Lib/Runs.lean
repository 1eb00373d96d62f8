import Mathlib.Algebra.Order.Ring.Int
import Mathlib.Algebra.Order.BigOperators.Group.List
import Mathlib.Algebra.Order.Group.Nat

/-!
# `Lib.Runs` — the words of a line

`runs sep l` are the maximal runs of elements of `l` that are no separators, in order.
-/

namespace Asg1
namespace Runs

open List

variable {α : Type} {sep : α → Bool} {c : α} {l w : List α}

end Runs
end Asg1
