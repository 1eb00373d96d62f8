import Mathlib.Algebra.Order.Ring.Int
import Mathlib.Logic.Basic

/-!
# `Lib.Owns` — owners of disjoint sets of marked cells

Cells in `κ` are handed out under a map of marks. Each live owner in `ι` has a set of cells, its foot. `Owns` says that
the cells of live owners are marked and that no cell has two owners. So a cell that is not marked is nobody's, and it
can be handed out; what an owner leaves behind can be unmarked.
-/

namespace Asg1

variable {ι κ : Type}

/-- The live owners have marked cells, each its own. -/
structure Owns (marked : κ → Prop) (live : ι → Prop) (foot : ι → κ → Prop) : Prop where
  cover : ∀ o, live o → ∀ x, foot o x → marked x
  disjoint : ∀ o, live o → ∀ p, live p → ∀ x, foot o x → foot p x → o = p

namespace Owns

variable {marked marked' : κ → Prop} {live live' : ι → Prop} {foot foot' : ι → κ → Prop}

/-- Some owners leave, the others keep their cells, and these stay marked. -/
theorem shrink (h : Owns marked live foot) (hlive : ∀ o, live' o → live o)
    (hfoot : ∀ o, live' o → ∀ x, foot' o x → foot o x) (hmarked : ∀ o, live' o → ∀ x, foot o x → marked' x) :
    Owns marked' live' foot' where
  cover := fun o ho x hx => hmarked o ho x (hfoot o ho x hx)
  disjoint := fun o ho p hp x hox hpx =>
    h.disjoint o (hlive o ho) p (hlive p hp) x (hfoot o ho x hox) (hfoot p hp x hpx)

/-- New owners come, with marked cells that were nobody's. -/
theorem extend (h : Owns marked live foot) (hold : ∀ o, live o → ∀ x, foot' o x → foot o x)
    (hcover : ∀ o, live' o → ¬ live o → ∀ x, foot' o x → marked x ∧ ∀ p, live p → ¬ foot p x)
    (hdisjoint : ∀ o, live' o → ¬ live o → ∀ p, live' p → ¬ live p → ∀ x, foot' o x → foot' p x → o = p) :
    Owns marked live' foot' where
  cover := by
    intro o ho x hx
    by_cases hlive : live o
    · exact h.cover o hlive x (hold o hlive x hx)
    · exact (hcover o ho hlive x hx).1
  disjoint := by
    intro o ho p hp x hox hpx
    by_cases hlo : live o <;> by_cases hlp : live p
    · exact h.disjoint o hlo p hlp x (hold o hlo x hox) (hold p hlp x hpx)
    · exact absurd (hold o hlo x hox) ((hcover p hp hlp x hpx).2 o hlo)
    · exact absurd (hold p hlp x hpx) ((hcover o ho hlo x hox).2 p hlp)
    · exact hdisjoint o ho hlo p hp hlp x hox hpx

end Owns
end Asg1
