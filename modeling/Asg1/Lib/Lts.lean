import Mathlib.Algebra.Order.Ring.Int
import Mathlib.Data.List.Basic

/-!
# `Lib.Lts` — runs of a transition function, under a condition on their steps

A system is a function `step : σ → α → Option σ`: action `a` leads from `s` to `s'` when `step s a = some s'`.
`Reaches step G s s'` says that some run from `s` to `s'` takes only steps that meet the condition `G` on the
state before the step and the action. `run` computes a given run, checking the condition on the way. `Path` says that the
given actions lead from a state to another, and `count` is how many of its steps are of some kind.
-/

namespace Asg1
namespace Lts

variable {σ α : Type} {step : σ → α → Option σ}

/-- Some run whose steps all meet `G` leads from a state to another. -/
inductive Reaches (step : σ → α → Option σ) (G : σ → α → Prop) (s : σ) : σ → Prop where
  | refl : Reaches step G s s
  | tail {t u : σ} {a : α} (run : Reaches step G s t) (guard : G t a) (last : step t a = some u) :
      Reaches step G s u

variable {G G' : σ → α → Prop} {s t : σ} {as : List α}

/-- **The invariant rule.** What holds at the start and is kept by every step that meets the condition holds in
    every state reached. -/
theorem Reaches.invariant {I : σ → Prop} (h : Reaches step G s t) (h0 : I s)
    (hstep : ∀ {t u : σ} {a : α}, I t → G t a → step t a = some u → I u) : I t := by
  induction h with
  | refl => exact h0
  | tail _ guard last ih => exact hstep ih guard last

/-- Runs under a stronger condition are runs under a weaker one. -/
theorem Reaches.mono (h : Reaches step G s t) (hG : ∀ {t : σ} {a : α}, G t a → G' t a) : Reaches step G' s t := by
  induction h with
  | refl => exact Reaches.refl
  | tail _ guard last ih => exact Reaches.tail ih (hG guard) last

/-- The run that takes the given actions, as far as each is possible and meets the condition. -/
def run (step : σ → α → Option σ) (G : σ → α → Prop) [∀ s a, Decidable (G s a)] : σ → List α → Option σ
  | s, [] => some s
  | s, a :: as => if G s a then (step s a).bind (fun t => run step G t as) else none

theorem reaches_of_run [∀ s a, Decidable (G s a)] :
    ∀ (as : List α) {s t u : σ}, Reaches step G s t → run step G t as = some u → Reaches step G s u := by
  intro as
  induction as with
  | nil =>
    intro s t u hst h
    cases h
    exact hst
  | cons a as ih =>
    intro s t u hst h
    simp only [run] at h
    split at h
    · rename_i hguard
      obtain ⟨v, hv, hrest⟩ := Option.bind_eq_some_iff.mp h
      exact ih (Reaches.tail hst hguard hv) hrest
    · cases h

/-- The actions, each meeting the condition, lead from one state to another. -/
def Path (step : σ → α → Option σ) (G : σ → α → Prop) : σ → List α → σ → Prop
  | s, [], t => s = t
  | s, a :: as, t => G s a ∧ ∃ u, step s a = some u ∧ Path step G u as t

theorem Path.reaches {u : σ} (hst : Reaches step G s t) (h : Path step G t as u) : Reaches step G s u := by
  induction as generalizing t with
  | nil =>
    obtain rfl : t = u := h
    exact hst
  | cons a as ih =>
    obtain ⟨hguard, v, hv, hrest⟩ := h
    exact ih (Reaches.tail hst hguard hv) hrest

theorem Path.mono (h : Path step G s as t) (hG : ∀ {t : σ} {a : α}, G t a → G' t a) : Path step G' s as t := by
  induction as generalizing s with
  | nil => exact h
  | cons a as ih =>
    obtain ⟨hguard, v, hv, hrest⟩ := h
    exact ⟨hG hguard, v, hv, ih hrest⟩

theorem path_of_run [∀ s a, Decidable (G s a)] (h : run step G s as = some t) : Path step G s as t := by
  induction as generalizing s with
  | nil => exact Option.some.inj h
  | cons a as ih =>
    simp only [run] at h
    split at h
    · rename_i hguard
      obtain ⟨u, hu, hrest⟩ := Option.bind_eq_some_iff.mp h
      exact ⟨hguard, u, hu, ih hrest⟩
    · cases h

/-- How many steps of the run are of the kind `p`. -/
def count (step : σ → α → Option σ) (p : σ → α → Bool) : σ → List α → Nat
  | _, [] => 0
  | s, a :: as => (if p s a then 1 else 0) + ((step s a).map fun t => count step p t as).getD 0

theorem count_cons {p : σ → α → Bool} {a : α} (h : step s a = some t) :
    count step p s (a :: as) = (if p s a then 1 else 0) + count step p t as := by
  rw [count, h]
  rfl

end Lts
end Asg1
