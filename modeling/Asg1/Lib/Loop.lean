import Mathlib.Algebra.Order.Ring.Int
import Mathlib.Data.Nat.Basic

/-!
# `Lib.Loop` — C loops with explicit fuel

A C loop is a *body* on its live variables: `none` when something inside the body ran out of fuel, `.inl x'`
when control goes back to the loop test with variables `x'`, `.inr r` when the loop is left with result `r`.
`run` iterates the body; its fuel bounds the number of iterations, so a loop that does not end is a `none`
for every fuel and termination is always a theorem (`run_of_measure`), never a by-product of the definition.
-/

namespace Asg1
namespace Loop

variable {σ ρ : Type}

/-- Iterate `body` from `x` until it leaves the loop or the fuel is used up. -/
def run (body : σ → Option (σ ⊕ ρ)) : Nat → σ → Option ρ
  | 0, _ => none
  | k + 1, x =>
    match body x with
    | none => none
    | some (.inl x') => run body k x'
    | some (.inr r) => some r

variable {body : σ → Option (σ ⊕ ρ)} {x : σ}

theorem run_continue {x' : σ} (k : Nat) (h : body x = some (.inl x')) : run body (k + 1) x = run body k x' := by
  simp only [run, h]

theorem run_exit {r : ρ} (k : Nat) (h : body x = some (.inr r)) : run body (k + 1) x = some r := by
  simp only [run, h]

/-- **Total correctness of a loop.** From a state satisfying the invariant `I` every iteration either leaves
    the loop with a result related to the current state by `Q`, or goes on in a state that still satisfies
    `I`, has a smaller measure, and whose results are results of the current state too. Then fuel above the
    measure is enough, and the loop returns a result related to its start. -/
theorem run_of_measure (I : σ → Prop) (m : σ → Nat) (Q : σ → ρ → Prop) (hbody : ∀ x, I x →
      (∃ x', body x = some (.inl x') ∧ I x' ∧ m x' < m x ∧ ∀ r, Q x' r → Q x r) ∨
      (∃ r, body x = some (.inr r) ∧ Q x r)) :
    ∀ (k : Nat) (x : σ), I x → m x < k → ∃ r, run body k x = some r ∧ Q x r := by
  intro k
  induction k with
  | zero =>
    intro x _ hm
    exact absurd hm (Nat.not_lt_zero _)
  | succ k ih =>
    intro x hI hm
    rcases hbody x hI with ⟨x', hb, hI', hlt, hQ⟩ | ⟨r, hb, hQ⟩
    · obtain ⟨r, hr, hq⟩ := ih x' hI' (by omega)
      exact ⟨r, by rw [run_continue k hb, hr], hQ r hq⟩
    · exact ⟨r, run_exit k hb, hQ⟩

/-- The functional form of `run_of_measure`: the loop computes `f`, which every iteration leaves unchanged. -/
theorem run_eq_of_measure (I : σ → Prop) (m : σ → Nat) (f : σ → ρ) (hbody : ∀ x, I x →
      (∃ x', body x = some (.inl x') ∧ I x' ∧ m x' < m x ∧ f x' = f x) ∨ body x = some (.inr (f x)))
    {k : Nat} (hI : I x) (hm : m x < k) : run body k x = some (f x) := by
  obtain ⟨r, hr, hq⟩ := run_of_measure I m (fun x r => r = f x) (fun x hx => by
    rcases hbody x hx with ⟨x', hb, hI', hlt, hf⟩ | hb
    · exact .inl ⟨x', hb, hI', hlt, fun r hr => hr.trans hf⟩
    · exact .inr ⟨f x, hb, rfl⟩) k x hI hm
  rw [hr, hq]

end Loop
end Asg1
