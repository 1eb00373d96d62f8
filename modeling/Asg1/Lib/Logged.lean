import Mathlib.Algebra.Order.Ring.Int
import Mathlib.Logic.Basic

/-!
# `Lib.Logged` — programs that log events and may stop

A `Logged σ ε τ α` runs in a state of `σ` and ends with a value of `α`, or it stops with a reason in `ε`. Either way
there is a state afterwards, and the list of the events of `τ` that happened on the way. `Clean P x s` says that all
events of the run of `x` from `s` meet `P`: it is exact about a sequence of two programs, where the second runs only if
the first has ended.
-/

namespace Asg1

/-- What a run comes to. -/
structure Logged.Result (σ ε τ α : Type) where
  outcome : Except ε α
  state : σ
  trace : List τ

/-- A program with states in `σ`, reasons to stop in `ε`, events in `τ` and a value in `α`. -/
def Logged (σ ε τ α : Type) := σ → Logged.Result σ ε τ α

namespace Logged

variable {σ ε τ α β : Type}

def pure (a : α) : Logged σ ε τ α := fun s => ⟨.ok a, s, []⟩

def bind (x : Logged σ ε τ α) (f : α → Logged σ ε τ β) : Logged σ ε τ β := fun s =>
  match (x s).outcome with
  | .ok a => ⟨(f a (x s).state).outcome, (f a (x s).state).state, (x s).trace ++ (f a (x s).state).trace⟩
  | .error e => ⟨.error e, (x s).state, (x s).trace⟩

instance : Monad (Logged σ ε τ) where
  pure := Logged.pure
  bind := Logged.bind

/-- Stop here. -/
def stop (e : ε) : Logged σ ε τ α := fun s => ⟨.error e, s, []⟩

/-- Let an event happen. -/
def emit (t : τ) : Logged σ ε τ Unit := fun s => ⟨.ok (), s, [t]⟩

section
variable {x : Logged σ ε τ α} {f : α → Logged σ ε τ β} {s s' : σ} {t : List τ} {a : α} {e : ε}

@[simp] theorem pure_run : (Pure.pure a : Logged σ ε τ α) s = ⟨.ok a, s, []⟩ := rfl

@[simp] theorem stop_run : (stop e : Logged σ ε τ α) s = ⟨.error e, s, []⟩ := rfl

@[simp] theorem emit_run (t : τ) : (emit t : Logged σ ε τ Unit) s = ⟨.ok (), s, [t]⟩ := rfl

/-- A program that ends, and then what follows it. -/
theorem bind_ok (h : x s = ⟨.ok a, s', t⟩) : (x >>= f) s = ⟨(f a s').outcome, (f a s').state, t ++ (f a s').trace⟩ := by
  show Logged.bind x f s = _
  rw [Logged.bind, h]

theorem bind_error (h : x s = ⟨.error e, s', t⟩) : (x >>= f) s = ⟨.error e, s', t⟩ := by
  show Logged.bind x f s = _
  rw [Logged.bind, h]

/-- **All events of the run meet `P`.** -/
def Clean (P : τ → Prop) (x : Logged σ ε τ α) (s : σ) : Prop := ∀ t ∈ (x s).trace, P t

variable {P : τ → Prop}

theorem clean_of_run {o : Except ε α} (h : x s = ⟨o, s', t⟩) : Clean P x s ↔ ∀ u ∈ t, P u := by
  rw [Clean, h]

theorem clean_pure : Clean P (Pure.pure a : Logged σ ε τ α) s := fun _ h => absurd h List.not_mem_nil

theorem clean_stop : Clean P (stop e : Logged σ ε τ α) s := fun _ h => absurd h List.not_mem_nil

/-- **Sequential composition**, after a program that ends. -/
theorem clean_bind_ok (h : x s = ⟨.ok a, s', t⟩) : Clean P (x >>= f) s ↔ Clean P x s ∧ Clean P (f a) s' := by
  rw [clean_of_run h, clean_of_run (bind_ok h), Clean]
  exact List.forall_mem_append

theorem clean_bind_error (h : x s = ⟨.error e, s', t⟩) : Clean P (x >>= f) s ↔ Clean P x s := by
  rw [clean_of_run h, clean_of_run (bind_error h)]

/-- What follows does nothing that matters. -/
theorem clean_bind_left (hf : ∀ a s, Clean P (f a) s) : Clean P (x >>= f) s ↔ Clean P x s := by
  rcases hx : x s with ⟨a | a, s', t⟩
  · exact clean_bind_error hx
  · rw [clean_bind_ok hx]
    exact and_iff_left (hf a s')

/-- The first program makes its events first. -/
theorem Clean.left (h : Clean P (x >>= f) s) : Clean P x s := by
  rcases hx : x s with ⟨a | a, s', t⟩
  · exact (clean_bind_error hx).mp h
  · exact ((clean_bind_ok hx).mp h).1

end

end Logged
end Asg1
