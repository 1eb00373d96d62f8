import Mathlib.Algebra.Order.Ring.Int
import Mathlib.Logic.Basic

/-!
# `Lib.Proc` — procedures on a state, and what holds when they end

A `Proc σ α` reads and changes a state in `σ` and returns a result in `α`, or it gets stuck (a failed assertion, a
pointer that is not valid). `Ends x s Q` says that `x`, started in `s`, does not get stuck and ends with a result and
a state that meet `Q`; `Safe x s Q` only says that `Q` holds if it ends. The rules follow the constructs that programs
are written with.
-/

namespace Asg1

abbrev Proc (σ α : Type) := StateT σ Option α

namespace Proc

variable {σ α β : Type}

/-- An assertion: stuck if it does not hold. -/
def assert (c : Prop) [Decidable c] : Proc σ Unit := fun s => if c then some ((), s) else none

/-- The procedure ends, and `Q` holds of its result and the state it leaves. -/
def Ends (x : Proc σ α) (s : σ) (Q : α → σ → Prop) : Prop := ∃ a s', x s = some (a, s') ∧ Q a s'

variable {x : Proc σ α} {a : α}

/-- A procedure whose result is known, and then what follows it. -/
theorem bind_run {f : α → Proc σ β} {s s' : σ} (hrun : x s = some (a, s')) : (x >>= f) s = f a s' := by
  show (x s).bind (fun p => f p.1 p.2) = _
  rw [hrun]
  rfl

variable {c : Prop}

theorem assert_run [Decidable c] (hc : c) (s : σ) : Proc.assert c s = some ((), s) := if_pos hc

namespace Ends

variable {x : Proc σ α} {f : α → Proc σ β} {s s' : σ} {Q Q' : α → σ → Prop} {R : β → σ → Prop}

/-- A procedure whose result is known, and what follows it. -/
theorem step (hrun : x s = some (a, s')) (hf : (f a).Ends s' R) : Ends (x >>= f) s R := by
  obtain ⟨b, s₂, hrun', hr⟩ := hf
  exact ⟨b, s₂, (bind_run hrun).trans hrun', hr⟩

/-- **Sequential composition.** -/
theorem bind (hx : x.Ends s Q) (hf : ∀ a s', Q a s' → (f a).Ends s' R) : Ends (x >>= f) s R := by
  obtain ⟨a, s₁, hrun, hq⟩ := hx
  exact step hrun (hf a s₁ hq)

theorem pure (h : Q a s) : Ends (Pure.pure a : Proc σ α) s Q := ⟨a, s, rfl, h⟩

theorem mono (hx : x.Ends s Q) (h : ∀ a s', Q a s' → Q' a s') : x.Ends s Q' := by
  obtain ⟨a, s', hrun, hq⟩ := hx
  exact ⟨a, s', hrun, h a s' hq⟩

theorem get {f : σ → Proc σ β} (hf : (f s).Ends s R) : Ends (MonadState.get >>= f) s R := step rfl hf

variable {f : PUnit → Proc σ β}

theorem set (hf : (f ()).Ends s' R) : Ends (MonadStateOf.set s' >>= f) s R := step rfl hf

theorem modify {g : σ → σ} (hf : (f ()).Ends (g s) R) :
    Ends ((modifyGet fun s => (PUnit.unit, g s)) >>= f) s R := step rfl hf

theorem assert [Decidable c] {f : Unit → Proc σ β} (hc : c) (hf : (f ()).Ends s R) :
    Ends (Proc.assert c >>= f) s R := step (if_pos hc) hf

variable {y : Proc σ α}

theorem ite [Decidable c] (hx : c → x.Ends s Q) (hy : ¬ c → y.Ends s Q) : Ends (if c then x else y) s Q := by
  split
  · rename_i h
    exact hx h
  · rename_i h
    exact hy h

/-- What a procedure ends with is what it returns. -/
theorem of_run (hx : x.Ends s Q) (hrun : x s = some (a, s')) : Q a s' := by
  obtain ⟨b, t, hrun', hq⟩ := hx
  rw [hrun] at hrun'
  cases hrun'
  exact hq

end Ends

/-- If the procedure ends, `Q` holds of its result and the state it leaves. -/
def Safe (x : Proc σ α) (s : σ) (Q : α → σ → Prop) : Prop := ∀ a s', x s = some (a, s') → Q a s'

theorem Ends.safe {s : σ} {Q : α → σ → Prop} (h : x.Ends s Q) : x.Safe s Q := fun _ _ hrun => h.of_run hrun

namespace Safe

variable {x : Proc σ α} {f : α → Proc σ β} {s : σ} {Q : α → σ → Prop} {R : β → σ → Prop}

theorem bind (hx : x.Safe s Q) (hf : ∀ a s', Q a s' → (f a).Safe s' R) : Safe (x >>= f) s R := by
  intro b s₂ hrun
  have hrun' : (x s).bind (fun p => f p.1 p.2) = some (b, s₂) := hrun
  obtain ⟨⟨a, s₁⟩, ha, hb⟩ := Option.bind_eq_some_iff.mp hrun'
  exact hf a s₁ (hx a s₁ ha) b s₂ hb

variable {Q' : α → σ → Prop}

theorem mono (hx : x.Safe s Q) (h : ∀ a s', Q a s' → Q' a s') : x.Safe s Q' :=
  fun a s' hrun => h a s' (hx a s' hrun)

theorem and (hx : x.Safe s Q) (hx' : x.Safe s Q') : x.Safe s fun a s' => Q a s' ∧ Q' a s' :=
  fun a s' hrun => ⟨hx a s' hrun, hx' a s' hrun⟩

/-- The results that do come of a procedure may be used. -/
theorem run : x.Safe s fun a s' => x s = some (a, s') := fun _ _ hrun => hrun

theorem pure (h : Q a s) : Safe (Pure.pure a : Proc σ α) s Q := (Ends.pure h).safe

theorem get {f : σ → Proc σ β} (hf : (f s).Safe s R) : Safe (MonadState.get >>= f) s R := hf

theorem step {s' : σ} (hrun : x s = some (a, s')) (hf : (f a).Safe s' R) : Safe (x >>= f) s R := by
  refine Safe.bind (Q := fun b t => b = a ∧ t = s') ?_ ?_
  · intro b t hrun'
    rw [hrun] at hrun'
    cases hrun'
    exact ⟨rfl, rfl⟩
  · rintro _ _ ⟨rfl, rfl⟩
    exact hf

theorem ite [Decidable c] (hx : c → x.Safe s Q) (hy : ¬ c → y.Safe s Q) : Safe (if c then x else y) s Q := by
  split
  · rename_i h
    exact hx h
  · rename_i h
    exact hy h

/-- Nothing comes of a procedure that gets stuck. -/
theorem stuck (hx : x s = none) : Safe x s Q := by
  intro a s' hrun
  rw [hx] at hrun
  cases hrun

theorem assert [Decidable c] {f : Unit → Proc σ β} (hf : c → (f ()).Safe s R) : Safe (Proc.assert c >>= f) s R := by
  by_cases hc : c
  · intro b s' hrun
    have hrun' : (Proc.assert c s).bind (fun p => f p.1 p.2) = some (b, s') := hrun
    rw [Proc.assert, if_pos hc] at hrun'
    exact hf hc b s' hrun'
  · apply stuck
    show (Proc.assert c s).bind _ = none
    rw [Proc.assert, if_neg hc]
    rfl

end Safe
end Proc
end Asg1
