import Mathlib.Algebra.Order.Ring.Int
import Mathlib.Logic.Function.Basic

/-!
# `Lib.Lock` — programs of many threads around one lock

A `Prog κ α` is what one thread does, seen from outside: it takes and gives back a lock, calls functions named in
`κ` (a call lasts: the thread is inside the function from `enter` to `leave`), reads values that nothing here
determines, and ends with a result in `α`. A `Pool` is any number of threads with one lock, and `Pool.move` is one
step of one thread; the interleaving is free.

Over it stands the discipline. `Follows tag p h h'` says that `p`, started with the lock held or not as `h` tells,
calls exactly the functions tagged `true` while it holds the lock, never takes it twice, never gives back what it
does not hold, and ends holding it as `h'` tells. It composes along `bind`, and a pool of programs that follow the
discipline keeps it in every step (`Ok.move`, `Ok.restart`). Two consequences are drawn from it: a thread inside a
function holds the lock just when the function is tagged (`Ok.holds_iff`), and two threads are never inside tagged
functions together (`Ok.exclusive`).
-/

namespace Asg1
namespace Lock

/-- What a thread does next. A call returns a number; `choose` is a value the model leaves open. -/
inductive Prog (κ α : Type) : Type where
  | done (r : α)
  | acquire (k : Prog κ α)
  | release (k : Prog κ α)
  | call (f : κ) (k : Nat → Prog κ α)
  | within (f : κ) (k : Nat → Prog κ α)
  | choose (k : Nat → Prog κ α)

namespace Prog

variable {κ α β : Type}

def bind : Prog κ α → (α → Prog κ β) → Prog κ β
  | done r, g => g r
  | acquire k, g => acquire (k.bind g)
  | release k, g => release (k.bind g)
  | call f k, g => call f (fun r => (k r).bind g)
  | within f k, g => within f (fun r => (k r).bind g)
  | choose k, g => choose (fun n => (k n).bind g)

instance : Monad (Prog κ) where
  pure := done
  bind := bind

/-- The function the thread is inside of. -/
def site : Prog κ α → Option κ
  | within f _ => some f
  | _ => none

/-! ## The discipline -/

/-- From holding the lock or not (`h`), the program calls the functions tagged `h` only, and ends as `h'` tells. -/
def Follows (tag : κ → Bool) : Prog κ α → Bool → Bool → Prop
  | done _, h, h' => h = h'
  | acquire k, h, h' => h = false ∧ k.Follows tag true h'
  | release k, h, h' => h = true ∧ k.Follows tag false h'
  | call f k, h, h' => h = tag f ∧ ∀ r, (k r).Follows tag h h'
  | within f k, h, h' => h = tag f ∧ ∀ r, (k r).Follows tag h h'
  | choose k, h, h' => ∀ n, (k n).Follows tag h h'

variable {tag : κ → Bool} {h h' : Bool} {p : Prog κ α}

/-- **Sequential composition.** -/
theorem Follows.bind {g : α → Prog κ β} {mid : Bool} (hp : p.Follows tag h mid)
    (hg : ∀ r, (g r).Follows tag mid h') : (p >>= g).Follows tag h h' := by
  induction p generalizing h with
  | done r =>
    obtain rfl : h = mid := hp
    exact hg r
  | acquire k ih => exact ⟨hp.1, ih hp.2⟩
  | release k ih => exact ⟨hp.1, ih hp.2⟩
  | call f k ih => exact ⟨hp.1, fun r => ih r (hp.2 r)⟩
  | within f k ih => exact ⟨hp.1, fun r => ih r (hp.2 r)⟩
  | choose k ih => exact fun n => ih n (hp n)

theorem Follows.ite {c : Prop} [Decidable c] {q : Prog κ α} (hp : p.Follows tag h h') (hq : q.Follows tag h h') :
    (if c then p else q).Follows tag h h' := by
  split
  · exact hp
  · exact hq

end Prog

/-! ## Threads -/

/-- Threads `τ` around one lock. -/
structure Pool (τ κ α : Type) where
  holder : Option τ
  prog : τ → Prog κ α

inductive Move
  | acquire
  | release
  | enter
  | leave (r : Nat)
  | choose (n : Nat)

namespace Pool

variable {τ κ α : Type} [DecidableEq τ]

def setProg (s : Pool τ κ α) (t : τ) (p : Prog κ α) : Pool τ κ α :=
  { s with prog := Function.update s.prog t p }

@[simp] theorem setProg_holder (s : Pool τ κ α) (t : τ) (p : Prog κ α) : (s.setProg t p).holder = s.holder := rfl

@[simp] theorem setProg_self (s : Pool τ κ α) (t : τ) (p : Prog κ α) : (s.setProg t p).prog t = p := by
  simp [setProg]

@[simp] theorem setProg_ne (s : Pool τ κ α) {t u : τ} (p : Prog κ α) (h : u ≠ t) :
    (s.setProg t p).prog u = s.prog u := by
  simp [setProg, h]

/-- One step of thread `t`. Taking the lock waits until nobody holds it; giving it back demands that `t` does. -/
def move (s : Pool τ κ α) (t : τ) (m : Move) : Option (Pool τ κ α) :=
  match s.prog t, m with
  | .acquire k, .acquire => if s.holder = none then some { s.setProg t k with holder := some t } else none
  | .release k, .release => if s.holder = some t then some { s.setProg t k with holder := none } else none
  | .call f k, .enter => some (s.setProg t (.within f k))
  | .within _ k, .leave r => some (s.setProg t (k r))
  | .choose k, .choose n => some (s.setProg t (k n))
  | _, _ => none

/-- Thread `t` is inside function `f`. -/
def Inside (s : Pool τ κ α) (t : τ) (f : κ) : Prop := (s.prog t).site = some f

instance [DecidableEq κ] (s : Pool τ κ α) (t : τ) (f : κ) : Decidable (s.Inside t f) :=
  inferInstanceAs (Decidable (_ = _))

/-- Every thread is somewhere in a program that follows the discipline and gives the lock back in the end. -/
def Ok (tag : κ → Bool) (s : Pool τ κ α) : Prop :=
  ∀ t, (s.prog t).Follows tag (decide (s.holder = some t)) false

variable {tag : κ → Bool} {s s' : Pool τ κ α} {t u : τ} {f g : κ}

/-- A change of thread `t`'s program, and of the lock in a way that only `t` can see, keeps the discipline. -/
theorem Ok.set (ok : s.Ok tag) {holder : Option τ} (others : ∀ u, u ≠ t → (holder = some u ↔ s.holder = some u))
    (hp : p.Follows tag (decide (holder = some t)) false) : Ok tag { s.setProg t p with holder := holder } := by
  intro u
  by_cases hu : u = t
  · subst hu
    simpa using hp
  · simpa [hu, others u hu] using ok u

/-- **One step keeps the discipline.** -/
theorem Ok.move (ok : s.Ok tag) {m : Move} (hm : s.move t m = some s') : s'.Ok tag := by
  have ht := ok t
  unfold Pool.move at hm
  split at hm
  · rename_i k hprog
    split at hm
    · rename_i hfree
      obtain rfl := Option.some.inj hm
      rw [hprog] at ht
      exact ok.set (fun u hu => by simp [hfree, Ne.symm hu]) (by simpa using ht.2)
    · cases hm
  · rename_i k hprog
    split at hm
    · rename_i hheld
      obtain rfl := Option.some.inj hm
      rw [hprog] at ht
      exact ok.set (fun u hu => by simp [hheld, Ne.symm hu]) (by simpa using ht.2)
    · cases hm
  · rename_i f k hprog
    obtain rfl := Option.some.inj hm
    rw [hprog] at ht
    exact ok.set (fun _ _ => Iff.rfl) ht
  · rename_i f k r hprog
    obtain rfl := Option.some.inj hm
    rw [hprog] at ht
    exact ok.set (fun _ _ => Iff.rfl) (ht.2 r)
  · rename_i k n hprog
    obtain rfl := Option.some.inj hm
    rw [hprog] at ht
    exact ok.set (fun _ _ => Iff.rfl) (ht n)
  · cases hm

/-- A thread that has ended its program may begin another that follows the discipline. -/
theorem Ok.restart (ok : s.Ok tag) {r : α} (ended : s.prog t = .done r)
    (hp : p.Follows tag false false) : (s.setProg t p).Ok tag := by
  have ht := ok t
  rw [ended] at ht
  have hfree : decide (s.holder = some t) = false := ht
  refine ok.set (fun _ _ => Iff.rfl) ?_
  rw [hfree]
  exact hp

/-- **A thread inside a function holds the lock just when the function is tagged.** -/
theorem Ok.holds_iff (ok : s.Ok tag) (hin : s.Inside t f) : s.holder = some t ↔ tag f = true := by
  have ht := ok t
  unfold Inside at hin
  cases hprog : s.prog t with
  | within f' k =>
    rw [hprog] at ht hin
    obtain rfl := Option.some.inj hin
    rw [← ht.1, decide_eq_true_eq]
  | _ => simp [hprog, Prog.site] at hin

/-- **No two threads are inside tagged functions together.** -/
theorem Ok.exclusive (ok : s.Ok tag) (ht : s.Inside t f) (hu : s.Inside u g) (hf : tag f = true)
    (hg : tag g = true) : t = u := by
  have h1 := (ok.holds_iff ht).mpr hf
  have h2 := (ok.holds_iff hu).mpr hg
  exact Option.some.inj (h1.symm.trans h2)

end Pool
end Lock
end Asg1
