import Asg1.Threads.Monitor

/-!
# `Threads.Waiters` — what holds of condition variables, whichever thread takes the next step

Beside `Locks` the invariant has three parts. `Waiting` says who is in which list of waiters, in the order of their coming.
`Private` follows the semaphore of a thread inside `cond_wait`: its one unit is given by the thread that has taken it off the
list. `Signals` is what a thread inside `cond_signal` knows of the list while it holds the lock.
-/

namespace Asg1
namespace Synch

open Threads Function

variable {L C : Type} {lockOf : C → L} {s s' : State L C} {t : Page}

/-! ## Lists of waiters -/

/-- Who is in which list, since when, and since when they are off it. -/
structure Waiting (s : State L C) : Prop where
  listed : ∀ c t, t ∈ s.m.waiters c ↔ (s.m.pc t).waitingOn = some c ∧ s.m.wakeup t = none
  sorted : ∀ c, (s.m.waiters c).Pairwise fun t u => s.m.beganAt t < s.m.beganAt u
  began : ∀ t, s.m.beganAt t ≤ s.m.now
  woken : ∀ t j, (s.m.pc t).joined → s.m.wakeup t = some j → s.m.beganAt t < j
  rejoins : ∀ t, (s.m.pc t).rejoins ≠ none → s.m.wakeup t ≠ none
  fifo : ∀ c t u, (s.m.pc t).waitingOn = some c → s.m.wakeup t ≠ none → u ∈ s.m.waiters c → s.m.beganAt t < s.m.beganAt u

namespace Waiting

variable {u : Page} {us : List Page} {c : C} {p : Pc L C} {m : Mon L C} {v : Sem L → Nat}

theorem not_listed (h : Waiting s) (ht : (s.m.pc t).waitingOn = none) (c : C) : t ∉ s.m.waiters c := by
  grind [h.listed]

/-- A step that leaves the lists alone. -/
theorem place (h : Waiting s) (hwaiters : m.waiters = s.m.waiters) (hwakeup : m.wakeup = s.m.wakeup)
    (hbegan : m.beganAt = s.m.beganAt) (hnow : m.now = s.m.now) (hpc : m.pc = s.m.pc)
    (hon : p.waitingOn = (s.m.pc t).waitingOn) (hrejoins : p.rejoins ≠ none → (s.m.pc t).rejoins ≠ none) :
    Waiting ⟨v, m.goto t p⟩ := by
  constructor <;> simp only [Mon.goto, update_apply, hwaiters, hwakeup, hbegan, hnow, hpc]
  case listed => grind [h.listed]
  case sorted => exact h.sorted
  case began => exact h.began
  case woken =>
    have := h.woken
    grind [Pc.joined]
  case rejoins => grind [h.rejoins]
  case fifo =>
    have := h.fifo
    grind

theorem wake (h : Waiting s) (hon : (s.m.pc t).waitingOn = some c) (hwoken : s.m.wakeup t ≠ none) (hpon : p.waitingOn = none) :
    Waiting ⟨v, s.m.goto t p⟩ := by
  constructor <;> simp only [Mon.goto, update_apply]
  case listed => grind [h.listed]
  case sorted => exact h.sorted
  case began => exact h.began
  case woken =>
    have := h.woken
    grind [Pc.joined]
  case rejoins => grind [h.rejoins]
  case fifo =>
    have := h.fifo
    grind

/-- A thread joins a list. -/
theorem push [DecidableEq C] (h : Waiting s) (hlate : ∀ u, s.m.beganAt u < s.m.now) (hon : (s.m.pc t).waitingOn = none)
    (hpon : p.waitingOn = some c) (hprejoins : p.rejoins = none) : Waiting ⟨v, (s.m.push c t).goto t p⟩ := by
  have hnot := h.not_listed hon
  constructor <;> simp only [Mon.goto, Mon.push, update_apply]
  case listed => grind [h.listed]
  case sorted =>
    intro c'
    -- the threads that were there have come earlier
    have hold : (s.m.waiters c').Pairwise fun x y =>
        (if x = t then s.m.now else s.m.beganAt x) < (if y = t then s.m.now else s.m.beganAt y) :=
      (h.sorted c').imp_of_mem (by grind)
    split
    · grind
    · exact hold
  case began =>
    grind
  case woken =>
    have := h.woken
    grind
  case rejoins => grind [h.rejoins]
  case fifo =>
    have := h.fifo
    grind

/-- A thread takes the first waiter off a list. -/
theorem pop [DecidableEq C] (h : Waiting s) (hlist : s.m.waiters c = u :: us) (hissued : s.m.beganAt u < s.m.issuedAt t)
    (hpon : p.waitingOn = none) (hon : (s.m.pc t).waitingOn = none) (hprejoins : p.rejoins = none) :
    Waiting ⟨v, (s.m.pop c t u us).goto t p⟩ := by
  have hsorted := h.sorted c
  rw [hlist, List.pairwise_cons] at hsorted
  obtain ⟨huon, hunone⟩ := (h.listed c u).mp (hlist ▸ List.mem_cons_self)
  -- it was in one list, once
  have hnot : ∀ c', u ∉ if c' = c then us else s.m.waiters c' := by
    grind [h.listed]
  have hmem : ∀ c' x, x ≠ u → (x ∈ (if c' = c then us else s.m.waiters c') ↔ x ∈ s.m.waiters c') := by
    grind
  constructor <;> simp only [Mon.goto, Mon.pop, update_apply]
  case listed => grind [h.listed]
  case sorted =>
    intro c'
    split
    · exact hsorted.2
    · exact h.sorted c'
  case began => exact h.began
  case woken =>
    have := h.woken
    grind [Pc.joined]
  case rejoins => grind [h.rejoins]
  case fifo =>
    have := h.fifo
    -- the first in the list came before the rest
    grind

end Waiting

/-! ## The semaphores of waiters -/

/-- The unit of a waiter: not given while it is in the list, to be given by the thread that has taken it off the list, and
    kept until it is taken. -/
structure Private (s : State L C) : Prop where
  zero : ∀ t, (s.m.pc t).waitingOn ≠ none → s.m.wakeup t = none → s.val (.waiter t) = 0
  fresh : ∀ t c, s.m.pc t = .waitPush c → s.val (.waiter t) = 0
  target : ∀ t c u, (s.m.pc t).target = some (c, u) →
    (s.m.pc u).waitingOn = some c ∧ s.m.wakeup u ≠ none ∧ s.val (.waiter u) = 0
  delivered : ∀ t c, (s.m.pc t).waitingOn = some c → s.m.wakeup t ≠ none →
    s.val (.waiter t) = 1 ∨ ∃ u, (s.m.pc u).target = some (c, t)

section
variable {u : Page} {us : List Page} {c : Use L C} {b : Bool} {p : Pc L C} {m : Mon L C} {v : Sem L → Nat}

/-- A step that leaves the semaphores of waiters alone. -/
theorem Private.place (h : Private s) (hval : ∀ u, v (.waiter u) = s.val (.waiter u)) (hwakeup : m.wakeup = s.m.wakeup)
    (hpc : m.pc = s.m.pc) (hon : p.waitingOn = (s.m.pc t).waitingOn) (hfresh : ∀ c, p ≠ .waitPush c)
    (htarget : p.target = none) (htarget' : (s.m.pc t).target = none) : Private ⟨v, m.goto t p⟩ := by
  constructor <;> simp only [Mon.goto, update_apply, hval, hwakeup, hpc]
  case zero => grind [h.zero]
  case fresh => grind [h.fresh]
  case target => grind [h.target]
  case delivered => grind [h.delivered]

/-- A step that concerns the semaphore of the thread itself, to which nobody is about to give a unit. -/
theorem Private.own (h : Private s) (hother : ∀ u, u ≠ t → s'.m.pc u = s.m.pc u)
    (hval : ∀ u, u ≠ t → s'.val (.waiter u) = s.val (.waiter u)) (hwakeup : ∀ u, u ≠ t → s'.m.wakeup u = s.m.wakeup u)
    (htarget : (s.m.pc t).target = none) (htarget' : (s'.m.pc t).target = none)
    (hnobody : ∀ u c, (s.m.pc u).target ≠ some (c, t))
    (hzero : (s'.m.pc t).waitingOn ≠ none → s'.m.wakeup t = none ∧ s'.val (.waiter t) = 0)
    (hfresh : ∀ c, s'.m.pc t = .waitPush c → s'.val (.waiter t) = 0) : Private s' := by
  constructor
  case zero => grind [h.zero]
  case fresh => grind [h.fresh]
  case target => grind [h.target]
  case delivered => grind [h.delivered]

theorem signalUp_of_target {c : C} (h : p.target = some (c, u)) : ∃ c' b, p = .signalUp c' b u ∧ c'.cond = c := by
  cases p with
  | signalUp c' b x =>
    cases h
    exact ⟨c', b, rfl, rfl⟩
  | _ => cases h

/-- Units are given to threads that wait. -/
theorem Private.no_target (h : Private s) (hon : (s.m.pc t).waitingOn = none) (u : Page) (c : C) :
    (s.m.pc u).target ≠ some (c, t) := by
  have htarget := h.target u c t
  grind

theorem Private.init [DecidableEq L] (h : Private s) (hpc : s.m.pc t = .waitInit c) :
    Private ⟨Function.update s.val (.waiter t) 0, s.m.goto t (.waitPush c)⟩ := by
  have hnobody := h.no_target (t := t) (by rw [hpc]; rfl)
  refine h.own (t := t) ?_ ?_ ?_ (by rw [hpc]; rfl) ?_ hnobody ?_ ?_ <;>
    simp +contextual [Mon.goto, Pc.target, Pc.waitingOn]

theorem Private.push [DecidableEq C] (h : Private s) (hpc : s.m.pc t = .waitPush c) :
    Private ⟨s.val, (s.m.push c.cond t).goto t (.release (.wait c))⟩ := by
  have hnobody := h.no_target (t := t) (by rw [hpc]; rfl)
  refine h.own (t := t) ?_ ?_ ?_ (by rw [hpc]; rfl) ?_ hnobody ?_ ?_ <;>
    simp +contextual [Mon.goto, Mon.push, Pc.target, h.fresh t c hpc]

theorem Private.wake [DecidableEq L] (h : Private s) (hpc : s.m.pc t = .waitDown c) (hpos : s.val (.waiter t) ≠ 0) :
    Private ⟨Function.update s.val (.waiter t) (s.val (.waiter t) - 1), s.m.goto t (.acquire (.wait c))⟩ := by
  -- the unit has been given already
  have hnobody : ∀ u c, (s.m.pc u).target ≠ some (c, t) := fun u c hu => hpos (h.target u c t hu).2.2
  refine h.own (t := t) ?_ ?_ ?_ (by rw [hpc]; rfl) ?_ hnobody ?_ ?_ <;>
    simp +contextual [Mon.goto, Pc.target, Pc.waitingOn]

theorem Private.pop [DecidableEq C] (h : Private s) (hw : Waiting s) (hpc : s.m.pc t = .signalPop c b) (hlist : s.m.waiters c.cond = u :: us) :
    Private ⟨s.val, (s.m.pop c.cond t u us).goto t (.signalUp c b u)⟩ := by
  obtain ⟨hon, hnone⟩ := (hw.listed c.cond u).mp (hlist ▸ List.mem_cons_self)
  have hzero := h.zero u (by rw [hon]; simp) hnone
  have htarget : (s.m.pc t).target = none := by rw [hpc]; rfl
  have htarget' : (Pc.signalUp c b u).target = some (c.cond, u) := rfl
  -- the thread itself is not waiting, before or after
  have hwaits : (s.m.pc t).waitingOn = none := by rw [hpc]; rfl
  have hwaits' : (Pc.signalUp c b u).waitingOn = none := rfl
  constructor <;> simp only [Mon.goto, Mon.pop, update_apply]
  case zero => grind [h.zero]
  case fresh => grind [h.fresh]
  case target => grind [h.target]
  case delivered =>
    intro x c' hx hxwoken
    by_cases hxu : x = u
    · exact .inr ⟨t, by grind⟩
    · grind [h.delivered x c']

theorem Private.up [DecidableEq L] (h : Private s) (hpc : s.m.pc t = .signalUp c b u)
    (hunique : ∀ x, (s.m.pc x).target = some (c.cond, u) → x = t) (hon : p.waitingOn = none) (htarget : p.target = none)
    (hfresh : ∀ c, p ≠ .waitPush c) :
    Private ⟨Function.update s.val (.waiter u) (s.val (.waiter u) + 1), s.m.goto t p⟩ := by
  have ht : (s.m.pc t).target = some (c.cond, u) := by rw [hpc]; rfl
  have hwaits : (s.m.pc t).waitingOn = none := by rw [hpc]; rfl
  have hpush : ∀ c', (Pc.waitPush c' : Pc L C).waitingOn = none := fun _ => rfl
  obtain ⟨huon, huwoken, huzero⟩ := h.target t c.cond u ht
  constructor <;> simp only [Mon.goto, update_apply, Sem.waiter.injEq]
  case zero => grind [h.zero]
  case fresh => grind [h.fresh]
  case target => grind [h.target]
  case delivered => grind [h.delivered]

end

/-! ## Signals -/

/-- The condition and the lock that the thread's call names. -/
def Pc.use : Pc L C → Option (Use L C)
  | acquire (.wait c) => some c
  | acquireDown (.wait c) => some c
  | acquireHolder (.wait c) => some c
  | release (.wait c) => some c
  | releaseHolder (.wait c) => some c
  | releaseUp (.wait c) => some c
  | wait c => some c
  | waitInit c => some c
  | waitPush c => some c
  | waitDown c => some c
  | signal c _ => some c
  | signalTest c _ => some c
  | signalPop c _ => some c
  | signalUp c _ _ => some c
  | broadcast c => some c
  | _ => none

/-- All threads name the lock that belongs to the condition. -/
def Paired (lockOf : C → L) (s : State L C) : Prop := ∀ t c, (s.m.pc t).use = some c → c.lock = lockOf c.cond

variable {m : Mon L C} {c : Use L C} {v : Sem L → Nat}

theorem Paired.holder (h : Paired lockOf s) (hlocks : Locks s) (huse : (s.m.pc t).use = some c)
    (hholds : (s.m.pc t).holds = some c.lock) : s.m.holder (lockOf c.cond) = some t := by
  rw [← h t c huse]
  exact hlocks.holds t c.lock hholds

/-- What a thread inside `cond_signal` or `cond_broadcast` knows of the list while it holds the lock. -/
structure Signals (lockOf : C → L) (s : State L C) (t : Page) : Prop where
  issued : ∀ c, (s.m.pc t).issuing = some c → s.m.holder (lockOf c) = some t →
    ∀ u ∈ s.m.waiters c, s.m.beganAt u < s.m.issuedAt t
  looks : ∀ c, (s.m.pc t).looks = some c → s.m.holder (lockOf c) = some t → s.m.found t = s.m.waiters c
  popping : ∀ c b, s.m.pc t = .signalPop c b → s.m.waiters c.cond ≠ []
  popped : ∀ c b u, s.m.pc t = .signalUp c b u → s.m.found t = u :: s.m.waiters c.cond

section
variable {u : Page} {us : List Page} {c : C} {b : Bool} {p : Pc L C} {m : Mon L C} {v : Sem L → Nat}

theorem issuing_of_looks (h : p.looks = some c) : p.issuing = some c := by
  cases p <;> first | exact h | cases h

/-- A thread outside these functions. -/
theorem signals_outside (h : (s.m.pc t).issuing = none) : Signals lockOf s t := by
  constructor <;> grind [Pc.issuing, issuing_of_looks]

/-- **The others.** A step of thread `t` changes only lists whose lock it holds. -/
theorem Signals.other (h : Signals lockOf s u) (hpaired : Paired lockOf s) (hlocks : Locks s) (hu : u ≠ t) (hpc : s'.m.pc u = s.m.pc u)
    (hissued : s'.m.issuedAt u = s.m.issuedAt u) (hfound : s'.m.found u = s.m.found u)
    (hholder : ∀ l, s'.m.holder l = some u → s.m.holder l = some u) (hlist : ∀ c, s.m.holder (lockOf c) = some t ∨
      s'.m.waiters c = s.m.waiters c ∧ ∀ x ∈ s.m.waiters c, s'.m.beganAt x = s.m.beganAt x) : Signals lockOf s' u := by
  have hsame : ∀ c, s.m.holder (lockOf c) = some u →
      s'.m.waiters c = s.m.waiters c ∧ ∀ x ∈ s.m.waiters c, s'.m.beganAt x = s.m.beganAt x := by
    intro c hc
    refine (hlist c).resolve_left fun ht => hu ?_
    exact Option.some.inj (hc.symm.trans ht)
  -- at these two places `u` is the holder
  have hholds : ∀ {c : Use L C}, (s.m.pc u).use = some c → (s.m.pc u).holds = some c.lock →
      s'.m.waiters c.cond = s.m.waiters c.cond := fun huse hl => (hsame _ (hpaired.holder hlocks huse hl)).1
  constructor <;> simp only [hpc, hfound, hissued]
  case issued =>
    have := h.issued
    grind
  case looks => grind [h.looks]
  case popping =>
    intro c b hb
    rw [hholds (by rw [hb]; rfl) (by rw [hb]; rfl)]
    exact h.popping c b hb
  case popped =>
    intro c b x hb
    rw [hholds (by rw [hb]; rfl) (by rw [hb]; rfl)]
    exact h.popped c b x hb

/-- A step that leaves the lists alone. -/
theorem Signals.place (h : ∀ u, Signals lockOf s u) (hpaired : Paired lockOf s) (hlocks : Locks s) (hpc : m.pc = s.m.pc)
    (hissued : ∀ u, u ≠ t → m.issuedAt u = s.m.issuedAt u) (hfound : ∀ u, u ≠ t → m.found u = s.m.found u)
    (hholder : ∀ u l, u ≠ t → m.holder l = some u → s.m.holder l = some u) (hwaiters : m.waiters = s.m.waiters)
    (hbegan : m.beganAt = s.m.beganAt) (hself : Signals lockOf ⟨v, m.goto t p⟩ t) (u : Page) :
    Signals lockOf ⟨v, m.goto t p⟩ u := by
  by_cases hu : u = t
  · rw [hu]
    exact hself
  · refine (h u).other hpaired hlocks hu ((goto_ne m t p hu).trans (congrFun hpc u)) (hissued u hu) (hfound u hu)
      (fun l => hholder u l hu) (fun c => .inr ⟨congrFun hwaiters c, fun x _ => congrFun hbegan x⟩)

theorem signals_goto (h : p.issuing = none) : Signals lockOf ⟨v, m.goto t p⟩ t :=
  signals_outside ((congrArg Pc.issuing (goto_self m t p)).trans h)

/-- The thread goes on inside `cond_signal` or `cond_broadcast`, and knows the list or no longer looks at it. -/
theorem Signals.within (hissued : p.issuing = some c → m.holder (lockOf c) = some t → ∀ u ∈ m.waiters c, m.beganAt u < m.issuedAt t)
    (hon : ∀ c', p.issuing = some c' → c' = c) (hlooks : p.looks = some c → m.holder (lockOf c) = some t → m.found t = m.waiters c)
    (hpopping : ∀ c' b, p = .signalPop c' b → m.waiters c'.cond ≠ [])
    (hpopped : ∀ c' b u, p = .signalUp c' b u → m.found t = u :: m.waiters c'.cond) : Signals lockOf ⟨v, m.goto t p⟩ t := by
  have hself := goto_self m t p
  constructor <;> simp only [hself]
  case issued => grind [Mon.goto]
  case looks => grind [Mon.goto, issuing_of_looks]
  case popping => exact hpopping
  case popped => exact hpopped

/-- What the thread itself knows after a jump. -/
theorem Signals.jump (h : Signals lockOf s t) (hj : Jump s.m t (s.m.pc t) p) :
    Signals lockOf ⟨s.val, s.m.goto t p⟩ t := by
  obtain ⟨hissued, hlooks, -, -⟩ := h
  generalize s.m.pc t = q at hj hissued hlooks
  cases hj with
  | signal c b hc =>
    exact Signals.within (fun _ => hissued c.cond rfl) (by grind [Pc.issuing]) (fun _ => hlooks c.cond rfl) (by simp) (by simp)
  | somebody c b hc =>
    refine Signals.within (fun _ => hissued c.cond rfl) (by grind [Pc.issuing]) (fun _ => hlooks c.cond rfl) ?_ (by simp)
    intro c' b' heq
    cases heq
    exact hc
  | nobody c b hc =>
    cases b with
    | false => exact signals_goto rfl
    | true => exact Signals.within (fun _ => hissued c.cond rfl) (by grind [Pc.issuing, Pc.afterSignal]) (fun hl => by cases hl) (by simp [Pc.afterSignal]) (by simp [Pc.afterSignal])
  | _ => exact signals_goto rfl

end

section
variable {u : Page} {us : List Page} {c : Use L C} {b : Bool} {p : Pc L C}

theorem Signals.push [DecidableEq C] (h : ∀ u, Signals lockOf s u) (hpaired : Paired lockOf s) (hlocks : Locks s) (hwaiting : Waiting s)
    (hpc : s.m.pc t = .waitPush c) (u : Page) : Signals lockOf ⟨s.val, (s.m.push c.cond t).goto t (.release (.wait c))⟩ u := by
  have hhold := hpaired.holder hlocks (t := t) (c := c) (by rw [hpc]; rfl) (by rw [hpc]; rfl)
  have hnot := hwaiting.not_listed (t := t) (by rw [hpc]; rfl)
  by_cases hu : u = t
  · rw [hu]
    exact signals_goto rfl
  · refine (h u).other hpaired hlocks hu (goto_ne (s.m.push c.cond t) t _ hu) rfl rfl (fun l hl => hl) (fun c' => ?_)
    simp only [Mon.goto, Mon.push, update_apply]
    grind

theorem Signals.pop [DecidableEq C] (h : ∀ u, Signals lockOf s u) (hpaired : Paired lockOf s) (hlocks : Locks s) (hpc : s.m.pc t = .signalPop c b)
    (hlist : s.m.waiters c.cond = u :: us) (x : Page) : Signals lockOf ⟨s.val, (s.m.pop c.cond t u us).goto t (.signalUp c b u)⟩ x := by
  have hhold : s.m.holder (lockOf c.cond) = some t :=
    hpaired.holder hlocks (by rw [hpc]; rfl) (by rw [hpc]; rfl)
  have hwaiters : (s.m.pop c.cond t u us).waiters c.cond = us := update_self _ _ _
  by_cases hx : x = t
  · subst hx
    have hissued := (h x).issued c.cond (by rw [hpc]; rfl) hhold
    have hfound := (h x).looks c.cond (by rw [hpc]; rfl) hhold
    refine Signals.within (c := c.cond) (fun _ _ y hy => ?_) (by grind [Pc.issuing]) (fun hl => by cases hl) (by simp) ?_
    · exact hissued y (hlist ▸ List.mem_cons_of_mem u (hwaiters ▸ hy))
    · intro c' b' y heq
      cases heq
      rw [hwaiters, ← hlist]
      exact hfound
  · refine (h x).other hpaired hlocks hx (goto_ne (s.m.pop c.cond t u us) t _ hx) rfl rfl (fun l hl => hl) (fun c' => ?_)
    simp only [Mon.goto, Mon.pop, update_apply]
    grind

/-- The thread returns from `cond_signal`. -/
theorem Signals.up (h : Signals lockOf s t) (hpc : s.m.pc t = .signalUp c b u) :
    Signals lockOf ⟨v, s.m.goto t (Pc.afterSignal c b)⟩ t := by
  cases b with
  | false => exact signals_goto rfl
  | true =>
    exact Signals.within (fun _ => h.issued c.cond (by rw [hpc]; rfl)) (by grind [Pc.issuing, Pc.afterSignal]) (fun hl => by cases hl)
      (by simp [Pc.afterSignal]) (by simp [Pc.afterSignal])

/-- The thread enters `cond_signal`. -/
theorem signals_look
    (hissued : m.holder (lockOf c.cond) = some t → ∀ u ∈ m.waiters c.cond, m.beganAt u < m.issuedAt t) :
    Signals lockOf ⟨v, (m.look c.cond t).goto t (.signal c b)⟩ t :=
  Signals.within (fun _ => hissued) (by grind [Pc.issuing]) (fun _ _ => update_self _ _ _) (by simp) (by simp)

end

/-! ## The invariant -/

/-- **What holds in every state.** -/
structure Inv (lockOf : C → L) (s : State L C) : Prop where
  paired : Paired lockOf s
  locks : Locks s
  waiting : Waiting s
  own : Private s
  signals : ∀ t, Signals lockOf s t

/-- Two places that are the same to the lists and to the semaphores of waiters. -/
structure Pc.Alike (p q : Pc L C) : Prop where
  waitingOn : q.waitingOn = p.waitingOn
  rejoins : q.rejoins ≠ none → p.rejoins ≠ none
  fresh : ∀ c, q ≠ .waitPush c
  target : q.target = none
  target' : p.target = none

variable {p q : Pc L C} {e : Event L C}

theorem Jump.alike (hj : Jump m t p q) : p.Alike q := by
  cases hj with
  | acquire w => exact ⟨rfl, by cases w <;> exact id, by simp, rfl, rfl⟩
  | release w => exact ⟨by cases w <;> rfl, id, by simp, rfl, rfl⟩
  | nobody c b =>
    cases b with
    | false => exact ⟨rfl, id, by simp [Pc.afterSignal], rfl, rfl⟩
    | true => exact ⟨rfl, id, by simp [Pc.afterSignal], rfl, rfl⟩
  | _ => exact ⟨rfl, id, by simp, rfl, rfl⟩

theorem Jump.use (hj : Jump m t p q) (hq : q.use = some c) : p.use = some c ∨ p = .user := by
  cases hj with
  | acquire w | release w => cases w <;> exact .inl hq
  | wait | signal | somebody => exact .inl hq
  | nobody c' b =>
    cases b with
    | false => cases hq
    | true => exact .inl hq
  | callWait => exact .inr rfl
  | _ => cases hq

/-- A thread names another condition or lock only with a new call. -/
theorem Effect.use [DecidableEq L] [DecidableEq C] (he : Effect s t s') (hc : (s'.m.pc t).use = some c) :
    (s.m.pc t).use = some c ∨ s.m.pc t = .user := by
  cases he with
  | jump hj => exact hj.use ((congrArg Pc.use (goto_self _ _ _)).symm.trans hc)
  | take w hpc =>
    have hc := (congrArg Pc.use (goto_self _ _ _)).symm.trans hc
    rcases hpc with hpc | ⟨l, hpc, rfl⟩ <;> rw [hpc]
    · cases w <;> exact .inl hc
    · cases hc
  | unhold w hpc | give w hpc =>
    have hc := (congrArg Pc.use (goto_self _ _ _)).symm.trans hc
    rw [hpc]
    cases w <;> exact .inl hc
  | hold w hpc => cases (congrArg Pc.use (goto_self _ _ _)).symm.trans hc
  | up c' b u hpc =>
    have hc := (congrArg Pc.use (goto_self _ _ _)).symm.trans hc
    rw [hpc]
    cases b with
    | false => cases hc
    | true => exact .inl hc
  | init _ hpc | push _ hpc | wake _ hpc | pop _ _ _ _ hpc | again _ hpc =>
    have hc := (congrArg Pc.use (goto_self _ _ _)).symm.trans hc
    rw [hpc]
    exact .inl hc
  | callSignal _ hpc | callBroadcast _ hpc => exact .inr hpc

theorem Call.Paired.use {f : Call L C} (h : f.Paired lockOf)
    (hc : ((m.call t f).pc t).use = some c) : c.lock = lockOf c.cond := by
  cases f with
  | wait c' | signal c' | broadcast c' =>
    cases (congrArg Pc.use (goto_self _ t _)).symm.trans hc
    exact h
  | acquire l | tryAcquire l | release l => cases (congrArg Pc.use (goto_self _ t _)).symm.trans hc

/-- The locks named stay those that belong to the conditions, if the calls name them. -/
theorem Paired.step [DecidableEq L] [DecidableEq C] (h : Paired lockOf s)
    (hcalls : ∀ t f, e = .call t f → f.Paired lockOf) (hstep : s.step e = some s') : Paired lockOf s' := by
  obtain ⟨t, ht⟩ := e.onlyMoves_someone
  rcases effect_of_step ht hstep with he | rfl
  · intro u c hc
    by_cases hu : u = t
    · subst hu
      rcases he.use hc with hold | huser
      · exact h u c hold
      · -- a thread outside all functions has made a call
        cases e with
        | next x =>
          obtain rfl : x = u := ht
          obtain ⟨v, ok, -, hnext, -⟩ := move_ok hstep
          unfold Mon.next at hnext
          rw [show s.m.tick.pc x = .user from huser] at hnext
          cases hnext
        | call x f =>
          obtain rfl : x = u := ht
          rw [State.step, State.exec, if_pos huser] at hstep
          cases hstep
          exact (hcalls x f rfl).use hc
        | pass =>
          cases hstep
          exact h u c hc
    · rw [he.pc_ne hu] at hc
      exact h u c hc
  · exact h

namespace Inv

/-- A step that leaves the lists and the semaphores of waiters alone. -/
theorem quiet (h : Inv lockOf s) (halike : (s.m.pc t).Alike p)
    (hpaired : Paired lockOf ⟨v, m.goto t p⟩) (hlocks : Locks ⟨v, m.goto t p⟩) (hval : ∀ u, v (.waiter u) = s.val (.waiter u))
    (hwaiters : m.waiters = s.m.waiters) (hwakeup : m.wakeup = s.m.wakeup) (hbegan : m.beganAt = s.m.beganAt)
    (hnow : m.now = s.m.now) (hpc : m.pc = s.m.pc) (hissued : ∀ u, u ≠ t → m.issuedAt u = s.m.issuedAt u)
    (hfound : ∀ u, u ≠ t → m.found u = s.m.found u)
    (hholder : ∀ u l, u ≠ t → m.holder l = some u → s.m.holder l = some u)
    (hself : Signals lockOf ⟨v, m.goto t p⟩ t) : Inv lockOf ⟨v, m.goto t p⟩ where
  paired := hpaired
  locks := hlocks
  waiting := h.waiting.place hwaiters hwakeup hbegan hnow hpc halike.waitingOn halike.rejoins
  own := h.own.place hval hwakeup hpc halike.waitingOn halike.fresh halike.target halike.target'
  signals := Signals.place h.signals h.paired h.locks hpc hissued hfound hholder hwaiters hbegan hself

/-- **One step.** -/
theorem effect [DecidableEq L] [DecidableEq C] (h : Inv lockOf s) (hlate : ∀ u, s.m.beganAt u < s.m.now)
    (hpaired : Paired lockOf s') (he : Effect s t s') : Inv lockOf s' := by
  have hlocks := h.locks.effect he
  cases he with
  | jump hj =>
    exact h.quiet hj.alike hpaired hlocks (fun _ => rfl) rfl rfl rfl rfl rfl (fun _ _ => rfl) (fun _ _ => rfl)
      (fun _ _ _ hl => hl) ((h.signals t).jump hj)
  | take w hpc hpos =>
    have halike : (s.m.pc t).Alike (.acquireHolder w) := by
      rcases hpc with hpc | ⟨l, hpc, rfl⟩ <;> rw [hpc]
      · exact ⟨rfl, by cases w <;> exact id, by simp, rfl, rfl⟩
      · exact ⟨rfl, id, by simp, rfl, rfl⟩
    exact h.quiet halike hpaired hlocks (fun _ => rfl) rfl rfl rfl rfl rfl (fun _ _ => rfl) (fun _ _ => rfl)
      (fun _ _ _ hl => hl) (signals_goto rfl)
  | hold w hpc =>
    refine h.quiet ?_ hpaired hlocks (fun _ => rfl) rfl rfl rfl rfl rfl (fun _ _ => rfl) (fun _ _ => rfl) ?_ (signals_goto rfl)
    · rw [hpc]
      exact ⟨rfl, fun hr => absurd rfl hr, by simp, rfl, rfl⟩
    · intro u l hu hl
      by_cases hw : l = w.theLock
      · have hself : (s.m.setHolder (w.theLock) (some t)).holder l = some t := by
          rw [hw]
          exact update_self _ _ _
        exact absurd (Option.some.inj (hl.symm.trans hself)) hu
      · exact (update_of_ne hw _ _).symm.trans hl
  | unhold w hpc =>
    refine h.quiet ?_ hpaired hlocks (fun _ => rfl) rfl rfl rfl rfl rfl (fun _ _ => rfl) (fun _ _ => rfl) ?_ (signals_goto rfl)
    · rw [hpc]
      exact ⟨by cases w <;> rfl, id, by simp, rfl, rfl⟩
    · intro u l hu hl
      by_cases hw : l = w.theLock
      · have hself : (s.m.setHolder (w.theLock) none).holder l = none := by
          rw [hw]
          exact update_self _ _ _
        cases hself.symm.trans hl
      · exact (update_of_ne hw _ _).symm.trans hl
  | give w hpc =>
    refine h.quiet ?_ hpaired hlocks (fun _ => rfl) rfl rfl rfl rfl rfl (fun _ _ => rfl) (fun _ _ => rfl) (fun _ _ _ hl => hl)
      (signals_goto (by cases w <;> rfl))
    rw [hpc]
    cases w with
    | lock l => exact ⟨rfl, id, by simp [For.afterRelease], rfl, rfl⟩
    | wait c => exact ⟨rfl, id, by simp [For.afterRelease], rfl, rfl⟩
  | init c hpc =>
    refine ⟨hpaired, hlocks, h.waiting.place rfl rfl rfl rfl rfl (by rw [hpc]; rfl) (fun hr => absurd rfl hr), h.own.init hpc, ?_⟩
    exact Signals.place h.signals h.paired h.locks rfl (fun _ _ => rfl) (fun _ _ => rfl) (fun _ _ _ hl => hl) rfl rfl (signals_goto rfl)
  | push c hpc =>
    exact ⟨hpaired, hlocks, h.waiting.push hlate (by rw [hpc]; rfl) rfl rfl, h.own.push hpc, Signals.push h.signals h.paired h.locks h.waiting hpc⟩
  | wake c hpc hpos =>
    have hon : (s.m.pc t).waitingOn = some c.cond := by
      rw [hpc]
      rfl
    -- without a signal there would be no unit
    have hwoken : s.m.wakeup t ≠ none := fun hnone => hpos (h.own.zero t (by rw [hon]; simp) hnone)
    refine ⟨hpaired, hlocks, h.waiting.wake hon hwoken rfl, h.own.wake hpc hpos, ?_⟩
    exact Signals.place h.signals h.paired h.locks rfl (fun _ _ => rfl) (fun _ _ => rfl) (fun _ _ _ hl => hl) rfl rfl (signals_goto rfl)
  | pop c b u us hpc hlist =>
    have hhold := h.paired.holder h.locks (by rw [hpc]; rfl) (by rw [hpc]; rfl)
    have hissued : s.m.beganAt u < s.m.issuedAt t :=
      (h.signals t).issued c.cond (by rw [hpc]; rfl) hhold u (hlist ▸ List.mem_cons_self)
    exact ⟨hpaired, hlocks, h.waiting.pop hlist hissued rfl (by rw [hpc]; rfl) rfl, h.own.pop h.waiting hpc hlist,
      Signals.pop h.signals h.paired h.locks hpc hlist⟩
  | up c b u hpc =>
    -- two threads about to give a unit to one waiter would both hold the lock
    have hunique : ∀ x, (s.m.pc x).target = some (c.cond, u) → x = t := by
      intro x hx
      obtain ⟨c', b', hpc', hc'⟩ := signalUp_of_target hx
      have hx' := h.paired.holder h.locks (t := x) (c := c') (by rw [hpc']; rfl) (by rw [hpc']; rfl)
      have ht' := h.paired.holder h.locks (t := t) (c := c) (by rw [hpc]; rfl) (by rw [hpc]; rfl)
      rw [hc'] at hx'
      exact Option.some.inj (hx'.symm.trans ht')
    refine ⟨hpaired, hlocks, h.waiting.place rfl rfl rfl rfl rfl ?_ ?_, h.own.up hpc hunique ?_ ?_ ?_, ?_⟩
    · rw [hpc]
      cases b <;> rfl
    · cases b <;> exact fun hr => absurd rfl hr
    · cases b <;> rfl
    · cases b <;> rfl
    · cases b <;> simp [Pc.afterSignal]
    · exact Signals.place h.signals h.paired h.locks rfl (fun _ _ => rfl) (fun _ _ => rfl) (fun _ _ _ hl => hl) rfl rfl
        ((h.signals t).up hpc)
  | again c hpc hc =>
    refine h.quiet ?_ hpaired hlocks (fun _ => rfl) rfl rfl rfl rfl rfl (fun _ _ => rfl)
      (fun u hu => update_of_ne hu _ _) (fun _ _ _ hl => hl)
      (signals_look ((h.signals t).issued c.cond (by rw [hpc]; rfl)))
    rw [hpc]
    exact ⟨rfl, id, by simp, rfl, rfl⟩
  | callSignal c hpc =>
    refine h.quiet ?_ hpaired hlocks (fun _ => rfl) rfl rfl rfl rfl rfl (fun u hu => update_of_ne hu _ _)
      (fun u hu => update_of_ne hu _ _) (fun _ _ _ hl => hl) (signals_look fun _ u _ => ?_)
    · rw [hpc]
      exact ⟨rfl, id, by simp, rfl, rfl⟩
    · show s.m.beganAt u < Function.update s.m.issuedAt t s.m.now t
      rw [update_self]
      exact hlate u
  | callBroadcast c hpc =>
    refine h.quiet ?_ hpaired hlocks (fun _ => rfl) rfl rfl rfl rfl rfl (fun u hu => update_of_ne hu _ _)
      (fun _ _ => rfl) (fun _ _ _ hl => hl) ?_
    · rw [hpc]
      exact ⟨rfl, id, by simp, rfl, rfl⟩
    · have hself : ((s.m.issue t).goto t (.broadcast c)).pc t = .broadcast c := goto_self (s.m.issue t) t _
      constructor
      · intro c' _ _ u _
        show s.m.beganAt u < Function.update s.m.issuedAt t s.m.now t
        rw [update_self]
        exact hlate u
      · exact fun c' hc' => by cases (congrArg Pc.looks hself).symm.trans hc'
      · exact fun c' b' hb => by cases hself.symm.trans hb
      · exact fun c' b' y hb => by cases hself.symm.trans hb

/-- Time passes. -/
theorem tick (h : Inv lockOf s) : Inv lockOf ⟨s.val, s.m.tick⟩ where
  paired := h.paired
  locks := ⟨h.locks.value, h.locks.holder, h.locks.holds, h.locks.owns⟩
  waiting := ⟨h.waiting.listed, h.waiting.sorted, fun t => (h.waiting.began t).trans (Nat.le_succ _), h.waiting.woken,
    h.waiting.rejoins, h.waiting.fifo⟩
  own := ⟨h.own.zero, h.own.fresh, h.own.target, h.own.delivered⟩
  signals := fun t => ⟨(h.signals t).issued, (h.signals t).looks, (h.signals t).popping, (h.signals t).popped⟩

/-- **Every event keeps the invariant.** -/
theorem step [DecidableEq L] [DecidableEq C] (h : Inv lockOf s)
    (hcalls : ∀ t f, e = .call t f → f.Paired lockOf) (hstep : s.step e = some s') : Inv lockOf s' := by
  have hlate : ∀ u, s.m.beganAt u < s.m.tick.now := fun u => Nat.lt_succ_of_le (h.waiting.began u)
  obtain ⟨t, ht⟩ := e.onlyMoves_someone
  rcases effect_of_step ht hstep with he | rfl
  · exact h.tick.effect hlate (h.paired.step hcalls hstep) he
  · exact h.tick

/-- At first nobody waits and all locks are free. -/
theorem init (hval : ∀ l, v (.lock l) = 1) : Inv lockOf ⟨v, (Mon.init : Mon L C)⟩ where
  paired := fun _ _ hc => (by cases hc)
  locks := ⟨hval, fun _ _ hl => (by cases hl), fun _ _ hl => (by cases hl), fun _ _ hl => (by cases hl)⟩
  waiting := by
    refine ⟨fun c t => ?_, fun c => List.Pairwise.nil, fun t => Nat.le_refl _, fun t j _ hj => ?_, fun t ht => ?_,
      fun c t u hon => ?_⟩
    · exact iff_of_false List.not_mem_nil (fun hon => by cases hon.1)
    · cases hj
    · exact absurd rfl ht
    · cases hon
  own := ⟨fun _ ht => absurd rfl ht, fun _ _ hc => (by cases hc), fun _ _ _ hc => (by cases hc), fun _ _ hc => (by cases hc)⟩
  signals := fun t => signals_outside rfl

/-- **No unit is given twice**: `sema_up` finds a semaphore without one. -/
theorem up_zero (h : Inv lockOf s) {q : Sem L} (hop : (s.m.pc t).op t = .up q) : s.val q = 0 := by
  cases hpc : s.m.pc t with
  | releaseUp w =>
    rw [hpc] at hop
    cases hop
    exact h.locks.taken (h.locks.owns t _ (by rw [hpc]; rfl)).1
  | signalUp c b u =>
    rw [hpc] at hop
    cases hop
    exact (h.own.target t c.cond u (by rw [hpc]; rfl)).2.2
  | _ =>
    rw [hpc] at hop
    cases hop

end Inv

end Synch
end Asg1
