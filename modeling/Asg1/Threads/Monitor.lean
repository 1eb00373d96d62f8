import Asg1.Threads.Synch

/-!
# `Threads.Monitor` — the steps of locks and condition variables, and what holds of locks

The level of `Synch.State`: semaphores are values, and any thread may move. What a step can do is said once (`Effect`).
`Locks` counts: the value of a lock's semaphore and the threads inside make one.

What holds of a thread depends on the range of places that it is in (`Pc.holds`, `Pc.waitingOn` and so on). A step moves one
thread, so an invariant has a lemma for a thread that only changes its place, and one for each kind of step that does more.
-/

namespace Asg1
namespace Synch

open Threads Function

variable {L C : Type} {s s' : State L C} {t : Page}

/-! ## Ranges of places -/

namespace Pc

/-- The thread is the holder of this lock. -/
def holds : Pc L C → Option L
  | release (.wait c) => some c.lock
  | releaseHolder w => some w.theLock
  | waitInit c => some c.lock
  | waitPush c => some c.lock
  | signalTest c _ => some c.lock
  | signalPop c _ => some c.lock
  | signalUp c _ _ => some c.lock
  | _ => none

/-- The thread has this lock's unit and is not its holder, not yet or no more. -/
def owns : Pc L C → Option L
  | acquireHolder w => some w.theLock
  | releaseUp w => some w.theLock
  | _ => none

/-- The thread has joined the waiters of this condition and is not through with `sema_down`. -/
def waitingOn : Pc L C → Option C
  | release (.wait c) => some c.cond
  | releaseHolder (.wait c) => some c.cond
  | releaseUp (.wait c) => some c.cond
  | waitDown c => some c.cond
  | _ => none

/-- The thread is on its way back from `cond_wait`. -/
def rejoins : Pc L C → Option C
  | acquire (.wait c) => some c.cond
  | acquireDown (.wait c) => some c.cond
  | acquireHolder (.wait c) => some c.cond
  | _ => none

/-- The thread is inside `cond_wait` and has joined the waiters. -/
def joined (p : Pc L C) : Prop := p.waitingOn ≠ none ∨ p.rejoins ≠ none

/-- The thread is about to give a unit to a waiter. -/
def target : Pc L C → Option (C × Page)
  | signalUp c _ t => some (c.cond, t)
  | _ => none

/-- The thread is inside `cond_signal` or `cond_broadcast` for this condition. -/
def issuing : Pc L C → Option C
  | signal c _ => some c.cond
  | signalTest c _ => some c.cond
  | signalPop c _ => some c.cond
  | signalUp c _ _ => some c.cond
  | broadcast c => some c.cond
  | _ => none

/-- The thread is inside `cond_signal` and has not taken anybody off the list. -/
def looks : Pc L C → Option C
  | signal c _ => some c.cond
  | signalTest c _ => some c.cond
  | signalPop c _ => some c.cond
  | _ => none

end Pc

/-- The event is a step of thread `t`, if it is one of any thread. -/
def Event.OnlyMoves (t : Page) : Event L C → Prop
  | .next u => u = t
  | .call u _ => u = t
  | .pass => True

theorem Event.onlyMoves_someone (e : Event L C) : ∃ t, e.OnlyMoves t := by
  cases e with
  | next t => exact ⟨t, rfl⟩
  | call t f => exact ⟨t, rfl⟩
  | pass => exact ⟨0, trivial⟩

/-! ## Steps -/

section
variable [DecidableEq L] [DecidableEq C]

/-- The moves of thread `t` that change nothing but its place. -/
inductive Jump (m : Mon L C) (t : Page) : Pc L C → Pc L C → Prop
  | acquire (w : For L C) (h : m.holder w.theLock ≠ some t) : Jump m t (.acquire w) (.acquireDown w)
  | tryAcquire (l : L) (h : m.holder l ≠ some t) : Jump m t (.tryAcquire l) (.tryDown l)
  | tryFails (l : L) : Jump m t (.tryDown l) .user
  | release (w : For L C) (h : m.holder w.theLock = some t) : Jump m t (.release w) (.releaseHolder w)
  | wait (c : Use L C) (h : m.holder c.lock = some t) : Jump m t (.wait c) (.waitInit c)
  | signal (c : Use L C) (b : Bool) (h : m.holder c.lock = some t) : Jump m t (.signal c b) (.signalTest c b)
  | nobody (c : Use L C) (b : Bool) (h : m.waiters c.cond = []) : Jump m t (.signalTest c b) (Pc.afterSignal c b)
  | somebody (c : Use L C) (b : Bool) (h : m.waiters c.cond ≠ []) : Jump m t (.signalTest c b) (.signalPop c b)
  | noMore (c : Use L C) (h : m.waiters c.cond = []) : Jump m t (.broadcast c) .user
  | callAcquire (l : L) : Jump m t .user (.acquire (.lock l))
  | callTry (l : L) : Jump m t .user (.tryAcquire l)
  | callRelease (l : L) : Jump m t .user (.release (.lock l))
  | callWait (c : Use L C) : Jump m t .user (.wait c)

/-- **What a step can do.** -/
inductive Effect (s : State L C) (t : Page) : State L C → Prop
  | jump {p : Pc L C} (h : Jump s.m t (s.m.pc t) p) : Effect s t ⟨s.val, s.m.goto t p⟩
  | take (w : For L C) (hpc : s.m.pc t = .acquireDown w ∨ ∃ l, s.m.pc t = .tryDown l ∧ w = .lock l)
      (hpos : s.val (.lock w.theLock) ≠ 0) :
      Effect s t ⟨Function.update s.val (.lock w.theLock) (s.val (.lock w.theLock) - 1),
        (s.m.enter w.theLock t).goto t (.acquireHolder w)⟩
  | hold (w : For L C) (hpc : s.m.pc t = .acquireHolder w) :
      Effect s t ⟨s.val, (s.m.setHolder w.theLock (some t)).goto t .user⟩
  | unhold (w : For L C) (hpc : s.m.pc t = .releaseHolder w) :
      Effect s t ⟨s.val, (s.m.setHolder w.theLock none).goto t (.releaseUp w)⟩
  | give (w : For L C) (hpc : s.m.pc t = .releaseUp w) :
      Effect s t ⟨Function.update s.val (.lock w.theLock) (s.val (.lock w.theLock) + 1),
        (s.m.leave w.theLock t).goto t w.afterRelease⟩
  | init (c : Use L C) (hpc : s.m.pc t = .waitInit c) :
      Effect s t ⟨Function.update s.val (.waiter t) 0, s.m.goto t (.waitPush c)⟩
  | push (c : Use L C) (hpc : s.m.pc t = .waitPush c) : Effect s t ⟨s.val, (s.m.push c.cond t).goto t (.release (.wait c))⟩
  | wake (c : Use L C) (hpc : s.m.pc t = .waitDown c) (hpos : s.val (.waiter t) ≠ 0) :
      Effect s t ⟨Function.update s.val (.waiter t) (s.val (.waiter t) - 1), s.m.goto t (.acquire (.wait c))⟩
  | pop (c : Use L C) (b : Bool) (u : Page) (us : List Page) (hpc : s.m.pc t = .signalPop c b) (hlist : s.m.waiters c.cond = u :: us) :
      Effect s t ⟨s.val, (s.m.pop c.cond t u us).goto t (.signalUp c b u)⟩
  | up (c : Use L C) (b : Bool) (u : Page) (hpc : s.m.pc t = .signalUp c b u) :
      Effect s t ⟨Function.update s.val (.waiter u) (s.val (.waiter u) + 1), s.m.goto t (Pc.afterSignal c b)⟩
  | again (c : Use L C) (hpc : s.m.pc t = .broadcast c) (h : s.m.waiters c.cond ≠ []) :
      Effect s t ⟨s.val, (s.m.look c.cond t).goto t (.signal c true)⟩
  | callSignal (c : Use L C) (hpc : s.m.pc t = .user) :
      Effect s t ⟨s.val, ((s.m.issue t).look c.cond t).goto t (.signal c false)⟩
  | callBroadcast (c : Use L C) (hpc : s.m.pc t = .user) : Effect s t ⟨s.val, (s.m.issue t).goto t (.broadcast c)⟩

theorem Effect.of_call {f : Call L C} (hpc : s.m.pc t = .user) : Effect s t ⟨s.val, s.m.call t f⟩ := by
  cases f with
  | acquire l => exact .jump (hpc ▸ .callAcquire l)
  | tryAcquire l => exact .jump (hpc ▸ .callTry l)
  | release l => exact .jump (hpc ▸ .callRelease l)
  | wait c => exact .jump (hpc ▸ .callWait c)
  | signal c => exact .callSignal c hpc
  | broadcast c => exact .callBroadcast c hpc

/-- The operation of a step, and the rest of it. -/
theorem move_ok (h : s.move t = some s') : ∃ v ok, State.operate s.val ((s.m.pc t).op t) = some (v, ok) ∧
    s.m.next t ok = some s'.m ∧ s'.val = v := by
  obtain ⟨⟨v, ok⟩, hop, hrest⟩ := Option.bind_eq_some_iff.mp h
  obtain ⟨m, hm, hs⟩ := Option.bind_eq_some_iff.mp hrest
  cases hs
  exact ⟨v, ok, hop, hm, rfl⟩

/-- **A step does one of these things.** -/
theorem Effect.of_move (h : s.move t = some s') : Effect s t s' := by
  obtain ⟨v, ok, hop, hnext, hval⟩ := move_ok h
  obtain ⟨val', m'⟩ := s'
  obtain rfl : val' = v := hval
  unfold Mon.next at hnext
  cases hpc : s.m.pc t <;> simp only [hpc, Pc.op, State.operate] at hop hnext
  case user => cases hnext
  case acquire w =>
    cases hop
    split at hnext
    · cases hnext
    · cases hnext
      exact .jump (hpc ▸ .acquire w ‹_›)
  case acquireDown w =>
    split at hop
    · cases hop
    · cases hop
      cases hnext
      exact .take w (.inl hpc) ‹_›
  case acquireHolder w =>
    cases hop
    cases hnext
    exact .hold w hpc
  case tryAcquire l =>
    cases hop
    split at hnext
    · cases hnext
    · cases hnext
      exact .jump (hpc ▸ .tryAcquire l ‹_›)
  case tryDown l =>
    split at hop
    · cases hop
      cases hnext
      exact .jump (hpc ▸ .tryFails l)
    · cases hop
      cases hnext
      exact .take (.lock l) (.inr ⟨l, hpc, rfl⟩) ‹_›
  case release w =>
    cases hop
    split at hnext
    · cases hnext
      exact .jump (hpc ▸ .release w ‹_›)
    · cases hnext
  case releaseHolder w =>
    cases hop
    cases hnext
    exact .unhold w hpc
  case releaseUp w =>
    cases hop
    cases hnext
    exact .give w hpc
  case wait c =>
    cases hop
    split at hnext
    · cases hnext
      exact .jump (hpc ▸ .wait c ‹_›)
    · cases hnext
  case waitInit c =>
    cases hop
    cases hnext
    exact .init c hpc
  case waitPush c =>
    cases hop
    cases hnext
    exact .push c hpc
  case waitDown c =>
    split at hop
    · cases hop
    · cases hop
      cases hnext
      exact .wake c hpc ‹_›
  case signal c b =>
    cases hop
    split at hnext
    · cases hnext
      exact .jump (hpc ▸ .signal c b ‹_›)
    · cases hnext
  case signalTest c b =>
    cases hop
    cases hnext
    split
    · exact .jump (hpc ▸ .nobody c b ‹_›)
    · exact .jump (hpc ▸ .somebody c b ‹_›)
  case signalPop c b =>
    cases hop
    split at hnext
    · cases hnext
    · cases hnext
      exact .pop c b _ _ hpc ‹_›
  case signalUp c b u =>
    cases hop
    cases hnext
    exact .up c b u hpc
  case broadcast c =>
    cases hop
    cases hnext
    split
    · exact .jump (hpc ▸ .noMore c ‹_›)
    · exact .again c hpc ‹_›

/-- **An event is a step of one thread**, or only time passes. -/
theorem effect_of_step {e : Event L C} (hby : e.OnlyMoves t) (hstep : s.step e = some s') :
    Effect ⟨s.val, s.m.tick⟩ t s' ∨ s' = ⟨s.val, s.m.tick⟩ := by
  cases e with
  | next u =>
    obtain rfl : u = t := hby
    exact .inl (Effect.of_move hstep)
  | call u f =>
    obtain rfl : u = t := hby
    rw [State.step, State.exec] at hstep
    split at hstep
    · cases hstep
      exact .inl (Effect.of_call ‹_›)
    · cases hstep
  | pass => exact .inr (Option.some.inj hstep).symm

variable {u : Page}

/-- A step moves one thread. -/
theorem Effect.pc_ne (he : Effect s t s') (hu : u ≠ t) : s'.m.pc u = s.m.pc u := by
  cases he <;> exact update_of_ne hu _ _

theorem Effect.moved (he : Effect s t s') (hne : s'.m.pc u ≠ s.m.pc u) : u = t :=
  Decidable.byContradiction fun hu => hne (he.pc_ne hu)

end

/-! ## Places after a step -/

section Places

variable (m : Mon L C) (t : Page) (p : Pc L C)

@[simp] theorem goto_self : (m.goto t p).pc t = p := update_self _ _ _

@[simp] theorem goto_ne (h : u ≠ t) : (m.goto t p).pc u = m.pc u := update_of_ne h _ _

/-- What holds of all places, if it holds of the new one and held of the others. -/
theorem goto_forall {P : Page → Pc L C → Prop} (hself : P t p) (hother : ∀ u, u ≠ t → P u (m.pc u)) (u : Page) :
    P u ((m.goto t p).pc u) := by
  by_cases hu : u = t
  · rw [hu, goto_self]
    exact hself
  · rw [goto_ne m t p hu]
    exact hother u hu

end Places

/-! ## Locks -/

/-- A lock's unit is in its semaphore or with a thread; the holder has it. -/
structure Locks (s : State L C) : Prop where
  value : ∀ l, s.val (.lock l) + (s.m.inside l).length = 1
  holder : ∀ l t, s.m.holder l = some t → t ∈ s.m.inside l
  holds : ∀ t l, (s.m.pc t).holds = some l → s.m.holder l = some t
  owns : ∀ t l, (s.m.pc t).owns = some l → t ∈ s.m.inside l ∧ s.m.holder l ≠ some t

namespace Locks

variable {u : Page} {l : L}

/-- **Mutual exclusion.** -/
theorem alone (h : Locks s) (ht : t ∈ s.m.inside l) : s.m.inside l = [t] := by
  have hvalue := h.value l
  cases hin : s.m.inside l with
  | nil =>
    rw [hin] at ht
    cases ht
  | cons x xs =>
    rw [hin, List.length_cons] at hvalue
    obtain rfl : xs = [] := List.eq_nil_of_length_eq_zero (by omega)
    rw [hin] at ht
    rw [List.mem_singleton.mp ht]

theorem unique (h : Locks s) (ht : t ∈ s.m.inside l) (hu : u ∈ s.m.inside l) : u = t := by
  rw [h.alone ht] at hu
  exact List.mem_singleton.mp hu

theorem unique_holder (h : Locks s) (ht : t ∈ s.m.inside l) (hu : s.m.holder l = some u) : u = t :=
  h.unique ht (h.holder l u hu)

/-- The lock is free when there is a unit. -/
theorem free (h : Locks s) (hpos : s.val (.lock l) ≠ 0) : s.val (.lock l) = 1 ∧ s.m.inside l = [] := by
  have hvalue := h.value l
  exact ⟨by omega, List.eq_nil_of_length_eq_zero (by omega)⟩

theorem taken (h : Locks s) (ht : t ∈ s.m.inside l) : s.val (.lock l) = 0 := by
  have hvalue := h.value l
  rw [h.alone ht, List.length_singleton] at hvalue
  omega

variable {p : Pc L C} {m : Mon L C} {v : Sem L → Nat}

/-- A step that leaves the locks alone. -/
theorem place (h : Locks s) (hval : ∀ l, v (.lock l) = s.val (.lock l))
    (hinside : m.inside = s.m.inside) (hholder : m.holder = s.m.holder) (hpc : m.pc = s.m.pc)
    (hholds : ∀ l, p.holds = some l → s.m.holder l = some t) (howns : p.owns = none) : Locks ⟨v, m.goto t p⟩ := by
  constructor <;> simp only [Mon.goto, update_apply, hval, hinside, hholder, hpc]
  case value => exact h.value
  case holder => exact h.holder
  case holds => grind [h.holds]
  case owns => grind [h.owns]

/-- A step that changes one lock, which nobody else has. -/
theorem change (h : Locks s)
    (hval : ∀ l', l' ≠ l → v (.lock l') = s.val (.lock l')) (hinside : ∀ l', l' ≠ l → m.inside l' = s.m.inside l')
    (hholder : ∀ l', l' ≠ l → m.holder l' = s.m.holder l') (hpc : m.pc = s.m.pc)
    (hothers : ∀ u, u ≠ t → u ∉ s.m.inside l) (hvalue : v (.lock l) + (m.inside l).length = 1)
    (hself : ∀ u, m.holder l = some u → u ∈ m.inside l) (hholds : p.holds = none)
    (howns : ∀ l', p.owns = some l' → l' = l ∧ t ∈ m.inside l ∧ m.holder l ≠ some t) : Locks ⟨v, m.goto t p⟩ := by
  constructor <;> simp only [Mon.goto, update_apply, hpc]
  case value =>
    intro l'
    by_cases hl : l' = l
    · rw [hl]
      exact hvalue
    · grind [h.value l']
  case holder =>
    intro l' u
    by_cases hl : l' = l
    · rw [hl]
      exact hself u
    · grind [h.holder l' u]
  case holds =>
    -- another thread that is the holder is inside
    intro u l' hl'
    have hold := h.holds u l'
    have hin := h.holder l' u
    by_cases hl : l' = l <;> grind
  case owns =>
    intro u l' hl'
    have hold := h.owns u l'
    by_cases hl : l' = l <;> grind

end Locks

theorem not_inside (h : Locks s) {l : L} (ht : t ∈ s.m.inside l) (u : Page) (hu : u ≠ t) : u ∉ s.m.inside l :=
  fun hin => hu (h.unique ht hin)

section
variable {l : L} {m : Mon L C} {p : Pc L C}

theorem Locks.take [DecidableEq L] (h : Locks s) (hpos : s.val (.lock l) ≠ 0) (hholds : p.holds = none)
    (howns : p.owns = some l) :
    Locks ⟨Function.update s.val (.lock l) (s.val (.lock l) - 1), (s.m.enter l t).goto t p⟩ := by
  obtain ⟨hone, hnil⟩ := h.free hpos
  have hnobody : ∀ u, s.m.holder l ≠ some u := by
    intro u hu
    have hmem := h.holder l u hu
    rw [hnil] at hmem
    cases hmem
  refine h.change (l := l) ?_ ?_ ?_ rfl ?_ ?_ ?_ hholds ?_ <;>
    simp only [Mon.enter, update_apply, Sem.lock.injEq, hnil] <;> grind

theorem Locks.hold [DecidableEq L] (h : Locks s) (hpc : (s.m.pc t).owns = some l) :
    Locks ⟨s.val, (s.m.setHolder l (some t)).goto t .user⟩ := by
  obtain ⟨hin, -⟩ := h.owns t l hpc
  refine h.change (l := l) ?_ ?_ ?_ rfl (not_inside h hin) ?_ ?_ rfl ?_ <;>
    simp only [Mon.setHolder, update_apply] <;> grind [Pc.owns, h.value l]

theorem Locks.unhold [DecidableEq L] (h : Locks s) (hpc : (s.m.pc t).holds = some l) (hholds : p.holds = none)
    (howns : p.owns = some l) : Locks ⟨s.val, (s.m.setHolder l none).goto t p⟩ := by
  have hin := h.holder l t (h.holds t l hpc)
  refine h.change (l := l) ?_ ?_ ?_ rfl (not_inside h hin) ?_ ?_ hholds ?_ <;>
    simp only [Mon.setHolder, update_apply] <;> grind [h.value l]

theorem Locks.give [DecidableEq L] (h : Locks s) (hpc : (s.m.pc t).owns = some l) (hholds : p.holds = none)
    (howns : p.owns = none) :
    Locks ⟨Function.update s.val (.lock l) (s.val (.lock l) + 1), (s.m.leave l t).goto t p⟩ := by
  obtain ⟨hin, hnot⟩ := h.owns t l hpc
  have hnil : (s.m.inside l).erase t = [] := by
    rw [h.alone hin, List.erase_cons_head]
  have hfree : ∀ u, s.m.holder l ≠ some u := fun u hu => hnot (h.unique_holder hin hu ▸ hu)
  refine h.change (l := l) ?_ ?_ ?_ rfl (not_inside h hin) ?_ ?_ hholds ?_ <;>
    simp only [Mon.leave, update_apply, Sem.lock.injEq, hnil, h.taken hin] <;> grind

end

@[simp] theorem afterSignal_holds (c : Use L C) (b : Bool) : (Pc.afterSignal c b).holds = none := by
  cases b <;> rfl

@[simp] theorem afterSignal_owns (c : Use L C) (b : Bool) : (Pc.afterSignal c b).owns = none := by
  cases b <;> rfl

/-- A jump to a place where the thread is the holder of a lock. -/
theorem Jump.holds {q : Pc L C} {l : L} (hj : Jump s.m t p q) (h : Locks s) (hpc : s.m.pc t = p)
    (hl : q.holds = some l) : s.m.holder l = some t := by
  cases hj with
  | release w hw =>
    cases hl
    exact hw
  | wait c hc =>
    cases hl
    exact hc
  | signal c b hc =>
    cases hl
    exact hc
  | somebody c b hc =>
    cases hl
    exact h.holds t _ (by rw [hpc]; rfl)
  | nobody c b hc =>
    rw [afterSignal_holds] at hl
    cases hl
  | _ => cases hl

theorem Jump.owns {q : Pc L C} (hj : Jump m t p q) : q.owns = none := by
  cases hj with
  | nobody c b hc => exact afterSignal_owns c b
  | _ => rfl

/-- **A step keeps the locks.** -/
theorem Locks.effect [DecidableEq L] [DecidableEq C] (h : Locks s) (he : Effect s t s') : Locks s' := by
  cases he with
  | jump hj => exact h.place (fun _ => rfl) rfl rfl rfl (fun l hl => hj.holds h rfl hl) hj.owns
  | take w hpc hpos => exact h.take hpos rfl rfl
  | hold w hpc => exact h.hold (by rw [hpc]; rfl)
  | unhold w hpc => exact h.unhold (by rw [hpc]; rfl) rfl rfl
  | give w hpc =>
    refine h.give (by rw [hpc]; rfl) ?_ ?_
    · cases w <;> rfl
    · cases w <;> rfl
  | init c hpc =>
    refine h.place (fun _ => rfl) rfl rfl rfl (fun l hl => ?_) rfl
    cases hl
    exact h.holds t _ (by rw [hpc]; rfl)
  | push c hpc =>
    refine h.place (fun _ => rfl) rfl rfl rfl (fun l hl => ?_) rfl
    cases hl
    exact h.holds t _ (by rw [hpc]; rfl)
  | wake c hpc hpos => exact h.place (fun _ => rfl) rfl rfl rfl (fun l hl => by cases hl) rfl
  | pop c b u us hpc hlist =>
    refine h.place (fun _ => rfl) rfl rfl rfl (fun l hl => ?_) rfl
    cases hl
    exact h.holds t _ (by rw [hpc]; rfl)
  | up c b u hpc =>
    refine h.place (fun _ => rfl) rfl rfl rfl (fun l hl => ?_) (afterSignal_owns c b)
    rw [afterSignal_holds] at hl
    cases hl
  | again c hpc hc => exact h.place (fun _ => rfl) rfl rfl rfl (fun l hl => by cases hl) rfl
  | callSignal c hpc => exact h.place (fun _ => rfl) rfl rfl rfl (fun l hl => by cases hl) rfl
  | callBroadcast c hpc => exact h.place (fun _ => rfl) rfl rfl rfl (fun l hl => by cases hl) rfl

end Synch
end Asg1
