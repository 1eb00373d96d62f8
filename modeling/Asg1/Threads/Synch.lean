import Asg1.Threads.Effects

/-!
# `Threads.Synch` — locks and condition variables

The locks and condition variables of `threads/synch.c`. A thread that calls one of their functions goes through it step by
step, and each step makes one access to what threads share: a test of a holder, an operation on a semaphore, an operation on
a list of waiters. Between any two steps a timer interrupt may take the processor away.

The model has two levels with the same steps. In `State` a semaphore is its value and any thread may take the next step,
except that `sema_down` needs a unit. In `Sys` the semaphores are those of the kernel of `Threads.Sched`, and it is the
running thread that takes a step; in `sema_down` it may sleep.

The calls for a condition variable name a lock. That it is always the same one, as the comment on `cond_wait` demands, is a
condition on runs (`Call.Paired`). The `struct semaphore_elem` of `cond_wait` is on the stack of the thread that waits, so it
is named by that thread.
-/

namespace Asg1
namespace Synch

open Threads

/-- The semaphore in a lock, and the one on the stack of a thread inside `cond_wait`. -/
inductive Sem (L : Type)
  | lock (l : L)
  | waiter (t : Page)
  deriving DecidableEq

/-- A condition variable, and the lock that a call names with it. -/
structure Use (L C : Type) where
  cond : C
  lock : L
  deriving DecidableEq

/-- What a lock is acquired or released for: for the caller, or for `cond_wait`. -/
inductive For (L C : Type)
  | lock (l : L)
  | wait (c : Use L C)
  deriving DecidableEq

/-- Where a thread is: before the step that the name says. In `cond_signal`, `b` tells whether `cond_broadcast` called. -/
inductive Pc (L C : Type)
  /-- In code of its own. -/
  | user
  /-- `ASSERT (!lock_held_by_current_thread (lock))` in `lock_acquire` -/
  | acquire (w : For L C)
  /-- `sema_down (&lock->semaphore)` -/
  | acquireDown (w : For L C)
  /-- `lock->holder = thread_current ()` -/
  | acquireHolder (w : For L C)
  /-- `ASSERT (!lock_held_by_current_thread (lock))` in `lock_try_acquire` -/
  | tryAcquire (l : L)
  /-- `sema_try_down (&lock->semaphore)` -/
  | tryDown (l : L)
  /-- `ASSERT (lock_held_by_current_thread (lock))` in `lock_release` -/
  | release (w : For L C)
  /-- `lock->holder = NULL` -/
  | releaseHolder (w : For L C)
  /-- `sema_up (&lock->semaphore)` -/
  | releaseUp (w : For L C)
  /-- `ASSERT (lock_held_by_current_thread (lock))` in `cond_wait` -/
  | wait (c : Use L C)
  /-- `sema_init (&waiter.semaphore, 0)` -/
  | waitInit (c : Use L C)
  /-- `list_push_back (&cond->waiters, &waiter.elem)` -/
  | waitPush (c : Use L C)
  /-- `sema_down (&waiter.semaphore)` -/
  | waitDown (c : Use L C)
  /-- `ASSERT (lock_held_by_current_thread (lock))` in `cond_signal` -/
  | signal (c : Use L C) (b : Bool)
  /-- `!list_empty (&cond->waiters)` in `cond_signal` -/
  | signalTest (c : Use L C) (b : Bool)
  /-- `list_pop_front (&cond->waiters)` -/
  | signalPop (c : Use L C) (b : Bool)
  /-- `sema_up` for the waiter `t` -/
  | signalUp (c : Use L C) (b : Bool) (t : Page)
  /-- `!list_empty (&cond->waiters)` in `cond_broadcast` -/
  | broadcast (c : Use L C)
  deriving DecidableEq

/-- The functions that a thread may call. -/
inductive Call (L C : Type)
  | acquire (l : L)
  | tryAcquire (l : L)
  | release (l : L)
  | wait (c : Use L C)
  | signal (c : Use L C)
  | broadcast (c : Use L C)
  deriving DecidableEq

/-- A call for a condition names the lock that belongs to it. -/
def Call.Paired {L C : Type} (lockOf : C → L) : Call L C → Prop
  | wait c | signal c | broadcast c => c.lock = lockOf c.cond
  | _ => True

/-- What a step does to semaphores. -/
inductive Op (L : Type)
  | none
  | down (q : Sem L)
  | tryDown (q : Sem L)
  | up (q : Sem L)
  | init (q : Sem L)
  deriving DecidableEq

/-- The locks and conditions, apart from the semaphores, and where the threads are. From `inside` on the fields are no
    variables of the code. -/
structure Mon (L C : Type) where
  holder : L → Option Page
  waiters : C → List Page
  pc : Page → Pc L C
  /-- The threads that have taken the lock's semaphore in an acquire and have not given it back in a release. -/
  inside : L → List Page
  /-- The number of steps taken. -/
  now : Nat
  /-- When the thread has last joined a list of waiters. -/
  beganAt : Page → Nat
  /-- When the thread has last called `cond_signal` or `cond_broadcast`. -/
  issuedAt : Page → Nat
  /-- When the call was issued that has taken the thread off the list it joined last. -/
  wakeup : Page → Option Nat
  /-- The list of waiters as the thread has found it when it last entered `cond_signal`. -/
  found : Page → List Page

section
variable {L C : Type}

namespace For

def theLock : For L C → L
  | lock l => l
  | wait c => c.lock

/-- Where `lock_release` returns to. -/
def afterRelease : For L C → Pc L C
  | lock _ => .user
  | wait c => .waitDown c

end For

namespace Pc

/-- Where `cond_signal` returns to. -/
def afterSignal (c : Use L C) (b : Bool) : Pc L C := if b then .broadcast c else .user

/-- The operation on a semaphore in the next step of thread `t`. -/
def op (t : Page) : Pc L C → Op L
  | acquireDown w => .down (.lock (w.theLock))
  | tryDown l => .tryDown (.lock l)
  | releaseUp w => .up (.lock (w.theLock))
  | waitInit _ => .init (.waiter t)
  | waitDown _ => .down (.waiter t)
  | signalUp _ _ u => .up (.waiter u)
  | _ => .none

end Pc

namespace Mon

variable [DecidableEq L] [DecidableEq C]

def goto (m : Mon L C) (t : Page) (pc : Pc L C) : Mon L C := { m with pc := Function.update m.pc t pc }

def setHolder (m : Mon L C) (l : L) (t : Option Page) : Mon L C := { m with holder := Function.update m.holder l t }

/-- The thread has taken the lock's semaphore. -/
def enter (m : Mon L C) (l : L) (t : Page) : Mon L C := { m with inside := Function.update m.inside l (t :: m.inside l) }

/-- The thread has given it back. -/
def leave (m : Mon L C) (l : L) (t : Page) : Mon L C :=
  { m with inside := Function.update m.inside l ((m.inside l).erase t) }

def push (m : Mon L C) (c : C) (t : Page) : Mon L C :=
  { m with
    waiters := Function.update m.waiters c (m.waiters c ++ [t])
    beganAt := Function.update m.beganAt t m.now
    wakeup := Function.update m.wakeup t none }

/-- Thread `t` takes the first waiter `u` off the list. -/
def pop (m : Mon L C) (c : C) (t u : Page) (us : List Page) : Mon L C :=
  { m with
    waiters := Function.update m.waiters c us
    wakeup := Function.update m.wakeup u (some (m.issuedAt t)) }

/-- Thread `t` enters `cond_signal`. -/
def look (m : Mon L C) (c : C) (t : Page) : Mon L C := { m with found := Function.update m.found t (m.waiters c) }

/-- Thread `t` calls `cond_signal` or `cond_broadcast`. -/
def issue (m : Mon L C) (t : Page) : Mon L C := { m with issuedAt := Function.update m.issuedAt t m.now }

/-- The rest of the step of thread `t`, after the operation on semaphores; `ok` is the result of `sema_try_down`. A failed
    assertion, and `list_pop_front` for an empty list, is `none`. -/
def next (m : Mon L C) (t : Page) (ok : Bool) : Option (Mon L C) :=
  match m.pc t with
  | .user => none
  | .acquire w => if m.holder (w.theLock) = some t then none else some (m.goto t (.acquireDown w))
  | .acquireDown w => some ((m.enter (w.theLock) t).goto t (.acquireHolder w))
  | .acquireHolder w => some ((m.setHolder (w.theLock) (some t)).goto t .user)
  | .tryAcquire l => if m.holder l = some t then none else some (m.goto t (.tryDown l))
  | .tryDown l => some (if ok then (m.enter l t).goto t (.acquireHolder (.lock l)) else m.goto t .user)
  | .release w => if m.holder (w.theLock) = some t then some (m.goto t (.releaseHolder w)) else none
  | .releaseHolder w => some ((m.setHolder (w.theLock) none).goto t (.releaseUp w))
  | .releaseUp w => some ((m.leave (w.theLock) t).goto t w.afterRelease)
  | .wait c => if m.holder c.lock = some t then some (m.goto t (.waitInit c)) else none
  | .waitInit c => some (m.goto t (.waitPush c))
  | .waitPush c => some ((m.push c.cond t).goto t (.release (.wait c)))
  | .waitDown c => some (m.goto t (.acquire (.wait c)))
  | .signal c b => if m.holder c.lock = some t then some (m.goto t (.signalTest c b)) else none
  | .signalTest c b => some (m.goto t (if m.waiters c.cond = [] then Pc.afterSignal c b else .signalPop c b))
  | .signalPop c b =>
    match m.waiters c.cond with
    | [] => none
    | u :: us => some ((m.pop c.cond t u us).goto t (.signalUp c b u))
  | .signalUp c b _ => some (m.goto t (Pc.afterSignal c b))
  | .broadcast c => some (if m.waiters c.cond = [] then m.goto t .user else (m.look c.cond t).goto t (.signal c true))

/-- Thread `t` calls a function. -/
def call (m : Mon L C) (t : Page) : Call L C → Mon L C
  | .acquire l => m.goto t (.acquire (.lock l))
  | .tryAcquire l => m.goto t (.tryAcquire l)
  | .release l => m.goto t (.release (.lock l))
  | .wait c => m.goto t (.wait c)
  | .signal c => ((m.issue t).look c.cond t).goto t (.signal c false)
  | .broadcast c => (m.issue t).goto t (.broadcast c)

def tick (m : Mon L C) : Mon L C := { m with now := m.now + 1 }

/-- After `lock_init` and `cond_init`. -/
def init : Mon L C where
  holder := fun _ => none
  waiters := fun _ => []
  pc := fun _ => .user
  inside := fun _ => []
  now := 0
  beganAt := fun _ => 0
  issuedAt := fun _ => 0
  wakeup := fun _ => none
  found := fun _ => []

end Mon

/-! ## Semaphores as values -/

/-- The values of the semaphores, and the rest. -/
structure State (L C : Type) where
  val : Sem L → Nat
  m : Mon L C

/-- What can happen: a thread takes its next step, it calls a function, or something else happens. -/
inductive Event (L C : Type)
  | next (t : Page)
  | call (t : Page) (f : Call L C)
  | pass

namespace State

variable [DecidableEq L] [DecidableEq C]

/-- The values after an operation, and its result. `sema_down` does not end without a unit. -/
def operate (v : Sem L → Nat) : Op L → Option ((Sem L → Nat) × Bool)
  | .none => some (v, true)
  | .down q => if v q = 0 then none else some (Function.update v q (v q - 1), true)
  | .tryDown q => if v q = 0 then some (v, false) else some (Function.update v q (v q - 1), true)
  | .up q => some (Function.update v q (v q + 1), true)
  | .init q => some (Function.update v q 0, true)

def move (s : State L C) (t : Page) : Option (State L C) := do
  let (v, ok) ← operate s.val ((s.m.pc t).op t)
  let m ← s.m.next t ok
  return ⟨v, m⟩

def exec (s : State L C) : Event L C → Option (State L C)
  | .next t => s.move t
  | .call t f => if s.m.pc t = .user then some ⟨s.val, s.m.call t f⟩ else none
  | .pass => some s

def step (s : State L C) (e : Event L C) : Option (State L C) := exec ⟨s.val, s.m.tick⟩ e

end State

/-! ## The semaphores of the kernel -/

/-- The kernel, whose other semaphores are `S`, and the rest. -/
structure Sys (L C S : Type) where
  k : Kernel (Sem L ⊕ S)
  m : Mon L C

/-- What can happen: the running thread calls a function, or takes its next step inside it, or other code runs. -/
inductive Act (L C S : Type)
  | call (f : Call L C)
  | next
  | other (a : Action (Sem L ⊕ S))

def Act.Paired {S : Type} (lockOf : C → L) : Act L C S → Prop
  | call f => f.Paired lockOf
  | _ => True

namespace Sys

variable {S : Type} [DecidableEq L] [DecidableEq C] [DecidableEq S]

/-- The kernel after an operation, and its result. -/
def operate (k : Kernel (Sem L ⊕ S)) : Op L → Except Assertion (Kernel (Sem L ⊕ S) × Bool)
  | .none => .ok (k, true)
  | .down q => do
      let k' ← k.semaDown (.inl q)
      .ok (k', decide ((k.sema (.inl q)).value ≠ 0))
  | .tryDown q => .ok ((k.semaTryDown (.inl q)).2, (k.semaTryDown (.inl q)).1)
  | .up q => do
      let k' ← k.semaUp (.inl q)
      .ok (k', true)
  | .init q => .ok (k.semaInit (.inl q) 0, true)

/-- The thread has gone to sleep in `sema_down`. -/
def sleeps (o : Op L) (ok : Bool) : Bool :=
  match o with
  | .down _ => !ok
  | _ => false

/-- The next step of the running thread. -/
def next (s : Sys L C S) : Option (Sys L C S) := do
  let o := (s.m.pc s.k.running).op s.k.running
  let (k, ok) ← (operate s.k o).toOption
  if sleeps o ok then return ⟨k, s.m⟩
  else
    let m ← s.m.next s.k.running ok
    return ⟨k, m⟩

/-- The running thread is at a point where this can come next. Inside the functions here it can only be interrupted. -/
def enabled (s : Sys L C S) : Act L C S → Bool
  | .call _ => s.m.pc s.k.running = .user ∧ s.k.stage s.k.running = some .any
  | .next => s.m.pc s.k.running ≠ .user
  | .other a => s.k.enabled a ∧ (s.m.pc s.k.running = .user ∨ a.inHandler = true)

def exec (s : Sys L C S) : Act L C S → Option (Sys L C S)
  | .call f => some ⟨s.k, s.m.call s.k.running f⟩
  | .next => s.next
  | .other a => (s.k.exec a).toOption.map fun k => ⟨k, s.m⟩

def step (s : Sys L C S) (a : Act L C S) : Option (Sys L C S) :=
  if s.enabled a then exec ⟨s.k, s.m.tick⟩ a else none

/-- What callers must see to: other code does not use the semaphores of locks and waiters. -/
def Proper (s : Sys L C S) : Act L C S → Prop
  | .other a => s.k.Proper a ∧ ∀ q : Sem L, s.k.foreign (.inl q) a = true
  | _ => True

/-- Each condition moreover is used with one lock, as the comment on `cond_wait` demands. -/
def ProperPaired (lockOf : C → L) (s : Sys L C S) (a : Act L C S) : Prop := s.Proper a ∧ a.Paired lockOf

/-- Locks and conditions that have been initialised in a kernel. -/
def init (k : Kernel (Sem L ⊕ S)) : Sys L C S := ⟨k, Mon.init⟩

/-- `lock_init` has been called for all locks, and nobody has used them yet. -/
structure Fresh (k : Kernel (Sem L ⊕ S)) : Prop where
  value : ∀ l, (k.sema (.inl (.lock l))).value = 1
  unused : ∀ t q, k.stage t ≠ some (.down (.inl q))

end Sys
end

end Synch
end Asg1
