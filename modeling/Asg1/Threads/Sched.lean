import Mathlib.Algebra.Order.Ring.Int
import Mathlib.Logic.Function.Basic
import Asg1.Lib.Lts

/-!
# `Threads.Sched` — threads, the run queue and semaphores

The model of `threads/thread.c` and of the semaphores of `threads/synch.c`. A thread is the page that its `struct thread`
is in. The kernel runs one thread at a time; a stretch of code with interrupts off is one function on the state here, from
`intr_disable` on, through the switch to another thread if there is one, up to the end of `thread_schedule_tail`. What the
thread that was switched to does next is a step of its own: a thread that was woken inside `sema_down` tests the value
again, all others go on in their own code.

Between two such stretches a thread may call what it likes, and a timer interrupt may make it yield. Only `idle` is a
program of its own. The lists are sequences of threads; that the links in the threads represent them is a matter of who is
in which list, which is what is proved about them.
-/

namespace Asg1
namespace Threads

/-- A page of memory, and the thread whose `struct thread` is at its start. -/
abbrev Page := Nat

/-- `enum thread_status` -/
inductive ThreadStatus
  | running
  | ready
  | blocked
  | dying
  deriving DecidableEq

/-- Where a thread is when it goes on. -/
inductive Stage (S : Type)
  /-- In code of its own. -/
  | any
  /-- In the loop of `sema_down`, before the test. -/
  | down (sema : S)
  /-- At the start of `idle`. -/
  | idleEntry (idleStarted : S)
  /-- In `idle`, before `sema_up`. -/
  | idleUp (idleStarted : S)
  /-- In the loop of `idle`. -/
  | idleLoop
  deriving DecidableEq

/-- `struct thread` -/
structure Thread (S : Type) where
  status : ThreadStatus
  stage : Stage S

/-- `struct semaphore` -/
structure Semaphore where
  value : Nat
  waiters : List Page

/-- The state of `thread.c` and of all semaphores `S`. The last two fields are no variables of the code: they list the
    threads that have exited, and the calls of `palloc_free_page` for their pages with the thread that made each. -/
structure Kernel (S : Type) where
  thread : Page → Option (Thread S)
  running : Page
  readyList : List Page
  sema : S → Semaphore
  idleThread : Option Page
  initialThread : Page
  exits : List Page
  frees : List (Page × Page)

/-- The assertions of `thread.c`. -/
inductive Assertion
  /-- `ASSERT (is_thread (t))` -/
  | isThread
  /-- `ASSERT (t->status == THREAD_RUNNING)` in `thread_current` -/
  | currentRunning
  /-- `ASSERT (t->status == THREAD_BLOCKED)` in `thread_unblock` -/
  | unblockBlocked
  /-- `ASSERT (cur->status != THREAD_RUNNING)` in `schedule` -/
  | scheduleStopped
  /-- `ASSERT (prev != cur)` in `thread_schedule_tail` -/
  | tailOther
  deriving DecidableEq

namespace Kernel

variable {S : Type}

def status (k : Kernel S) (t : Page) : Option ThreadStatus := (k.thread t).map Thread.status

def stage (k : Kernel S) (t : Page) : Option (Stage S) := (k.thread t).map Thread.stage

def setThread (k : Kernel S) (t : Page) (th : Option (Thread S)) : Kernel S :=
  { k with thread := Function.update k.thread t th }

def setStatus (k : Kernel S) (t : Page) (status : ThreadStatus) : Kernel S :=
  k.setThread t ((k.thread t).map fun th => { th with status := status })

def setStage (k : Kernel S) (t : Page) (stage : Stage S) : Kernel S :=
  k.setThread t ((k.thread t).map fun th => { th with stage := stage })

def setSema [DecidableEq S] (k : Kernel S) (s : S) (sema : Semaphore) : Kernel S :=
  { k with sema := Function.update k.sema s sema }

/-- `list_push_back (&ready_list, &t->elem)` -/
def pushReady (k : Kernel S) (t : Page) : Kernel S := { k with readyList := k.readyList ++ [t] }

/-! ## `thread.c` -/

/-- `thread_current` -/
def threadCurrent (k : Kernel S) : Except Assertion Page :=
  match k.status k.running with
  | none => .error .isThread
  | some status => if status = .running then .ok k.running else .error .currentRunning

/-- `init_thread` for a new page, and the frames that `thread_create` lays on the new stack: the thread is at the start of
    its function. -/
def initThread (k : Kernel S) (t : Page) (entry : Stage S) : Kernel S := k.setThread t (some ⟨.blocked, entry⟩)

/-- `palloc_free_page` for the page of a thread. -/
def freePage (k : Kernel S) (t : Page) : Kernel S :=
  { k.setThread t none with frees := k.frees ++ [(t, k.running)] }

/-- `next_thread_to_run` -/
def nextThreadToRun (k : Kernel S) : Option Page × Kernel S :=
  match k.readyList with
  | [] => (k.idleThread, k)
  | t :: ts => (some t, { k with readyList := ts })

/-- `thread_schedule_tail` -/
def threadScheduleTail (k : Kernel S) (prev : Option Page) : Except Assertion (Kernel S) :=
  let k := k.setStatus k.running .running
  match prev with
  | none => .ok k
  | some prev =>
    if k.status prev = some .dying ∧ prev ≠ k.initialThread then
      if prev = k.running then .error .tailOther else .ok (k.freePage prev)
    else .ok k

/-- `schedule` -/
def schedule (k : Kernel S) : Except Assertion (Kernel S) :=
  if k.status k.running = some .running then .error .scheduleStopped
  else
    match k.nextThreadToRun with
    | (none, _) => .error .isThread
    | (some next, k') =>
      if k'.thread next = none then .error .isThread
      else if k.running ≠ next then { k' with running := next }.threadScheduleTail (some k.running)
      else k'.threadScheduleTail none

/-- `thread_block` -/
def threadBlock (k : Kernel S) : Except Assertion (Kernel S) := do
  let cur ← k.threadCurrent
  (k.setStatus cur .blocked).schedule

/-- `thread_unblock` -/
def threadUnblock (k : Kernel S) (t : Page) : Except Assertion (Kernel S) :=
  match k.status t with
  | none => .error .isThread
  | some status =>
    if status = .blocked then .ok ((k.pushReady t).setStatus t .ready) else .error .unblockBlocked

/-- `thread_exit`, after `process_exit` -/
def threadExit (k : Kernel S) : Except Assertion (Kernel S) := do
  let cur ← k.threadCurrent
  { k.setStatus cur .dying with exits := k.exits ++ [cur] }.schedule

/-- `thread_yield` -/
def threadYield (k : Kernel S) : Except Assertion (Kernel S) := do
  let cur ← k.threadCurrent
  let k' := if some cur ≠ k.idleThread then k.pushReady cur else k
  (k'.setStatus cur .ready).schedule

/-! ## `synch.c` -/

variable [DecidableEq S]

/-- `sema_init` -/
def semaInit (k : Kernel S) (s : S) (value : Nat) : Kernel S := k.setSema s ⟨value % 2 ^ 32, []⟩

/-- One turn of `sema_down`: it sleeps, and will test the value again when it goes on, or takes its unit. -/
def semaDown (k : Kernel S) (s : S) : Except Assertion (Kernel S) :=
  if (k.sema s).value = 0 then do
    let cur ← k.threadCurrent
    ((k.setSema s { k.sema s with waiters := (k.sema s).waiters ++ [cur] }).setStage cur (.down s)).threadBlock
  else .ok ((k.setSema s { k.sema s with value := (k.sema s).value - 1 }).setStage k.running .any)

/-- `sema_try_down` -/
def semaTryDown (k : Kernel S) (s : S) : Bool × Kernel S :=
  if 0 < (k.sema s).value then (true, k.setSema s { k.sema s with value := (k.sema s).value - 1 }) else (false, k)

/-- The first half of `sema_up`: the thread that waits longest is woken, if any waits. -/
def semaWake (k : Kernel S) (s : S) : Except Assertion (Kernel S) :=
  match (k.sema s).waiters with
  | [] => .ok k
  | t :: ts => (k.setSema s { k.sema s with waiters := ts }).threadUnblock t

/-- `sema_up` -/
def semaUp (k : Kernel S) (s : S) : Except Assertion (Kernel S) := do
  let k ← k.semaWake s
  .ok (k.setSema s { k.sema s with value := ((k.sema s).value + 1) % 2 ^ 32 })

/-- What `idle` does up to where it may be interrupted next. -/
def idle (k : Kernel S) : Except Assertion (Kernel S) :=
  match k.stage k.running with
  | some (.idleEntry idleStarted) => do
      let cur ← k.threadCurrent
      .ok ({ k with idleThread := some cur }.setStage cur (.idleUp idleStarted))
  | some (.idleUp idleStarted) => do
      let k ← k.semaUp idleStarted
      .ok (k.setStage k.running .idleLoop)
  | _ => k.threadBlock

/-! ## Steps -/

end Kernel

/-- What the running thread can do, or an interrupt handler on top of it. `yield` is `thread_yield`, called by the thread or
    at the end of a timer interrupt. -/
inductive Action (S : Type)
  | initThread (t : Page)
  | block
  | unblock (t : Page)
  | yield
  | exit
  | semaInit (s : S) (value : Nat)
  | semaDown (s : S)
  | semaTryDown (s : S)
  | semaUp (s : S)
  | idle
  deriving DecidableEq

namespace Action

variable {S : Type}

/-- What may be called from an interrupt handler, or happens at its end. -/
def inHandler : Action S → Bool
  | unblock _ | yield | semaTryDown _ | semaUp _ => true
  | _ => false

end Action

namespace Kernel

variable {S : Type} [DecidableEq S]

/-- The running thread is at a point where this can come next. The page of a new thread comes from the page allocator,
    which does not give out a page in use. -/
def enabled (k : Kernel S) (a : Action S) : Bool :=
  (match k.stage k.running with
    | some .any => a ≠ .idle
    | some (.down s) => a = .semaDown s
    | some _ => a = .idle ∨ a.inHandler
    | none => false) &&
  match a with
  | .initThread t => (k.thread t).isNone
  | _ => true

def exec (k : Kernel S) : Action S → Except Assertion (Kernel S)
  | .initThread t => .ok (k.initThread t .any)
  | .block => k.threadBlock
  | .unblock t => k.threadUnblock t
  | .yield => k.threadYield
  | .exit => k.threadExit
  | .semaInit s value => .ok (k.semaInit s value)
  | .semaDown s => k.semaDown s
  | .semaTryDown s => .ok (k.semaTryDown s).2
  | .semaUp s => k.semaUp s
  | .idle => k.idle

/-- One step; a failed assertion stops the kernel. -/
def step (k : Kernel S) (a : Action S) : Option (Kernel S) := if k.enabled a then (k.exec a).toOption else none

/-- What the callers must see to: `thread_unblock` is called for threads that have put themselves to sleep with
    `thread_block` or are new, not for one that waits for a semaphore and not for the idle thread, and the memory of a
    semaphore is not reused while a thread is inside `sema_down` on it. -/
def Proper (k : Kernel S) : Action S → Prop
  | .unblock t => (∀ s, k.stage t ≠ some (.down s)) ∧ k.idleThread ≠ some t
  | .semaInit s _ => ∀ t, k.stage t ≠ some (.down s)
  | _ => True

/-- `thread_init`: the code that runs becomes the initial thread. -/
def threadInit (initial : Page) : Kernel S where
  thread := Function.update (fun _ => none) initial (some ⟨.running, .any⟩)
  running := initial
  readyList := []
  sema := fun _ => ⟨0, []⟩
  idleThread := none
  initialThread := initial
  exits := []
  frees := []

/-- `thread_start`, up to where it turns interrupts on. -/
def threadStart (initial idle : Page) (idleStarted : S) : Except Assertion (Kernel S) :=
  (((threadInit initial).semaInit idleStarted 0).initThread idle (.idleEntry idleStarted)).threadUnblock idle

end Kernel

end Threads
end Asg1
