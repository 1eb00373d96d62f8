import Asg1.Threads.Effects

/-!
# `Devices.Intq` — interrupt queues

The queues of `devices/intq.c` between threads and interrupt handlers, over the kernel of `Threads.Sched`. All of
`intq_getc` and `intq_putc` runs with interrupts off, so a thread goes from one point where it sleeps to the next in one
step: from the call, from the sleep in `lock_acquire`, or from the sleep in `wait`. Between steps, interrupt handlers
may use the queue, and threads do other things.

The queue's lock keeps a second thread from waiting, but the test that made the thread wait comes before it. A thread that
slept for the lock may find the condition changed when it gets it, and then `wait` fails its assertion. `late` says when.
-/

namespace Asg1
namespace Intq

open Threads

def INTQ_BUFSIZE : Nat := 64

/-- `next` -/
def next (pos : Nat) : Nat := (pos + 1) % INTQ_BUFSIZE

/-- The buffer of `struct intq`. -/
structure Ring where
  buf : Nat → UInt8
  head : Nat
  tail : Nat

/-- `&q->not_full` and `&q->not_empty` -/
inductive Waiter
  | notFull
  | notEmpty
  deriving DecidableEq

namespace Ring

/-- `intq_empty` -/
def empty (r : Ring) : Bool := r.head == r.tail

/-- `intq_full` -/
def full (r : Ring) : Bool := next r.head == r.tail

/-- The condition that a waiter waits for has not come. -/
def lacks (r : Ring) : Waiter → Bool
  | .notFull => r.full
  | .notEmpty => r.empty

/-- `byte = q->buf[q->tail]; q->tail = next (q->tail)` -/
def take (r : Ring) : UInt8 × Ring := (r.buf r.tail, { r with tail := next r.tail })

/-- `q->buf[q->head] = byte; q->head = next (q->head)` -/
def add (r : Ring) (byte : UInt8) : Ring := { r with buf := Function.update r.buf r.head byte, head := next r.head }

end Ring

/-- `intq_getc` and `intq_putc` -/
inductive Job
  | getc
  | putc (byte : UInt8)
  deriving DecidableEq

namespace Job

/-- What the call may have to wait for. -/
def waiter : Job → Waiter
  | getc => .notEmpty
  | putc _ => .notFull

/-- What comes about through the call. -/
def wakes : Job → Waiter
  | getc => .notFull
  | putc _ => .notEmpty

end Job

/-- Where a thread is. -/
inductive Pc
  /-- In code of its own. -/
  | user
  /-- In `lock_acquire`, asleep or woken. -/
  | locking (job : Job)
  /-- In `wait`, asleep or woken. -/
  | waiting (job : Job)
  deriving DecidableEq

/-- The kernel, one `struct intq`, and where the threads are. The semaphore of the queue's lock is one of the kernel's.
    `result` is what `intq_getc` last returned to a thread. -/
structure Sys (S : Type) where
  k : Kernel S
  ring : Ring
  holder : Option Page
  notFull : Option Page
  notEmpty : Option Page
  pc : Page → Pc
  result : Page → Option UInt8

/-- The assertions. -/
inductive Failure
  /-- The condition in `wait` -/
  | wait
  /-- The condition in `signal` -/
  | signal
  /-- In `thread_unblock` -/
  | unblock (a : Assertion)
  /-- `ASSERT (!lock_held_by_current_thread (lock))` in `lock_acquire` -/
  | acquire
  /-- `ASSERT (lock_held_by_current_thread (lock))` in `lock_release` -/
  | release
  /-- In `thread_current`, `thread_block` and `schedule`, for a thread that goes to sleep -/
  | block (a : Assertion)
  /-- In other code -/
  | other (a : Assertion)
  deriving DecidableEq

namespace Sys

variable {S : Type}

def waiter (s : Sys S) : Waiter → Option Page
  | .notFull => s.notFull
  | .notEmpty => s.notEmpty

def setWaiter (s : Sys S) (w : Waiter) (t : Option Page) : Sys S :=
  match w with
  | .notFull => { s with notFull := t }
  | .notEmpty => { s with notEmpty := t }

/-- The running thread comes to another place. -/
def goto (s : Sys S) (pc : Pc) : Sys S := { s with pc := Function.update s.pc s.k.running pc }

section Fields

variable (s : Sys S) (w : Waiter) (t : Option Page) (pc : Pc) (k : Kernel S)

@[simp] theorem setWaiter_k : (s.setWaiter w t).k = s.k := by cases w <;> rfl

@[simp] theorem setWaiter_ring : (s.setWaiter w t).ring = s.ring := by cases w <;> rfl

@[simp] theorem setWaiter_holder : (s.setWaiter w t).holder = s.holder := by cases w <;> rfl

@[simp] theorem setWaiter_pc : (s.setWaiter w t).pc = s.pc := by cases w <;> rfl

theorem waiter_setWaiter (w' : Waiter) : (s.setWaiter w t).waiter w' = if w' = w then t else s.waiter w' := by
  cases w <;> cases w' <;> rfl

@[simp] theorem waiter_goto (w : Waiter) : (s.goto pc).waiter w = s.waiter w := by cases w <;> rfl

@[simp] theorem waiter_kernel (w : Waiter) : { s with k := k }.waiter w = s.waiter w := by cases w <;> rfl

end Fields

/-- `signal` -/
def signal (s : Sys S) (w : Waiter) : Except Failure (Sys S) :=
  if s.ring.lacks w then .error .signal
  else
    match s.waiter w with
    | none => .ok s
    | some t => do
        let k ← (s.k.threadUnblock t).mapError .unblock
        .ok ({ s with k := k }.setWaiter w none)

/-- The end of `intq_getc` and `intq_putc`. -/
def finish (s : Sys S) : Job → Except Failure (Option UInt8 × Sys S)
  | .getc => do
      let s' ← { s with ring := s.ring.take.2 }.signal .notFull
      .ok (some s.ring.take.1, s')
  | .putc byte => do
      let s' ← { s with ring := s.ring.add byte }.signal .notEmpty
      .ok (none, s')

/-- `wait`, for a thread with this call -/
def wait (s : Sys S) (job : Job) : Except Failure (Sys S) :=
  if s.ring.lacks job.waiter then do
    let s := (s.setWaiter job.waiter (some s.k.running)).goto (.waiting job)
    let k ← s.k.threadBlock.mapError .block
    .ok { s with k := k }
  else .error .wait

variable [DecidableEq S] (lock : S)

/-- `sema_down` in `lock_acquire`: the thread sleeps, or it takes the lock and goes on to `wait`. -/
def lockDown (s : Sys S) (job : Job) : Except Failure (Sys S) := do
  let k ← (s.k.semaDown lock).mapError .block
  if (s.k.sema lock).value = 0 then .ok { (s.goto (.locking job)) with k := k }
  else Sys.wait { s with k := k, holder := some k.running } job

/-- `lock_acquire`, and then `wait` -/
def lockAcquire (s : Sys S) (job : Job) : Except Failure (Sys S) :=
  if s.holder = some s.k.running then .error .acquire else s.lockDown lock job

/-- `lock_release` -/
def lockRelease (s : Sys S) : Except Failure (Sys S) :=
  if s.holder ≠ some s.k.running then .error .release
  else do
    let k ← (s.k.semaUp lock).mapError .unblock
    .ok { s with k := k, holder := none }

/-- The loop of `intq_getc` and `intq_putc`, from its test on. -/
def loop (s : Sys S) (job : Job) : Except Failure (Sys S) :=
  if s.ring.lacks job.waiter then s.lockAcquire lock job
  else do
    let (byte, s') ← s.finish job
    .ok { s' with result := Function.update s'.result s.k.running byte }

/-- The thread goes on after `wait`. -/
def afterWait (s : Sys S) (job : Job) : Except Failure (Sys S) := do
  let s ← s.lockRelease lock
  (s.goto .user).loop lock job

end Sys

/-! ## Steps -/

/-- What can happen: the running thread calls one of the functions, or goes on inside it, an interrupt handler calls one on
    top of the running thread, or other code of the kernel runs. -/
inductive Act (S : Type)
  | call (job : Job)
  | resume
  | handler (job : Job)
  | other (a : Action S)
  deriving DecidableEq

namespace Sys

variable {S : Type} [DecidableEq S] (lock : S)

/-- The running thread may have interrupts on: it is in code of its own, and has not just come back to `sema_down`. -/
def interruptible (s : Sys S) : Bool :=
  s.pc s.k.running = .user &&
  match s.k.stage s.k.running with
  | some (.down _) => false
  | _ => true

/-- The running thread is at a point where this can come next. Handlers do not call the functions when they would sleep. -/
def enabled (s : Sys S) : Act S → Bool
  | .call _ => s.pc s.k.running = .user ∧ s.k.stage s.k.running = some .any
  | .resume => s.pc s.k.running ≠ .user
  | .handler job => s.interruptible ∧ s.ring.lacks job.waiter = false
  | .other a => s.pc s.k.running = .user ∧ s.k.enabled a

def exec (s : Sys S) : Act S → Except Failure (Sys S)
  | .call job => s.loop lock job
  | .resume =>
    match s.pc s.k.running with
    | .user => .ok s
    | .locking job => s.lockDown lock job
    | .waiting job => s.afterWait lock job
  | .handler job => do
      let (_, s') ← s.finish job
      .ok s'
  | .other a => do
      let k ← (s.k.exec a).mapError .other
      .ok { s with k := k }

def step (s : Sys S) (a : Act S) : Option (Sys S) := if s.enabled a then (s.exec lock a).toOption else none

/-- What other code must see to: it does not use the queue's lock, and wakes no thread that is in the queue's code. -/
def Proper (s : Sys S) : Act S → Prop
  | .other a => s.k.Proper a ∧ s.k.foreign lock a = true ∧ ∀ t, Kernel.wakes a = some t → s.pc t = .user
  | _ => True

/-- The running thread slept for the lock, can take it, and does not have to wait any more. -/
def late (s : Sys S) : Bool :=
  match s.pc s.k.running with
  | .locking job => (s.k.sema lock).value ≠ 0 ∧ s.ring.lacks job.waiter = false
  | _ => false

omit [DecidableEq S] in
theorem late_iff (s : Sys S) : s.late lock = true ↔
    ∃ job, s.pc s.k.running = .locking job ∧ (s.k.sema lock).value ≠ 0 ∧ s.ring.lacks job.waiter = false := by
  unfold late
  split
  · rename_i job hpc
    rw [decide_eq_true_iff]
    constructor
    · exact fun h => ⟨job, hpc, h⟩
    · rintro ⟨job', hpc', h⟩
      rw [hpc] at hpc'
      cases hpc'
      exact h
  · rename_i hpc
    refine iff_of_false nofun ?_
    rintro ⟨job, hjob, -⟩
    exact hpc job hjob

/-- `intq_init` -/
def init (k : Kernel S) (buf : Nat → UInt8) (result : Page → Option UInt8) : Sys S where
  k := k.semaInit lock 1
  ring := ⟨buf, 0, 0⟩
  holder := none
  notFull := none
  notEmpty := none
  pc := fun _ => .user
  result := result

end Sys
end Intq
end Asg1
