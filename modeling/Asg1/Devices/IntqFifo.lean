import Asg1.Devices.Intq

/-!
# `Devices.IntqFifo` — an interrupt queue is a bounded queue of bytes

`Holds r held` says that the bytes `held` are in the buffer, in this order from the tail on. A call that completes adds a
byte behind them or takes the first; a call that sleeps, and all other code, leaves the buffer alone. So in any run of the
threads and the handlers, what has been put into the queue is what has been returned, and then what it holds.
-/

namespace Asg1
namespace Intq

open Threads

/-! ## The buffer -/

/-- The buffer holds these bytes. -/
structure Holds (r : Ring) (held : List UInt8) : Prop where
  tail_lt : r.tail < INTQ_BUFSIZE
  length_lt : held.length < INTQ_BUFSIZE
  head_eq : r.head = (r.tail + held.length) % INTQ_BUFSIZE
  bytes : ∀ i < held.length, r.buf ((r.tail + i) % INTQ_BUFSIZE) = held.getD i 0

variable {r : Ring} {held : List UInt8}

theorem Holds.head_lt (h : Holds r held) : r.head < INTQ_BUFSIZE := by
  rw [h.head_eq]
  exact Nat.mod_lt _ (by decide)

/-- **`intq_empty`** -/
theorem Holds.empty_iff (h : Holds r held) : r.empty = true ↔ held.length = 0 := by
  obtain ⟨htail, hlength, hhead, -⟩ := h
  simp only [Ring.empty, beq_iff_eq, hhead, INTQ_BUFSIZE] at *
  omega

/-- **`intq_full`** -/
theorem Holds.full_iff (h : Holds r held) : r.full = true ↔ held.length = INTQ_BUFSIZE - 1 := by
  obtain ⟨htail, hlength, hhead, -⟩ := h
  simp only [Ring.full, next, beq_iff_eq, hhead, INTQ_BUFSIZE] at *
  omega

/-- The first byte is taken. -/
theorem Holds.take {b : UInt8} (h : Holds r (b :: held)) : r.take.1 = b ∧ Holds r.take.2 held := by
  obtain ⟨htail, hlength, hhead, hbytes⟩ := h
  rw [List.length_cons] at hlength hhead hbytes
  refine ⟨?_, ?_, ?_, ?_, ?_⟩
  · have hfirst := hbytes 0 (Nat.succ_pos _)
    rwa [Nat.add_zero, Nat.mod_eq_of_lt htail] at hfirst
  · exact Nat.mod_lt _ (by decide)
  · exact Nat.lt_of_succ_lt hlength
  · simp only [Ring.take, next, INTQ_BUFSIZE, hhead]
    omega
  · intro i hi
    have hnext := hbytes (i + 1) (Nat.succ_lt_succ hi)
    have hpos : ((r.tail + 1) % INTQ_BUFSIZE + i) % INTQ_BUFSIZE = (r.tail + (i + 1)) % INTQ_BUFSIZE := by
      simp only [INTQ_BUFSIZE]
      omega
    rwa [← hpos] at hnext

/-- A byte is added, in a cell that holds none of the others. -/
theorem Holds.add (h : Holds r held) (hroom : r.full = false) (b : UInt8) : Holds (r.add b) (held ++ [b]) := by
  have hlt : held.length < INTQ_BUFSIZE - 1 := by
    have hne : held.length ≠ INTQ_BUFSIZE - 1 := fun heq => by simp [h.full_iff.mpr heq] at hroom
    have := h.length_lt
    omega
  obtain ⟨htail, hlength, hhead, hbytes⟩ := h
  have hlen : (held ++ [b]).length = held.length + 1 := List.length_append
  refine ⟨htail, by omega, ?_, ?_⟩
  · simp only [Ring.add, next, hlen, INTQ_BUFSIZE, hhead]
    omega
  · intro i hi
    show Function.update r.buf r.head b ((r.tail + i) % INTQ_BUFSIZE) = _
    by_cases hlast : i = held.length
    · rw [hlast, ← hhead, Function.update_self, List.getD_eq_getElem?_getD, List.getElem?_concat_length]
      rfl
    · have hbefore : i < held.length := by omega
      have hother : (r.tail + i) % INTQ_BUFSIZE ≠ r.head := by
        simp only [hhead, INTQ_BUFSIZE] at *
        omega
      rw [Function.update_of_ne hother, hbytes i hbefore, List.getD_eq_getElem?_getD,
        List.getD_eq_getElem?_getD, List.getElem?_append_left hbefore]

namespace Job

/-- What the call does to the buffer when it completes, -/
def effect (r : Ring) : Job → Ring
  | getc => r.take.2
  | putc byte => r.add byte

/-- the byte that it returns, -/
def byte (r : Ring) : Job → Option UInt8
  | getc => some r.take.1
  | putc _ => none

/-- and the byte that it puts into the queue. -/
def put : Job → List UInt8
  | getc => []
  | putc byte => [byte]

end Job

/-- A call that does not have to wait: what the queue held and was given is what was returned and what it holds. -/
theorem Holds.effect {job : Job} (h : Holds r held) (hready : r.lacks job.waiter = false) :
    ∃ held', Holds (job.effect r) held' ∧ held ++ job.put = (job.byte r).toList ++ held' := by
  cases job with
  | getc =>
    cases held with
    | nil => simp [Job.waiter, Ring.lacks, h.empty_iff.mpr rfl] at hready
    | cons b held =>
      obtain ⟨hbyte, hheld⟩ := h.take
      exact ⟨held, hheld, by simp [Job.put, Job.byte, hbyte]⟩
  | putc b => exact ⟨held ++ [b], h.add hready b, rfl⟩

/-! ## Steps -/

section
variable {S : Type} {s s' : Sys S}

theorem signal_ring {w : Waiter} (h : s.signal w = .ok s') : s'.ring = s.ring ∧ s'.result = s.result := by
  unfold Sys.signal at h
  split at h
  · cases h
  · split at h
    · cases h
      exact ⟨rfl, rfl⟩
    · obtain ⟨k, -, hk⟩ := Checked.bind_ok h
      cases hk
      cases w <;> exact ⟨rfl, rfl⟩

theorem finish_ring {job : Job} {b : Option UInt8} (h : s.finish job = .ok (b, s')) :
    s'.ring = job.effect s.ring ∧ b = job.byte s.ring := by
  cases job <;>
  · obtain ⟨t, ht, hb⟩ := Checked.bind_ok h
    cases hb
    exact ⟨(signal_ring ht).1, rfl⟩

theorem wait_ring {job : Job} (h : s.wait job = .ok s') : s'.ring = s.ring := by
  unfold Sys.wait at h
  split at h
  · obtain ⟨k, -, hk⟩ := Checked.bind_ok h
    cases hk
    exact Sys.setWaiter_ring s _ _
  · cases h

variable [DecidableEq S] {lock : S}

theorem lockDown_ring {job : Job} (h : s.lockDown lock job = .ok s') : s'.ring = s.ring := by
  obtain ⟨k, -, hk⟩ := Checked.bind_ok h
  split at hk
  · cases hk
    rfl
  · exact (wait_ring hk).trans rfl

/-- The loop goes to sleep and leaves the buffer alone, or completes. -/
theorem loop_ring {job : Job} (h : s.loop lock job = .ok s') :
    (s.ring.lacks job.waiter = true ∧ s'.ring = s.ring) ∨
    (s.ring.lacks job.waiter = false ∧ s'.ring = job.effect s.ring ∧ s'.result s.k.running = job.byte s.ring) := by
  unfold Sys.loop at h
  split at h
  · rename_i hlacks
    unfold Sys.lockAcquire at h
    split at h
    · cases h
    · exact .inl ⟨hlacks, lockDown_ring h⟩
  · rename_i hready
    obtain ⟨⟨b, t⟩, ht, hb⟩ := Checked.bind_ok h
    cases hb
    obtain ⟨hring, hbyte⟩ := finish_ring ht
    exact .inr ⟨by simpa using hready, hring, by rw [← hbyte]; exact Function.update_self _ _ _⟩

theorem lockRelease_ring (h : s.lockRelease lock = .ok s') : s'.ring = s.ring ∧ s'.k.running = s.k.running := by
  unfold Sys.lockRelease at h
  split at h
  · cases h
  · obtain ⟨k, hk, ht⟩ := Checked.bind_ok h
    cases ht
    refine ⟨rfl, ?_⟩
    cases hup : s.k.semaUp lock with
    | error e => simp [hup, Except.mapError] at hk
    | ok k' =>
      obtain rfl : k' = k := by simpa [hup, Except.mapError] using hk
      exact (Kernel.semaUp_running hup).1

namespace Sys

/-- The call that a step is in. -/
@[simp] def job (s : Sys S) : Act S → Option Job
  | .call job => some job
  | .handler job => some job
  | .resume =>
    match s.pc s.k.running with
    | .waiting job => some job
    | _ => none
  | .other _ => none

/-- The call that a step completes: it does not have to wait. -/
@[simp] def completed (s : Sys S) (a : Act S) : Option Job :=
  (s.job a).bind fun job => if s.ring.lacks job.waiter then none else some job

/-- The byte that a completed `intq_getc` returns in a step, to the handler or to the running thread. -/
@[simp] def returned (s s' : Sys S) : Act S → Option UInt8
  | .handler job => (s.finish job).toOption.bind Prod.fst
  | a => if (s.completed a).isSome then s'.result s.k.running else none

/-- The bytes that a step puts into the queue. -/
@[simp] def puts (s : Sys S) (a : Act S) : List UInt8 := ((s.completed a).map Job.put).getD []

/-- The run that takes the given steps: the bytes put and the bytes returned, each in order, and the last state. -/
def transcript (lock : S) : Sys S → List (Act S) → Option (List UInt8 × List UInt8 × Sys S)
  | s, [] => some ([], [], s)
  | s, a :: as => do
      let s' ← s.step lock a
      let (put, got, t) ← transcript lock s' as
      return (s.puts a ++ put, (s.returned s' a).toList ++ got, t)

end Sys

/-- A step completes one call or leaves the buffer alone. -/
theorem step_ring {a : Act S} (h : s.step lock a = some s') :
    (s'.ring = s.ring ∧ s.puts a = [] ∧ s.returned s' a = none) ∨
    ∃ job : Job, s.ring.lacks job.waiter = false ∧ s'.ring = job.effect s.ring ∧ s.puts a = job.put ∧
      s.returned s' a = job.byte s.ring := by
  unfold Sys.step at h
  split at h
  case isFalse => cases h
  rename_i henabled
  replace h := Checked.toOption_eq_some h
  cases a with
  | call job =>
    rcases loop_ring h with ⟨hlacks, hring⟩ | ⟨hready, hring, hbyte⟩
    · exact .inl ⟨hring, by simp [hlacks], by simp [hlacks]⟩
    · exact .inr ⟨job, hready, hring, by simp [hready],
        by simp [hready, hbyte]⟩
  | resume =>
    simp only [Sys.exec] at h
    split at h
    · rename_i hpc
      cases h
      exact .inl ⟨rfl, by simp [hpc],
        by simp [hpc]⟩
    · rename_i job hpc
      exact .inl ⟨lockDown_ring h, by simp [hpc],
        by simp [hpc]⟩
    · rename_i job hpc
      obtain ⟨t, ht, hloop⟩ := Checked.bind_ok h
      obtain ⟨hring', hrunning⟩ := lockRelease_ring ht
      have hcases := loop_ring hloop
      simp only [Sys.goto, hring', hrunning] at hcases
      rcases hcases with ⟨hlacks, hring⟩ | ⟨hready, hring, hbyte⟩
      · exact .inl ⟨hring, by simp [hpc, hlacks], by simp [hpc, hlacks]⟩
      · exact .inr ⟨job, hready, hring, by simp [hpc, hready],
          by simp [hpc, hready, hbyte]⟩
  | handler job =>
    obtain ⟨⟨b, t⟩, ht, hb⟩ := Checked.bind_ok h
    cases hb
    obtain ⟨hring, hbyte⟩ := finish_ring ht
    have hready : s.ring.lacks job.waiter = false := by
      simp only [Sys.enabled, decide_eq_true_eq] at henabled
      exact henabled.2
    exact .inr ⟨job, hready, hring, by simp [hready],
      by simp [ht, hbyte, Except.toOption]⟩
  | other a =>
    obtain ⟨k, -, hk⟩ := Checked.bind_ok h
    cases hk
    exact .inl ⟨rfl, rfl, rfl⟩

/-- **A run keeps the bytes in order.** -/
theorem Holds.transcript {as : List (Act S)} {put got : List UInt8} (h : Holds s.ring held)
    (hrun : s.transcript lock as = some (put, got, s')) : ∃ held', Holds s'.ring held' ∧ held ++ put = got ++ held' := by
  induction as generalizing s held put got with
  | nil =>
    cases hrun
    exact ⟨held, h, List.append_nil _⟩
  | cons a as ih =>
    simp only [Sys.transcript, Option.bind_eq_bind, Option.bind_eq_some_iff, Prod.exists] at hrun
    obtain ⟨s₁, hstep, put', got', t, hrest, heq⟩ := hrun
    cases heq
    rcases step_ring hstep with ⟨hring, hputs, hnone⟩ | ⟨job, hready, hring, hputs, hbyte⟩
    · obtain ⟨held', hheld', hkeep⟩ := ih (hring ▸ h) hrest
      exact ⟨held', hheld', by rw [hputs, hnone]; exact hkeep⟩
    · obtain ⟨held₁, hheld₁, hone⟩ := h.effect hready
      obtain ⟨held', hheld', hkeep⟩ := ih (hring ▸ hheld₁) hrest
      refine ⟨held', hheld', ?_⟩
      calc held ++ (s.puts a ++ put') = (held ++ job.put) ++ put' := by rw [hputs, List.append_assoc]
        _ = (job.byte s.ring).toList ++ (held₁ ++ put') := by rw [hone, List.append_assoc]
        _ = ((s.returned s₁ a).toList ++ got') ++ held' := by rw [hkeep, hbyte, List.append_assoc]

end

/-- After these bytes have been put into a queue and these have been returned. -/
structure BoundedFifo (r : Ring) (put got : List UInt8) : Prop where
  head_lt : r.head < INTQ_BUFSIZE
  tail_lt : r.tail < INTQ_BUFSIZE
  /-- The bytes returned are the first ones, and the others are in the buffer. -/
  order : ∃ held, put = got ++ held ∧ held.length ≤ INTQ_BUFSIZE - 1 ∧
    (∀ i < held.length, r.buf ((r.tail + i) % INTQ_BUFSIZE) = held.getD i 0) ∧
    (r.empty = true ↔ held.length = 0) ∧ (r.full = true ↔ held.length = INTQ_BUFSIZE - 1)

/-- **An interrupt queue is a bounded queue**, whatever threads and handlers do after `intq_init`. -/
theorem intq_bounded_fifo {S : Type} [DecidableEq S] {lock : S} {k : Kernel S} {buf : Nat → UInt8}
    {result : Page → Option UInt8} {as : List (Act S)} {put got : List UInt8} {s : Sys S}
    (hrun : (Sys.init lock k buf result).transcript lock as = some (put, got, s)) : BoundedFifo s.ring put got := by
  have hinit : Holds (Sys.init lock k buf result).ring [] := by
    constructor <;> simp [Sys.init, INTQ_BUFSIZE]
  obtain ⟨held, hheld, hkeep⟩ := hinit.transcript hrun
  exact ⟨hheld.head_lt, hheld.tail_lt, held, hkeep, Nat.le_sub_one_of_lt hheld.length_lt, hheld.bytes, hheld.empty_iff,
    hheld.full_iff⟩

/-- Two bytes come in, and the running thread reads the first. -/
theorem intq_bounded_fifo_two :
    ∃ (k : Kernel Nat) (s : Sys Nat), Kernel.threadStart 0 1 0 = .ok k ∧
      (Sys.init 7 k (fun _ => 0) (fun _ => none)).transcript 7 [.handler (.putc 65), .handler (.putc 66), .call .getc] =
        some ([65, 66], [65], s) ∧ BoundedFifo s.ring [65, 66] [65] := by
  have hrun : ((Kernel.threadStart 0 1 0 : Except Assertion (Kernel Nat)).toOption.bind fun k =>
      (Sys.init 7 k (fun _ => 0) (fun _ => none)).transcript 7 [.handler (.putc 65), .handler (.putc 66), .call .getc]).any
        (fun x : List UInt8 × List UInt8 × Sys Nat => decide (x.1 = [65, 66] ∧ x.2.1 = [65])) = true := by decide +kernel
  obtain ⟨⟨put, got, s⟩, hs, hx⟩ := (Option.any_eq_true _ _).mp hrun
  obtain ⟨k, hk, hs⟩ := Option.bind_eq_some_iff.mp hs
  obtain ⟨rfl, rfl⟩ : put = [65, 66] ∧ got = [65] := of_decide_eq_true hx
  exact ⟨k, s, Checked.toOption_eq_some hk, hs, intq_bounded_fifo hs⟩

end Intq
end Asg1
