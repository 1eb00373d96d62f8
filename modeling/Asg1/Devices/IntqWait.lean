import Asg1.Devices.Intq

/-!
# `Devices.IntqWait` — when the assertions of an interrupt queue hold

At most one thread is inside `wait`, the holder of the queue's lock, and it is recorded in the queue exactly while it
sleeps. This holds along every run in which no thread is `late`: comes to `wait` after a sleep for the lock when it does
not have to wait any more. No assertion fails then, and a thread that is late fails the assertion of `wait`.
-/

namespace Asg1
namespace Intq

open Threads Sys Function

variable {S : Type} [DecidableEq S] {lock : S} {i t : Page} {s s' : Sys S} {job : Job}

/-- What holds between two steps. The idle thread is `i`. -/
structure Inv (lock : S) (i : Page) (s : Sys S) : Prop where
  kern : Kernel.Inv i s.k
  head : s.ring.head < INTQ_BUFSIZE
  tail : s.ring.tail < INTQ_BUFSIZE
  value : (s.k.sema lock).value = if s.holder = none then 1 else 0
  holder : ∀ t, s.holder = some t ↔ ∃ job, s.pc t = .waiting job
  locking : ∀ t, (∃ job, s.pc t = .locking job) ↔ s.k.stage t = some (.down lock)
  waiting : ∀ t job, s.pc t = .waiting job → s.k.stage t = some .any
  recorded : ∀ w t, s.waiter w = some t ↔ ∃ job, s.pc t = .waiting job ∧ job.waiter = w ∧ s.k.status t = some .blocked
  lacks : ∀ w t, s.waiter w = some t → s.ring.lacks w = true

variable {k : Kernel S} {a : Act S} {g : Stage S}

omit [DecidableEq S] in
theorem idle_stage (h : Kernel.Inv i k) (hg : g.isIdle = false) : k.stage i ≠ some g := by
  obtain ⟨g', hg', hisIdle, -⟩ := h.idle
  rw [hg']
  rintro ⟨⟩
  rw [hg] at hisIdle
  cases hisIdle

omit [DecidableEq S] in
/-- **A step of the running thread**, as far as it concerns the thread itself; the other threads inside `wait` sleep if and
    only if they did. -/
theorem Inv.of_running (h : Inv lock i s) (hkern : Kernel.Inv i s'.k) (hring : s'.ring = s.ring)
    (hpc : ∀ t, t ≠ s.k.running → s'.pc t = s.pc t) (hstage : ∀ t, t ≠ s.k.running → t ≠ i → s'.k.stage t = s.k.stage t)
    (hblocked : ∀ t, t ≠ s.k.running → s.k.stage t = some .any →
      (s'.k.status t = some .blocked ↔ s.k.status t = some .blocked))
    (hvalue : (s'.k.sema lock).value = if s'.holder = none then 1 else 0)
    (hholder : ∀ t, t ≠ s.k.running → (s'.holder = some t ↔ s.holder = some t))
    (hholder' : s'.holder = some s.k.running ↔ ∃ job, s'.pc s.k.running = .waiting job)
    (hlocking : (∃ job, s'.pc s.k.running = .locking job) ↔ s'.k.stage s.k.running = some (.down lock))
    (hwaiting : ∀ job, s'.pc s.k.running = .waiting job → s'.k.stage s.k.running = some .any)
    (hwaiter : ∀ w t, t ≠ s.k.running → (s'.waiter w = some t ↔ s.waiter w = some t))
    (hwaiter' : ∀ w, s'.waiter w = some s.k.running ↔
      ∃ job, s'.pc s.k.running = .waiting job ∧ job.waiter = w ∧ s'.k.status s.k.running = some .blocked)
    (hlacks : ∀ w, s'.waiter w = some s.k.running → s.ring.lacks w = true) : Inv lock i s' := by
  constructor
  case kern => exact hkern
  case head =>
    rw [hring]
    exact h.head
  case tail =>
    rw [hring]
    exact h.tail
  case value => exact hvalue
  case holder =>
    intro t
    by_cases ht : t = s.k.running
    · rw [ht]
      exact hholder'
    · rw [hholder t ht, hpc t ht]
      exact h.holder t
  case locking =>
    intro t
    by_cases ht : t = s.k.running
    · rw [ht]
      exact hlocking
    · rw [hpc t ht, h.locking t]
      by_cases hi : t = i
      · rw [hi]
        exact iff_of_false (idle_stage h.kern rfl) (idle_stage hkern rfl)
      · rw [hstage t ht hi]
  case waiting =>
    intro t job hw
    by_cases ht : t = s.k.running
    · rw [ht] at hw ⊢
      exact hwaiting job hw
    · rw [hpc t ht] at hw
      have hany := h.waiting t job hw
      rw [hstage t ht]
      · exact hany
      · rintro rfl
        exact idle_stage h.kern rfl hany
  case recorded =>
    intro w t
    by_cases ht : t = s.k.running
    · rw [ht]
      exact hwaiter' w
    · rw [hwaiter w t ht, h.recorded w t, hpc t ht]
      refine exists_congr fun job => and_congr_right fun hw => and_congr_right fun _ => ?_
      exact (hblocked t ht (h.waiting t job hw)).symm
  case lacks =>
    intro w t hw
    rw [hring]
    by_cases ht : t = s.k.running
    · rw [ht] at hw
      exact hlacks w hw
    · exact h.lacks w t ((hwaiter w t ht).mp hw)

/-- The outcome keeps the invariant, unless the kernel fails to put the thread to sleep. -/
def Fine (lock : S) (i : Page) (x : Except Failure (Sys S)) : Prop :=
  (∃ s', x = .ok s' ∧ Inv lock i s') ∨ ∃ a, x = .error (.block a)

variable {x : Except Failure (Sys S)} {buf : Nat → UInt8} {result : Page → Option UInt8}

omit [DecidableEq S] in
theorem Fine.of_eq {y : Except Failure (Sys S)} (heq : x = y) (hy : Fine lock i y) : Fine lock i x := by
  rw [heq]
  exact hy

omit [DecidableEq S] in
theorem Inv.running_not_waiting (h : Inv lock i s) (hpc : ∀ job, s.pc s.k.running ≠ .waiting job) :
    s.holder ≠ some s.k.running ∧ ∀ w, s.waiter w ≠ some s.k.running := by
  constructor
  · intro hh
    obtain ⟨job, hjob⟩ := (h.holder _).mp hh
    exact hpc job hjob
  · intro w hw
    obtain ⟨job, hjob, -⟩ := (h.recorded w _).mp hw
    exact hpc job hjob

/-- **The thread sleeps for the lock.** -/
theorem Inv.sleep (h : Inv lock i s) (hg : s.k.stage s.k.running = some g)
    (hnot : g.isIdle = false) (hpc : ∀ job, s.pc s.k.running ≠ .waiting job) (hzero : (s.k.sema lock).value = 0)
    (hrun : s.k.semaDown lock = .ok k) : Inv lock i { (s.goto (.locking job)) with k := k } := by
  obtain ⟨hkern, hvalue, -, hdown, hcalm⟩ := h.kern.sleep_effect hg hnot hzero hrun
  obtain ⟨hholder, hwaiter⟩ := h.running_not_waiting hpc
  have hself : Function.update s.pc s.k.running (.locking job) s.k.running = .locking job := update_self _ _ _
  refine h.of_running hkern rfl (fun t ht => update_of_ne ht _ _) (fun t ht hi => (hcalm t ht hi).stage) ?_ ?_
    (fun t _ => Iff.rfl) ?_ ?_ ?_ (fun w t _ => Iff.rfl) ?_ ?_
  · intro t ht hany
    refine (hcalm t ht ?_).blocked
    rintro rfl
    exact idle_stage h.kern rfl hany
  · exact hvalue.trans (hzero.symm.trans h.value)
  · exact iff_of_false hholder (fun ⟨j, hj⟩ => by cases hself.symm.trans hj)
  · exact iff_of_true ⟨job, hself⟩ hdown
  · exact fun j hj => by cases hself.symm.trans hj
  · exact fun w => iff_of_false (hwaiter w) (fun ⟨j, hj, _⟩ => by cases hself.symm.trans hj)
  · exact fun w hw => absurd hw (hwaiter w)

omit [DecidableEq S] in
/-- Nobody is in `wait` when the lock is free. -/
theorem Inv.none_waiting (h : Inv lock i s) (hfree : s.holder = none) (w : Waiter) : s.waiter w = none := by
  refine Option.eq_none_iff_forall_ne_some.mpr ?_
  intro t hw
  obtain ⟨job, hjob, -⟩ := (h.recorded w t).mp hw
  have hh := (h.holder t).mpr ⟨job, hjob⟩
  rw [hfree] at hh
  cases hh

section
variable {k₁ : Kernel S} (h : Inv lock i s) (hfree : s.holder = none) (hlacks : s.ring.lacks job.waiter = true)
  (hkern₁ : Kernel.Inv i k₁) (hrunning : k₁.running = s.k.running) (hany : k₁.stage s.k.running = some .any)
  (hvalue₁ : (k₁.sema lock).value = 0) (hcalm₁ : ∀ u, u ≠ s.k.running → Kernel.Undisturbed s.k k₁ u)
include h hfree hlacks hkern₁ hrunning hany hvalue₁ hcalm₁

/-- **The thread takes the lock and waits.** -/
theorem Inv.waits
    (hblock : k₁.threadBlock = .ok s'.k) (hring : s'.ring = s.ring) (hholder : s'.holder = some s.k.running)
    (hpc : s'.pc = Function.update s.pc s.k.running (.waiting job))
    (hwaiter : ∀ w, s'.waiter w = if w = job.waiter then some s.k.running else s.waiter w) : Inv lock i s' := by
  obtain ⟨hkern₂, hsema, hblocked, hany₂, hcalm₂⟩ := hkern₁.block_effect (by rw [hrunning]; exact hany) hblock
  rw [hrunning] at hblocked hany₂ hcalm₂
  have hnone := h.none_waiting hfree
  have hself : s'.pc s.k.running = .waiting job := by
    rw [hpc]
    exact update_self _ _ _
  have hwaiter' : ∀ w t, s'.waiter w = some t ↔ w = job.waiter ∧ t = s.k.running := by
    intro w t
    rw [hwaiter, hnone]
    by_cases hw : w = job.waiter
    · simp [hw, eq_comm]
    · simp [hw]
  refine h.of_running hkern₂ hring (fun t ht => ?_) (fun t ht hi => ?_) (fun t ht hst => ?_) ?_ (fun t ht => ?_) ?_ ?_ ?_
    (fun w t ht => ?_) (fun w => ?_) (fun w hw => ?_)
  · rw [hpc]
    exact update_of_ne ht _ _
  · exact ((hcalm₁ t ht).trans (hcalm₂ t ht hi)).stage
  · refine ((hcalm₁ t ht).trans (hcalm₂ t ht ?_)).blocked
    rintro rfl
    exact idle_stage h.kern rfl hst
  · rw [hsema, hvalue₁, hholder, if_neg nofun]
  · rw [hholder, hfree]
    exact iff_of_false (fun heq => ht (Option.some.inj heq).symm) nofun
  · exact iff_of_true hholder ⟨job, hself⟩
  · refine iff_of_false ?_ ?_
    · rintro ⟨j, hj⟩
      rw [hself] at hj
      cases hj
    · rw [hany₂]
      nofun
  · exact fun j _ => hany₂
  · rw [hwaiter', hnone]
    exact iff_of_false (fun heq => ht heq.2) nofun
  · rw [hwaiter', hself]
    constructor
    · rintro ⟨hw, -⟩
      exact ⟨job, rfl, hw.symm, hblocked⟩
    · rintro ⟨j, hj, hw, -⟩
      cases hj
      exact ⟨hw.symm, rfl⟩
  · obtain ⟨rfl, -⟩ := (hwaiter' w _).mp hw
    exact hlacks

/-- `wait`, by the thread that has the lock. -/
theorem Inv.wait_fine : Fine lock i (Sys.wait { s with k := k₁, holder := some k₁.running } job) := by
  obtain ⟨s₁, hs₁⟩ : ∃ s₁, s₁ = ({ s with k := k₁, holder := some k₁.running } : Sys S) := ⟨_, rfl⟩
  have hk₁ : s₁.k = k₁ := by rw [hs₁]
  have hwaiter₁ : ∀ w, s₁.waiter w = s.waiter w := by
    intro w
    rw [hs₁]
    cases w <;> rfl
  unfold Sys.wait
  rw [if_pos hlacks, ← hs₁]
  cases hblock : k₁.threadBlock with
  | error a =>
    refine .inr ⟨a, ?_⟩
    simp only [goto, setWaiter_k, hk₁, hblock]
    rfl
  | ok k₂ =>
    refine .inl ⟨{ ((s₁.setWaiter job.waiter (some s₁.k.running)).goto (.waiting job)) with k := k₂ }, ?_, ?_⟩
    · simp only [goto, setWaiter_k, hk₁, hblock]
      rfl
    · refine h.waits hfree hlacks hkern₁ hrunning hany hvalue₁ hcalm₁ hblock ?_ ?_ ?_ ?_
      · simp [goto, hs₁]
      · simp [goto, hs₁, hrunning]
      · simp [goto, hs₁, hrunning]
      · intro w
        rw [waiter_kernel, waiter_goto, waiter_setWaiter, hwaiter₁, hk₁, hrunning]

end

/-- **`lock_acquire` and `wait`**, from `sema_down` on. -/
theorem Inv.lockDown (h : Inv lock i s) (hg : s.k.stage s.k.running = some g) (hnot : g.isIdle = false)
    (hpc : ∀ job, s.pc s.k.running ≠ .waiting job)
    (hlacks : (s.k.sema lock).value ≠ 0 → s.ring.lacks job.waiter = true) : Fine lock i (s.lockDown lock job) := by
  unfold Sys.lockDown
  by_cases hzero : (s.k.sema lock).value = 0
  · cases hrun : s.k.semaDown lock with
    | error a => exact .inr ⟨a, rfl⟩
    | ok k =>
      refine .inl ⟨{ (s.goto (.locking job)) with k := k }, ?_, h.sleep hg hnot hpc hzero hrun⟩
      refine (Checked.ok_bind rfl).trans ?_
      rw [if_pos hzero]
  · have hfree : s.holder = none := by
      by_contra hheld
      rw [h.value, if_neg hheld] at hzero
      exact hzero rfl
    have hone : (s.k.sema lock).value = 1 := by rw [h.value, if_pos hfree]
    obtain ⟨k₁, hrun, hkern₁, hrunning, hvalue₁, -, hany, -, hcalm₁⟩ := h.kern.take_effect hg hnot (Nat.pos_of_ne_zero hzero)
    rw [hrun]
    refine (Fine.of_eq ?_ (h.wait_fine hfree (hlacks hzero) hkern₁ hrunning hany (by rw [hvalue₁, hone]) hcalm₁))
    refine (Checked.ok_bind rfl).trans ?_
    rw [if_neg hzero]

/-! ## `signal` and the end of a call -/

theorem next_inj {p p' : Nat} (hp : p < INTQ_BUFSIZE) (hp' : p' < INTQ_BUFSIZE) (heq : next p = next p') : p = p' := by
  unfold next INTQ_BUFSIZE at *
  omega

theorem next_lt (p : Nat) : next p < INTQ_BUFSIZE := Nat.mod_lt _ (by decide)

/-- **`signal`** after a change of the buffer that made the condition true. -/
theorem Inv.signal {r : Ring} {w : Waiter} (h : Inv lock i s) (hhead : r.head < INTQ_BUFSIZE) (htail : r.tail < INTQ_BUFSIZE)
    (hlacks : r.lacks w = false) (hothers : ∀ w', w' ≠ w → s.waiter w' = none) :
    ∃ s', { s with ring := r }.signal w = .ok s' ∧ Inv lock i s' ∧ s'.k.running = s.k.running ∧ s'.pc = s.pc ∧
      s'.k.stage s.k.running = s.k.stage s.k.running := by
  have hwaiter : ∀ w', ({ s with ring := r } : Sys S).waiter w' = s.waiter w' := by
    intro w'
    cases w' <;> rfl
  unfold Sys.signal
  rw [if_neg (by simp [hlacks]), hwaiter]
  cases hw : s.waiter w with
  | none =>
    have hnone : ∀ w', s.waiter w' = none := by
      intro w'
      by_cases heq : w' = w
      · rw [heq]
        exact hw
      · exact hothers w' heq
    refine ⟨{ s with ring := r }, rfl, ?_, rfl, rfl, rfl⟩
    refine ⟨h.kern, hhead, htail, h.value, h.holder, h.locking, h.waiting, h.recorded, ?_⟩
    intro w' t hw'
    rw [hwaiter, hnone] at hw'
    cases hw'
  | some t =>
    obtain ⟨job, hjob, hjw, hblocked⟩ := (h.recorded w t).mp hw
    obtain ⟨k', hrun, hkern, hrunning, hsema, hready, hstage, hstatus⟩ := h.kern.unblock_effect hblocked (h.waiting t job hjob)
    have hnone : ∀ w', (({ s with ring := r, k := k' } : Sys S).setWaiter w none).waiter w' = none := by
      intro w'
      rw [waiter_setWaiter]
      split
      · rfl
      · rename_i hne
        exact hothers w' hne
    refine ⟨({ s with ring := r, k := k' } : Sys S).setWaiter w none, ?_, ?_, ?_, ?_, ?_⟩
    · have hrun' : ({ s with ring := r } : Sys S).k.threadUnblock t = .ok k' := hrun
      simp only [hrun']
      rfl
    · constructor <;> simp only [setWaiter_k, setWaiter_ring, setWaiter_holder, setWaiter_pc, hnone, hstage, hsema]
      case kern => exact hkern
      case head => exact hhead
      case tail => exact htail
      case value => exact h.value
      case holder => exact h.holder
      case locking => exact h.locking
      case waiting => exact h.waiting
      case recorded =>
        intro w' u
        refine iff_of_false nofun ?_
        rintro ⟨j, hj, -, hb⟩
        -- the thread that was woken is the only one inside `wait`
        have hu : some u = some t := by rw [← (h.holder u).mpr ⟨j, hj⟩, (h.holder t).mpr ⟨job, hjob⟩]
        cases hu
        cases hready.symm.trans hb
      case lacks => exact fun _ _ hw' => nomatch hw'
    · rw [setWaiter_k]
      exact hrunning
    · rw [setWaiter_pc]
    · rw [setWaiter_k]
      exact hstage _

/-- **The end of a call** that does not have to wait. -/
theorem Inv.finish (h : Inv lock i s) (hlacks : s.ring.lacks job.waiter = false) :
    ∃ byte s', s.finish job = .ok (byte, s') ∧ Inv lock i s' ∧ s'.k.running = s.k.running ∧ s'.pc = s.pc := by
  have hnone : s.waiter job.waiter = none := by
    refine Option.eq_none_iff_forall_ne_some.mpr ?_
    intro t hw
    rw [h.lacks _ t hw] at hlacks
    cases hlacks
  have hothers : ∀ w', w' ≠ job.wakes → s.waiter w' = none := by
    intro w' hne
    rw [← hnone]
    cases job <;> cases w' <;> first | rfl | exact absurd rfl hne
  cases job with
  | getc =>
    have hne : s.ring.head ≠ s.ring.tail := by simpa [Job.waiter, Ring.lacks, Ring.empty] using hlacks
    have hfull : (s.ring.take.2).lacks .notFull = false := by
      have hnext : next s.ring.head ≠ next s.ring.tail := fun heq => hne (next_inj h.head h.tail heq)
      simpa [Ring.lacks, Ring.full, Ring.take] using hnext
    obtain ⟨s', hrun, hinv, hrunning, hpc, -⟩ := h.signal (r := s.ring.take.2) h.head (next_lt _) hfull hothers
    exact ⟨_, s', Checked.ok_bind hrun, hinv, hrunning, hpc⟩
  | putc byte =>
    have hne : next s.ring.head ≠ s.ring.tail := by simpa [Job.waiter, Ring.lacks, Ring.full] using hlacks
    have hempty : (s.ring.add byte).lacks .notEmpty = false := by simpa [Ring.lacks, Ring.empty, Ring.add] using hne
    obtain ⟨s', hrun, hinv, hrunning, hpc, -⟩ := h.signal (r := s.ring.add byte) (next_lt _) h.tail hempty hothers
    exact ⟨_, s', Checked.ok_bind hrun, hinv, hrunning, hpc⟩

/-- **The loop** of `intq_getc` and `intq_putc`. -/
theorem Inv.loop (h : Inv lock i s) (hpc : s.pc s.k.running = .user) (hany : s.k.stage s.k.running = some .any) :
    Fine lock i (s.loop lock job) := by
  have hnot : ∀ job, s.pc s.k.running ≠ .waiting job := by
    intro job
    rw [hpc]
    nofun
  unfold Sys.loop
  cases hlacks : s.ring.lacks job.waiter with
  | true =>
    refine Fine.of_eq ?_ (h.lockDown hany rfl hnot (fun _ => hlacks))
    exact if_neg (h.running_not_waiting hnot).1
  | false =>
    obtain ⟨byte, s', hrun, hinv, hrunning, -⟩ := h.finish hlacks
    refine .inl ⟨{ s' with result := Function.update s'.result s.k.running byte }, ?_,
      ⟨hinv.kern, hinv.head, hinv.tail, hinv.value, hinv.holder, hinv.locking, hinv.waiting, hinv.recorded, hinv.lacks⟩⟩
    exact Checked.ok_bind hrun

/-- **`lock_release`** by the thread that has waited. -/
theorem Inv.lockRelease (h : Inv lock i s) (hpc : s.pc s.k.running = .waiting job) :
    ∃ s', s.lockRelease lock = .ok s' ∧ Inv lock i (s'.goto .user) ∧ s'.k.running = s.k.running ∧
      s'.k.stage s.k.running = some .any := by
  have hholder := (h.holder _).mpr ⟨job, hpc⟩
  have hany := h.waiting _ job hpc
  obtain ⟨k₁, hrun, hkern, hrunning, hvalue, -, hstage, hstatus⟩ := h.kern.up_effect (s := lock)
  have hself : Function.update s.pc k₁.running .user s.k.running = .user := by
    rw [hrunning]
    exact update_self _ _ _
  have hawake : s.k.status s.k.running ≠ some .blocked := by
    rw [(h.kern.running _).mpr rfl]
    nofun
  have hnot : ∀ w, s.waiter w ≠ some s.k.running := by
    intro w hw
    obtain ⟨-, -, -, hb⟩ := (h.recorded w _).mp hw
    exact hawake hb
  refine ⟨{ s with k := k₁, holder := none }, ?_, ?_, hrunning, (hstage _).trans hany⟩
  · unfold Sys.lockRelease
    rw [if_neg (not_not_intro hholder), hrun]
    rfl
  · refine h.of_running hkern rfl (fun t ht => ?_) (fun t _ _ => hstage t) (fun t _ hst => ?_) ?_ (fun t ht => ?_) ?_ ?_ ?_
      (fun w t _ => Iff.rfl) (fun w => ?_) (fun w hw => absurd hw (hnot w))
    · rw [← hrunning] at ht
      exact update_of_ne ht _ _
    · show k₁.status t = _ ↔ _
      rw [hstatus t (by simp [hst])]
    · have hzero : (s.k.sema lock).value = 0 := by rw [h.value, hholder, if_neg nofun]
      show (k₁.sema lock).value = _
      rw [hvalue, hzero]
      rfl
    · rw [hholder]
      exact iff_of_false nofun (fun heq => ht (Option.some.inj heq).symm)
    · exact iff_of_false nofun (fun ⟨j, hj⟩ => by cases hself.symm.trans hj)
    · refine iff_of_false (fun ⟨j, hj⟩ => by cases hself.symm.trans hj) ?_
      show k₁.stage _ ≠ _
      rw [hstage, hany]
      nofun
    · exact fun j hj => by cases hself.symm.trans hj
    · exact iff_of_false (hnot w) (fun ⟨j, hj, _⟩ => by cases hself.symm.trans hj)

/-- **After `wait`.** -/
theorem Inv.afterWait (h : Inv lock i s) (hpc : s.pc s.k.running = .waiting job) : Fine lock i (s.afterWait lock job) := by
  obtain ⟨s₁, hrun, hinv, hrunning, hany⟩ := h.lockRelease hpc
  refine Fine.of_eq (Checked.ok_bind hrun) (hinv.loop ?_ ?_)
  · exact update_self _ _ _
  · show s₁.k.stage s₁.k.running = _
    rw [hrunning]
    exact hany

/-! ## Runs -/

/-- Other code runs. -/
theorem Inv.other {a : Action S} (h : Inv lock i s) (hpc : s.pc s.k.running = .user)
    (hproper : s.Proper lock (.other a)) (hstep : s.k.step a = some k) : Inv lock i { s with k := k } := by
  obtain ⟨hp, hforeign, hwakes⟩ := hproper
  have hself : s.k.stage s.k.running ≠ some (.down lock) := by
    intro hdown
    obtain ⟨job, hjob⟩ := (h.locking _).mpr hdown
    rw [hpc] at hjob
    cases hjob
  have haside := h.kern.aside hp hforeign hself hstep
  have hcalm : ∀ t job, s.pc t = .waiting job → Kernel.Undisturbed s.k k t := by
    intro t job hjob
    refine haside.calm t ?_ (h.waiting t job hjob) ?_
    · rintro rfl
      rw [hpc] at hjob
      cases hjob
    · intro hw
      rw [hwakes t hw] at hjob
      cases hjob
  constructor
  case kern => exact h.kern.step hp hstep
  case head => exact h.head
  case tail => exact h.tail
  case value =>
    rw [haside.sema]
    exact h.value
  case holder => exact h.holder
  case locking => exact fun t => (h.locking t).trans (haside.down t).symm
  case waiting =>
    intro t job hjob
    exact (hcalm t job hjob).stage.trans (h.waiting t job hjob)
  case recorded =>
    intro w t
    refine (h.recorded w t).trans (exists_congr fun job => and_congr_right fun hjob => and_congr_right fun _ => ?_)
    exact (hcalm t job hjob).blocked.symm
  case lacks => exact h.lacks

/-- **One step** of a thread that is not late, or of anybody else. -/
theorem Inv.step_fine (h : Inv lock i s) (henabled : s.enabled a = true) (hproper : s.Proper lock a)
    (hlate : ¬ (a = .resume ∧ s.late lock = true)) : Fine lock i (s.exec lock a) ∨ ∃ e, s.exec lock a = .error (.other e) := by
  cases a with
  | call job =>
    obtain ⟨hpc, hany⟩ := of_decide_eq_true henabled
    exact .inl (h.loop hpc hany)
  | resume =>
    refine .inl ?_
    unfold Sys.exec
    cases hpc : s.pc s.k.running with
    | user => exact absurd hpc (of_decide_eq_true henabled)
    | locking job =>
      have hdown := (h.locking _).mp ⟨job, hpc⟩
      refine h.lockDown hdown rfl (by simp [hpc]) ?_
      intro hpos
      by_contra hlacks
      exact hlate ⟨rfl, (late_iff lock s).mpr ⟨job, hpc, hpos, Bool.eq_false_iff.mpr hlacks⟩⟩
    | waiting job => exact h.afterWait hpc
  | handler job =>
    obtain ⟨-, hlacks⟩ := of_decide_eq_true henabled
    obtain ⟨byte, s', hrun, hinv, -⟩ := h.finish hlacks
    exact .inl (.inl ⟨s', Checked.ok_bind hrun, hinv⟩)
  | other a =>
    obtain ⟨hpc, hen⟩ := of_decide_eq_true henabled
    cases hrun : s.k.exec a with
    | error e =>
      refine .inr ⟨e, ?_⟩
      simp only [Sys.exec, hrun]
      rfl
    | ok k =>
      have hstep : s.k.step a = some k := by
        unfold Kernel.step
        rw [if_pos hen, hrun]
        rfl
      refine .inl (.inl ⟨{ s with k := k }, ?_, h.other hpc hproper hstep⟩)
      simp only [Sys.exec, hrun]
      rfl

theorem Inv.step (h : Inv lock i s) (hproper : s.Proper lock a)
    (hlate : ¬ (a = .resume ∧ s.late lock = true)) (hstep : s.step lock a = some s') : Inv lock i s' := by
  unfold Sys.step at hstep
  split at hstep
  · rename_i henabled
    have hrun := Checked.toOption_eq_some hstep
    rcases h.step_fine henabled hproper hlate with (⟨s₁, hs₁, hinv⟩ | ⟨e, he⟩) | ⟨e, he⟩
    · cases hs₁.symm.trans hrun
      exact hinv
    · cases he.symm.trans hrun
    · cases he.symm.trans hrun
  · cases hstep

theorem inv_init (hkern : Kernel.Inv i k)
    (hproper : k.Proper (.semaInit lock 1)) : Inv lock i (Sys.init lock k buf result) := by
  constructor
  case kern => exact hkern.semaInit hproper
  case head => exact Nat.zero_lt_succ _
  case tail => exact Nat.zero_lt_succ _
  case value =>
    show (Function.update k.sema lock _ lock).value = _
    rw [update_self]
    rfl
  case holder => exact fun t => iff_of_false nofun (fun ⟨_, hj⟩ => nomatch hj)
  case locking => exact fun t => iff_of_false (fun ⟨_, hj⟩ => nomatch hj) (hproper t)
  case waiting => exact fun _ _ hj => nomatch hj
  case recorded =>
    intro w t
    refine iff_of_false ?_ (fun ⟨_, hj, _⟩ => nomatch hj)
    cases w <;> nofun
  case lacks =>
    intro w t hw
    cases w <;> cases hw

/-- One of the assertions of `wait`, `signal` and `thread_unblock` fails. -/
def Fails (x : Except Failure (Sys S)) : Prop := x = .error .wait ∨ x = .error .signal ∨ ∃ a, x = .error (.unblock a)

omit [DecidableEq S] in
theorem Fine.not_fails (h : Fine lock i x) : ¬ Fails x := by
  rcases h with ⟨s', rfl, -⟩ | ⟨a, rfl⟩
  · rintro (hx | hx | ⟨e, hx⟩) <;> cases hx
  · rintro (hx | hx | ⟨e, hx⟩) <;> cases hx

/-- A thread that is late fails the assertion of `wait`. -/
theorem Inv.late_fails (h : Inv lock i s) (hlate : s.late lock = true) : s.exec lock .resume = .error .wait := by
  obtain ⟨job, hpc, hpos, hlacks⟩ := (late_iff lock s).mp hlate
  have hdown := (h.locking _).mp ⟨job, hpc⟩
  obtain ⟨k₁, hrun, -⟩ := h.kern.take_effect hdown rfl (Nat.pos_of_ne_zero hpos)
  unfold Sys.exec
  simp only [hpc]
  unfold Sys.lockDown
  rw [hrun]
  refine (Checked.ok_bind rfl).trans ?_
  rw [if_neg hpos]
  exact if_neg (by simp [hlacks])

/-- Who is asleep inside `wait`, and that there is at most one. -/
structure OneWaiter (s : Sys S) : Prop where
  recorded : ∀ w t, s.waiter w = some t ↔ ∃ job, s.pc t = .waiting job ∧ job.waiter = w ∧ s.k.status t = some .blocked
  one : ∀ t t' job job', s.pc t = .waiting job → s.pc t' = .waiting job' → t = t'

omit [DecidableEq S] in
theorem Inv.oneWaiter (h : Inv lock i s) : OneWaiter s := by
  refine ⟨h.recorded, ?_⟩
  intro t t' job job' ht ht'
  have hholder := (h.holder t).mpr ⟨job, ht⟩
  rw [(h.holder t').mpr ⟨job', ht'⟩] at hholder
  exact (Option.some.inj hholder).symm

/-- The invariant holds as long as no thread has been late. -/
theorem inv_of_reaches (hkern : Kernel.Inv i k) (hinit : k.Proper (.semaInit lock 1))
    (hreach : Lts.Reaches (Sys.step lock) (fun s a => s.Proper lock a ∧ ¬ (a = .resume ∧ s.late lock = true))
      (Sys.init lock k buf result) s) : Inv lock i s := by
  refine Lts.Reaches.invariant (I := Inv lock i) hreach (inv_init hkern hinit) ?_
  intro t u a ht hg hstep
  exact ht.step hg.1 hg.2 hstep

/-- **The assertions of an interrupt queue.** After `intq_init` at any time in a run of the kernel, as long as no thread has
    been late, at most one thread waits, and an assertion fails in the next step if and only if a thread is late then. -/
theorem assertions_hold_iff {initial idle : Page} {started : S} {k₀ k : Kernel S} {buf : Nat → UInt8}
    {result : Page → Option UInt8} (hne : idle ≠ initial) (hboot : Kernel.threadStart initial idle started = .ok k₀)
    (hkernel : Lts.Reaches Kernel.step Kernel.Proper k₀ k) (hinit : k.Proper (.semaInit lock 1))
    (hreach : Lts.Reaches (Sys.step lock) (fun s a => s.Proper lock a ∧ ¬ (a = .resume ∧ s.late lock = true))
      (Sys.init lock k buf result) s) :
    OneWaiter s ∧ ∀ a, s.enabled a = true → s.Proper lock a →
      (¬ Fails (s.exec lock a) ↔ ¬ (a = .resume ∧ s.late lock = true)) := by
  obtain ⟨hkern, -⟩ := Kernel.covered_of_reaches hne hboot hkernel
  have hinv : Inv lock idle s := inv_of_reaches hkern hinit hreach
  refine ⟨hinv.oneWaiter, ?_⟩
  intro a henabled hproper
  constructor
  · rintro hok ⟨rfl, hlate⟩
    exact hok (.inl (hinv.late_fails hlate))
  · intro hlate
    rcases hinv.step_fine henabled hproper hlate with hfine | ⟨e, he⟩
    · exact hfine.not_fails
    · rw [he]
      rintro (hx | hx | ⟨e, hx⟩) <;> cases hx

/-! ## Two readers -/

/-- The calls of other code that keep to `Sys.Proper` and do not reuse a semaphore. -/
def properAct (lock : S) (s : Sys S) : Act S → Bool
  | .other a => s.k.properCall a && s.k.foreign lock a &&
      match Kernel.wakes a with
      | some t => s.pc t = .user
      | none => true
  | _ => true

theorem proper_of_properAct (h : properAct lock s a = true) : s.Proper lock a := by
  cases a with
  | other a =>
    unfold properAct at h
    rw [Bool.and_eq_true, Bool.and_eq_true] at h
    refine ⟨Kernel.proper_of_properCall h.1.1, h.1.2, ?_⟩
    intro t ht
    rw [ht] at h
    exact of_decide_eq_true h.2
  | _ => trivial

/-- Proper, and not late. -/
def onTime (lock : S) (s : Sys S) (a : Act S) : Bool := properAct lock s a && !(decide (a = .resume) && s.late lock)

theorem guard_of_onTime (h : onTime lock s a = true) : s.Proper lock a ∧ ¬ (a = .resume ∧ s.late lock = true) := by
  unfold onTime at h
  rw [Bool.and_eq_true, Bool.not_eq_true', Bool.and_eq_false_iff] at h
  refine ⟨proper_of_properAct h.1, ?_⟩
  rintro ⟨ha, hlate⟩
  rcases h.2 with hne | hnot
  · exact of_decide_eq_false hne ha
  · rw [hlate] at hnot
    cases hnot

/-- A run after `thread_start` with the initial thread in page 0 and the idle thread in page 1, on a queue with lock 7. -/
theorem reaches_small (as : List (Act Nat)) (p : Sys Nat → Bool)
    (h : ((Kernel.threadStart 0 1 0 : Except Assertion (Kernel Nat)).toOption.bind fun k =>
      Lts.run (Sys.step 7) (fun s a => onTime 7 s a = true) (Sys.init 7 k (fun _ => 0) (fun _ => none)) as).any p = true) :
    ∃ k₀ s, Kernel.threadStart 0 1 0 = .ok k₀ ∧
      Lts.Reaches (Sys.step 7) (fun s a => s.Proper 7 a ∧ ¬ (a = .resume ∧ s.late 7 = true))
        (Sys.init 7 k₀ (fun _ => 0) (fun _ => none)) s ∧ p s = true := by
  obtain ⟨s, hs, hp⟩ := (Option.any_eq_true _ _).mp h
  obtain ⟨k₀, hk₀, hrun⟩ := Option.bind_eq_some_iff.mp hs
  exact ⟨k₀, s, Checked.toOption_eq_some hk₀, (Lts.reaches_of_run as .refl hrun).mono guard_of_onTime, hp⟩

/-- Threads 2 and 3 are made, and the idle thread goes to sleep. Thread 2 reads and waits, thread 3 reads and sleeps for
    the lock. Two bytes come in, and thread 2 takes one. -/
def twoReaders : List (Act Nat) :=
  [.other (.initThread 2), .other (.unblock 2), .other (.initThread 3), .other (.unblock 3), .other .yield,
    .other .idle, .other .idle, .other .idle, .call .getc, .call .getc, .handler (.putc 65), .handler (.putc 66),
    .other .yield, .resume, .other .yield, .other .yield]

/-- **The second reader** gets the lock when there is a byte to read, and fails the assertion of `wait`. -/
theorem second_reader_fails :
    ∃ (k₀ : Kernel Nat) (s : Sys Nat), Kernel.threadStart 0 1 0 = .ok k₀ ∧
      Lts.Reaches (Sys.step 7) (Sys.Proper 7) (Sys.init 7 k₀ (fun _ => 0) (fun _ => none)) s ∧
      s.enabled .resume = true ∧ s.exec 7 .resume = .error .wait := by
  obtain ⟨k₀, s, hboot, hreach, hp⟩ := reaches_small twoReaders (fun s => s.enabled .resume && s.late 7) (by decide +kernel)
  obtain ⟨henabled, hlate⟩ := (Bool.and_eq_true _ _).mp hp
  have hinv := inv_of_reaches (Kernel.inv_threadStart (by decide) hboot) (Kernel.proper_threadStart hboot) hreach
  exact ⟨k₀, s, hboot, hreach.mono And.left, henabled, hinv.late_fails hlate⟩

/-- Thread 2 waits for a byte. -/
theorem assertions_hold_iff_reader :
    ∃ s : Sys Nat, s.notEmpty = some 2 ∧ OneWaiter s ∧ ¬ Fails (s.exec 7 (.handler (.putc 65))) := by
  obtain ⟨k₀, s, hboot, hreach, hp⟩ := reaches_small (twoReaders.take 10)
    (fun s => decide (s.notEmpty = some 2) && s.enabled (.handler (.putc 65))) (by decide +kernel)
  obtain ⟨hwaits, henabled⟩ := (Bool.and_eq_true _ _).mp hp
  obtain ⟨hone, hall⟩ := assertions_hold_iff (by decide) hboot .refl (Kernel.proper_threadStart hboot) hreach
  exact ⟨s, of_decide_eq_true hwaits, hone, (hall (.handler (.putc 65)) henabled trivial).mpr nofun⟩

end Intq
end Asg1
