import Asg1.Threads.Places

/-!
# `Threads.Queues` — which thread is in which list, in every state the kernel can reach

The steps of the kernel keep the invariant of `Threads.Places`, and `thread_start` establishes it, so it holds along every
run whose calls are proper (`Kernel.Proper`). `Consistent` spells out what it says about the run queue, the waiters of the
semaphores, the threads that exit and the idle thread. A direct call of `thread_unblock` for a thread that waits for a
semaphore is not proper: it links the thread into two lists.
-/

namespace Asg1
namespace Threads
namespace Kernel

variable {S : Type} [DecidableEq S] {k k' : Kernel S} {i : Page}

/-! ## Steps and runs -/

/-- What the running thread may be doing when the action comes next. -/
inductive At : Stage S → Action S → Prop
  | any {a : Action S} (h : a ≠ .idle) : At .any a
  | down (s : S) : At (.down s) (.semaDown s)
  | idle {g : Stage S} (h : g.isIdle = true) : At g .idle
  | handler {g : Stage S} {a : Action S} (h : g.isIdle = true) (ha : a.inHandler = true) : At g a

variable {a : Action S} {initial idle : Page}

/-- A step is one of the kernel's functions, called where that is possible. -/
theorem Inv.step_ok (h : Inv i k) (hstep : k.step a = some k') :
    ∃ g, k.stage k.running = some g ∧ At g a ∧ (∀ t, a = .initThread t → k.thread t = none) ∧ k.exec a = .ok k' := by
  unfold Kernel.step at hstep
  split at hstep
  case isFalse => cases hstep
  rename_i henabled
  unfold Kernel.enabled at henabled
  rw [Bool.and_eq_true] at henabled
  obtain ⟨hstage, hnew⟩ := henabled
  obtain ⟨g, hg⟩ := stage_of_status ((h.running k.running).mpr rfl)
  rw [hg] at hstage
  refine ⟨g, hg, ?_, ?_, Checked.toOption_eq_some hstep⟩
  · have hidle : g.isIdle = true → a = .idle ∨ a.inHandler = true → At g a := by
      rintro hisIdle (rfl | ha)
      · exact .idle hisIdle
      · exact .handler hisIdle ha
    cases g with
    | any => exact .any (of_decide_eq_true hstage)
    | down s =>
      obtain rfl := of_decide_eq_true hstage
      exact .down s
    | idleEntry s => exact hidle rfl (of_decide_eq_true hstage)
    | idleUp s => exact hidle rfl (of_decide_eq_true hstage)
    | idleLoop => exact hidle rfl (of_decide_eq_true hstage)
  · rintro t rfl
    exact Option.isNone_iff_eq_none.mp hnew

variable {idleStarted : S} {g : Stage S}

omit [DecidableEq S] in
/-- Only the idle thread runs the code of `idle`, and it calls nothing else of its own. -/
theorem At.not_idle (h : At g a) (ha : a ≠ .idle) (ha' : a.inHandler = false) : g.isIdle = false := by
  cases h with
  | any => rfl
  | down => rfl
  | idle => exact absurd rfl ha
  | handler _ hin =>
    rw [hin] at ha'
    cases ha'

omit [DecidableEq S] in
theorem At.not_down (h : At g a) (ha : ∀ s, a ≠ .semaDown s) (s : S) : g ≠ .down s := by
  rintro rfl
  cases h with
  | down => exact ha s rfl
  | idle hg => cases hg
  | handler hg => cases hg

/-- **One step keeps the lists.** -/
theorem Inv.step (h : Inv i k) (hproper : k.Proper a) (hstep : k.step a = some k') : Inv i k' := by
  obtain ⟨g, hg, hat, hnew, hrun⟩ := h.step_ok hstep
  cases a with
  | initThread t =>
    cases hrun
    exact h.initThread (hnew t rfl)
  | block =>
    refine h.threadBlock ?_ hrun
    intro s hs
    rw [hg, Option.some.injEq] at hs
    exact hat.not_down (by simp) s hs
  | unblock t => exact h.threadUnblock hproper hrun
  | yield => exact h.threadYield hrun
  | exit => exact h.threadExit (h.running_ne hg (hat.not_idle (by simp) rfl)) hrun
  | semaInit s value =>
    cases hrun
    exact h.semaInit hproper
  | semaDown s => exact h.semaDown hg (hat.not_idle (by simp) rfl) hrun
  | semaTryDown s =>
    cases hrun
    exact h.semaTryDown
  | semaUp s => exact h.semaUp hrun
  | idle =>
    refine h.idleStep hg ?_ hrun
    cases hat with
    | any hne => exact absurd rfl hne
    | idle hisIdle => exact hisIdle
    | handler _ hin => cases hin

/-- The two threads after `thread_start`. -/
theorem thread_threadStart (hrun : threadStart initial idle idleStarted = .ok k)
    (u : Page) : k.thread u = if u = idle then some ⟨.ready, .idleEntry idleStarted⟩ else
      if u = initial then some ⟨.running, .any⟩ else none := by
  obtain ⟨-, hk⟩ := threadUnblock_ok hrun
  rw [hk]
  simp only [setStatus, pushReady, Kernel.initThread, Kernel.semaInit, setSema, setThread, threadInit,
    Function.update_apply, Option.map_some, if_true]
  split <;> rfl

/-- No thread is inside `sema_down` yet. -/
theorem proper_threadStart {s : S} {v : Nat}
    (hrun : threadStart initial idle idleStarted = .ok k) : k.Proper (.semaInit s v) := by
  intro u hu
  unfold stage at hu
  rw [thread_threadStart hrun u] at hu
  split at hu
  · cases hu
  · split at hu <;> cases hu

theorem inv_threadStart (hne : idle ≠ initial) (hrun : threadStart initial idle idleStarted = .ok k) : Inv idle k := by
  obtain ⟨-, hk⟩ := threadUnblock_ok hrun
  have hthread := thread_threadStart hrun
  have hstatus : ∀ u, k.status u = if u = idle then some .ready else if u = initial then some .running else none := by
    intro u
    rw [status, hthread]
    grind
  have hdying : ∀ u, k.status u ≠ some .dying := by
    grind
  have hthere : k.idleThread = none := by rw [hk]; rfl
  have hrunning : k.running = initial := by rw [hk]; rfl
  constructor
  case running => grind
  constructor
  case placed =>
    have hready : k.readyList = [idle] := by rw [hk]; rfl
    have hsema : ∀ s, (k.sema s).waiters = [] := by
      intro s
      rw [hk]
      show (Function.update (fun _ => (⟨0, []⟩ : Semaphore)) idleStarted ⟨0 % 2 ^ 32, []⟩ s).waiters = []
      rw [Function.update_apply]
      split <;> rfl
    have hplace : ∀ u, k.place u = if u = idle then some .ready else none := by
      grind [place]
    constructor
    case mem =>
      intro q u
      cases q <;> simp [queue, hplace, hready, hsema]
    case nodup =>
      intro q
      cases q <;> simp [queue, hready, hsema]
  case only =>
    intro u g hg hisIdle
    rw [stage, hthread] at hg
    grind [Stage.isIdle]
  case idle => exact ⟨.idleEntry idleStarted, by simp [stage, hthread], rfl, hthere⟩
  case alive => exact hdying idle
  case dying => exact fun u hu => absurd hu (hdying u)
  case freed =>
    have hleaving : k.leaving = [] := if_neg (fun hd => hdying _ hd.1)
    rw [hleaving, hk]
    rfl
  case apart =>
    rw [hk]
    intro f hf
    cases hf

/-- What is promised about the lists of threads. -/
structure Consistent (idle : Page) (k : Kernel S) : Prop where
  running : ∀ t, k.status t = some .running ↔ t = k.running
  ready : ∀ t, t ∈ k.readyList ↔ k.status t = some .ready ∧ k.idleThread ≠ some t
  ready_once : k.readyList.Nodup
  waiters_once : ∀ s, (k.sema s).waiters.Nodup
  one_list : ∀ t s, t ∈ (k.sema s).waiters → t ∉ k.readyList ∧ ∀ s', t ∈ (k.sema s').waiters → s = s'
  waiting : ∀ t s, t ∈ (k.sema s).waiters → k.status t = some .blocked
  dying : ∀ t, k.status t = some .dying → t ∉ k.readyList ∧ ∀ s, t ∉ (k.sema s).waiters
  freed : k.frees.map Prod.fst = k.exits.filter (fun t => decide (t ≠ k.initialThread))
  apart : ∀ f ∈ k.frees, f.1 ≠ f.2
  idle : k.stage idle = some .idleLoop → k.idleThread = some idle ∧ idle ∉ k.readyList

omit [DecidableEq S] in
theorem Inv.consistent (h : Inv i k) : Consistent i k := by
  have hready : ∀ t, t ∈ k.readyList ↔ k.status t = some .ready ∧ k.idleThread ≠ some t := by
    intro t
    refine (h.placed.mem .ready t).trans ⟨status_of_place_ready, ?_⟩
    rintro ⟨hst, hidle⟩
    exact place_ready hst hidle
  have hwaiting : ∀ t s, t ∈ (k.sema s).waiters → k.status t = some .blocked := fun t s ht =>
    (status_of_place_waiters ((h.placed.mem (.waiters s) t).mp ht)).1
  constructor
  case running => exact h.running
  case ready => exact hready
  case ready_once => exact h.placed.nodup .ready
  case waiters_once => exact fun s => h.placed.nodup (.waiters s)
  case one_list =>
    intro t s ht
    refine ⟨?_, ?_⟩
    · intro hr
      cases h.placed.unique (i := .ready) (j := .waiters s) hr ht
    · intro s' ht'
      cases h.placed.unique (i := .waiters s) (j := .waiters s') ht ht'
      rfl
  case waiting => exact hwaiting
  case dying =>
    intro t ht
    refine ⟨?_, ?_⟩
    · intro hr
      rw [((hready t).mp hr).1] at ht
      cases ht
    · intro s hs
      rw [hwaiting t s hs] at ht
      cases ht
  case freed =>
    have hfreed := h.freed
    rw [h.leaving_nil, List.append_nil] at hfreed
    exact hfreed.symm
  case apart => exact h.apart
  case idle =>
    intro hstage
    obtain ⟨g, hg, -, hidle⟩ := h.idle
    rw [hstage, Option.some.injEq] at hg
    rw [← hg] at hidle
    refine ⟨hidle, ?_⟩
    intro hr
    exact ((hready i).mp hr).2 hidle

/-- **The lists of threads** are as they should be in every state that the kernel can reach after `thread_start`. -/
theorem scheduler_queues {initial idle : Page} {idleStarted : S} {k₀ : Kernel S} (hne : idle ≠ initial)
    (hboot : threadStart initial idle idleStarted = .ok k₀) (hreach : Lts.Reaches step Proper k₀ k) : Consistent idle k := by
  refine Inv.consistent (Lts.Reaches.invariant (I := Inv idle) hreach (inv_threadStart hne hboot) ?_)
  intro t u a h hproper hstep
  exact h.step hproper hstep

/-! ## Runs of a small kernel -/

/-- The calls that keep to `Proper` and do not reuse a semaphore. -/
def properCall (k : Kernel S) : Action S → Bool
  | .unblock t => (match k.stage t with | some (.down _) => false | _ => true) && k.idleThread ≠ some t
  | .semaInit _ _ => false
  | _ => true

omit [DecidableEq S] in
theorem proper_of_properCall (h : k.properCall a = true) : k.Proper a := by
  cases a with
  | unblock t =>
    unfold properCall at h
    rw [Bool.and_eq_true] at h
    refine ⟨?_, by simpa using h.2⟩
    intro s hs
    rw [hs] at h
    cases h.1
  | semaInit s v => cases h
  | _ => trivial

/-- A run after `thread_start` with the initial thread in page 0 and the idle thread in page 1. -/
theorem reaches_small (G : Kernel Nat → Action Nat → Prop) [∀ k a, Decidable (G k a)] (as : List (Action Nat))
    (p : Kernel Nat → Bool)
    (h : ((threadStart 0 1 0 : Except Assertion (Kernel Nat)).toOption.bind fun k => Lts.run step G k as).any p = true) :
    ∃ k₀ k, threadStart 0 1 0 = .ok k₀ ∧ Lts.Reaches step G k₀ k ∧ p k = true := by
  obtain ⟨k, hk, hp⟩ := (Option.any_eq_true _ _).mp h
  obtain ⟨k₀, hk₀, hrun⟩ := Option.bind_eq_some_iff.mp hk
  exact ⟨k₀, k, Checked.toOption_eq_some hk₀, Lts.reaches_of_run as .refl hrun, hp⟩

/-- Thread 2 is made, the idle thread goes to sleep, and thread 2 waits for semaphore 7. -/
def waitsForSeven : List (Action Nat) :=
  [.initThread 2, .unblock 2, .yield, .idle, .idle, .idle, .semaDown 7]

theorem scheduler_queues_waiting : ∃ k : Kernel Nat, 2 ∈ (k.sema 7).waiters ∧ k.stage 1 = some .idleLoop ∧ Consistent 1 k := by
  obtain ⟨k₀, k, hboot, hreach, hp⟩ := reaches_small (fun k a => k.properCall a = true) waitsForSeven
    (fun k => decide (2 ∈ (k.sema 7).waiters ∧ k.stage 1 = some .idleLoop)) (by decide +kernel)
  obtain ⟨hwaits, hstage⟩ := of_decide_eq_true hp
  exact ⟨k, hwaits, hstage, scheduler_queues (by decide) hboot (hreach.mono proper_of_properCall)⟩

/-- No semaphore is initialised, so none is destroyed. -/
def initsNothing (_ : Kernel S) : Action S → Bool
  | .semaInit _ _ => false
  | _ => true

/-- **`thread_unblock` for a thread that waits for a semaphore** links it into the run queue while it is still with the
    waiters, and for the idle thread it puts that into the run queue. -/
theorem unblock_links_twice :
    (∃ k₀ k : Kernel Nat, threadStart 0 1 0 = .ok k₀ ∧ Lts.Reaches step (fun k a => k.initsNothing a = true) k₀ k ∧
      2 ∈ k.readyList ∧ 2 ∈ (k.sema 7).waiters) ∧
    ∃ k₀ k : Kernel Nat, threadStart 0 1 0 = .ok k₀ ∧ Lts.Reaches step (fun k a => k.initsNothing a = true) k₀ k ∧
      k.stage 1 = some .idleLoop ∧ 1 ∈ k.readyList := by
  constructor
  · obtain ⟨k₀, k, hboot, hreach, hp⟩ := reaches_small (fun k a => k.initsNothing a = true) (waitsForSeven ++ [.unblock 2])
      (fun k => decide (2 ∈ k.readyList ∧ 2 ∈ (k.sema 7).waiters)) (by decide +kernel)
    exact ⟨k₀, k, hboot, hreach, of_decide_eq_true hp⟩
  · obtain ⟨k₀, k, hboot, hreach, hp⟩ := reaches_small (fun k a => k.initsNothing a = true) (waitsForSeven ++ [.unblock 1])
      (fun k => decide (k.stage 1 = some .idleLoop ∧ 1 ∈ k.readyList)) (by decide +kernel)
    exact ⟨k₀, k, hboot, hreach, of_decide_eq_true hp⟩

end Kernel
end Threads
end Asg1
