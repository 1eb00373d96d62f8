import Asg1.Threads.Sema

/-!
# `Threads.Effects` — what the running thread does to the others

Code above the scheduler keeps account of where threads are. `Undisturbed` is what it needs to know of a thread that is not
running: its stage is the same, and it sleeps if and only if it did. Blocking, `sema_down` and `sema_up` leave all threads
undisturbed but the ones that they are about, and so does anything else that other code calls.
-/

namespace Asg1
namespace Threads
namespace Kernel

variable {S : Type} {k k' k'' : Kernel S} {i t u : Page}

/-- The thread is at the stage it was at, and asleep if and only if it was. -/
structure Undisturbed (k k' : Kernel S) (u : Page) : Prop where
  stage : k'.stage u = k.stage u
  blocked : k'.status u = some .blocked ↔ k.status u = some .blocked

theorem Undisturbed.trans (h : Undisturbed k k' u) (h' : Undisturbed k' k'' u) : Undisturbed k k'' u :=
  ⟨h'.stage.trans h.stage, h'.blocked.trans h.blocked⟩

theorem undisturbed_of_eq (hstatus : k'.status u = k.status u) (hstage : k'.stage u = k.stage u) : Undisturbed k k' u :=
  ⟨hstage, by rw [hstatus]⟩

/-! ## Switches -/

section Switch

variable {k₁ : Kernel S} (h : Inv i k) (hswitch : Switch k₁ k') (hidle : k₁.idleThread = k.idleThread)
include h hswitch hidle

/-- The threads that neither stop nor are chosen do not notice a switch, and a chosen one was not asleep. -/
theorem Inv.undisturbed_switch (hstatus : ∀ u, u ≠ k.running → k₁.status u = k.status u)
    (hstage : ∀ u, u ≠ k.running → k₁.stage u = k.stage u) (hrunning : k₁.running = k.running) (h' : Inv i k')
    (hready : ∀ u ∈ k₁.readyList, u ∈ k.readyList ∨ u = k.running)
    (hu : u ≠ k.running) (hi : u ≠ i) : Undisturbed k k' u := by
  have hself : u = k₁.running → k₁.status u ≠ some .dying := by
    rw [hrunning]
    exact fun heq => absurd heq hu
  refine ⟨(hswitch.stage u hself).trans (hstage u hu), ?_⟩
  by_cases hnext : u = k'.running
  · have hafter : k'.status u = some .running := (h'.running u).mpr hnext
    have hmem : u ∈ k.readyList := by
      rcases hswitch.active with hactive | ⟨-, -, hidle'⟩
      · have hin : u ∈ k₁.readyList := by
          rw [← hactive, hnext]
          exact List.mem_cons_self
        exact (hready u hin).resolve_right hu
      · rw [← hnext, hidle] at hidle'
        exact absurd (h.place_idleThread hidle').1 hi
    have hbefore := (status_of_place_ready ((h.placed.mem .ready u).mp hmem)).1
    rw [hafter, hbefore]
    simp
  · rw [hswitch.status u hnext hself, hstatus u hu]

/-- The thread that stops is not chosen again when it is in no list. -/
theorem Inv.stopped_switch (hready : k₁.readyList = k.readyList) (hi : k.running ≠ i)
    (hdying : k₁.status k.running ≠ some .dying) :
    k'.status k.running = k₁.status k.running ∧ k'.stage k.running = k₁.stage k.running := by
  have hnext : k.running ≠ k'.running := by
    intro heq
    rcases hswitch.active with hactive | ⟨-, -, hidle'⟩
    · refine h.running_not_ready ?_
      rw [← hready, ← hactive, heq]
      exact List.mem_cons_self
    · rw [← heq, hidle] at hidle'
      exact hi (h.place_idleThread hidle').1
  exact ⟨hswitch.status _ hnext (fun _ => hdying), hswitch.stage _ (fun _ => hdying)⟩

end Switch

/-! ## Single operations -/

variable [DecidableEq S] {s : S}

/-- **`thread_block`** puts the running thread to sleep. -/
theorem Inv.block_effect (h : Inv i k) (hg : k.stage k.running = some .any) (hrun : k.threadBlock = .ok k') :
    Inv i k' ∧ k'.sema = k.sema ∧ k'.status k.running = some .blocked ∧ k'.stage k.running = some .any ∧
      ∀ u, u ≠ k.running → u ≠ i → Undisturbed k k' u := by
  have hi := h.running_ne hg rfl
  have h' : Inv i k' := h.threadBlock (by simp [hg]) hrun
  obtain ⟨k₁, hs, hrun⟩ := threadBlock_ok hrun
  have hswitch := switch_of_schedule hrun
  have hready : k₁.readyList = k.readyList := hs.ready
  obtain ⟨hstatus, hstage⟩ := h.stopped_switch hswitch hs.idleThread hready hi (by simp [hs.self])
  refine ⟨h', hs.sema_schedule hrun, hstatus.trans hs.self, (hstage.trans (hs.stage _)).trans hg, ?_⟩
  intro u hu hui
  exact h.undisturbed_switch hswitch hs.idleThread hs.status (fun u _ => hs.stage u) hs.running h'
    (fun u hu => .inl (hready ▸ hu)) hu hui

variable {woken : Option Page} {g : Stage S} {k₁ : Kernel S}

/-- **`sema_down`** without a unit puts the running thread to sleep, and it waits for the semaphore. -/
theorem Inv.sleep_effect (h : Inv i k) (hg : k.stage k.running = some g) (hnot : g.isIdle = false)
    (hzero : (k.sema s).value = 0) (hrun : k.semaDown s = .ok k') :
    Inv i k' ∧ (k'.sema s).value = 0 ∧ (∀ s', s' ≠ s → k'.sema s' = k.sema s') ∧
      k'.stage k.running = some (.down s) ∧ ∀ u, u ≠ k.running → u ≠ i → Undisturbed k k' u := by
  have hi := h.running_ne hg hnot
  have h' : Inv i k' := h.semaDown hg hnot hrun
  rcases semaDown_ok hrun with ⟨-, hrunning, hrun⟩ | ⟨hpos, -⟩
  · have hswitch := switch_of_schedule hrun
    have hself : (k.asleep s).status k.running = some .blocked := status_asleep_self hrunning
    obtain ⟨-, hstage⟩ := h.stopped_switch hswitch rfl rfl hi (by simp [hself])
    refine ⟨h', ?_, ?_, hstage.trans (stage_asleep_self hrunning), ?_⟩
    · rw [hswitch.sema, sema_asleep_self]
      exact hzero
    · intro s' hs'
      rw [hswitch.sema, sema_asleep_ne hs']
    · intro u hu hui
      exact h.undisturbed_switch hswitch rfl (fun u hu => status_asleep_ne hu) (fun u hu => stage_asleep_ne hu) rfl h'
        (fun u hu => .inl hu) hu hui
  · omega

/-- **`sema_down`** takes a unit if there is one. -/
theorem Inv.take_effect (h : Inv i k) (hg : k.stage k.running = some g) (hnot : g.isIdle = false)
    (hpos : 0 < (k.sema s).value) :
    ∃ k', k.semaDown s = .ok k' ∧ Inv i k' ∧ k'.running = k.running ∧ (k'.sema s).value = (k.sema s).value - 1 ∧
      (∀ s', s' ≠ s → k'.sema s' = k.sema s') ∧ k'.stage k.running = some .any ∧
      (∀ u, k'.status u = k.status u) ∧ ∀ u, u ≠ k.running → Undisturbed k k' u := by
  have hrun : k.semaDown s =
      .ok ((k.setSema s { k.sema s with value := (k.sema s).value - 1 }).setStage k.running .any) := by
    unfold Kernel.semaDown
    rw [if_neg (by omega)]
  refine ⟨_, hrun, h.semaDown hg hnot hrun, rfl, ?_, ?_, ?_, fun u => status_setStage, ?_⟩
  · simp [setSema, Kernel.setStage, setThread]
  · intro s' hs'
    simp [setSema, Kernel.setStage, setThread, hs']
  · exact stage_setStage_self (k := k.setSema s _) hg
  · exact fun u hu => undisturbed_of_eq status_setStage (stage_setStage_ne hu)

/-- **`sema_up`** never finds a waiter that is not asleep, and it disturbs nobody else. -/
theorem Inv.up_effect (h : Inv i k) :
    ∃ k', k.semaUp s = .ok k' ∧ Inv i k' ∧ k'.running = k.running ∧
      (k'.sema s).value = ((k.sema s).value + 1) % 2 ^ 32 ∧ (∀ s', s' ≠ s → k'.sema s' = k.sema s') ∧
      (∀ u, k'.stage u = k.stage u) ∧ ∀ u, k.stage u ≠ some (.down s) → k'.status u = k.status u := by
  cases hwaiters : (k.sema s).waiters with
  | nil =>
    have hrun : k.semaUp s = .ok (k.setSema s { k.sema s with value := ((k.sema s).value + 1) % 2 ^ 32 }) := by
      unfold Kernel.semaUp Kernel.semaWake
      rw [hwaiters]
      rfl
    obtain ⟨hrunning, -, hstage, hother, hvalue, -⟩ := semaUp_ok hrun
    exact ⟨_, hrun, h.semaUp hrun, hrunning, hvalue, hother, hstage, fun u _ => rfl⟩
  | cons t ts =>
    have hmem : t ∈ (k.sema s).waiters := by
      rw [hwaiters]
      exact List.mem_cons_self
    obtain ⟨hblocked, hdown⟩ := status_of_place_waiters ((h.placed.mem (.waiters s) t).mp hmem)
    have hwake : (k.setSema s { k.sema s with waiters := ts }).threadUnblock t =
        .ok (((k.setSema s { k.sema s with waiters := ts }).pushReady t).setStatus t .ready) := by
      unfold Kernel.threadUnblock
      have hst : (k.setSema s { k.sema s with waiters := ts }).status t = some .blocked := hblocked
      rw [hst]
      rfl
    have hrun : ∃ k', k.semaUp s = .ok k' := by
      unfold Kernel.semaUp Kernel.semaWake
      rw [hwaiters]
      exact ⟨_, Checked.ok_bind hwake⟩
    obtain ⟨k', hrun⟩ := hrun
    obtain ⟨hrunning, -, hstage, hother, hvalue, -⟩ := semaUp_ok hrun
    refine ⟨k', hrun, h.semaUp hrun, hrunning, hvalue, hother, hstage, ?_⟩
    intro u hu
    have hne : u ≠ t := by
      rintro rfl
      exact hu hdown
    unfold Kernel.semaUp Kernel.semaWake at hrun
    rw [hwaiters] at hrun
    obtain ⟨k₁, hwake', hrun⟩ := Checked.bind_ok hrun
    cases hrun
    cases hwake.symm.trans hwake'
    exact status_setStatus_ne hne

/-- **`thread_unblock`** of a thread that sleeps outside `sema_down`. -/
theorem Inv.unblock_effect (h : Inv i k) (hblocked : k.status t = some .blocked) (hg : k.stage t = some .any) :
    ∃ k', k.threadUnblock t = .ok k' ∧ Inv i k' ∧ k'.running = k.running ∧ k'.sema = k.sema ∧
      k'.status t = some .ready ∧ (∀ u, k'.stage u = k.stage u) ∧ ∀ u, u ≠ t → k'.status u = k.status u := by
  have hrun : k.threadUnblock t = .ok ((k.pushReady t).setStatus t .ready) := by
    unfold Kernel.threadUnblock
    rw [hblocked]
    rfl
  have hidle : k.idleThread ≠ some t := by
    intro hidle
    obtain ⟨rfl, -⟩ := h.place_idleThread hidle
    obtain ⟨g, hg', hisIdle, -⟩ := h.idle
    rw [hg, Option.some.injEq] at hg'
    rw [← hg'] at hisIdle
    cases hisIdle
  refine ⟨_, hrun, h.threadUnblock ⟨by simp [hg], hidle⟩ hrun, rfl, rfl, ?_, fun u => stage_setStatus,
    fun u hu => status_setStatus_ne hu⟩
  exact status_setStatus_self (k := k.pushReady t) hblocked

/-! ## Other code -/

/-- The action is not about the semaphore `q`. -/
def foreign (q : S) (k : Kernel S) : Action S → Bool
  | .semaInit s _ | .semaDown s | .semaTryDown s | .semaUp s => s ≠ q
  | .idle => k.stage k.running ≠ some (.idleUp q)
  | _ => true

/-- What code that does not use the semaphore `q` leaves: the semaphore, who is inside `sema_down` on it, and the threads
    outside `sema_down` that it does not wake by name. -/
structure Aside (q : S) (k k' : Kernel S) (woken : Option Page) : Prop where
  sema : k'.sema q = k.sema q
  down : ∀ u, k'.stage u = some (.down q) ↔ k.stage u = some (.down q)
  calm : ∀ u, u ≠ k.running → k.stage u = some .any → woken ≠ some u → Undisturbed k k' u

variable {q : S}

omit [DecidableEq S] in
theorem stage_schedule (hrun : k.schedule = .ok k') (u : Page) : k'.stage u = k.stage u ∨ u = k.running ∧ k'.stage u = none := by
  obtain ⟨next, ready, st, -, -, hcases⟩ := schedule_ok hrun
  rcases hcases with ⟨rfl, -⟩ | ⟨rfl, hne, -, -⟩
  · exact .inl stage_setStatus
  · by_cases hu : u = k.running
    · subst hu
      exact .inr ⟨rfl, stage_setStatus.trans stage_setThread_self⟩
    · exact .inl (stage_setStatus.trans (stage_setThread_ne hu))

omit [DecidableEq S] in
/-- The running thread stops, and not in `sema_down` on `q`. -/
theorem Inv.aside_switch (h : Inv i k) (h' : Inv i k') (hrun : k₁.schedule = .ok k')
    (hstatus : ∀ u, u ≠ k.running → k₁.status u = k.status u) (hstage : ∀ u, u ≠ k.running → k₁.stage u = k.stage u)
    (hrunning : k₁.running = k.running) (hidle : k₁.idleThread = k.idleThread) (hsema : k₁.sema q = k.sema q)
    (hready : ∀ u ∈ k₁.readyList, u ∈ k.readyList ∨ u = k.running) (hself : k.stage k.running ≠ some (.down q))
    (hself' : k₁.stage k.running ≠ some (.down q)) : Aside q k k' woken := by
  have hswitch := switch_of_schedule hrun
  refine ⟨by rw [hswitch.sema, hsema], ?_, ?_⟩
  · intro u
    by_cases hu : u = k.running
    · rw [hu]
      refine iff_of_false ?_ hself
      rcases stage_schedule hrun k.running with heq | ⟨-, hgone⟩
      · rw [heq]
        exact hself'
      · rw [hgone]
        nofun
    · have heq := (stage_schedule hrun u).resolve_right (fun hr => hu (hr.1.trans hrunning))
      rw [heq, hstage u hu]
  · intro u hu hany _
    refine h.undisturbed_switch hswitch hidle hstatus hstage hrunning h' hready hu ?_
    rintro rfl
    obtain ⟨g, hg, hisIdle, -⟩ := h.idle
    rw [hany, Option.some.injEq] at hg
    rw [← hg] at hisIdle
    cases hisIdle

omit [DecidableEq S] in
theorem Inv.aside_stops {st : ThreadStatus} (h : Inv i k) (h' : Inv i k')
    (hs : Stops k st k₁) (hself : k.stage k.running ≠ some (.down q)) (hrun : k₁.schedule = .ok k') : Aside q k k' woken := by
  refine h.aside_switch h' hrun hs.status (fun u _ => hs.stage u) hs.running hs.idleThread (by rw [hs.sema]) ?_ hself
    (by rw [hs.stage]; exact hself)
  grind [hs.ready]

omit [DecidableEq S] in
/-- Nothing changes but the status of the threads that are woken. -/
theorem aside_of_same (hsema : k'.sema q = k.sema q) (hstage : ∀ u, k'.stage u = k.stage u)
    (hstatus : ∀ u, k.stage u = some .any → woken ≠ some u → k'.status u = k.status u) : Aside q k k' woken :=
  ⟨hsema, fun u => by rw [hstage], fun u _ hany hu => undisturbed_of_eq (hstatus u hany hu) (hstage u)⟩

/-- The thread that an action wakes by name. -/
def wakes : Action S → Option Page
  | .unblock t => some t
  | _ => none

/-- **Other code leaves a semaphore alone**, and the threads that sleep for other reasons. -/
theorem Inv.aside {a : Action S} (h : Inv i k) (hproper : k.Proper a) (hforeign : k.foreign q a = true)
    (hself : k.stage k.running ≠ some (.down q)) (hstep : k.step a = some k') : Aside q k k' (wakes a) := by
  have h' : Inv i k' := h.step hproper hstep
  obtain ⟨g, hg, hat, hnew, hrun⟩ := h.step_ok hstep
  have hrunning := (h.running k.running).mpr rfl
  cases a with
  | initThread t =>
    cases hrun
    have hnone : k.stage t = none := by
      unfold stage
      rw [hnew t rfl]
      rfl
    refine ⟨rfl, ?_, ?_⟩
    · intro u
      by_cases hu : u = t
      · rw [hu, hnone, show (k.initThread t .any).stage t = some .any from stage_setThread_self]
        simp
      · rw [show (k.initThread t .any).stage u = k.stage u from stage_setThread_ne hu]
    · intro u _ hany _
      have hu : u ≠ t := by
        rintro rfl
        rw [hnone] at hany
        cases hany
      exact undisturbed_of_eq (status_setThread_ne hu) (stage_setThread_ne hu)
  | block =>
    obtain ⟨k₁, hs, hrun⟩ := threadBlock_ok hrun
    exact h.aside_stops h' hs hself hrun
  | unblock t =>
    obtain ⟨-, rfl⟩ := threadUnblock_ok hrun
    refine aside_of_same rfl (fun u => stage_setStatus) ?_
    intro u _ hu
    exact status_setStatus_ne (fun heq => hu (by rw [heq]; rfl))
  | yield =>
    obtain ⟨k₁, hs, hrun⟩ := threadYield_ok hrun
    exact h.aside_stops h' hs hself hrun
  | exit =>
    obtain ⟨k₁, hs, hrun⟩ := threadExit_ok hrun
    exact h.aside_stops h' hs hself hrun
  | semaInit s value =>
    cases hrun
    have hne : q ≠ s := fun heq => of_decide_eq_true hforeign heq.symm
    refine aside_of_same ?_ (fun u => rfl) (fun u _ _ => rfl)
    simp [Kernel.semaInit, setSema, hne]
  | semaDown s =>
    have hne : s ≠ q := of_decide_eq_true hforeign
    have hnot : g.isIdle = false := hat.not_idle (by simp) rfl
    rcases semaDown_ok hrun with ⟨-, -, hsleep⟩ | ⟨hpos, -⟩
    · refine h.aside_switch h' hsleep (fun u hu => status_asleep_ne hu) (fun u hu => stage_asleep_ne hu) rfl rfl
        (sema_asleep_ne hne.symm) (fun u hu => .inl hu) hself ?_
      rw [stage_asleep_self hrunning]
      simpa using hne
    · obtain ⟨k₁, hrun', -, -, -, hother, hany, -, hcalm⟩ := h.take_effect hg hnot hpos
      cases hrun'.symm.trans hrun
      refine ⟨hother q hne.symm, ?_, fun u hu _ _ => hcalm u hu⟩
      intro u
      by_cases hu : u = k.running
      · rw [hu, hany]
        exact iff_of_false (by simp) hself
      · rw [(hcalm u hu).stage]
  | semaTryDown s =>
    cases hrun
    have hne : q ≠ s := fun heq => of_decide_eq_true hforeign heq.symm
    unfold Kernel.semaTryDown
    split
    · exact aside_of_same (by simp [setSema, hne]) (fun u => rfl) (fun u _ _ => rfl)
    · exact aside_of_same rfl (fun u => rfl) (fun u _ _ => rfl)
  | semaUp s =>
    have hne : q ≠ s := fun heq => of_decide_eq_true hforeign heq.symm
    obtain ⟨k₁, hup, -, -, -, hother, hstage, hstatus⟩ := h.up_effect (s := s)
    cases hup.symm.trans hrun
    exact aside_of_same (hother q hne) hstage (fun u hany _ => hstatus u (by simp [hany]))
  | idle =>
    unfold Kernel.exec Kernel.idle at hrun
    rw [hg] at hrun
    have hblock : k.threadBlock = .ok k' → Aside q k k' none := by
      intro hrun
      obtain ⟨k₁, hs, hrun⟩ := threadBlock_ok hrun
      exact h.aside_stops h' hs hself hrun
    -- the running thread comes to another stage of `idle`
    have hset : ∀ {k₁ : Kernel S} {g' : Stage S}, k₁.stage k.running = some g → g' ≠ .down q →
        k₁.sema q = k.sema q → (∀ u, k₁.stage u = k.stage u) →
        (∀ u, k.stage u = some .any → k₁.status u = k.status u) → Aside q k (k₁.setStage k.running g') none := by
      intro k₁ g' hg₁ hg' hsema hstage hstatus
      refine ⟨hsema, ?_, ?_⟩
      · intro u
        by_cases hu : u = k.running
        · rw [hu, stage_setStage_self hg₁]
          exact iff_of_false (by simpa using hg') hself
        · rw [stage_setStage_ne hu, hstage]
      · exact fun u hu hany _ =>
          undisturbed_of_eq (status_setStage.trans (hstatus u hany)) ((stage_setStage_ne hu).trans (hstage u))
    cases g with
    | idleEntry idleStarted =>
      obtain ⟨_, hcur, hrun⟩ := Checked.bind_ok hrun
      obtain ⟨rfl, -⟩ := threadCurrent_ok hcur
      cases hrun
      exact @hset { k with idleThread := some k.running } _ hg (by simp) rfl (fun u => rfl) (fun u _ => rfl)
    | idleUp s =>
      obtain ⟨k₁, hup, hrun⟩ := Checked.bind_ok hrun
      cases hrun
      have hne : q ≠ s := by
        rintro rfl
        exact of_decide_eq_true hforeign hg
      obtain ⟨k₂, hup', -, hrunning', -, hother, hstage, hstatus⟩ := h.up_effect (s := s)
      cases hup.symm.trans hup'
      rw [hrunning']
      exact hset ((hstage _).trans hg) (by simp) (hother q hne) hstage (fun u hany => hstatus u (by simp [hany]))
    | any => exact hblock hrun
    | down s => exact hblock hrun
    | idleLoop => exact hblock hrun

end Kernel
end Threads
end Asg1
