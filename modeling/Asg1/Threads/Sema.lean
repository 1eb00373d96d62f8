import Asg1.Threads.Queues

/-!
# `Threads.Sema` — semaphores lose no wakeup

A thread that `sema_up` wakes has no claim on the unit: it tests the value again when it runs, and another thread may have
taken the unit by then. `onTheWay` are the threads between the two, woken and not yet through with the test; they are ready
or running. What keeps every waiter from being forgotten is that the value is never greater than the number of threads on
the way while threads wait (`Covered`). Beside it the value is the initial value with the ups added and the completed downs
taken away, counted along the run.
-/

namespace Asg1
namespace Threads
namespace Kernel

open List Function

variable {S : Type} {k k' : Kernel S} {i t : Page}

/-! ## What a switch changes -/

/-- The effect of `schedule`: a thread from the run queue runs, or the idle thread. The thread that is left may be gone
    if it was dying. -/
structure Switch (k k' : Kernel S) : Prop where
  sema : k'.sema = k.sema
  idleThread : k'.idleThread = k.idleThread
  active : k'.running :: k'.readyList = k.readyList ∨
    k.readyList = [] ∧ k'.readyList = [] ∧ k.idleThread = some k'.running
  stage : ∀ t, (t = k.running → k.status t ≠ some .dying) → k'.stage t = k.stage t
  status : ∀ t, t ≠ k'.running → (t = k.running → k.status t ≠ some .dying) → k'.status t = k.status t

theorem switch_of_schedule (hrun : k.schedule = .ok k') : Switch k k' := by
  obtain ⟨next, ready, st, hactive, -, hcases⟩ := schedule_ok hrun
  have hactive' : next :: ready = k.readyList ∨ k.readyList = [] ∧ ready = [] ∧ k.idleThread = some next := by
    rcases hactive with hready | hidle
    · exact .inl hready.symm
    · exact .inr hidle
  rcases hcases with ⟨rfl, -⟩ | ⟨rfl, -, hdying, -⟩
  · exact ⟨rfl, rfl, hactive', fun t _ => stage_setStatus, fun t ht _ => status_setStatus_ne ht⟩
  · -- the old thread is gone
    have hother : ∀ t, (t = k.running → k.status t ≠ some .dying) → t ≠ k.running := by
      rintro t ht rfl
      exact ht rfl hdying
    refine ⟨rfl, rfl, hactive', ?_, ?_⟩
    · intro t ht
      exact stage_setStatus.trans (stage_setThread_ne (hother t ht))
    · intro t hnext ht
      exact (status_setStatus_ne hnext).trans (status_setThread_ne (hother t ht))

/-! ## Threads on the way -/

variable {s : S}

theorem Inv.running_not_ready (h : Inv i k) : k.running ∉ k.readyList := by
  intro hmem
  have hplace := (h.placed.mem .ready _).mp hmem
  rw [h.place_running] at hplace
  cases hplace

theorem Inv.idle_stage (h : Inv i k) (hidle : k.idleThread = some t) : k.stage t ≠ some (.down s) := by
  obtain ⟨rfl, -⟩ := h.place_idleThread hidle
  obtain ⟨g, hg, hisIdle, -⟩ := h.idle
  rw [hg]
  rintro ⟨⟩
  cases hisIdle

variable [DecidableEq S]

/-- The threads that have been woken in `sema_down` and have not tested the value again. -/
def onTheWay (k : Kernel S) (s : S) : List Page :=
  (k.running :: k.readyList).filter fun t => decide (k.stage t = some (.down s))

/-- While threads wait, every unit has somebody on the way to it. -/
def Covered (k : Kernel S) : Prop := ∀ s, (k.sema s).waiters ≠ [] → (k.sema s).value ≤ (k.onTheWay s).length

theorem mem_onTheWay : t ∈ k.onTheWay s ↔ (t = k.running ∨ t ∈ k.readyList) ∧ k.stage t = some (.down s) := by
  unfold onTheWay
  rw [mem_filter, mem_cons, decide_eq_true_eq]

/-- **Who is on the way**: the threads inside `sema_down` that are not with the waiters. -/
theorem Inv.mem_onTheWay_iff (h : Inv i k) : t ∈ k.onTheWay s ↔ k.stage t = some (.down s) ∧ k.status t ≠ some .dying ∧
    t ∉ (k.sema s).waiters := by
  have hwaiters : ∀ {t}, t ∈ (k.sema s).waiters → k.status t = some .blocked := fun ht =>
    (status_of_place_waiters ((h.placed.mem (.waiters s) _).mp ht)).1
  rw [mem_onTheWay]
  constructor
  · rintro ⟨hwhere, hstage⟩
    have hstatus : k.status t = some .running ∨ k.status t = some .ready := by
      rcases hwhere with rfl | hmem
      · exact .inl ((h.running _).mpr rfl)
      · exact .inr (status_of_place_ready ((h.placed.mem .ready t).mp hmem)).1
    refine ⟨hstage, ?_, ?_⟩
    · rcases hstatus with hst | hst <;> simp [hst]
    · intro hmem
      rw [hwaiters hmem] at hstatus
      simp at hstatus
  · rintro ⟨hstage, hdying, hnot⟩
    refine ⟨?_, hstage⟩
    obtain ⟨st, hst⟩ := status_of_stage hstage
    cases st with
    | running => exact .inl ((h.running t).mp hst)
    | ready =>
      refine .inr ((h.placed.mem .ready t).mpr (place_ready hst ?_))
      exact fun hidle => h.idle_stage hidle hstage
    | blocked => exact absurd ((h.placed.mem (.waiters s) t).mpr (place_down hst hstage)) hnot
    | dying => exact absurd hst hdying

theorem Inv.nodup_onTheWay (h : Inv i k) : (k.onTheWay s).Nodup := by
  refine List.Nodup.filter _ (List.nodup_cons.mpr ⟨h.running_not_ready, h.placed.nodup .ready⟩)

variable {k₁ : Kernel S} {st : ThreadStatus} {a : Action S} {initial idle : Page} {idleStarted : S}

/-- A switch away from a thread that is not on the way itself. -/
theorem Inv.onTheWay_switch (h : Inv i k) (hstage : ∀ t, t ≠ k.running → k₁.stage t = k.stage t)
    (hcur : k.stage k.running ≠ some (.down s)) (hcur' : k₁.stage k.running ≠ some (.down s))
    (hready : k₁.readyList = k.readyList ∨ k₁.readyList = k.readyList ++ [k.running])
    (hrunning : k₁.running = k.running) (hidle : k₁.idleThread = k.idleThread)
    (hdying : k₁.status k.running = some .dying → k₁.readyList = k.readyList ∧ k.idleThread ≠ some k.running)
    (hswitch : Switch k₁ k') : k'.onTheWay s = k.onTheWay s := by
  -- before the switch, and without the running thread
  have hbefore : k.onTheWay s = k.readyList.filter fun t => decide (k.stage t = some (.down s)) := by
    unfold onTheWay
    rw [filter_cons_of_neg (by simpa using hcur)]
  have hmiddle : (k₁.readyList.filter fun t => decide (k₁.stage t = some (.down s))) = k.onTheWay s := by
    have hold : (k.readyList.filter fun t => decide (k₁.stage t = some (.down s))) = k.onTheWay s := by
      rw [hbefore]
      refine filter_congr ?_
      intro t ht
      rw [hstage t (fun heq => h.running_not_ready (heq ▸ ht))]
    rcases hready with heq | heq
    · rw [heq, hold]
    · rw [heq, filter_append, hold, filter_cons_of_neg (by simpa using hcur')]
      exact append_nil _
  rw [← hmiddle]
  have hafter : ∀ t ∈ k'.running :: k'.readyList, k'.stage t = k₁.stage t := by
    intro t ht
    refine hswitch.stage t ?_
    rw [hrunning]
    rintro rfl hd
    obtain ⟨hsame, hnot⟩ := hdying hd
    rcases hswitch.active with hactive | ⟨-, hnil, hidle'⟩
    · rw [hactive, hsame] at ht
      exact h.running_not_ready ht
    · rw [hnil, mem_singleton] at ht
      rw [hidle, ← ht] at hidle'
      exact hnot hidle'
  have hfilter : k'.onTheWay s = (k'.running :: k'.readyList).filter fun t => decide (k₁.stage t = some (.down s)) := by
    refine filter_congr ?_
    intro t ht
    rw [hafter t ht]
  rw [hfilter]
  rcases hswitch.active with hactive | ⟨hempty, hnil, hidle'⟩
  · rw [hactive]
  · rw [hempty, hnil, filter_cons_of_neg]
    · rw [hidle] at hidle'
      by_cases hself : k'.running = k.running
      · rw [hself]
        simpa using hcur'
      · rw [hstage _ hself]
        simpa using h.idle_stage hidle'

/-! ## One step -/

variable {s' : S}

/-- What `sema_up` does: a thread that waited is ready, and on the way. -/
theorem semaUp_ok (hrun : k.semaUp s = .ok k') :
    k'.running = k.running ∧ k'.idleThread = k.idleThread ∧ (∀ t, k'.stage t = k.stage t) ∧
      (∀ s', s' ≠ s → k'.sema s' = k.sema s') ∧ (k'.sema s).value = ((k.sema s).value + 1) % 2 ^ 32 ∧
      ((k.sema s).waiters = [] ∧ (k'.sema s).waiters = [] ∧ k'.readyList = k.readyList ∨
        ∃ t, (k.sema s).waiters = t :: (k'.sema s).waiters ∧ k'.readyList = k.readyList ++ [t]) := by
  obtain ⟨k₁, hwake, hrun⟩ := Checked.bind_ok hrun
  cases hrun
  unfold semaWake at hwake
  split at hwake
  · rename_i hnil
    cases hwake
    refine ⟨rfl, rfl, fun t => rfl, ?_, ?_, .inl ⟨hnil, ?_, rfl⟩⟩ <;> simp +contextual [setSema, hnil]
  · rename_i t ts hwaiters
    obtain ⟨-, rfl⟩ := threadUnblock_ok hwake
    refine ⟨rfl, rfl, fun t => stage_setStatus, ?_, ?_, .inr ⟨t, ?_, rfl⟩⟩ <;>
      simp +contextual [setSema, pushReady, setStatus, setThread, hwaiters]

/-- The running thread goes on to code of its own. -/
theorem Inv.onTheWay_any (hinv : Inv i k) (k' : Kernel S) (hready : k'.readyList = k.readyList) (hrunning : k'.running = k.running)
    (hself : k'.stage k.running = some .any) (hstage : ∀ t, t ≠ k.running → k'.stage t = k.stage t) :
    (k.onTheWay s).length = (k'.onTheWay s).length + if k.stage k.running = some (.down s) then 1 else 0 := by
  have hafter : k'.onTheWay s = k.readyList.filter fun t => decide (k.stage t = some (.down s)) := by
    unfold onTheWay
    rw [hrunning, hready, filter_cons_of_neg (by simp [hself])]
    refine filter_congr ?_
    intro t ht
    rw [hstage t (fun heq => hinv.running_not_ready (heq ▸ ht))]
  rw [hafter]
  unfold onTheWay
  rw [filter_cons]
  split
  · rename_i hdown
    rw [if_pos (of_decide_eq_true hdown), length_cons]
  · rename_i hdown
    rw [if_neg (fun hs => hdown (decide_eq_true hs)), Nat.add_zero]

theorem Covered.of_eq (h : Covered k) (hsema : k'.sema = k.sema) (hway : ∀ s, k'.onTheWay s = k.onTheWay s) : Covered k' := by
  intro s hs
  rw [hway, hsema]
  rw [hsema] at hs
  exact h s hs

/-- `sema_up` adds a unit, and puts a thread on the way to it if one waits. -/
theorem Covered.semaUp (hinv : Inv i k) (h : Covered k) (hrun : k.semaUp s = .ok k') : Covered k' := by
  obtain ⟨hrunning, -, hstage, hother, hvalue, hwoken⟩ := semaUp_ok hrun
  have hsame : ∀ s' (l : List Page), (l.filter fun t => decide (k'.stage t = some (.down s'))) =
      l.filter fun t => decide (k.stage t = some (.down s')) := by
    intro s' l
    simp only [hstage]
  intro s' hs'
  unfold onTheWay
  rw [hrunning, hsame]
  rcases hwoken with ⟨hnil, hnil', hready⟩ | ⟨t, hwaiters, hready⟩
  · rw [hready]
    by_cases heq : s' = s
    · rw [heq] at hs'
      exact absurd hnil' hs'
    · rw [hother s' heq] at hs' ⊢
      exact h s' hs'
  · have hmem : t ∈ (k.sema s).waiters := by rw [hwaiters]; exact mem_cons_self
    have hdown := (status_of_place_waiters ((hinv.placed.mem (.waiters s) t).mp hmem)).2
    rw [hready, ← List.cons_append, filter_append, length_append]
    by_cases heq : s' = s
    · subst heq
      have hle := h s' (ne_nil_of_mem hmem)
      have hone : ([t].filter fun t => decide (k.stage t = some (.down s'))).length = 1 := by simp [hdown]
      unfold onTheWay at hle
      omega
    · rw [hother s' heq] at hs' ⊢
      exact Nat.le_trans (h s' hs') (Nat.le_add_right _ _)

/-- A turn of `sema_down` sleeps when there is no unit, and takes one otherwise. -/
theorem Covered.semaDown (hinv : Inv i k) (h : Covered k)
    (hstage : ∀ s', k.stage k.running = some (.down s') → s' = s) (hrun : k.semaDown s = .ok k') : Covered k' := by
  intro s' hs'
  rcases semaDown_ok hrun with ⟨hzero, hrunning, hrun⟩ | ⟨hpos, rfl⟩
  · have hswitch := switch_of_schedule hrun
    rw [hswitch.sema] at hs' ⊢
    by_cases heq : s' = s
    · -- no unit is there
      subst heq
      rw [sema_asleep_self]
      exact Nat.le_trans (Nat.le_of_eq hzero) (Nat.zero_le _)
    · rw [sema_asleep_ne heq] at hs' ⊢
      rw [hinv.onTheWay_switch (fun t ht => stage_asleep_ne ht) (fun hs => heq (hstage s' hs)) ?_ (.inl rfl) rfl rfl ?_
        hswitch]
      · exact h s' hs'
      · rw [stage_asleep_self hrunning]
        rintro ⟨⟩
        exact heq rfl
      · intro hd
        rw [status_asleep_self hrunning] at hd
        cases hd
  · obtain ⟨g, hg⟩ := stage_of_status ((hinv.running k.running).mpr rfl)
    have hlength : (k.onTheWay s').length = _ := hinv.onTheWay_any
      ((k.setSema s { k.sema s with value := (k.sema s).value - 1 }).setStage k.running .any) rfl rfl
      (stage_setStage_self (k := k.setSema s _) hg) (fun t ht => stage_setStage_ne ht)
    by_cases heq : s' = s
    · subst heq
      have hself : ((k.setSema s' { k.sema s' with value := (k.sema s').value - 1 }).setStage k.running .any).sema s' =
          ⟨(k.sema s').value - 1, (k.sema s').waiters⟩ := by simp [setSema, setStage, setThread]
      rw [hself] at hs' ⊢
      have hle := h s' hs'
      have hbound : (if k.stage k.running = some (.down s') then 1 else 0) ≤ 1 := by split <;> decide
      show (k.sema s').value - 1 ≤ _
      omega
    · have hother : ((k.setSema s { k.sema s with value := (k.sema s).value - 1 }).setStage k.running .any).sema s' =
          k.sema s' := by simp [setSema, setStage, setThread, heq]
      rw [hother] at hs' ⊢
      rw [if_neg (fun hs => heq (hstage s' hs))] at hlength
      exact Nat.le_trans (h s' hs') (Nat.le_of_eq hlength)

/-- The running thread stops outside `sema_down`. -/
theorem Covered.stops (hinv : Inv i k) (h : Covered k) (hs : Stops k st k₁)
    (hnot : ∀ s, k.stage k.running ≠ some (.down s)) (halive : st = .dying → k.running ≠ i)
    (hrun : k₁.schedule = .ok k') : Covered k' := by
  have hswitch := switch_of_schedule hrun
  refine h.of_eq (hswitch.sema.trans hs.sema) ?_
  intro s
  refine hinv.onTheWay_switch (fun t _ => hs.stage t) (hnot s) (by rw [hs.stage]; exact hnot s) ?_ hs.running hs.idleThread ?_
    hswitch
  · rw [hs.ready]
    split
    · exact .inr rfl
    · exact .inl rfl
  · intro hd
    obtain rfl : st = .dying := Option.some.inj (hs.self.symm.trans hd)
    exact ⟨hs.ready, fun hidle => halive rfl (hinv.place_idleThread hidle).1⟩

theorem Covered.semaTryDown (h : Covered k) : Covered (k.semaTryDown s).2 := by
  unfold Kernel.semaTryDown
  split
  · intro s' hs'
    have hle := h s'
    show ((k.setSema s _).sema s').value ≤ (k.onTheWay s').length
    simp only [setSema, update_apply] at hs' ⊢
    grind
  · exact h

theorem Covered.semaInit {value : Nat} (h : Covered k) : Covered (k.semaInit s value) := by
  intro s' hs'
  have hle := h s'
  show ((k.semaInit s value).sema s').value ≤ (k.onTheWay s').length
  simp only [Kernel.semaInit, setSema, update_apply] at hs' ⊢
  grind

theorem Covered.threadUnblock (h : Covered k) (hnot : ∀ s, k.stage t ≠ some (.down s))
    (hrun : k.threadUnblock t = .ok k') : Covered k' := by
  obtain ⟨-, rfl⟩ := threadUnblock_ok hrun
  refine h.of_eq rfl ?_
  intro s
  have hstage : ∀ u, ((k.pushReady t).setStatus t .ready).stage u = k.stage u := fun u => stage_setStatus
  unfold onTheWay
  simp only [hstage]
  show (k.running :: (k.readyList ++ [t])).filter _ = _
  have hlast : [t].filter (fun u => decide (k.stage u = some (.down s))) = [] :=
    filter_cons_of_neg (by simpa using hnot s)
  rw [← List.cons_append, filter_append, hlast, append_nil]

/-- A change of stages that concerns no thread on the way. -/
theorem Covered.setStage (h : Covered k) (hsema : k'.sema = k.sema) (hready : k'.readyList = k.readyList)
    (hrunning : k'.running = k.running)
    (hstage : ∀ t s, t ∈ k.running :: k.readyList → (k'.stage t = some (.down s) ↔ k.stage t = some (.down s))) :
    Covered k' := by
  refine h.of_eq hsema ?_
  intro s
  unfold onTheWay
  rw [hready, hrunning]
  refine filter_congr ?_
  intro t ht
  simp only [hstage t s ht]

theorem Covered.initThread (hinv : Inv i k) (h : Covered k) (hnew : k.thread t = none) : Covered (k.initThread t .any) := by
  refine h.setStage rfl rfl rfl ?_
  intro u s hu
  have hne : u ≠ t := by
    rintro rfl
    have hstatus : ∃ st, k.status u = some st := by
      rcases List.mem_cons.mp hu with rfl | hready
      · exact ⟨_, (hinv.running _).mpr rfl⟩
      · exact ⟨_, (status_of_place_ready ((hinv.placed.mem .ready u).mp hready)).1⟩
    obtain ⟨st, hst⟩ := hstatus
    rw [status, hnew] at hst
    cases hst
  have hsame : (k.initThread t .any).stage u = k.stage u := stage_setThread_ne hne
  rw [hsame]

theorem Covered.idleStep (hinv : Inv i k) (h : Covered k) {g : Stage S} (hg : k.stage k.running = some g)
    (hisIdle : g.isIdle = true) (hrun : k.idle = .ok k') : Covered k' := by
  unfold Kernel.idle at hrun
  rw [hg] at hrun
  cases g with
  | any => cases hisIdle
  | down s => cases hisIdle
  | idleEntry idleStarted =>
    obtain ⟨_, hcur, hrun⟩ := Checked.bind_ok hrun
    obtain ⟨rfl, -⟩ := threadCurrent_ok hcur
    cases hrun
    refine h.setStage rfl rfl rfl ?_
    intro t s _
    by_cases ht : t = k.running
    · rw [ht, stage_setStage_self (k := { k with idleThread := some k.running }) hg, hg]
      simp
    · rw [stage_setStage_ne ht]
      rfl
  | idleUp idleStarted =>
    obtain ⟨k₁, hup, hrun⟩ := Checked.bind_ok hrun
    cases hrun
    obtain ⟨hrunning, -, hstage, -⟩ := semaUp_ok hup
    have hg₁ : k₁.stage k₁.running = some (.idleUp idleStarted) := by rw [hrunning, hstage]; exact hg
    refine (Covered.semaUp hinv h hup).setStage rfl rfl rfl ?_
    intro t s _
    by_cases ht : t = k₁.running
    · rw [ht, stage_setStage_self hg₁, hg₁]
      simp
    · rw [stage_setStage_ne ht]
  | idleLoop =>
    obtain ⟨k₁, hs, hrun⟩ := threadBlock_ok hrun
    exact h.stops hinv hs (by simp [hg]) (by simp) hrun

/-- **One step keeps every unit covered.** -/
theorem Covered.step (hinv : Inv i k) (h : Covered k) (hproper : k.Proper a) (hstep : k.step a = some k') :
    Covered k' := by
  obtain ⟨g, hg, hat, hnew, hrun⟩ := hinv.step_ok hstep
  have hnot : (∀ s, a ≠ .semaDown s) → ∀ s, k.stage k.running ≠ some (.down s) := by
    intro hne s hs
    rw [hg, Option.some.injEq] at hs
    exact hat.not_down hne s hs
  cases a with
  | initThread t =>
    cases hrun
    exact h.initThread hinv (hnew t rfl)
  | block =>
    obtain ⟨k₁, hs, hrun⟩ := threadBlock_ok hrun
    exact h.stops hinv hs (hnot (by simp)) (by simp) hrun
  | unblock t => exact h.threadUnblock hproper.1 hrun
  | yield =>
    obtain ⟨k₁, hs, hrun⟩ := threadYield_ok hrun
    exact h.stops hinv hs (hnot (by simp)) (by simp) hrun
  | exit =>
    obtain ⟨k₁, hs, hrun⟩ := threadExit_ok hrun
    exact h.stops hinv hs (hnot (by simp)) (fun _ => hinv.running_ne hg (hat.not_idle (by simp) rfl)) hrun
  | semaInit s value =>
    cases hrun
    exact h.semaInit
  | semaDown s =>
    refine h.semaDown hinv ?_ hrun
    intro s' hs'
    rw [hg, Option.some.injEq] at hs'
    rw [hs'] at hat
    cases hat with
    | down => rfl
    | handler hg => cases hg
  | semaTryDown s =>
    cases hrun
    exact h.semaTryDown
  | semaUp s => exact h.semaUp hinv hrun
  | idle =>
    refine h.idleStep hinv hg ?_ hrun
    cases hat with
    | any hne => exact absurd rfl hne
    | idle hisIdle => exact hisIdle
    | handler _ hin => cases hin

/-! ## Ups and downs -/

/-- The step completes a `sema_down` or `sema_try_down`: a unit is taken. -/
def takes (s : S) (k : Kernel S) (a : Action S) : Bool :=
  (a = .semaDown s ∨ a = .semaTryDown s) ∧ 0 < (k.sema s).value

/-- The step is a `sema_up`; `idle` has one of its own. -/
def gives (s : S) (k : Kernel S) (a : Action S) : Bool :=
  a = .semaUp s ∨ a = .idle ∧ k.stage k.running = some (.idleUp s)

omit [DecidableEq S] in
/-- A thread that stops leaves the semaphores as they are. -/
theorem Stops.sema_schedule (hs : Stops k st k₁) (hrun : k₁.schedule = .ok k') :
    k'.sema = k.sema := (switch_of_schedule hrun).sema.trans hs.sema

omit [DecidableEq S] in
theorem sema_threadBlock (hrun : k.threadBlock = .ok k') : k'.sema = k.sema := by
  obtain ⟨_, hs, hrun⟩ := threadBlock_ok hrun
  exact hs.sema_schedule hrun

theorem value_semaUp (hrun : k.semaUp s' = .ok k') (hlt : s' = s → (k.sema s).value + 1 < 2 ^ 32) :
    (k'.sema s).value = (k.sema s).value + if s' = s then 1 else 0 := by
  obtain ⟨-, -, -, hother, hvalue, -⟩ := semaUp_ok hrun
  by_cases heq : s' = s
  · subst heq
    rw [hvalue, if_pos rfl, Nat.mod_eq_of_lt (hlt rfl)]
  · grind

theorem value_semaDown (hrun : k.semaDown s' = .ok k') :
    (k'.sema s).value + (if s' = s ∧ 0 < (k.sema s).value then 1 else 0) = (k.sema s).value := by
  rcases semaDown_ok hrun with ⟨hzero, -, hrun⟩ | ⟨hpos, rfl⟩
  · rw [(switch_of_schedule hrun).sema]
    simp only [asleep, setSema, setStage, setStatus, setThread, update_apply]
    grind
  · simp only [setSema, setStage, setThread, update_apply]
    grind

theorem value_semaTryDown (k : Kernel S) (s' s : S) :
    ((k.semaTryDown s').2.sema s).value + (if s' = s ∧ 0 < (k.sema s).value then 1 else 0) = (k.sema s).value := by
  unfold semaTryDown
  split <;> simp only [setSema, update_apply] <;> grind

/-- **One step and the value**: a completed down takes one away, an up adds one. -/
theorem Inv.value_step (hinv : Inv i k) (hstep : k.step a = some k') (hinit : ∀ v, a ≠ .semaInit s v)
    (hlt : gives s k a = true → (k.sema s).value + 1 < 2 ^ 32) :
    (k'.sema s).value + (if takes s k a then 1 else 0) = (k.sema s).value + if gives s k a then 1 else 0 := by
  obtain ⟨g, hg, hat, -, hrun⟩ := hinv.step_ok hstep
  have hsame : k'.sema = k.sema → takes s k a = false → gives s k a = false →
      (k'.sema s).value + (if takes s k a then 1 else 0) = (k.sema s).value + if gives s k a then 1 else 0 := by
    intro hsema htakes hgives
    rw [hsema, htakes, hgives]
  cases a with
  | initThread t =>
    cases hrun
    exact hsame rfl (by simp [takes]) (by simp [gives])
  | block => exact hsame (sema_threadBlock hrun) (by simp [takes]) (by simp [gives])
  | unblock t =>
    obtain ⟨-, rfl⟩ := threadUnblock_ok hrun
    exact hsame rfl (by simp [takes]) (by simp [gives])
  | yield =>
    obtain ⟨_, hs, hrun⟩ := threadYield_ok hrun
    exact hsame (hs.sema_schedule hrun) (by simp [takes]) (by simp [gives])
  | exit =>
    obtain ⟨_, hs, hrun⟩ := threadExit_ok hrun
    exact hsame (hs.sema_schedule hrun) (by simp [takes]) (by simp [gives])
  | semaInit s' v =>
    cases hrun
    have hne : s ≠ s' := by
      rintro rfl
      exact hinit v rfl
    have hother : (k.semaInit s' v).sema s = k.sema s := by simp [Kernel.semaInit, setSema, hne]
    simp [hother, takes, gives]
  | semaDown s' =>
    have hvalue := value_semaDown (s := s) hrun
    have htakes : takes s k (.semaDown s') = true ↔ s' = s ∧ 0 < (k.sema s).value := by simp [takes]
    simp only [htakes, gives]
    simpa using hvalue
  | semaTryDown s' =>
    cases hrun
    have hvalue := value_semaTryDown k s' s
    have htakes : takes s k (.semaTryDown s') = true ↔ s' = s ∧ 0 < (k.sema s).value := by simp [takes]
    simp only [htakes, gives]
    simpa using hvalue
  | semaUp s' =>
    have hgives : gives s k (.semaUp s') = true ↔ s' = s := by simp [gives]
    have hvalue := value_semaUp (s := s) hrun (fun heq => hlt (hgives.mpr heq))
    rw [hvalue]
    simp [hgives, takes]
  | idle =>
    have htakes : takes s k .idle = false := by simp [takes]
    unfold Kernel.exec Kernel.idle at hrun
    rw [hg] at hrun
    have hgives : gives s k .idle = true ↔ g = .idleUp s := by simp [gives, hg]
    have hquiet : k'.sema = k.sema → (∀ s', g ≠ .idleUp s') →
        (k'.sema s).value + (if takes s k .idle then 1 else 0) = (k.sema s).value + if gives s k .idle then 1 else 0 := by
      intro hsema hne
      exact hsame hsema htakes (Bool.eq_false_iff.mpr (fun h => hne s (hgives.mp h)))
    cases g with
    | idleUp idleStarted =>
      obtain ⟨k₁, hup, hrun⟩ := Checked.bind_ok hrun
      cases hrun
      have hvalue := value_semaUp (s := s) hup (by rintro rfl; exact hlt (hgives.mpr rfl))
      refine hvalue.trans ?_
      simp [hgives]
    | idleEntry idleStarted =>
      obtain ⟨_, -, hrun⟩ := Checked.bind_ok hrun
      cases hrun
      exact hquiet rfl (by simp)
    | any => exact hquiet (sema_threadBlock hrun) (by simp)
    | down s' => exact hquiet (sema_threadBlock hrun) (by simp)
    | idleLoop => exact hquiet (sema_threadBlock hrun) (by simp)

/-! ## Runs -/

/-- The steps that are proper and do not initialise the semaphore again. -/
def ProperFor (s : S) (k : Kernel S) (a : Action S) : Prop := k.Proper a ∧ ∀ v, a ≠ .semaInit s v

/-- **The value along a run** that begins with value `v`. -/
theorem Inv.value_path {as : List (Action S)} {v : Nat} (hinv : Inv i k)
    (hpath : Lts.Path Kernel.step (ProperFor s) k as k') (hstart : (k.sema s).value = v)
    (hups : v + Lts.count Kernel.step (gives s) k as < 2 ^ 32) :
    (k'.sema s).value + Lts.count Kernel.step (takes s) k as = v + Lts.count Kernel.step (gives s) k as := by
  induction as generalizing k v with
  | nil =>
    obtain rfl : k = k' := hpath
    rw [hstart]
    rfl
  | cons a as ih =>
    obtain ⟨⟨hproper, hinit⟩, k₁, hstep, hrest⟩ := hpath
    rw [Lts.count_cons hstep] at hups
    rw [Lts.count_cons hstep, Lts.count_cons hstep]
    have hlt : gives s k a = true → (k.sema s).value + 1 < 2 ^ 32 := by
      intro hgives
      rw [if_pos hgives] at hups
      omega
    have hone := hinv.value_step hstep hinit hlt
    have hmany := ih (hinv.step hproper hstep) hrest rfl (by omega)
    omega

theorem covered_threadStart (hrun : threadStart initial idle idleStarted = .ok k) : Covered k := by
  obtain ⟨-, rfl⟩ := threadUnblock_ok hrun
  intro s hs
  refine absurd ?_ hs
  show (Function.update (fun _ => (⟨0, []⟩ : Semaphore)) idleStarted ⟨0 % 2 ^ 32, []⟩ s).waiters = []
  rw [update_apply]
  split <;> rfl

theorem covered_of_reaches {k₀ : Kernel S} (hne : idle ≠ initial)
    (hboot : threadStart initial idle idleStarted = .ok k₀) (hreach : Lts.Reaches Kernel.step Proper k₀ k) :
    Inv idle k ∧ Covered k := by
  refine Lts.Reaches.invariant (I := fun k => Inv idle k ∧ Covered k) hreach
    ⟨inv_threadStart hne hboot, covered_threadStart hboot⟩ ?_
  rintro t u a ⟨hinv, h⟩ hproper hstep
  exact ⟨hinv.step hproper hstep, h.step hinv hproper hstep⟩

/-- What is promised about a semaphore that was initialised to `v`, after `ups` and `downs`. -/
structure NoneLost (k : Kernel S) (s : S) (v ups downs : Nat) : Prop where
  value : (k.sema s).value + downs = v + ups
  covered : (k.sema s).waiters ≠ [] → (k.sema s).value ≤ (k.onTheWay s).length
  way_nodup : (k.onTheWay s).Nodup
  way : ∀ t, t ∈ k.onTheWay s ↔ k.stage t = some (.down s) ∧ k.status t ≠ some .dying ∧ t ∉ (k.sema s).waiters
  someone : (k.sema s).waiters ≠ [] → 0 < (k.sema s).value → k.onTheWay s ≠ []

/-- **Semaphores lose no wakeup**, in any run after `thread_start` and after the semaphore's initialisation. -/
theorem semaphores_lose_no_wakeup {initial idle : Page} {idleStarted s : S} {k₀ k₁ : Kernel S} {as : List (Action S)}
    {v : Nat} (hne : idle ≠ initial) (hboot : threadStart initial idle idleStarted = .ok k₀)
    (hreach : Lts.Reaches Kernel.step Proper k₀ k) (hproper : k.Proper (.semaInit s v))
    (hinit : k.step (.semaInit s v) = some k₁) (hpath : Lts.Path Kernel.step (ProperFor s) k₁ as k')
    (hups : Lts.count Kernel.step (gives s) k₁ as < 2 ^ 32 - v) :
    NoneLost k' s v (Lts.count Kernel.step (gives s) k₁ as) (Lts.count Kernel.step (takes s) k₁ as) := by
  have hreach₁ := Lts.Reaches.tail hreach hproper hinit
  obtain ⟨hinv₁, -⟩ := covered_of_reaches hne hboot hreach₁
  obtain ⟨hinv, hcovered⟩ := covered_of_reaches hne hboot (Lts.Path.reaches hreach₁ (hpath.mono And.left))
  have hvalue₁ : (k₁.sema s).value = v := by
    obtain ⟨-, -, -, -, hrun⟩ := (covered_of_reaches hne hboot hreach).1.step_ok hinit
    cases hrun
    simp only [Kernel.semaInit, setSema, update_self]
    exact Nat.mod_eq_of_lt (by omega)
  constructor
  case value => exact hinv₁.value_path hpath hvalue₁ (by omega)
  case covered => exact hcovered s
  case way_nodup => exact hinv.nodup_onTheWay
  case way => exact fun t => hinv.mem_onTheWay_iff
  case someone =>
    intro hwaiters hpos hnil
    have hle := hcovered s hwaiters
    rw [hnil, length_nil] at hle
    omega

/-- Semaphore 7 has no units; thread 2 waits for one, and the initial thread gives one. -/
theorem semaphores_lose_no_wakeup_one : ∃ k : Kernel Nat, k.onTheWay 7 = [2] ∧ (k.sema 7).value = 1 ∧ NoneLost k 7 0 1 0 := by
  have hrun : ((threadStart 0 1 0 : Except Assertion (Kernel Nat)).toOption.bind fun k₀ => (k₀.step (.semaInit 7 0)).bind
      fun k₁ => (Lts.run Kernel.step (fun k a => k.properCall a = true) k₁ (waitsForSeven ++ [.semaUp 7])).filter fun k =>
        decide (k.onTheWay 7 = [2] ∧ (k.sema 7).value = 1) &&
          decide (Lts.count Kernel.step (gives 7) k₁ (waitsForSeven ++ [.semaUp 7]) = 1 ∧
            Lts.count Kernel.step (takes 7) k₁ (waitsForSeven ++ [.semaUp 7]) = 0)).isSome = true := by decide +kernel
  obtain ⟨k, hk⟩ := Option.isSome_iff_exists.mp hrun
  obtain ⟨k₀, hk₀, hk⟩ := Option.bind_eq_some_iff.mp hk
  obtain ⟨k₁, hk₁, hk⟩ := Option.bind_eq_some_iff.mp hk
  obtain ⟨hpath, hp⟩ := Option.filter_eq_some_iff.mp hk
  rw [Bool.and_eq_true] at hp
  obtain ⟨hway, hvalue⟩ := of_decide_eq_true hp.1
  obtain ⟨hups, hdowns⟩ := of_decide_eq_true hp.2
  have hboot := Checked.toOption_eq_some hk₀
  have hproperFor : ∀ {k : Kernel Nat} {a : Action Nat}, k.properCall a = true → ProperFor 7 k a := by
    intro k a ha
    refine ⟨proper_of_properCall ha, ?_⟩
    rintro v rfl
    cases ha
  have hlost := semaphores_lose_no_wakeup (s := 7) (v := 0) (by decide) hboot .refl (proper_threadStart hboot) hk₁
    ((Lts.path_of_run hpath).mono hproperFor) (by rw [hups]; decide)
  rw [hups, hdowns] at hlost
  exact ⟨k, hway, hvalue, hlost⟩

end Kernel
end Threads
end Asg1
