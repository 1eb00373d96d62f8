import Asg1.Lib.Checked
import Asg1.Lib.Placed
import Asg1.Threads.Sched

/-!
# `Threads.Places` — the list that each thread belongs in

A thread has one `elem`, which links it into the run queue or into the waiters of a semaphore. `place` reads off a thread's
status and stage which of these lists it belongs in: a ready thread, the idle thread apart, in the run queue, and a thread
blocked inside `sema_down` with the waiters of that semaphore. The invariant is that the lists are as this says, each
thread once (`Placed`), beside what is needed to keep it: one thread runs, the idle thread is where it should be, and a
dying thread is the one that is just switching away, or the initial thread.

`Core` holds also in the middle of a switch, when no thread has the status running; `schedule` leads from there to `Inv`.
-/

namespace Asg1
namespace Threads

open Function

/-- The lists that a thread can be in. -/
inductive Queue (S : Type)
  | ready
  | waiters (s : S)
  deriving DecidableEq

/-- The stages of the code of `idle`. -/
def Stage.isIdle {S : Type} : Stage S → Bool
  | idleEntry _ | idleUp _ | idleLoop => true
  | _ => false

/-- `idle` has set `idle_thread`. -/
def Stage.started {S : Type} : Stage S → Bool
  | idleUp _ | idleLoop => true
  | _ => false

namespace Kernel

variable {S : Type}

def queue (k : Kernel S) : Queue S → List Page
  | .ready => k.readyList
  | .waiters s => (k.sema s).waiters

/-- The list that a thread belongs in. -/
def place (k : Kernel S) (t : Page) : Option (Queue S) :=
  match k.status t with
  | some .ready => if k.idleThread = some t then none else some .ready
  | some .blocked =>
    match k.stage t with
    | some (.down s) => some (.waiters s)
    | _ => none
  | _ => none

/-- The running thread, if it is about to be destroyed. -/
def leaving (k : Kernel S) : List Page :=
  if k.status k.running = some .dying ∧ k.running ≠ k.initialThread then [k.running] else []

/-! ## Status and stage -/

variable {k k' : Kernel S} {t u : Page} {th : Option (Thread S)} {st : ThreadStatus} {g : Stage S}

@[simp] theorem status_setThread_self : (k.setThread t th).status t = th.map Thread.status := by
  simp [status, setThread]

@[simp] theorem status_setThread_ne (h : u ≠ t) : (k.setThread t th).status u = k.status u := by
  simp [status, setThread, h]

@[simp] theorem stage_setThread_self : (k.setThread t th).stage t = th.map Thread.stage := by
  simp [stage, setThread]

@[simp] theorem stage_setThread_ne (h : u ≠ t) : (k.setThread t th).stage u = k.stage u := by
  simp [stage, setThread, h]

theorem status_setStatus_self {st' : ThreadStatus} (h : k.status t = some st') : (k.setStatus t st).status t = some st := by
  unfold setStatus
  rw [status_setThread_self]
  obtain ⟨th, hth, -⟩ := Option.map_eq_some_iff.mp h
  rw [hth]
  rfl

@[simp] theorem status_setStatus_ne (h : u ≠ t) : (k.setStatus t st).status u = k.status u := status_setThread_ne h

@[simp] theorem stage_setStatus : (k.setStatus t st).stage u = k.stage u := by
  by_cases hu : u = t
  · subst hu
    unfold setStatus
    rw [stage_setThread_self, Option.map_map]
    rfl
  · exact stage_setThread_ne hu

@[simp] theorem status_setStage : (k.setStage t g).status u = k.status u := by
  by_cases hu : u = t
  · subst hu
    unfold setStage
    rw [status_setThread_self, Option.map_map]
    rfl
  · exact status_setThread_ne hu

theorem stage_setStage_self {g' : Stage S} (h : k.stage t = some g') : (k.setStage t g).stage t = some g := by
  unfold setStage
  rw [stage_setThread_self]
  obtain ⟨th, hth, -⟩ := Option.map_eq_some_iff.mp h
  rw [hth]
  rfl

@[simp] theorem stage_setStage_ne (h : u ≠ t) : (k.setStage t g).stage u = k.stage u := stage_setThread_ne h

theorem stage_of_status (h : k.status t = some st) : ∃ g, k.stage t = some g := by
  obtain ⟨th, hth, -⟩ := Option.map_eq_some_iff.mp h
  exact ⟨th.stage, by rw [stage, hth]; rfl⟩

theorem status_of_stage (h : k.stage t = some g) : ∃ st, k.status t = some st := by
  obtain ⟨th, hth, -⟩ := Option.map_eq_some_iff.mp h
  exact ⟨th.status, by rw [status, hth]; rfl⟩

/-! ## Places -/

theorem place_congr (hstatus : k'.status t = k.status t) (hstage : k'.stage t = k.stage t)
    (hidle : k'.idleThread = some t ↔ k.idleThread = some t) : k'.place t = k.place t := by
  unfold place
  simp only [hstatus, hstage, hidle]

/-- A change to one thread changes its place only. -/
theorem place_eq_update (hstatus : ∀ u, u ≠ t → k'.status u = k.status u) (hstage : ∀ u, u ≠ t → k'.stage u = k.stage u)
    (hidle : k'.idleThread = k.idleThread) : k'.place = Function.update k.place t (k'.place t) := by
  funext u
  by_cases hu : u = t
  · subst hu
    rw [update_self]
  · rw [update_of_ne hu]
    exact place_congr (hstatus u hu) (hstage u hu) (by rw [hidle])

theorem place_ready (h : k.status t = some .ready) (hidle : k.idleThread ≠ some t) : k.place t = some .ready := by
  unfold place
  simp only [h, if_neg hidle]

theorem place_idle (h : k.status t = some .ready) (hidle : k.idleThread = some t) : k.place t = none := by
  unfold place
  simp only [h, if_pos hidle]

variable {s : S}

theorem place_down (h : k.status t = some .blocked) (hstage : k.stage t = some (.down s)) :
    k.place t = some (.waiters s) := by
  unfold place
  simp only [h, hstage]

theorem place_blocked (h : k.status t = some .blocked) (hstage : ∀ s, k.stage t ≠ some (.down s)) : k.place t = none := by
  grind [place]

theorem place_none (h : k.status t ≠ some .ready) (h' : k.status t ≠ some .blocked) : k.place t = none := by
  grind [place]

theorem status_of_place_ready (h : k.place t = some .ready) : k.status t = some .ready ∧ k.idleThread ≠ some t := by
  grind [place]

theorem status_of_place_waiters (h : k.place t = some (.waiters s)) :
    k.status t = some .blocked ∧ k.stage t = some (.down s) := by
  grind [place]

/-! ## The invariant -/

/-- What holds also while one thread switches to another. The idle thread is `i`. -/
structure Core (i : Page) (k : Kernel S) : Prop where
  placed : Placed k.place k.queue
  only : ∀ t g, k.stage t = some g → g.isIdle = true → t = i
  idle : ∃ g, k.stage i = some g ∧ g.isIdle = true ∧ k.idleThread = if g.started then some i else none
  alive : k.status i ≠ some .dying
  dying : ∀ t, k.status t = some .dying → t = k.initialThread ∨ t = k.running
  freed : k.exits.filter (fun t => decide (t ≠ k.initialThread)) = k.frees.map Prod.fst ++ k.leaving
  apart : ∀ f ∈ k.frees, f.1 ≠ f.2

/-- What holds between two steps: the running thread, and only it, has the status. -/
structure Inv (i : Page) (k : Kernel S) : Prop extends Core i k where
  running : ∀ t, k.status t = some .running ↔ t = k.running

/-! ## Switching -/

variable {i next : Page} {ready : List Page}

/-- The idle thread is in no list once it is known. -/
theorem Core.place_idleThread (h : Core i k) (hidle : k.idleThread = some t) : t = i ∧ k.place i = none := by
  obtain ⟨g, hg, hisIdle, heq⟩ := h.idle
  -- in the code of `idle` nobody waits for a semaphore
  have hdown : ∀ s, g ≠ .down s := by
    rintro s rfl
    cases hisIdle
  grind [place]

/-- The state in which the chosen thread runs, before the old one is looked at. -/
def switched (k : Kernel S) (next : Page) (ready : List Page) : Kernel S :=
  { k with readyList := ready, running := next }.setStatus next .running

/-- What the switch leaves to show: the old thread is gone if it was dying. -/
theorem Core.switched (h : Core i k) (hstop : ∀ t, k.status t ≠ some .running)
    (hplaced : Placed (Function.update k.place next none) { k with readyList := ready }.queue)
    (hnext : k.status next = some st) (hdying : st ≠ .dying) (hgone : k.leaving = [] ∨ k.running = next) :
    Inv i (k.switched next ready) := by
  have hself : (k.switched next ready).status next = some .running :=
    status_setStatus_self (k := { k with readyList := ready, running := next }) hnext
  have hother : ∀ u, u ≠ next → (k.switched next ready).status u = k.status u := fun u hu => status_setStatus_ne hu
  have hstage : ∀ u, (k.switched next ready).stage u = k.stage u := fun u => stage_setStatus
  have hrun : (k.switched next ready).running = next ∧ (k.switched next ready).initialThread = k.initialThread := ⟨rfl, rfl⟩
  have hleaving : k.leaving = [] := by
    grind [leaving]
  constructor
  case running => grind
  constructor
  case placed =>
    have hplace : (k.switched next ready).place = Function.update k.place next ((k.switched next ready).place next) :=
      place_eq_update (k := k) hother (fun u _ => hstage u) rfl
    rw [hplace, place_none (by rw [hself]; simp) (by rw [hself]; simp)]
    exact hplaced
  case only =>
    intro t g hg
    rw [hstage] at hg
    exact h.only t g hg
  case idle =>
    rw [hstage]
    exact h.idle
  case alive => grind [h.alive]
  case dying =>
    -- if the old thread is dying, it is not the chosen one, and it is not to be destroyed
    intro t ht
    have hold := h.dying t
    grind [leaving]
  case freed =>
    have hleaving' : (k.switched next ready).leaving = [] := by
      grind [leaving]
    rw [hleaving', ← hleaving]
    exact h.freed
  case apart => exact h.apart

/-- The state in which the page of the old thread has been given back by the chosen one. -/
def buried (k : Kernel S) (next : Page) : Kernel S :=
  { k.setThread k.running none with frees := k.frees ++ [(k.running, next)] }

theorem switched_freePage (h : k.running ≠ next) :
    (k.switched next ready).freePage k.running = (k.buried next).switched next ready := by
  unfold freePage switched buried setStatus setThread
  simp only [Kernel.mk.injEq, and_true, update_of_ne h.symm]
  exact update_comm h.symm _ _ _

theorem status_buried : (k.buried next).status t = if t = k.running then none else k.status t := by
  by_cases ht : t = k.running <;> simp [buried, status, setThread, ht]

theorem leaving_buried : (k.buried next).leaving = [] := by
  grind [leaving, status_buried, buried, setThread]

/-- The old thread was in no list. -/
theorem place_buried (hdying : k.status k.running = some .dying) : (k.buried next).place = k.place := by
  have hself : (k.buried next).status k.running = none := status_setThread_self
  have hplace : (k.buried next).place = Function.update k.place k.running ((k.buried next).place k.running) :=
    place_eq_update (fun u hu => status_setThread_ne hu) (fun u hu => stage_setThread_ne hu) rfl
  have hnone : k.place k.running = none := place_none (by rw [hdying]; simp) (by rw [hdying]; simp)
  rw [hplace, place_none (by rw [hself]; simp) (by rw [hself]; simp), ← hnone, update_eq_self]

theorem Core.buried (h : Core i k) (hdying : k.status k.running = some .dying) (hinit : k.running ≠ k.initialThread)
    (hnext : k.running ≠ next) : Core i (k.buried next) := by
  have hother : ∀ u, u ≠ k.running → (k.buried next).status u = k.status u := fun u hu => status_setThread_ne hu
  have hstage : ∀ u, u ≠ k.running → (k.buried next).stage u = k.stage u := fun u hu => stage_setThread_ne hu
  have hnone : (k.buried next).stage k.running = none := stage_setThread_self
  have hi : i ≠ k.running := by
    rintro rfl
    exact h.alive hdying
  constructor
  case placed =>
    rw [place_buried hdying]
    exact h.placed
  case only =>
    have := h.only
    grind
  case idle =>
    rw [hstage i hi]
    exact h.idle
  case alive =>
    rw [hother i hi]
    exact h.alive
  case dying =>
    intro t ht
    by_cases heq : t = k.running
    · exact .inr heq
    · rw [hother t heq] at ht
      exact h.dying t ht
  case freed =>
    have hleaving : k.leaving = [k.running] := if_pos ⟨hdying, hinit⟩
    have hfreed := h.freed
    rw [hleaving] at hfreed
    rw [leaving_buried, List.append_nil]
    refine hfreed.trans ?_
    show _ = (k.frees ++ [(k.running, next)]).map Prod.fst
    simp
  case apart =>
    intro f hf
    rcases List.mem_append.mp hf with hold | hnew
    · exact h.apart f hold
    · rw [List.mem_singleton.mp hnew]
      exact hnext

/-- What `schedule` does: a thread from the run queue runs, or the idle thread, and it gives back the page of the old one
    if that was dying. -/
theorem schedule_ok (hrun : k.schedule = .ok k') :
    ∃ next ready st, (k.readyList = next :: ready ∨ k.readyList = [] ∧ ready = [] ∧ k.idleThread = some next) ∧
      k.status next = some st ∧
      (k' = k.switched next ready ∧ (k.leaving = [] ∨ k.running = next) ∨
        k' = (k.buried next).switched next ready ∧ k.running ≠ next ∧ k.status k.running = some .dying ∧
          k.running ≠ k.initialThread) := by
  unfold schedule at hrun
  split at hrun
  · cases hrun
  split at hrun
  · cases hrun
  rename_i next k₁ hnext
  obtain ⟨ready, rfl, hactive⟩ : ∃ ready, k₁ = { k with readyList := ready } ∧
      (k.readyList = next :: ready ∨ k.readyList = [] ∧ ready = [] ∧ k.idleThread = some next) := by
    unfold nextThreadToRun at hnext
    split at hnext
    · rename_i hempty
      obtain ⟨hidle, rfl⟩ := Prod.mk.inj hnext
      exact ⟨[], by rw [← hempty], .inr ⟨hempty, rfl, hidle⟩⟩
    · rename_i t ts hready
      obtain ⟨hsome, rfl⟩ := Prod.mk.inj hnext
      obtain rfl := Option.some.inj hsome
      exact ⟨ts, rfl, .inl hready⟩
  split at hrun
  · cases hrun
  rename_i hsome
  obtain ⟨th, hth⟩ := Option.ne_none_iff_exists'.mp hsome
  refine ⟨next, ready, th.status, hactive, congrArg (Option.map Thread.status) hth, ?_⟩
  split at hrun
  · rename_i hne
    have hold : (k.switched next ready).status k.running = k.status k.running := status_setStatus_ne hne
    change (if (k.switched next ready).status k.running = some .dying ∧ k.running ≠ k.initialThread then
      if k.running = next then Except.error Assertion.tailOther else .ok ((k.switched next ready).freePage k.running)
      else .ok (k.switched next ready)) = .ok k' at hrun
    rw [hold, if_neg hne] at hrun
    split at hrun
    · rename_i hleaving
      cases hrun
      exact .inr ⟨switched_freePage hne, hne, hleaving.1, hleaving.2⟩
    · rename_i hstay
      cases hrun
      exact .inl ⟨rfl, .inl (if_neg hstay)⟩
  · rename_i heq
    obtain rfl := not_not.mp heq
    cases hrun
    exact .inl ⟨rfl, .inr rfl⟩

/-! ## What one thread does -/

theorem threadCurrent_ok {cur : Page} (hrun : k.threadCurrent = .ok cur) :
    cur = k.running ∧ k.status k.running = some .running := by
  grind [threadCurrent]

theorem Inv.leaving_nil (h : Inv i k) : k.leaving = [] := by
  grind [leaving, h.running k.running]

theorem Inv.place_running (h : Inv i k) : k.place k.running = none := by
  have hrunning := (h.running k.running).mpr rfl
  exact place_none (by rw [hrunning]; simp) (by rw [hrunning]; simp)

theorem Inv.running_ne (h : Inv i k) (hg : k.stage k.running = some g) (hnot : g.isIdle = false) : k.running ≠ i := by
  intro heq
  obtain ⟨g', hg', hisIdle, -⟩ := h.idle
  rw [← heq, hg, Option.some.injEq] at hg'
  rw [← hg', hnot] at hisIdle
  cases hisIdle

theorem threadUnblock_ok (hrun : k.threadUnblock t = .ok k') :
    k.status t = some .blocked ∧ k' = (k.pushReady t).setStatus t .ready := by
  grind [threadUnblock]

/-- The running thread stops, with another status, and joins the run queue if it is ready; the switch is still to come. -/
structure Stops (k : Kernel S) (st : ThreadStatus) (k₁ : Kernel S) : Prop where
  self : k₁.status k.running = some st
  status : ∀ u, u ≠ k.running → k₁.status u = k.status u
  stage : ∀ u, k₁.stage u = k.stage u
  sema : k₁.sema = k.sema
  running : k₁.running = k.running
  idleThread : k₁.idleThread = k.idleThread
  initialThread : k₁.initialThread = k.initialThread
  frees : k₁.frees = k.frees
  exits : k₁.exits = if st = .dying then k.exits ++ [k.running] else k.exits
  ready : k₁.readyList = if st = .ready ∧ k.idleThread ≠ some k.running then k.readyList ++ [k.running] else k.readyList

theorem threadBlock_ok (hrun : k.threadBlock = .ok k') : ∃ k₁, Stops k .blocked k₁ ∧ k₁.schedule = .ok k' := by
  obtain ⟨_, hcur, hrun⟩ := Checked.bind_ok hrun
  obtain ⟨rfl, hrunning⟩ := threadCurrent_ok hcur
  exact ⟨_, ⟨status_setStatus_self hrunning, fun u hu => status_setStatus_ne hu, fun u => stage_setStatus,
    rfl, rfl, rfl, rfl, rfl, rfl, rfl⟩, hrun⟩

theorem threadYield_ok (hrun : k.threadYield = .ok k') : ∃ k₁, Stops k .ready k₁ ∧ k₁.schedule = .ok k' := by
  obtain ⟨_, hcur, hrun⟩ := Checked.bind_ok hrun
  obtain ⟨rfl, hrunning⟩ := threadCurrent_ok hcur
  by_cases hidle : some k.running = k.idleThread
  · rw [if_neg (not_not.mpr hidle)] at hrun
    exact ⟨_, ⟨status_setStatus_self hrunning, fun u hu => status_setStatus_ne hu, fun u => stage_setStatus,
      rfl, rfl, rfl, rfl, rfl, rfl, (if_neg (by simp [hidle])).symm⟩, hrun⟩
  · rw [if_pos hidle] at hrun
    exact ⟨_, ⟨status_setStatus_self (k := k.pushReady k.running) hrunning, fun u hu => status_setStatus_ne hu,
      fun u => stage_setStatus, rfl, rfl, rfl, rfl, rfl, rfl, (if_pos ⟨rfl, Ne.symm hidle⟩).symm⟩, hrun⟩

theorem threadExit_ok (hrun : k.threadExit = .ok k') : ∃ k₁, Stops k .dying k₁ ∧ k₁.schedule = .ok k' := by
  obtain ⟨_, hcur, hrun⟩ := Checked.bind_ok hrun
  obtain ⟨rfl, hrunning⟩ := threadCurrent_ok hcur
  refine ⟨{ k.setStatus k.running .dying with exits := k.exits ++ [k.running] }, ?_, hrun⟩
  exact ⟨status_setStatus_self hrunning, fun u hu => status_setStatus_ne hu, fun u => stage_setStatus,
    rfl, rfl, rfl, rfl, rfl, rfl, rfl⟩

/-- A change to one thread, and to the lists it is in; it does not come to the code of `idle`. -/
structure Changes (i t : Page) (k k' : Kernel S) : Prop where
  status : ∀ u, u ≠ t → k'.status u = k.status u
  stage : ∀ u, u ≠ t → k'.stage u = k.stage u
  self : k'.stage t = k.stage t ∨ t ≠ i ∧ ∀ g, k'.stage t = some g → g.isIdle = false
  running : k'.running = k.running
  idleThread : k'.idleThread = k.idleThread
  initialThread : k'.initialThread = k.initialThread
  frees : k'.frees = k.frees
  placed : Placed (Function.update k.place t (k'.place t)) k'.queue

theorem Core.change (h : Core i k) (hc : Changes i t k k') (halive : k'.status t = some .dying → t ≠ i ∧ t = k.running)
    (hfreed : k'.exits.filter (fun t => decide (t ≠ k.initialThread)) = k.frees.map Prod.fst ++ k'.leaving) : Core i k' := by
  obtain ⟨hstatus, hstage, hself, hrunning, hidle, hinit, hfrees, hplaced⟩ := hc
  have hi : k'.stage i = k.stage i := by
    grind
  constructor
  case placed =>
    rw [place_eq_update hstatus hstage hidle]
    exact hplaced
  case only =>
    intro u g
    have hold := h.only u g
    grind
  case idle =>
    rw [hi, hidle]
    exact h.idle
  case alive => grind [h.alive]
  case dying =>
    intro u
    have hold := h.dying u
    grind
  case freed =>
    rw [hinit, hfrees]
    exact hfreed
  case apart =>
    rw [hfrees]
    exact h.apart

/-- A change to one thread that is not the running one, and does not become it. -/
theorem Inv.change (h : Inv i k) (hc : Changes i t k k') (hrun : k'.status t = some .running ↔ t = k.running)
    (halive : k'.status t ≠ some .dying) (hexits : k'.exits = k.exits) : Inv i k' := by
  have hstatus := hc.status
  have hrunning := hc.running
  have hrunning' : ∀ u, k'.status u = some .running ↔ u = k'.running := by
    intro u
    have hold := h.running u
    grind
  refine ⟨h.toCore.change hc (fun hd => absurd hd halive) ?_, hrunning'⟩
  have hleaving : k'.leaving = [] := by
    grind [leaving]
  rw [hexits, hleaving, ← h.leaving_nil]
  exact h.freed

/-- The running thread comes to another stage of its code. -/
theorem Inv.setStage (h : Inv i k) (hi : k.running ≠ i) (hnot : g.isIdle = false) : Inv i (k.setStage k.running g) := by
  have hrunning : (k.setStage k.running g).status k.running = some .running :=
    status_setStage.trans ((h.running k.running).mpr rfl)
  refine h.change (t := k.running) ⟨fun u _ => status_setStage, fun u hu => stage_setStage_ne hu, .inr ⟨hi, ?_⟩,
    rfl, rfl, rfl, rfl, ?_⟩ (iff_of_true hrunning rfl) (by simp [hrunning]) rfl
  · intro g' hg'
    obtain ⟨g₀, hg₀⟩ := stage_of_status ((h.running k.running).mpr rfl)
    rw [stage_setStage_self hg₀, Option.some.injEq] at hg'
    rw [← hg']
    exact hnot
  · rw [place_none (by simp [hrunning]) (by simp [hrunning]), ← h.place_running, update_eq_self]
    exact h.placed

theorem Inv.initThread (h : Inv i k) (hnew : k.thread t = none) : Inv i (k.initThread t .any) := by
  have hstatus : k.status t = none := by rw [status, hnew]; rfl
  have hne : t ≠ k.running := by
    rintro rfl
    rw [(h.running k.running).mpr rfl] at hstatus
    cases hstatus
  have hi : t ≠ i := by
    rintro rfl
    obtain ⟨g, hg, -⟩ := h.idle
    rw [stage, hnew] at hg
    cases hg
  have hself : (k.initThread t .any).status t = some .blocked := status_setThread_self
  have hstage : (k.initThread t .any).stage t = some .any := stage_setThread_self
  refine h.change (t := t) ⟨fun u hu => status_setThread_ne hu, fun u hu => stage_setThread_ne hu, .inr ⟨hi, ?_⟩,
    rfl, rfl, rfl, rfl, ?_⟩ (by simp [hself, hne]) (by simp [hself]) rfl
  · intro g hg
    rw [hstage, Option.some.injEq] at hg
    rw [← hg]
    rfl
  · have hplace : k.place t = none := place_none (by simp [hstatus]) (by simp [hstatus])
    rw [place_blocked hself (by simp [hstage]), ← hplace, update_eq_self]
    exact h.placed

/-- A thread in the code of `idle` goes on in it; `idle_thread` is set from the first time on. -/
theorem Inv.idleStage (g' : Stage S) (h : Inv i k) (hg : k.stage k.running = some g) (hisIdle : g.isIdle = true)
    (hstarted : g'.started = true) (hisIdle' : g'.isIdle = true) :
    Inv i ({ k with idleThread := some k.running }.setStage k.running g') := by
  obtain rfl := h.only _ _ hg hisIdle
  have hrunning := (h.running k.running).mpr rfl
  set k' := { k with idleThread := some k.running }.setStage k.running g'
  have hstatus : ∀ u, k'.status u = k.status u := fun u => status_setStage
  have hself : k'.stage k.running = some g' := stage_setStage_self (k := { k with idleThread := some k.running }) hg
  have hother : ∀ u, u ≠ k.running → k'.stage u = k.stage u := fun u hu => stage_setStage_ne hu
  constructor
  case running =>
    intro t
    rw [hstatus]
    exact h.running t
  constructor
  case placed =>
    refine Placed.congr (q := k.queue) h.placed ?_
    intro t
    by_cases ht : t = k.running
    · rw [ht, h.place_running]
      exact place_none (by simp [hstatus, hrunning]) (by simp [hstatus, hrunning])
    · refine place_congr (hstatus t) (hother t ht) (iff_of_false ?_ ?_)
      · exact fun hsome => ht (Option.some.inj hsome).symm
      · exact fun hsome => ht (h.place_idleThread hsome).1
  case only =>
    intro t g₀
    have hold := h.only t g₀
    grind
  case idle =>
    refine ⟨g', hself, hisIdle', ?_⟩
    rw [if_pos hstarted]
    rfl
  case alive =>
    rw [hstatus]
    exact h.alive
  case dying =>
    intro t ht
    rw [hstatus] at ht
    exact h.dying t ht
  case freed =>
    have hleaving : k'.leaving = k.leaving := by
      unfold leaving
      rw [hstatus]
      rfl
    rw [hleaving]
    exact h.freed
  case apart => exact h.apart

/-! ## Steps of the scheduler -/

variable [DecidableEq S]

theorem queue_of_ready (hsema : k'.sema = k.sema) : k'.queue = Function.update k.queue .ready k'.readyList := by
  funext q
  cases q <;> simp [queue, hsema]

theorem queue_of_sema (sem : Semaphore) (hready : k'.readyList = k.readyList)
    (hsema : k'.sema = Function.update k.sema s sem) : k'.queue = Function.update k.queue (.waiters s) sem.waiters := by
  funext q
  cases q with
  | ready => simp [queue, hready]
  | waiters s' => by_cases hs : s' = s <;> simp [queue, hsema, hs]

/-- The thread that is chosen leaves the run queue. -/
theorem Core.chosen (h : Core i k)
    (hactive : k.readyList = next :: ready ∨ k.readyList = [] ∧ ready = [] ∧ k.idleThread = some next) :
    Placed (Function.update k.place next none) { k with readyList := ready }.queue ∧ k.status next ≠ some .dying := by
  rcases hactive with hready | ⟨hempty, rfl, hidle⟩
  · have hplace := (h.placed.mem .ready next).mp (show next ∈ k.readyList by rw [hready]; exact List.mem_cons_self)
    refine ⟨?_, ?_⟩
    · have hqueue : { k with readyList := ready }.queue = Function.update k.queue .ready ready := queue_of_ready rfl
      rw [hqueue]
      exact h.placed.pop hready
    · rw [(status_of_place_ready hplace).1]
      simp
  · obtain ⟨rfl, hplace⟩ := h.place_idleThread hidle
    refine ⟨?_, h.alive⟩
    rw [← hplace, update_eq_self, ← hempty]
    exact h.placed

/-- **`schedule`** leads from a switch that has begun to a state between two steps. -/
theorem Core.schedule (h : Core i k) (hstop : ∀ t, k.status t ≠ some .running) (hrun : k.schedule = .ok k') : Inv i k' := by
  obtain ⟨next, ready, st, hactive, hnext, hcases⟩ := schedule_ok hrun
  obtain ⟨hplaced, hdying⟩ := h.chosen hactive
  have hdying' : st ≠ .dying := by
    intro heq
    rw [hnext, heq] at hdying
    exact hdying rfl
  rcases hcases with ⟨rfl, hgone⟩ | ⟨rfl, hne, hleaving, hinit⟩
  · exact h.switched hstop hplaced hnext hdying' hgone
  · have hnext' : (k.buried next).status next = some st := (status_setThread_ne (Ne.symm hne)).trans hnext
    refine (h.buried hleaving hinit hne).switched ?_ ?_ hnext' hdying' (.inl leaving_buried)
    · intro t ht
      rw [status_buried] at ht
      split at ht
      · cases ht
      · exact hstop t ht
    · rw [place_buried hleaving]
      exact hplaced

/-- **The running thread stops** with another status, and the kernel switches. -/
theorem Inv.stop {k'' : Kernel S} (h : Inv i k) (hc : Changes i k.running k k') (hst : st ≠ .running)
    (hself : k'.status k.running = some st) (halive : st = .dying → k.running ≠ i)
    (hexits : k'.exits = if st = .dying then k.exits ++ [k.running] else k.exits) (hrun : k'.schedule = .ok k'') :
    Inv i k'' := by
  have hfreed := h.freed
  rw [h.leaving_nil, List.append_nil] at hfreed
  refine Core.schedule (h.toCore.change hc ?_ ?_) ?_ hrun
  · intro hd
    rw [hself, Option.some.injEq] at hd
    exact ⟨halive hd, rfl⟩
  · unfold leaving
    rw [hc.running, hc.initialThread, hself, hexits]
    by_cases hd : st = .dying
    · by_cases hk : k.running = k.initialThread <;> simpa [hd, hk] using hfreed
    · simpa [hd] using hfreed
  · intro t ht
    have hold := h.running t
    have hstatus := hc.status
    grind

/-- **The running thread stops outside `sema_down`.** -/
theorem Inv.stops {k₁ : Kernel S} (h : Inv i k) (hs : Stops k st k₁) (hst : st ≠ .running)
    (hdown : st = .blocked → ∀ s, k.stage k.running ≠ some (.down s)) (halive : st = .dying → k.running ≠ i)
    (hrun : k₁.schedule = .ok k') : Inv i k' := by
  refine h.stop ⟨hs.status, fun u _ => hs.stage u, .inl (hs.stage _), hs.running, hs.idleThread, hs.initialThread, hs.frees,
    ?_⟩ hst hs.self halive hs.exits hrun
  rw [queue_of_ready hs.sema, hs.ready]
  by_cases hjoin : st = .ready ∧ k.idleThread ≠ some k.running
  · rw [if_pos hjoin, place_ready (hjoin.1 ▸ hs.self) (hs.idleThread ▸ hjoin.2)]
    exact h.placed.push h.place_running
  · -- the idle thread is ready, but in no list
    have hnone : k₁.place k.running = none := by
      have hself := hs.self
      grind [place, hs.stage k.running, hs.idleThread]
    rw [if_neg hjoin, hnone, ← h.place_running, update_eq_self]
    have hsame : Function.update k.queue .ready k.readyList = k.queue := update_eq_self Queue.ready k.queue
    rw [hsame]
    exact h.placed

/-- `thread_block`, outside `sema_down`. -/
theorem Inv.threadBlock (h : Inv i k) (hstage : ∀ s, k.stage k.running ≠ some (.down s))
    (hrun : k.threadBlock = .ok k') : Inv i k' := by
  obtain ⟨k₁, hs, hrun⟩ := threadBlock_ok hrun
  exact h.stops hs (by simp) (fun _ => hstage) (by simp) hrun

theorem Inv.threadYield (h : Inv i k) (hrun : k.threadYield = .ok k') : Inv i k' := by
  obtain ⟨k₁, hs, hrun⟩ := threadYield_ok hrun
  exact h.stops hs (by simp) (by simp) (by simp) hrun

theorem Inv.threadExit (h : Inv i k) (hi : k.running ≠ i) (hrun : k.threadExit = .ok k') : Inv i k' := by
  obtain ⟨k₁, hs, hrun⟩ := threadExit_ok hrun
  exact h.stops hs (by simp) (by simp) (fun _ => hi) hrun

/-- The running thread sleeps in `sema_down`, and the switch is still to come. -/
def asleep (k : Kernel S) (s : S) : Kernel S :=
  ((k.setSema s { k.sema s with waiters := (k.sema s).waiters ++ [k.running] }).setStage k.running (.down s)).setStatus
    k.running .blocked

theorem status_asleep_self (h : k.status k.running = some st) : (k.asleep s).status k.running = some .blocked :=
  status_setStatus_self (status_setStage.trans h)

theorem status_asleep_ne (h : t ≠ k.running) : (k.asleep s).status t = k.status t :=
  (status_setStatus_ne h).trans status_setStage

theorem stage_asleep_self (h : k.status k.running = some st) : (k.asleep s).stage k.running = some (.down s) := by
  obtain ⟨g, hg⟩ := stage_of_status h
  exact stage_setStatus.trans (stage_setStage_self (k := k.setSema s _) hg)

theorem stage_asleep_ne (h : t ≠ k.running) : (k.asleep s).stage t = k.stage t :=
  stage_setStatus.trans (stage_setStage_ne h)

theorem sema_asleep_self : (k.asleep s).sema s = ⟨(k.sema s).value, (k.sema s).waiters ++ [k.running]⟩ := by
  simp [asleep, setSema, setStage, setStatus, setThread]

theorem sema_asleep_ne {s s' : S} (h : s' ≠ s) : (k.asleep s).sema s' = k.sema s' := by
  simp [asleep, setSema, setStage, setStatus, setThread, h]

theorem queue_asleep :
    (k.asleep s).queue = Function.update k.queue (.waiters s) ((k.sema s).waiters ++ [k.running]) :=
  queue_of_sema ⟨(k.sema s).value, _⟩ rfl rfl

/-- What `sema_down` does in one turn: it sleeps when there is no unit, and takes one otherwise. -/
theorem semaDown_ok (hrun : k.semaDown s = .ok k') :
    (k.sema s).value = 0 ∧ k.status k.running = some .running ∧ (k.asleep s).schedule = .ok k' ∨
    0 < (k.sema s).value ∧
      k' = (k.setSema s { k.sema s with value := (k.sema s).value - 1 }).setStage k.running .any := by
  unfold semaDown at hrun
  split at hrun
  · rename_i hzero
    obtain ⟨_, hcur, hrun⟩ := Checked.bind_ok hrun
    obtain ⟨rfl, hrunning⟩ := threadCurrent_ok hcur
    obtain ⟨_, hcur', hrun⟩ := Checked.bind_ok hrun
    obtain ⟨rfl, -⟩ := threadCurrent_ok hcur'
    exact .inl ⟨hzero, hrunning, hrun⟩
  · rename_i hpos
    cases hrun
    exact .inr ⟨Nat.pos_of_ne_zero hpos, rfl⟩

/-- The running thread is put with the waiters of a semaphore. -/
theorem Inv.asleep (h : Inv i k) (hi : k.running ≠ i) (hrun : (k.asleep s).schedule = .ok k') : Inv i k' := by
  have hrunning := (h.running k.running).mpr rfl
  have hself : (k.asleep s).status k.running = some .blocked := status_asleep_self hrunning
  refine h.stop ⟨fun u hu => status_asleep_ne hu, fun u hu => stage_asleep_ne hu, .inr ⟨hi, ?_⟩, rfl, rfl, rfl, rfl, ?_⟩
    (by simp) hself (by simp) rfl hrun
  · intro g hg
    rw [stage_asleep_self hrunning, Option.some.injEq] at hg
    rw [← hg]
    rfl
  · rw [place_down hself (stage_asleep_self hrunning), queue_asleep]
    exact h.placed.push h.place_running

variable {value : Nat}

/-- Changes to the values of semaphores do not concern the lists. -/
theorem Inv.setValue (h : Inv i k) : Inv i (k.setSema s { k.sema s with value := value }) := by
  have hqueue : (k.setSema s { k.sema s with value := value }).queue = k.queue := by
    have hupdate : (k.setSema s { k.sema s with value := value }).queue =
        Function.update k.queue (.waiters s) (k.sema s).waiters := queue_of_sema ⟨value, (k.sema s).waiters⟩ rfl rfl
    rw [hupdate]
    exact update_eq_self (Queue.waiters s) k.queue
  exact ⟨⟨hqueue ▸ h.placed, h.only, h.idle, h.alive, h.dying, h.freed, h.apart⟩, h.running⟩

/-- A blocked thread that has left the lists it was in becomes ready. -/
theorem Inv.wake (h : Inv i k) (k₁ : Kernel S) (hthread : k₁.thread = k.thread)
    (hidle : k₁.idleThread = k.idleThread) (hinit : k₁.initialThread = k.initialThread) (hrunning : k₁.running = k.running)
    (hfrees : k₁.frees = k.frees) (hexits : k₁.exits = k.exits) (hne : k.idleThread ≠ some t)
    (hplaced : Placed (Function.update k.place t none) k₁.queue) (hrun : k₁.threadUnblock t = .ok k') : Inv i k' := by
  have hstatus : ∀ u, k₁.status u = k.status u := fun u => by rw [status, hthread]; rfl
  have hstage : ∀ u, k₁.stage u = k.stage u := fun u => by rw [stage, hthread]; rfl
  obtain ⟨hblocked, rfl⟩ := threadUnblock_ok hrun
  have hself : ((k₁.pushReady t).setStatus t .ready).status t = some .ready :=
    status_setStatus_self (k := k₁.pushReady t) hblocked
  refine h.change (t := t) ⟨fun u hu => (status_setStatus_ne hu).trans (hstatus u), fun u _ => stage_setStatus.trans (hstage u),
    .inl (stage_setStatus.trans (hstage t)), hrunning, hidle, hinit, hfrees, ?_⟩ ?_ ?_ hexits
  · have hready : ((k₁.pushReady t).setStatus t .ready).place t = some .ready := place_ready hself (hidle ▸ hne)
    have hqueue : ((k₁.pushReady t).setStatus t .ready).queue = Function.update k₁.queue .ready (k₁.readyList ++ [t]) :=
      queue_of_ready rfl
    rw [hready, hqueue]
    have hpush := hplaced.push (t := t) (i := .ready) (update_self _ _ _)
    rw [update_idem] at hpush
    exact hpush
  · rw [hself, ← h.running, ← hstatus, hblocked]
    simp
  · rw [hself]
    simp

theorem Inv.threadUnblock (h : Inv i k) (hproper : k.Proper (.unblock t)) (hrun : k.threadUnblock t = .ok k') :
    Inv i k' := by
  obtain ⟨hblocked, -⟩ := threadUnblock_ok hrun
  refine h.wake k rfl rfl rfl rfl rfl rfl hproper.2 ?_ hrun
  rw [← place_blocked hblocked hproper.1, update_eq_self]
  exact h.placed

theorem Inv.semaWake (h : Inv i k) (hwake : k.semaWake s = .ok k') : Inv i k' := by
  unfold Kernel.semaWake at hwake
  split at hwake
  · cases hwake
    exact h
  · rename_i t ts hwaiters
    have hmem : t ∈ k.queue (.waiters s) := by
      show t ∈ (k.sema s).waiters
      rw [hwaiters]
      exact List.mem_cons_self
    refine h.wake (k.setSema s { k.sema s with waiters := ts }) rfl rfl rfl rfl rfl rfl ?_ ?_ hwake
    · -- the idle thread waits for no semaphore
      intro hidle
      obtain ⟨rfl, hnone⟩ := h.place_idleThread hidle
      rw [h.placed.mem, hnone] at hmem
      cases hmem
    · have hqueue : (k.setSema s { k.sema s with waiters := ts }).queue = Function.update k.queue (.waiters s) ts :=
        queue_of_sema ⟨(k.sema s).value, ts⟩ rfl rfl
      rw [hqueue]
      exact h.placed.pop hwaiters

theorem Inv.semaUp (h : Inv i k) (hrun : k.semaUp s = .ok k') : Inv i k' := by
  obtain ⟨k₁, hwake, hrun⟩ := Checked.bind_ok hrun
  cases hrun
  exact (h.semaWake hwake).setValue

theorem Inv.semaDown (h : Inv i k) (hg : k.stage k.running = some g) (hnot : g.isIdle = false)
    (hrun : k.semaDown s = .ok k') : Inv i k' := by
  have hi := h.running_ne hg hnot
  rcases semaDown_ok hrun with ⟨-, -, hswitch⟩ | ⟨-, rfl⟩
  · exact h.asleep hi hswitch
  · exact h.setValue.setStage hi rfl

theorem Inv.semaTryDown (h : Inv i k) : Inv i (k.semaTryDown s).2 := by
  unfold Kernel.semaTryDown
  split
  · exact h.setValue
  · exact h

theorem Inv.semaInit (h : Inv i k) (hproper : k.Proper (.semaInit s value)) : Inv i (k.semaInit s value) := by
  have hnil : (k.sema s).waiters = [] := by
    refine List.eq_nil_iff_forall_not_mem.mpr ?_
    intro t ht
    exact hproper t (status_of_place_waiters ((h.placed.mem (.waiters s) t).mp ht)).2
  have heq : k.semaInit s value = k.setSema s { k.sema s with value := value % 2 ^ 32 } := by
    unfold Kernel.semaInit
    rw [← hnil]
  rw [heq]
  exact h.setValue

/-! ## The idle thread -/

theorem semaUp_running (hrun : k.semaUp s = .ok k') :
    k'.running = k.running ∧ k'.idleThread = k.idleThread ∧ ∀ t, k'.stage t = k.stage t := by
  obtain ⟨k₁, hwake, hrun⟩ := Checked.bind_ok hrun
  cases hrun
  unfold Kernel.semaWake at hwake
  split at hwake
  · cases hwake
    exact ⟨rfl, rfl, fun t => rfl⟩
  · obtain ⟨-, rfl⟩ := threadUnblock_ok hwake
    exact ⟨rfl, rfl, fun t => stage_setStatus⟩

theorem Inv.idleStep (h : Inv i k) (hg : k.stage k.running = some g) (hisIdle : g.isIdle = true)
    (hrun : k.idle = .ok k') : Inv i k' := by
  unfold Kernel.idle at hrun
  rw [hg] at hrun
  cases g with
  | any => cases hisIdle
  | down s => cases hisIdle
  | idleEntry idleStarted =>
    obtain ⟨_, hcur, hrun⟩ := Checked.bind_ok hrun
    obtain ⟨rfl, -⟩ := threadCurrent_ok hcur
    cases hrun
    exact h.idleStage _ hg hisIdle rfl rfl
  | idleUp idleStarted =>
    obtain ⟨k₁, hup, hrun⟩ := Checked.bind_ok hrun
    cases hrun
    obtain ⟨hrunning, hidle, hstage⟩ := semaUp_running hup
    have hg₁ : k₁.stage k₁.running = some (.idleUp idleStarted) := by rw [hrunning, hstage]; exact hg
    have h₁ := h.semaUp hup
    have hset := h₁.idleStage .idleLoop hg₁ rfl rfl rfl
    obtain ⟨g', hg', -, hthread⟩ := h₁.idle
    obtain rfl := h₁.only _ _ hg₁ rfl
    rw [hg₁, Option.some.injEq] at hg'
    rw [← hg'] at hthread
    have hsame : { k₁ with idleThread := some k₁.running } = k₁ := by
      have hthread' : k₁.idleThread = some k₁.running := hthread
      rw [← hthread']
    rw [hsame] at hset
    exact hset
  | idleLoop => exact h.threadBlock (by simp [hg]) hrun

end Kernel
end Threads
end Asg1
