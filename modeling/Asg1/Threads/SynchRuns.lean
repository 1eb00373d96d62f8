import Asg1.Threads.Waiters

/-!
# `Threads.SynchRuns` — locks and condition variables in the kernel

A step of `Synch.Sys` is a step of `Synch.State` with the values that the kernel's semaphores have, or nothing there: when
other code runs, and when a thread goes to sleep. So the invariant of `Threads.Waiters` holds in all runs. What comes from
the kernel is that nobody sleeps while the unit it waits for is there.
-/

namespace Asg1
namespace Synch

open Threads

/-! ## Stages in the kernel -/

section Kernel

variable {S : Type} {k k' : Kernel S} {i u : Page}

theorem stage_threadYield (hrun : k.threadYield = .ok k') (u : Page) : k'.stage u = k.stage u := by
  obtain ⟨k₁, hs, hrun⟩ := Kernel.threadYield_ok hrun
  refine ((Kernel.switch_of_schedule hrun).stage u ?_).trans (hs.stage u)
  -- the thread that yields is ready, so it is not freed
  rw [hs.running]
  rintro rfl hdying
  cases hs.self.symm.trans hdying

variable [DecidableEq S]

theorem stage_semaDown {s : S} (hrun : k.semaDown s = .ok k') (hu : u ≠ k.running) : k'.stage u = k.stage u := by
  rcases Kernel.semaDown_ok hrun with ⟨-, -, hsleep⟩ | ⟨-, rfl⟩
  · exact ((Kernel.switch_of_schedule hsleep).stage u (fun heq => absurd heq hu)).trans (Kernel.stage_asleep_ne hu)
  · exact Kernel.stage_setStage_ne hu

/-- What an interrupt does leaves all stages. -/
theorem stage_inHandler {a : Action S} (ha : a.inHandler = true) (hrun : k.exec a = .ok k') (u : Page) :
    k'.stage u = k.stage u := by
  cases a with
  | unblock t =>
    obtain ⟨-, rfl⟩ := Kernel.threadUnblock_ok hrun
    exact Kernel.stage_setStatus
  | yield => exact stage_threadYield hrun u
  | semaTryDown s =>
    cases hrun
    unfold Kernel.semaTryDown
    split <;> rfl
  | semaUp s =>
    obtain ⟨-, -, hstage, -⟩ := Kernel.semaUp_ok hrun
    exact hstage u
  | _ => cases ha

end Kernel

variable {L C S : Type} {lockOf : C → L}

/-! ## Places and stages -/

/-- A thread inside the functions here is not in other code of the kernel's: it may be asleep only in the `sema_down` that
    comes next, and nobody else is in `sema_down` on these semaphores. -/
structure Fits (t : Page) (p : Pc L C) (g : Option (Stage (Sem L ⊕ S))) : Prop where
  away : p ≠ .user → g = some .any ∨ ∃ q, p.op t = .down q ∧ g = some (.down (.inl q))
  down : ∀ q, g = some (.down (.inl q)) → p.op t = .down q

variable {k : Kernel (Sem L ⊕ S)} {t : Page} {p : Pc L C}

theorem fits_any : Fits t p (some (.any : Stage (Sem L ⊕ S))) := ⟨fun _ => .inl rfl, nofun⟩

/-- The semaphore of a waiter is for that thread alone. -/
theorem waitDown_of_op {u : Page} (h : p.op u = .down (.waiter t)) : u = t ∧ ∃ c, p = .waitDown c := by
  cases p with
  | waitDown c =>
    cases h
    exact ⟨rfl, c, rfl⟩
  | _ => cases h

theorem waitInit_of_op {q : Sem L} (h : p.op t = .init q) : ∃ c, q = .waiter t ∧ p = .waitInit c := by
  cases p with
  | waitInit c =>
    cases h
    exact ⟨c, rfl, rfl⟩
  | _ => cases h

variable [DecidableEq L] [DecidableEq C] [DecidableEq S]

/-- The values of the semaphores. -/
def values (k : Kernel (Sem L ⊕ S)) : Sem L → Nat := fun q => (k.sema (.inl q)).value

/-- The system without the kernel. -/
def Sys.abs (s : Sys L C S) : State L C := ⟨values s.k, s.m⟩

/-- **What holds in every state of the system.** -/
structure SysInv (lockOf : C → L) (i : Page) (s : Sys L C S) : Prop where
  kern : s.k.Inv i
  covered : s.k.Covered
  mon : Inv lockOf s.abs
  fits : ∀ t, Fits t (s.m.pc t) (s.k.stage t)

variable {s s' : Sys L C S} {i t : Page} {k' : Kernel (Sem L ⊕ S)} {q : Sem L} {ok : Bool}

/-! ## Operations on semaphores -/

/-- What an operation of the running thread leaves: it is through and the values are as they should be, or it sleeps and
    they are as they were. -/
structure Operated (i : Page) (k k' : Kernel (Sem L ⊕ S)) (o : Op L) (ok : Bool) : Prop where
  kern : k'.Inv i
  covered : k'.Covered
  others : ∀ u, u ≠ k.running → k'.stage u = k.stage u
  result : Sys.sleeps o ok = false ∧ k'.stage k.running = some .any ∧ State.operate (values k) o = some (values k', ok) ∨
    Sys.sleeps o ok = true ∧ (∃ q, o = .down q ∧ k'.stage k.running = some (.down (.inl q))) ∧ values k' = values k

omit [DecidableEq C] [DecidableEq L] [DecidableEq S] in
/-- Only one semaphore has changed. -/
theorem values_update {k' : Kernel (Sem L ⊕ S)} [DecidableEq L] {n : Nat} (hself : (k'.sema (.inl q)).value = n)
    (hother : ∀ s', s' ≠ .inl q → k'.sema s' = k.sema s') : values k' = Function.update (values k) q n := by
  funext r
  by_cases hr : r = q
  · rw [hr, Function.update_self]
    exact hself
  · rw [Function.update_of_ne hr, values, hother (.inl r) (by simpa using hr)]
    rfl

omit [DecidableEq C] in
theorem operate_semaTryDown : State.operate (values k) (.tryDown q) =
    some (values (k.semaTryDown (.inl q)).2, (k.semaTryDown (.inl q)).1) := by
  rw [State.operate, Kernel.semaTryDown]
  by_cases hzero : (k.sema (.inl q)).value = 0
  · rw [if_pos (show values k q = 0 from hzero), if_neg (by omega)]
  · rw [if_neg (show values k q ≠ 0 from hzero), if_pos (Nat.pos_of_ne_zero hzero)]
    refine congrArg (fun v => some (v, true)) (values_update ?_ ?_).symm
    · simp [Kernel.setSema, values]
    · intro r hr
      simp [Kernel.setSema, hr]

namespace SysInv

omit [DecidableEq C] in
/-- The running thread is before a `sema_down`: it has not slept yet, or it has been woken. -/
theorem stage_down (h : SysInv lockOf i s) (hpc : (s.m.pc s.k.running).op s.k.running = .down q) :
    ∃ g, s.k.stage s.k.running = some g ∧ g.isIdle = false ∧ ∀ r, g = .down r → r = .inl q := by
  have haway : s.m.pc s.k.running ≠ .user := by
    intro huser
    rw [huser] at hpc
    cases hpc
  rcases (h.fits s.k.running).away haway with hany | ⟨r, hr, hdown⟩
  · exact ⟨.any, hany, rfl, nofun⟩
  · cases hpc.symm.trans hr
    exact ⟨_, hdown, rfl, fun r hr => by cases hr; rfl⟩

omit [DecidableEq C] in
/-- `sema_down` -/
theorem down (h : SysInv lockOf i s) (hpc : (s.m.pc s.k.running).op s.k.running = .down q)
    (hrun : s.k.semaDown (.inl q) = .ok k') : Operated i s.k k' (.down q) (decide ((s.k.sema (.inl q)).value ≠ 0)) := by
  obtain ⟨g, hg, hnot, honly⟩ := h.stage_down hpc
  have hcovered : k'.Covered := by
    refine h.covered.semaDown h.kern ?_ hrun
    intro r hr
    exact honly r (Option.some.inj (hg.symm.trans hr))
  refine ⟨h.kern.semaDown hg hnot hrun, hcovered, fun u hu => stage_semaDown hrun hu, ?_⟩
  by_cases hzero : (s.k.sema (.inl q)).value = 0
  · obtain ⟨-, hvalue, hother, hself, -⟩ := h.kern.sleep_effect hg hnot hzero hrun
    refine .inr ⟨by simp [Sys.sleeps, hzero], ⟨q, rfl, hself⟩, ?_⟩
    rw [values_update hvalue hother, ← hzero]
    exact Function.update_eq_self q (values s.k)
  · obtain ⟨k₁, hrun', -, -, hvalue, hother, hself, -⟩ := h.kern.take_effect (s := .inl q) hg hnot (Nat.pos_of_ne_zero hzero)
    cases hrun'.symm.trans hrun
    refine .inl ⟨by simp [Sys.sleeps, hzero], hself, ?_⟩
    rw [State.operate, if_neg (show values s.k q ≠ 0 from hzero), values_update hvalue hother, decide_eq_true hzero]
    rfl

omit [DecidableEq C] in
/-- The running thread is at no `sema_down`, so it has not slept. -/
theorem stage_running (h : SysInv lockOf i s) (haway : s.m.pc s.k.running ≠ .user)
    (hnot : ∀ q, (s.m.pc s.k.running).op s.k.running ≠ .down q) : s.k.stage s.k.running = some .any := by
  rcases (h.fits s.k.running).away haway with hany | ⟨q, hq, -⟩
  · exact hany
  · exact absurd hq (hnot q)

omit [DecidableEq C] in
/-- **The operation of a step.** -/
theorem operated (h : SysInv lockOf i s) (haway : s.m.pc s.k.running ≠ .user)
    (hrun : Sys.operate s.k ((s.m.pc s.k.running).op s.k.running) = .ok (k', ok)) :
    Operated i s.k k' ((s.m.pc s.k.running).op s.k.running) ok := by
  cases hop : (s.m.pc s.k.running).op s.k.running with
  | down q =>
    rw [hop] at hrun
    obtain ⟨k₁, hdown, hrun⟩ := Checked.bind_ok hrun
    cases hrun
    exact h.down hop hdown
  | none =>
    rw [hop] at hrun
    cases hrun
    exact ⟨h.kern, h.covered, fun u _ => rfl, .inl ⟨rfl, h.stage_running haway (by simp [hop]), rfl⟩⟩
  | tryDown q =>
    have hany := h.stage_running haway (by simp [hop])
    rw [hop] at hrun
    cases hrun
    have hstage : ∀ u, (s.k.semaTryDown (.inl q)).2.stage u = s.k.stage u :=
      stage_inHandler (a := .semaTryDown (Sum.inl q)) rfl rfl
    refine ⟨h.kern.semaTryDown, h.covered.semaTryDown, fun u _ => hstage u, .inl ⟨rfl, (hstage _).trans hany, ?_⟩⟩
    exact operate_semaTryDown
  | up q =>
    have hany := h.stage_running haway (by simp [hop])
    have hzero : values s.k q = 0 := h.mon.up_zero hop
    rw [hop] at hrun
    obtain ⟨k₁, hup, hrun⟩ := Checked.bind_ok hrun
    cases hrun
    obtain ⟨-, -, hstage, hother, hvalue, -⟩ := Kernel.semaUp_ok hup
    refine ⟨h.kern.semaUp hup, h.covered.semaUp h.kern hup, fun u _ => hstage u, .inl ⟨rfl, (hstage _).trans hany, ?_⟩⟩
    -- one unit fits into the value
    have hone : (k'.sema (.inl q)).value = values s.k q + 1 := by
      rw [hvalue, hzero, show (s.k.sema (.inl q)).value = 0 from hzero]
      rfl
    rw [State.operate, values_update hone hother]
  | init q =>
    have hany := h.stage_running haway (by simp [hop])
    have hproper : s.k.Proper (.semaInit (.inl q) 0) := by
      intro u hdown
      obtain ⟨c, rfl, hpc⟩ := waitInit_of_op hop
      obtain ⟨rfl, c', hpc'⟩ := waitDown_of_op ((h.fits u).down _ hdown)
      cases hpc.symm.trans hpc'
    rw [hop] at hrun
    cases hrun
    refine ⟨h.kern.semaInit hproper, h.covered.semaInit, fun u _ => rfl, .inl ⟨rfl, hany, ?_⟩⟩
    have hvalue : ((s.k.semaInit (.inl q) 0).sema (.inl q)).value = 0 := by simp [Kernel.semaInit, Kernel.setSema]
    rw [State.operate, values_update (k := s.k) hvalue]
    intro r hr
    simp [Kernel.semaInit, Kernel.setSema, hr]

/-! ## Steps -/

omit [DecidableEq C] [DecidableEq L] [DecidableEq S] in
theorem tick [DecidableEq L] [DecidableEq S] (h : SysInv lockOf i s) : SysInv lockOf i ⟨s.k, s.m.tick⟩ :=
  ⟨h.kern, h.covered, h.mon.tick, h.fits⟩

/-- The operation of a step, and the rest of it. -/
theorem next_ok (hnext : s.next = some s') :
    ∃ ok, Sys.operate s.k ((s.m.pc s.k.running).op s.k.running) = .ok (s'.k, ok) ∧
      (Sys.sleeps ((s.m.pc s.k.running).op s.k.running) ok = true ∧ s'.m = s.m ∨
        Sys.sleeps ((s.m.pc s.k.running).op s.k.running) ok = false ∧
          s.m.next s.k.running ok = some s'.m) := by
  obtain ⟨⟨k', ok⟩, hrun, hrest⟩ := Option.bind_eq_some_iff.mp hnext
  have hrun := Checked.toOption_eq_some hrun
  dsimp only at hrest
  split at hrest
  · cases hrest
    exact ⟨ok, hrun, .inl ⟨‹_›, rfl⟩⟩
  · obtain ⟨m, hm, hs'⟩ := Option.bind_eq_some_iff.mp hrest
    cases hs'
    exact ⟨ok, hrun, .inr ⟨Bool.eq_false_iff.mpr ‹_›, hm⟩⟩

/-- **A step of the running thread** is a step of it in `State`, or it goes to sleep. -/
theorem next (h : SysInv lockOf i s) (haway : s.m.pc s.k.running ≠ .user) (hnext : s.next = some s') :
    (s.abs.move s.k.running = some s'.abs ∨ s'.abs = s.abs) ∧ s'.k.Inv i ∧ s'.k.Covered ∧
      ∀ t, Fits t (s'.m.pc t) (s'.k.stage t) := by
  obtain ⟨ok, hrun, hrest⟩ := next_ok hnext
  have hop := h.operated haway hrun
  rcases hop.result with ⟨hwake, hself, hvalues⟩ | ⟨hsleep, ⟨q, hq, hself⟩, hvalues⟩
  · rcases hrest with ⟨hsleep, -⟩ | ⟨-, hm⟩
    · cases hwake.symm.trans hsleep
    have hmove : s.abs.move s.k.running = some s'.abs :=
      Option.bind_eq_some_iff.mpr ⟨_, hvalues, Option.bind_eq_some_iff.mpr ⟨s'.m, hm, rfl⟩⟩
    refine ⟨.inl hmove, hop.kern, hop.covered, ?_⟩
    intro u
    by_cases hu : u = s.k.running
    · rw [hu, hself]
      exact fits_any
    · have hpc : s'.m.pc u = s.m.pc u := (Effect.of_move hmove).pc_ne hu
      rw [hop.others u hu, hpc]
      exact h.fits u
  · rcases hrest with ⟨-, hm⟩ | ⟨hwake, -⟩
    swap
    · cases hwake.symm.trans hsleep
    refine ⟨.inr (by rw [Sys.abs, hvalues, hm]; rfl), hop.kern, hop.covered, ?_⟩
    intro u
    rw [hm]
    by_cases hu : u = s.k.running
    · rw [hu, hself]
      exact ⟨fun _ => .inr ⟨q, hq, rfl⟩, fun r hr => by cases hr; exact hq⟩
    · rw [hop.others u hu]
      exact h.fits u

omit [DecidableEq C] in
/-- **Other code** leaves the semaphores here, and the threads inside the functions here. -/
theorem other {a : Action (Sem L ⊕ S)} (h : SysInv lockOf i s) (hproper : s.k.Proper a)
    (hforeign : ∀ q : Sem L, s.k.foreign (.inl q) a = true) (hwhere : s.m.pc s.k.running = .user ∨ a.inHandler = true)
    (hstep : s.k.step a = some k') : values k' = values s.k ∧ ∀ t, Fits t (s.m.pc t) (k'.stage t) := by
  obtain ⟨g, hg, hat, -, hrun⟩ := h.kern.step_ok hstep
  have hself : ∀ q : Sem L, s.k.stage s.k.running ≠ some (.down (.inl q)) := by
    intro q hdown
    obtain rfl := Option.some.inj (hg.symm.trans hdown)
    cases hat with
    | down => exact absurd rfl (of_decide_eq_true (hforeign q))
    | idle hg => cases hg
    | handler hg => cases hg
  have haside := fun q => h.kern.aside hproper (hforeign q) (hself q) hstep
  have hany : ∀ u, s.m.pc u ≠ .user → s.k.stage u = some .any → k'.stage u = some .any := by
    intro u hu hany
    by_cases hhandler : a.inHandler = true
    · rw [stage_inHandler hhandler hrun, hany]
    · -- not the running thread, and not woken by name
      have hne : u ≠ s.k.running := fun heq => hu (heq ▸ hwhere.resolve_right hhandler)
      have hwoken : Kernel.wakes a ≠ some u := by
        cases a with
        | unblock => exact absurd rfl hhandler
        | _ => nofun
      rw [((haside (.waiter u)).calm u hne hany hwoken).stage, hany]
  refine ⟨funext fun q => congrArg Semaphore.value (haside q).sema, ?_⟩
  intro u
  refine ⟨fun hu => ?_, fun q hdown => (h.fits u).down q (((haside q).down u).mp hdown)⟩
  rcases (h.fits u).away hu with hstage | ⟨q, hq, hstage⟩
  · exact .inl (hany u hu hstage)
  · exact .inr ⟨q, hq, ((haside q).down u).mpr hstage⟩

/-- **The kernel's locks and conditions are those of `State`**: each step is a step there, and keeps the invariant. -/
theorem refines {a : Act L C S} (h : SysInv lockOf i s) (hproper : s.ProperPaired lockOf a) (hstep : s.step a = some s') :
    (∃ e, e.OnlyMoves s.k.running ∧ s.abs.step e = some s'.abs) ∧ SysInv lockOf i s' := by
  -- the invariant of `State` comes along with the step
  have hclose : ∀ e, e.OnlyMoves s.k.running → (∀ t f, e = .call t f → f.Paired lockOf) → s.abs.step e = some s'.abs →
      s'.k.Inv i → s'.k.Covered → (∀ t, Fits t (s'.m.pc t) (s'.k.stage t)) →
      (∃ e, e.OnlyMoves s.k.running ∧ s.abs.step e = some s'.abs) ∧ SysInv lockOf i s' :=
    fun e hby hcalls he hkern hcovered hfits => ⟨⟨e, hby, he⟩, hkern, hcovered, h.mon.step hcalls he, hfits⟩
  unfold Sys.step at hstep
  split at hstep
  case isFalse => cases hstep
  rename_i henabled
  cases a with
  | call f =>
    obtain ⟨hpc, hany⟩ := of_decide_eq_true henabled
    cases hstep
    have he : Effect ⟨values s.k, s.m.tick⟩ s.k.running ⟨values s.k, s.m.tick.call s.k.running f⟩ :=
      Effect.of_call (s := ⟨values s.k, s.m.tick⟩) hpc
    refine hclose (.call s.k.running f) rfl (fun _ _ hf => by cases hf; exact hproper.2) (if_pos hpc) h.kern h.covered ?_
    intro u
    by_cases hu : u = s.k.running
    · rw [hu, hany]
      exact fits_any
    · have hsame : (s.m.tick.call s.k.running f).pc u = s.m.pc u := he.pc_ne hu
      rw [hsame]
      exact h.fits u
  | next =>
    obtain ⟨hmove, hkern, hcovered, hfits⟩ := h.tick.next (of_decide_eq_true henabled) hstep
    rcases hmove with hmove | hsame
    · exact hclose (.next s.k.running) rfl nofun hmove hkern hcovered hfits
    · exact hclose .pass trivial nofun (congrArg some hsame.symm) hkern hcovered hfits
  | other a =>
    obtain ⟨hen, hwhere⟩ := of_decide_eq_true henabled
    obtain ⟨k', hrun, hs'⟩ := Option.map_eq_some_iff.mp hstep
    have hkstep : s.k.step a = some k' := (if_pos hen).trans hrun
    obtain ⟨hvalues, hfits⟩ := h.other hproper.1.1 hproper.1.2 hwhere hkstep
    cases hs'
    refine hclose .pass trivial nofun ?_ (h.kern.step hproper.1.1 hkstep) (h.covered.step h.kern hproper.1.1 hkstep) hfits
    exact congrArg (fun v => some (⟨v, s.m.tick⟩ : State L C)) hvalues.symm

omit [DecidableEq C] in
theorem init (hkern : k.Inv i) (hcovered : k.Covered) (hfresh : Sys.Fresh k) :
    SysInv lockOf i (Sys.init k : Sys L C S) :=
  ⟨hkern, hcovered, Inv.init hfresh.value, fun t => ⟨fun hpc => absurd rfl hpc, fun q hq => absurd hq (hfresh.unused t q)⟩⟩

/-- **Every run.** -/
theorem of_reaches {initial idle : Page} {idleStarted : Sem L ⊕ S} {k₀ : Kernel (Sem L ⊕ S)} (hne : idle ≠ initial)
    (hboot : Kernel.threadStart initial idle idleStarted = .ok k₀) (hk : Lts.Reaches Kernel.step Kernel.Proper k₀ k)
    (hfresh : Sys.Fresh k) (hreach : Lts.Reaches Sys.step (Sys.ProperPaired lockOf) (Sys.init k : Sys L C S) s) :
    SysInv lockOf idle s := by
  obtain ⟨hkern, hcovered⟩ := Kernel.covered_of_reaches hne hboot hk
  refine Lts.Reaches.invariant (I := SysInv lockOf idle) hreach (SysInv.init hkern hcovered hfresh) ?_
  intro s s' a h hproper hstep
  exact (h.refines hproper hstep).2

omit [DecidableEq C] in
/-- Nobody sleeps on the semaphore of a waiter that has its unit. -/
theorem awake (h : SysInv lockOf i s) (hpos : (s.k.sema (.inl (.waiter t))).value ≠ 0) :
    (s.k.sema (.inl (.waiter t))).waiters = [] := by
  by_contra hwaiters
  have hown : ∀ u, s.k.stage u = some (.down (.inl (.waiter t))) → u = t :=
    fun u hu => (waitDown_of_op ((h.fits u).down _ hu)).1
  -- somebody is on the way to the unit, and it is the same thread that waits
  have hway : s.k.onTheWay (.inl (.waiter t)) ≠ [] := by
    intro hnil
    have hle := h.covered _ hwaiters
    rw [hnil, List.length_nil] at hle
    omega
  obtain ⟨u, hu⟩ := List.exists_mem_of_ne_nil _ hway
  obtain ⟨w, hw⟩ := List.exists_mem_of_ne_nil _ hwaiters
  obtain ⟨hu', -, hnot⟩ := h.kern.mem_onTheWay_iff.mp hu
  have hw' := (Kernel.status_of_place_waiters ((h.kern.placed.mem (.waiters _) w).mp hw)).2
  obtain rfl : w = u := (hown w hw').trans (hown u hu').symm
  exact hnot hw

/-- The unit of a waiter is its own: it goes on without sleeping. -/
theorem passes {c : Use L C} (h : SysInv lockOf i s) (hpc : s.m.pc s.k.running = .waitDown c)
    (hpos : (s.k.sema (.inl (.waiter s.k.running))).value ≠ 0) :
    ∃ s', s.step .next = some s' ∧ s'.m.pc s.k.running = .acquire (.wait c) := by
  have hop : (s.m.pc s.k.running).op s.k.running = .down (.waiter s.k.running) := by
    rw [hpc]
    rfl
  obtain ⟨g, hg, hnot, -⟩ := h.stage_down hop
  obtain ⟨k', hrun, -⟩ := h.kern.take_effect hg hnot (Nat.pos_of_ne_zero hpos)
  have hoperate : Sys.operate s.k ((s.m.pc s.k.running).op s.k.running) = .ok (k', true) := by
    rw [hop]
    exact (Checked.ok_bind hrun).trans (by rw [decide_eq_true hpos])
  have hnext : s.m.tick.next s.k.running true = some (s.m.tick.goto s.k.running (.acquire (.wait c))) := by
    have htick : s.m.tick.pc s.k.running = .waitDown c := hpc
    unfold Mon.next
    rw [htick]
  refine ⟨⟨k', s.m.tick.goto s.k.running (.acquire (.wait c))⟩, ?_, goto_self _ _ _⟩
  have henabled : s.enabled .next = true := decide_eq_true (by rw [hpc]; nofun)
  rw [Sys.step, if_pos henabled]
  refine Option.bind_eq_some_iff.mpr ⟨(k', true), congrArg Except.toOption hoperate, ?_⟩
  show (if Sys.sleeps ((s.m.pc s.k.running).op s.k.running) true = true then _ else _) = _
  rw [hop, if_neg (by nofun)]
  exact Option.bind_eq_some_iff.mpr ⟨_, hnext, rfl⟩

end SysInv

end Synch
end Asg1
