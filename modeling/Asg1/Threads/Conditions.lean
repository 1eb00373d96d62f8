import Asg1.Threads.SynchRuns

/-!
# `Threads.Conditions` — what locks and condition variables promise

What a thread can rely on when it returns from an acquire, from `cond_wait` or from `cond_signal`, and what holds of the
locks and of the waiters in between (`locks_and_conditions`). All of it rests on a condition being used with one lock: the
assertions do not test that, and with two locks a signal may come too early or find nobody (`one_condition_two_locks`).
-/

namespace Asg1
namespace Synch

open Threads

variable {L C S : Type} [DecidableEq L] [DecidableEq C] [DecidableEq S] {lockOf : C → L}
  {s s' : Sys L C S} {i t : Page}

/-! ## Returns -/

namespace Pc

/-- The thread is inside `cond_wait`. -/
def inWait : Pc L C → Option (Use L C)
  | wait c => some c
  | waitInit c => some c
  | waitPush c => some c
  | release (.wait c) => some c
  | releaseHolder (.wait c) => some c
  | releaseUp (.wait c) => some c
  | waitDown c => some c
  | acquire (.wait c) => some c
  | acquireDown (.wait c) => some c
  | acquireHolder (.wait c) => some c
  | _ => none

/-- The thread is inside `cond_signal`. -/
def inSignal : Pc L C → Option (Use L C)
  | signal c _ => some c
  | signalTest c _ => some c
  | signalPop c _ => some c
  | signalUp c _ _ => some c
  | _ => none

end Pc

section Returns

variable {r r' : State L C} {t u : Page} {c : Use L C} {l : L}

omit [DecidableEq L] [DecidableEq C] in
theorem Jump.inWait {m : Mon L C} {p p' : Pc L C} (hj : Jump m t p p') (h : p.inWait = some c) : p'.inWait = some c := by
  cases hj with
  | acquire w => cases w <;> exact h
  | release w => cases w <;> exact h
  | wait => exact h
  | _ => cases h

omit [DecidableEq L] [DecidableEq C] in
/-- A range of places that is left by none of these moves. -/
theorem stays {f : Pc L C → Option (Use L C)} {p p' : Pc L C} (hin : f (r.m.pc t) = some c) (hp : r.m.pc t = p) (hp' : r'.m.pc t = p')
    (himp : f p = some c → f p' = some c) : f (r'.m.pc t) = some c := by
  rw [hp] at hin
  rw [hp']
  exact himp hin

/-- **A thread returns from `cond_wait`** by becoming the lock's holder. -/
theorem Effect.leaves_wait (he : Effect r t r') (hin : (r.m.pc u).inWait = some c) (hout : (r'.m.pc u).inWait ≠ some c) :
    u = t ∧ r.m.pc t = .acquireHolder (.wait c) ∧ r' = ⟨r.val, (r.m.setHolder c.lock (some t)).goto t .user⟩ := by
  obtain rfl : u = t := he.moved fun heq => hout (heq ▸ hin)
  cases he with
  | hold w hpc =>
    rw [hpc] at hin
    cases w with
    | lock l => cases hin
    | wait c' =>
      cases hin
      exact ⟨rfl, hpc, rfl⟩
  -- the other steps do not leave `cond_wait`
  | jump hj => exact absurd (stays hin rfl (goto_self _ _ _) hj.inWait) hout
  | take w hpc =>
    rcases hpc with hpc | ⟨l, hpc, rfl⟩
    · exact absurd (stays hin hpc (goto_self _ _ _) (by cases w <;> exact id)) hout
    · exact absurd (stays hin hpc (goto_self _ _ _) nofun) hout
  | unhold w hpc | give w hpc => exact absurd (stays hin hpc (goto_self _ _ _) (by cases w <;> exact id)) hout
  | init _ hpc | push _ hpc | wake _ hpc => exact absurd (stays hin hpc (goto_self _ _ _) (by exact id)) hout
  | pop _ _ _ _ hpc | up _ _ _ hpc | again _ hpc | callSignal _ hpc | callBroadcast _ hpc =>
    exact absurd (stays hin hpc (goto_self _ _ _) nofun) hout

/-- **A thread returns from `cond_signal`** because nobody waits, or after it has given a unit. -/
theorem Effect.leaves_signal (he : Effect r t r') (hin : (r.m.pc u).inSignal = some c)
    (hout : (r'.m.pc u).inSignal ≠ some c) :
    u = t ∧ ((∃ b, r.m.pc t = .signalTest c b ∧ r.m.waiters c.cond = [] ∧ r' = ⟨r.val, r.m.goto t (Pc.afterSignal c b)⟩) ∨
      ∃ b x, r.m.pc t = .signalUp c b x ∧
        r' = ⟨Function.update r.val (.waiter x) (r.val (.waiter x) + 1), r.m.goto t (Pc.afterSignal c b)⟩) := by
  obtain rfl : u = t := he.moved fun heq => hout (heq ▸ hin)
  refine ⟨rfl, ?_⟩
  cases he with
  | up c' b x hpc =>
    rw [hpc] at hin
    cases hin
    exact .inr ⟨b, x, hpc, rfl⟩
  | @jump p hj =>
    generalize hpc : r.m.pc u = p₀ at hj hin
    cases hj with
    | nobody c' b hnil =>
      cases hin
      exact .inl ⟨b, rfl, hnil, rfl⟩
    | signal c' b => exact absurd ((congrArg Pc.inSignal (goto_self r.m u (.signalTest c' b))).trans hin) hout
    | somebody c' b => exact absurd ((congrArg Pc.inSignal (goto_self r.m u (.signalPop c' b))).trans hin) hout
    | _ => cases hin
  | pop _ _ _ _ hpc => exact absurd (stays hin hpc (goto_self _ _ _) (by exact id)) hout
  | take w hpc =>
    rcases hpc with hpc | ⟨l, hpc, rfl⟩ <;> exact absurd (stays hin hpc (goto_self _ _ _) nofun) hout
  | hold _ hpc | unhold _ hpc | give _ hpc | init _ hpc | push _ hpc | wake _ hpc | again _ hpc | callSignal _ hpc
  | callBroadcast _ hpc => exact absurd (stays hin hpc (goto_self _ _ _) nofun) hout

/-- **The holder stays** until its own `lock_release`. -/
theorem Effect.holder_stays (he : Effect r t r') (h : Locks r) (hu : r.m.holder l = some u) :
    r'.m.holder l = some u ∨ u = t ∧ ∃ w : For L C, w.theLock = l ∧ r.m.pc t = .releaseHolder w := by
  cases he with
  | hold w hpc =>
    -- the unit is with the thread that becomes the holder
    obtain ⟨hin, hnot⟩ := h.owns t (w.theLock) (by rw [hpc]; rfl)
    refine .inl ((Function.update_of_ne ?_ _ _).trans hu)
    rintro rfl
    rw [h.unique_holder hin hu] at hu
    exact hnot hu
  | unhold w hpc =>
    by_cases hl : l = w.theLock
    · subst hl
      have hself := h.holds t (w.theLock) (by rw [hpc]; rfl)
      exact .inr ⟨Option.some.inj (hu.symm.trans hself), w, rfl, hpc⟩
    · exact .inl ((Function.update_of_ne hl _ _).trans hu)
  | _ => exact .inl hu

/-- **An acquire returns** with the thread as the holder. -/
theorem Effect.acquires {w : For L C} (he : Effect r t r') (hpc : r.m.pc u = .acquireHolder w)
    (hpc' : r'.m.pc u ≠ .acquireHolder w) : r'.m.holder (w.theLock) = some u := by
  obtain rfl : u = t := he.moved fun heq => hpc' (heq.trans hpc)
  cases he with
  | hold w' hw =>
    cases hpc.symm.trans hw
    exact Function.update_self _ _ _
  | jump hj =>
    rw [hpc] at hj
    cases hj
  | take w' hw => rcases hw with hw | ⟨l, hw, -⟩ <;> cases hpc.symm.trans hw
  | unhold _ hw | give _ hw | init _ hw | push _ hw | wake _ hw | pop _ _ _ _ hw | up _ _ _ hw | again _ hw
  | callSignal _ hw | callBroadcast _ hw => cases hpc.symm.trans hw

end Returns

/-! ## Runs -/

/-- Locks exclude: the unit is in the semaphore or with one thread, and only that thread may be the holder. -/
structure Exclusive (s : Sys L C S) : Prop where
  value : ∀ l, (s.k.sema (.inl (.lock l))).value = 0 ∨ (s.k.sema (.inl (.lock l))).value = 1
  /-- So at most one thread is inside. -/
  inside : ∀ l, (s.k.sema (.inl (.lock l))).value + (s.m.inside l).length = 1
  holder : ∀ l t, s.m.holder l = some t → s.m.inside l = [t]

/-- The thread works on the list of waiters of this condition. -/
def Pc.onList : Pc L C → Option C
  | waitPush c => some c.cond
  | signalTest c _ => some c.cond
  | signalPop c _ => some c.cond
  | _ => none

/-- No signal is lost: a thread that has joined the waiters is in the list, or a thread is about to give it a unit, or the
    unit is there and the thread is not asleep. -/
structure Pending (s : Sys L C S) : Prop where
  waits : ∀ t c, (s.m.pc t).waitingOn = some c → s.m.wakeup t = none →
    t ∈ s.m.waiters c ∧ (s.k.sema (.inl (.waiter t))).value = 0
  woken : ∀ t c, (s.m.pc t).waitingOn = some c → s.m.wakeup t ≠ none → t ∉ s.m.waiters c ∧
    ((∃ u, (s.m.pc u).target = some (c, t)) ∨
      (s.k.sema (.inl (.waiter t))).value = 1 ∧ (s.k.sema (.inl (.waiter t))).waiters = [])
  passes : ∀ c, s.m.pc s.k.running = .waitDown c → (s.k.sema (.inl (.waiter s.k.running))).value = 1 →
    ∃ s', s.step .next = some s' ∧ s'.m.pc s.k.running = .acquire (.wait c)
  /-- Two threads never work on one list at a time. -/
  alone : ∀ c t u, (s.m.pc t).onList = some c → (s.m.pc u).onList = some c → t = u

/-- What a call of `cond_signal` has done when thread `t` returns from it: nobody waited, or the thread that waited longest
    has been given a unit, and nobody else. -/
inductive Signalled (s s' : Sys L C S) (t : Page) (c : Use L C) : Prop
  | nobody (found : s.m.found t = []) (waiters : s'.m.waiters c.cond = []) (same : values s'.k = values s.k)
  | one (u : Page) (found : s.m.found t = u :: s'.m.waiters c.cond) (waits : (s'.m.pc u).waitingOn = some c.cond)
      (before : (s.k.sema (.inl (.waiter u))).value = 0)
      (given : values s'.k = Function.update (values s.k) (.waiter u) 1)
      (awake : (s'.k.sema (.inl (.waiter u))).waiters = [])
      (longest : ∀ x ∈ s'.m.waiters c.cond, s'.m.beganAt u < s'.m.beganAt x)

/-- What is promised of each step. -/
structure Kept (s s' : Sys L C S) : Prop where
  /-- An acquire returns to the holder. -/
  acquires : ∀ t w, s.m.pc t = .acquireHolder w → s'.m.pc t ≠ .acquireHolder w → s'.m.holder (w.theLock) = some t
  /-- The holder stays until its release. -/
  holder : ∀ l t, s.m.holder l = some t → s'.m.holder l = some t ∨
    t = s.k.running ∧ ∃ w : For L C, w.theLock = l ∧ s.m.pc t = .releaseHolder w
  /-- `cond_wait` returns to the holder, after a signal that was issued after it began to wait. -/
  waits : ∀ t c, (s.m.pc t).inWait = some c → (s'.m.pc t).inWait ≠ some c → t = s.k.running ∧
    s'.m.holder c.lock = some t ∧ s'.m.inside c.lock = [t] ∧ ∃ j, s'.m.wakeup t = some j ∧ s'.m.beganAt t < j
  signals : ∀ t c, (s.m.pc t).inSignal = some c → (s'.m.pc t).inSignal ≠ some c → t = s.k.running ∧ Signalled s s' t c

namespace SysInv

omit [DecidableEq C] in
theorem exclusive (h : SysInv lockOf i s) : Exclusive s := by
  have hlocks := h.mon.locks
  have hvalue : ∀ l, (s.k.sema (.inl (.lock l))).value + (s.m.inside l).length = 1 := hlocks.value
  constructor
  · intro l
    have := hvalue l
    omega
  · exact hvalue
  · exact fun l t ht => hlocks.alone (hlocks.holder l t ht)

omit [DecidableEq C] in
/-- A list of waiters is worked on under its lock. -/
theorem holder_onList {c : C} (h : SysInv lockOf i s) (ht : (s.m.pc t).onList = some c) : s.m.holder (lockOf c) = some t := by
  have hplace : ∃ c', c'.cond = c ∧ (s.m.pc t).use = some c' ∧ (s.m.pc t).holds = some c'.lock := by
    cases hpc : s.m.pc t with
    | waitPush c' | signalTest c' b | signalPop c' b =>
      rw [hpc] at ht
      exact ⟨c', Option.some.inj ht, rfl, rfl⟩
    | _ =>
      rw [hpc] at ht
      cases ht
  obtain ⟨c', rfl, huse, hholds⟩ := hplace
  exact h.mon.paired.holder h.mon.locks huse hholds

theorem pending (h : SysInv lockOf i s) : Pending s := by
  constructor
  · intro t c hon hnone
    exact ⟨(h.mon.waiting.listed c t).mpr ⟨hon, hnone⟩, h.mon.own.zero t (by rw [show s.abs.m = s.m from rfl, hon]; nofun) hnone⟩
  · intro t c hon hwoken
    refine ⟨fun hmem => hwoken ((h.mon.waiting.listed c t).mp hmem).2, ?_⟩
    rcases h.mon.own.delivered t c hon hwoken with hone | hgiver
    · have hone : (s.k.sema (.inl (.waiter t))).value = 1 := hone
      exact .inr ⟨hone, h.awake (by omega)⟩
    · exact .inl hgiver
  · exact fun c hpc hone => h.passes hpc (by omega)
  · exact fun c t u ht hu => Option.some.inj ((h.holder_onList ht).symm.trans (h.holder_onList hu))

variable {c : Use L C}

omit [DecidableEq C] in
/-- The state after the return from `cond_wait`. -/
theorem returns {r : State L C} (h' : SysInv lockOf i s') (hr : Inv lockOf r)
    (hpc : r.m.pc t = .acquireHolder (.wait c)) (hs' : s'.abs = ⟨r.val, (r.m.setHolder c.lock (some t)).goto t .user⟩) :
    s'.m.holder c.lock = some t ∧ s'.m.inside c.lock = [t] ∧ ∃ j, s'.m.wakeup t = some j ∧ s'.m.beganAt t < j := by
  have hm : s'.m = (r.m.setHolder c.lock (some t)).goto t .user := congrArg State.m hs'
  have hholder : s'.m.holder c.lock = some t := by
    rw [hm]
    exact Function.update_self _ _ _
  refine ⟨hholder, h'.exclusive.holder _ _ hholder, ?_⟩
  have hrejoins : (r.m.pc t).rejoins ≠ none := by
    rw [hpc]
    nofun
  obtain ⟨j, hj⟩ := Option.ne_none_iff_exists'.mp (hr.waiting.rejoins t hrejoins)
  refine ⟨j, ?_, ?_⟩
  · rw [hm]
    exact hj
  · rw [hm]
    exact hr.waiting.woken t j (.inr hrejoins) hj

omit [DecidableEq C] [DecidableEq S] in
/-- Nobody waits, and `cond_signal` returns. -/
theorem signalled_nobody {b : Bool} (hr : Inv lockOf ⟨values s.k, s.m.tick⟩) (hpc : s.m.pc t = .signalTest c b)
    (hnil : s.m.waiters c.cond = []) (hs' : s'.abs = ⟨values s.k, s.m.tick.goto t (Pc.afterSignal c b)⟩) : Signalled s s' t c := by
  have hm : s'.m = s.m.tick.goto t (Pc.afterSignal c b) := congrArg State.m hs'
  have htick : s.m.tick.pc t = .signalTest c b := hpc
  refine .nobody ?_ (by rw [hm]; exact hnil) (congrArg State.val hs')
  have hholder := hr.paired.holder hr.locks (c := c) (by rw [htick]; rfl) (by rw [htick]; rfl)
  exact ((hr.signals t).looks c.cond (by rw [htick]; rfl) hholder).trans hnil

omit [DecidableEq C] in
/-- The unit has been given, and `cond_signal` returns. -/
theorem signalled_one {b : Bool} {u : Page} (h' : SysInv lockOf i s') (hr : Inv lockOf ⟨values s.k, s.m.tick⟩)
    (hpc : s.m.pc t = .signalUp c b u)
    (hs' : s'.abs = ⟨Function.update (values s.k) (.waiter u) (values s.k (.waiter u) + 1),
      s.m.tick.goto t (Pc.afterSignal c b)⟩) : Signalled s s' t c := by
  have hm : s'.m = s.m.tick.goto t (Pc.afterSignal c b) := congrArg State.m hs'
  have hvalues : values s'.k = Function.update (values s.k) (.waiter u) (values s.k (.waiter u) + 1) := congrArg State.val hs'
  have htick : s.m.tick.pc t = .signalUp c b u := hpc
  obtain ⟨hon, hwoken, hzero⟩ := hr.own.target t c.cond u (by rw [htick]; rfl)
  have hon : (s.m.pc u).waitingOn = some c.cond := hon
  have hzero : values s.k (.waiter u) = 0 := hzero
  have hne : u ≠ t := by
    rintro rfl
    rw [hpc] at hon
    cases hon
  rw [hzero] at hvalues
  refine .one u ?_ ?_ hzero hvalues (h'.awake ?_) ?_
  · rw [hm]
    exact (hr.signals t).popped c b u htick
  · rw [hm, goto_ne _ _ _ hne]
    exact hon
  · have hone : values s'.k (.waiter u) = 1 := by rw [hvalues, Function.update_self]
    exact fun hvalue => by cases hone.symm.trans hvalue
  · rw [hm]
    exact fun x hx => hr.waiting.fifo c.cond u x hon hwoken hx

theorem kept {a : Act L C S} (h : SysInv lockOf i s) (hproper : s.ProperPaired lockOf a) (hstep : s.step a = some s') :
    Kept s s' := by
  obtain ⟨⟨e, hby, he⟩, h'⟩ := h.refines hproper hstep
  have hr : Inv lockOf ⟨values s.k, s.m.tick⟩ := h.mon.tick
  rcases effect_of_step hby he with he | hsame
  · constructor
    · exact fun t w hpc hpc' => he.acquires hpc hpc'
    · intro l t ht
      rcases he.holder_stays hr.locks ht with hstays | ⟨rfl, hw⟩
      · exact .inl hstays
      · exact .inr ⟨rfl, hw⟩
    · intro t c hin hout
      obtain ⟨rfl, hpc, hs'⟩ := he.leaves_wait hin hout
      exact ⟨rfl, h'.returns hr hpc hs'⟩
    · intro t c hin hout
      obtain ⟨rfl, hcases⟩ := he.leaves_signal hin hout
      refine ⟨rfl, ?_⟩
      rcases hcases with ⟨b, hpc, hnil, hs'⟩ | ⟨b, x, hpc, hs'⟩
      · exact signalled_nobody hr hpc hnil hs'
      · exact h'.signalled_one hr hpc hs'
  · -- nothing has happened here
    have hm : s'.m = s.m.tick := congrArg State.m hsame
    constructor
    · exact fun t w hpc hpc' => absurd (by rw [hm]; exact hpc) hpc'
    · exact fun l t ht => .inl (by rw [hm]; exact ht)
    · exact fun t c hin hout => absurd (by rw [hm]; exact hin) hout
    · exact fun t c hin hout => absurd (by rw [hm]; exact hin) hout

end SysInv

/-- **Locks exclude, and condition variables lose no signal**, in any run after `thread_start` and after the initialisation of
    locks and conditions, if each condition is used with one lock. -/
theorem locks_and_conditions {initial idle : Page} {idleStarted : Sem L ⊕ S} {k₀ k : Kernel (Sem L ⊕ S)} (hne : idle ≠ initial)
    (hboot : Kernel.threadStart initial idle idleStarted = .ok k₀) (hk : Lts.Reaches Kernel.step Kernel.Proper k₀ k)
    (hfresh : Sys.Fresh k) (hreach : Lts.Reaches Sys.step (Sys.ProperPaired lockOf) (Sys.init k : Sys L C S) s) :
    Exclusive s ∧ Pending s ∧ ∀ a s', s.ProperPaired lockOf a → s.step a = some s' → Kept s s' := by
  have h := SysInv.of_reaches hne hboot hk hfresh hreach
  exact ⟨h.exclusive, h.pending, fun a s' hproper hstep => h.kept hproper hstep⟩

/-! ## Small runs -/

/-- Calls of other code that are proper without looking at all semaphores. -/
def Sys.ownCall (s : Sys L C S) : Act L C S → Bool
  | .other .idle => match s.k.stage s.k.running with | some (.idleUp (.inl _)) => false | _ => true
  | .other (.unblock t) => s.k.properCall (.unblock t)
  | .other (.initThread _) => true
  | .other .yield => true
  | .other _ => false
  | _ => true

omit [DecidableEq C] in
theorem proper_of_ownCall {a : Act L C S} (h : s.ownCall a = true) : s.Proper a := by
  cases a with
  | call f => trivial
  | next => trivial
  | other a =>
    cases a with
    | idle =>
      refine ⟨trivial, fun q => decide_eq_true ?_⟩
      intro hstage
      unfold Sys.ownCall at h
      rw [hstage] at h
      cases h
    | unblock t => exact ⟨Kernel.proper_of_properCall h, fun q => rfl⟩
    | initThread t => exact ⟨trivial, fun q => rfl⟩
    | yield => exact ⟨trivial, fun q => rfl⟩
    | _ => cases h

def Act.pairedWith (lockOf : C → L) : Act L C S → Bool
  | .call (.wait c) => c.lock = lockOf c.cond
  | .call (.signal c) => c.lock = lockOf c.cond
  | .call (.broadcast c) => c.lock = lockOf c.cond
  | _ => true

omit [DecidableEq C] [DecidableEq S] in
theorem paired_of_pairedWith {a : Act L C S} (h : a.pairedWith lockOf = true) : a.Paired lockOf := by
  cases a with
  | call f =>
    cases f with
    | wait c | signal c | broadcast c => exact of_decide_eq_true (p := c.lock = lockOf c.cond) h
    | acquire | tryAcquire | release => trivial
  | next => trivial
  | other a => trivial

/-- Two locks, one condition; the initial thread is 0 and the idle thread 1. -/
def twoLocks : Option (Kernel (Sem Bool ⊕ Unit)) :=
  (Kernel.threadStart 0 1 (.inr ()) : Except Assertion (Kernel (Sem Bool ⊕ Unit))).toOption.bind fun k₀ =>
    (k₀.step (.semaInit (.inl (.lock false)) 1)).bind fun k₁ => k₁.step (.semaInit (.inl (.lock true)) 1)

theorem twoLocks_fresh {k : Kernel (Sem Bool ⊕ Unit)} (h : twoLocks = some k) :
    ∃ k₀, Kernel.threadStart 0 1 (.inr ()) = .ok k₀ ∧ Lts.Reaches Kernel.step Kernel.Proper k₀ k ∧ Sys.Fresh k := by
  obtain ⟨k₀, hk₀, h⟩ := Option.bind_eq_some_iff.mp h
  obtain ⟨k₁, hk₁, hk⟩ := Option.bind_eq_some_iff.mp h
  have hboot := Checked.toOption_eq_some hk₀
  have hinv := Kernel.inv_threadStart (by decide) hboot
  obtain ⟨-, -, -, -, hfirst⟩ := hinv.step_ok hk₁
  have hproper : k₀.Proper (.semaInit (.inl (.lock false)) 1) := Kernel.proper_threadStart hboot
  obtain ⟨-, -, -, -, hsecond⟩ := (hinv.step hproper hk₁).step_ok hk
  cases hfirst
  cases hsecond
  -- `lock_init` changes no stages
  have hunused : ∀ t q, k₀.stage t ≠ some (.down q) := fun t q => Kernel.proper_threadStart (v := 0) hboot t
  have hproper' : (k₀.semaInit (.inl (.lock false)) 1).Proper (.semaInit (.inl (.lock true)) 1) := fun t => hunused t _
  refine ⟨k₀, hboot, .tail (.tail .refl hproper hk₁) hproper' hk, ?_, fun t q => hunused t _⟩
  intro l
  cases l <;> simp [Kernel.semaInit, Kernel.setSema]

/-- A run from there, as far as its steps meet the condition, and what is decided of its end. -/
theorem reaches_twoLocks {G : Sys Bool Unit Unit → Act Bool Unit Unit → Prop} [∀ s a, Decidable (G s a)]
    {as : List (Act Bool Unit Unit)} {p : Sys Bool Unit Unit → Bool}
    (h : (twoLocks.bind fun k => Lts.run Sys.step G (Sys.init k) as).any p = true) :
    ∃ k₀ k s, Kernel.threadStart 0 1 (.inr ()) = .ok k₀ ∧ Lts.Reaches Kernel.step Kernel.Proper k₀ k ∧ Sys.Fresh k ∧
      Lts.Reaches Sys.step G (Sys.init k) s ∧ p s = true := by
  obtain ⟨s, hs, hp⟩ := (Option.any_eq_true _ _).mp h
  obtain ⟨k, hk, hrun⟩ := Option.bind_eq_some_iff.mp hs
  obtain ⟨k₀, hboot, hreach, hfresh⟩ := twoLocks_fresh hk
  exact ⟨k₀, k, s, hboot, hreach, hfresh, Lts.reaches_of_run as .refl hrun, hp⟩

def create (t : Page) : List (Act Bool Unit Unit) := [.other (.initThread t), .other (.unblock t)]

def acquires (l : Bool) : List (Act Bool Unit Unit) := [.call (.acquire l), .next, .next, .next]

/-- `cond_wait` up to its `lock_release`, and one of its steps more. -/
def waits (l : Bool) : List (Act Bool Unit Unit) := [.call (.wait ⟨(), l⟩), .next, .next, .next, .next, .next, .next]

def idles : List (Act Bool Unit Unit) := [.other .idle, .other .idle, .other .idle]

/-- Thread 0 waits for the condition, and is interrupted after `lock_release`; thread 2 signals the condition. -/
def signalledBeforeDown : List (Act Bool Unit Unit) :=
  create 2 ++ acquires false ++ waits false ++ [.other .yield] ++ idles ++ acquires false ++
    [.call (.signal ⟨(), false⟩), .next, .next, .next, .next]

/-- The unit of thread 0 is there when it gets to `sema_down`. -/
theorem locks_and_conditions_one : ∃ s : Sys Bool Unit Unit,
    s.m.pc 0 = .waitDown ⟨(), false⟩ ∧ s.m.wakeup 0 ≠ none ∧ s.m.holder false = some 2 ∧ Exclusive s ∧ Pending s ∧
      ∀ a s', s.ProperPaired (fun _ => false) a → s.step a = some s' → Kept s s' := by
  obtain ⟨k₀, k, s, hboot, hk, hfresh, hreach, hp⟩ := @reaches_twoLocks
    (fun s a => s.ownCall a = true ∧ a.pairedWith (fun _ => false) = true) _ signalledBeforeDown
    (fun s => decide (s.m.pc 0 = .waitDown ⟨(), false⟩ ∧ s.m.wakeup 0 ≠ none ∧ s.m.holder false = some 2)) (by decide +kernel)
  obtain ⟨hpc, hwakeup, hholder⟩ := of_decide_eq_true hp
  have hreach : Lts.Reaches Sys.step (Sys.ProperPaired fun _ => false) (Sys.init k) s :=
    hreach.mono fun hG => ⟨proper_of_ownCall hG.1, paired_of_pairedWith hG.2⟩
  exact ⟨s, hpc, hwakeup, hholder, locks_and_conditions (by decide) hboot hk hfresh hreach⟩

/-- Thread 2 calls `cond_signal` and is interrupted; then thread 0 calls `cond_wait` with another lock, and thread 2 goes
    on. -/
def signalledTooEarly : List (Act Bool Unit Unit) :=
  create 2 ++ [.other .yield] ++ idles ++ acquires true ++ [.call (.signal ⟨(), true⟩), .next, .other .yield] ++
    acquires false ++ waits false ++ [.next] ++ [.next, .next, .next, .other .yield] ++ [.next, .next, .next]

/-- Threads 2 and 3 both find that thread 0 waits, and thread 3 wakes it. -/
def signalledTwice : List (Act Bool Unit Unit) :=
  create 2 ++ create 3 ++ acquires false ++ waits false ++ [.next] ++ idles ++
    acquires false ++ [.call (.signal ⟨(), false⟩), .next, .next, .other .yield] ++
    acquires true ++ [.call (.signal ⟨(), true⟩), .next, .next, .next, .next, .other .yield]

/-- **One condition with two locks.** A thread returns from `cond_wait` by a signal that was issued before it began to wait; and
    a call of `cond_signal` that has found a waiter finds nobody to wake. -/
theorem one_condition_two_locks :
    (∃ k₀ k s s', Kernel.threadStart 0 1 (.inr ()) = .ok k₀ ∧ Lts.Reaches Kernel.step Kernel.Proper k₀ k ∧ Sys.Fresh k ∧
      Lts.Reaches Sys.step Sys.Proper (Sys.init k : Sys Bool Unit Unit) s ∧ s.step .next = some s' ∧
      s.m.pc 0 = .acquireHolder (.wait ⟨(), false⟩) ∧ s'.m.pc 0 = .user ∧
      ∃ j, s'.m.wakeup 0 = some j ∧ j < s'.m.beganAt 0) ∧
    ∃ k₀ k s, Kernel.threadStart 0 1 (.inr ()) = .ok k₀ ∧ Lts.Reaches Kernel.step Kernel.Proper k₀ k ∧ Sys.Fresh k ∧
      Lts.Reaches Sys.step Sys.Proper (Sys.init k : Sys Bool Unit Unit) s ∧ s.k.running = 2 ∧
      s.m.pc 2 = .signalPop ⟨(), false⟩ false ∧ s.m.found 2 = [0] ∧ s.m.waiters () = [] ∧ s.step .next = none := by
  constructor
  · obtain ⟨k₀, k, s, hboot, hk, hfresh, hreach, hp⟩ := @reaches_twoLocks (fun s a => s.ownCall a = true) _ signalledTooEarly
      (fun s => decide (s.m.pc 0 = .acquireHolder (.wait ⟨(), false⟩)) && (s.step .next).any
        fun s' : Sys Bool Unit Unit => decide (s'.m.pc 0 = .user) && (s'.m.wakeup 0).any fun j : Nat => decide (j < s'.m.beganAt 0)) (by decide +kernel)
    rw [Bool.and_eq_true] at hp
    obtain ⟨s', hs', hp'⟩ := (Option.any_eq_true _ _).mp hp.2
    rw [Bool.and_eq_true] at hp'
    obtain ⟨j, hj, hlt⟩ := (Option.any_eq_true _ _).mp hp'.2
    exact ⟨k₀, k, s, s', hboot, hk, hfresh, hreach.mono proper_of_ownCall, hs', of_decide_eq_true hp.1,
      of_decide_eq_true hp'.1, j, hj, of_decide_eq_true hlt⟩
  · obtain ⟨k₀, k, s, hboot, hk, hfresh, hreach, hp⟩ := @reaches_twoLocks (fun s a => s.ownCall a = true) _ signalledTwice
      (fun s => decide (s.k.running = 2 ∧ s.m.pc 2 = .signalPop ⟨(), false⟩ false ∧ s.m.found 2 = [0] ∧ s.m.waiters () = []) &&
        (s.step .next).isNone) (by decide +kernel)
    rw [Bool.and_eq_true] at hp
    obtain ⟨hrunning, hpc, hfound, hwaiters⟩ := of_decide_eq_true hp.1
    exact ⟨k₀, k, s, hboot, hk, hfresh, hreach.mono proper_of_ownCall, hrunning, hpc, hfound, hwaiters,
      Option.isNone_iff_eq_none.mp hp.2⟩

end Synch
end Asg1
