import Asg1.Process.NodeInv

/-!
# `Process.WaitInv` — the exit status on its way from the child to the parent

The log tells what each thread's status is (`Shows`), which lines were printed (`prints`) and which children a
thread has started and not yet waited for (`unwaited`). The invariant says that nodes and lists of children agree
with the log at every point between `exit_w` and the return of `process_wait`.
-/

namespace Asg1
namespace Process

/-! ## Reading the log -/

/-- The exit lines of thread `t`, newest first. -/
def prints (l : List Event) (t : Int) : List Int :=
  l.filterMap (fun e => match e with
    | .print c v => if c = t then some v else none
    | _ => none)

/-- Thread `t` has called `exit` or has been ended by the kernel. -/
def Dead (l : List Event) (t : Int) : Prop := .killed t ∈ l ∨ ∃ status, .exitCall t status ∈ l

/-- `v` is the status thread `t` called `exit` with, and -1 if the kernel ended it. -/
def Shows (l : List Event) (t v : Int) : Prop :=
  (∀ status, .exitCall t status ∈ l → v = status) ∧ (.killed t ∈ l → v = -1)

/-- Thread `t` ended with status `v` and printed that once. -/
structure Final (l : List Event) (t v : Int) : Prop where
  dead : Dead l t
  shows : Shows l t v
  printed : prints l t = [v]

/-- Thread `p` has started child `c` and has not waited for it since. -/
def unwaited (p c : Int) : List Event → Bool
  | [] => false
  | .exec q d r :: l => if q = p ∧ d = some c ∧ r = c then true else unwaited p c l
  | .waitRet q t _ :: l => if q = p ∧ t = c then false else unwaited p c l
  | _ :: l => unwaited p c l

/-- What an event must be like, given the log before it. -/
def EventOk (l : List Event) : Event → Prop
  | .waitRet p t r => if unwaited p t l = true then Final l t r else r = -1
  | .print c v => Dead l c ∧ Shows l c v ∧ prints l c = []
  | _ => True

/-- The first wait for a child returns its status and every other wait -1; every exit line shows the status of
    its thread, and no thread prints two. -/
def LogOk : List Event → Prop
  | [] => True
  | e :: l => EventOk l e ∧ LogOk l

/-- Events about the end of thread `t`. -/
def Event.fate (t : Int) : Event → Bool
  | .exitCall c _ | .killed c | .print c _ => c == t
  | _ => false

/-- Two logs that tell the same about the end of thread `t`. -/
structure SameFate (l l' : List Event) (t : Int) : Prop where
  exitCall : ∀ status, .exitCall t status ∈ l' ↔ .exitCall t status ∈ l
  killed : .killed t ∈ l' ↔ .killed t ∈ l
  prints : prints l' t = prints l t

namespace SameFate

variable {l l' l'' : List Event} {t v : Int}

theorem refl (l : List Event) (t : Int) : SameFate l l t := ⟨fun _ => Iff.rfl, Iff.rfl, rfl⟩

theorem trans (h : SameFate l l' t) (h' : SameFate l' l'' t) : SameFate l l'' t :=
  ⟨fun st => (h'.exitCall st).trans (h.exitCall st), h'.killed.trans h.killed, h'.prints.trans h.prints⟩

theorem cons {e : Event} (h : e.fate t = false) : SameFate l (e :: l) t := by
  cases e with
  | exitCall c st =>
    have hne : c ≠ t := by simpa [Event.fate] using h
    exact ⟨fun _ => by simp [hne.symm], by simp, by simp [Process.prints]⟩
  | killed c =>
    have hne : c ≠ t := by simpa [Event.fate] using h
    exact ⟨fun _ => by simp, by simp [hne.symm], by simp [Process.prints]⟩
  | print c w =>
    have hne : c ≠ t := by simpa [Event.fate] using h
    exact ⟨fun _ => by simp, by simp, by simp [Process.prints, hne]⟩
  | load | exec | waitRet | strayThread | strayNode =>
    exact ⟨fun _ => by simp, by simp, by simp [Process.prints]⟩

theorem dead_iff (h : SameFate l l' t) : Dead l' t ↔ Dead l t := by
  unfold Dead
  rw [h.killed]
  simp only [h.exitCall]

theorem shows_iff (h : SameFate l l' t) : Shows l' t v ↔ Shows l t v := by
  unfold Shows
  rw [h.killed]
  simp only [h.exitCall]

theorem final (h : SameFate l l' t) (hf : Final l t v) : Final l' t v :=
  ⟨h.dead_iff.mpr hf.dead, h.shows_iff.mpr hf.shows, h.prints.trans hf.printed⟩

end SameFate

/-- Events that matter neither to the end of a thread nor to waiting. -/
def Event.neutral : Event → Bool
  | .load _ _ | .exec _ none _ | .strayThread _ | .strayNode _ => true
  | _ => false

theorem Event.fate_of_neutral {e : Event} (h : e.neutral = true) (t : Int) : e.fate t = false := by
  cases e with
  | exec p c r => rfl
  | load | strayThread | strayNode => rfl
  | exitCall | killed | print | waitRet => cases h

theorem unwaited_neutral {e : Event} (h : e.neutral = true) (p c : Int) (l : List Event) :
    unwaited p c (e :: l) = unwaited p c l := by
  cases e with
  | exec q d r =>
    cases d with
    | none => simp [unwaited]
    | some d => cases h
  | load | strayThread | strayNode => rfl
  | exitCall | killed | print | waitRet => cases h

theorem eventOk_neutral {e : Event} (h : e.neutral = true) (l : List Event) : EventOk l e := by
  cases e with
  | exec | load | strayThread | strayNode | exitCall | killed => trivial
  | print | waitRet => cases h

/-- Two logs that tell the same about everything, the second in order if the first is. -/
structure SameTale (l l' : List Event) : Prop where
  fate : ∀ t, SameFate l l' t
  unwaited : ∀ p c, unwaited p c l' = unwaited p c l
  exec : ∀ p c r, .exec p (some c) r ∈ l' → .exec p (some c) r ∈ l
  ok : LogOk l → LogOk l'

namespace SameTale

theorem refl (l : List Event) : SameTale l l := ⟨fun t => SameFate.refl l t, fun _ _ => rfl, fun _ _ _ h => h, id⟩

variable {l l' : List Event}

theorem trans {l'' : List Event} (h : SameTale l l') (h' : SameTale l' l'') : SameTale l l'' :=
  ⟨fun t => (h.fate t).trans (h'.fate t), fun p c => (h'.unwaited p c).trans (h.unwaited p c),
    fun p c r hr => h.exec p c r (h'.exec p c r hr), fun hl => h'.ok (h.ok hl)⟩

theorem cons {e : Event} (h : e.neutral = true) (l : List Event) : SameTale l (e :: l) := by
  refine ⟨fun t => SameFate.cons (Event.fate_of_neutral h t), fun p c => unwaited_neutral h p c l, ?_,
    fun hl => ⟨eventOk_neutral h l, hl⟩⟩
  intro p c r hr
  rcases List.mem_cons.mp hr with rfl | hr
  · cases h
  · exact hr

end SameTale

/-! ## The invariant -/

/-- How far a thread has come with its exit. -/
inductive Stage where
  /-- It has not begun to exit. -/
  | living
  /-- `process_exit` has still to settle the status. -/
  | deciding
  /-- The status is settled. -/
  | settled
  /-- The node is signalled. -/
  | gone
  deriving DecidableEq

@[grind =] def Pc.stage : Pc → Stage
  | .exitStatus => .deciding
  | .exitChildren | .exitFree _ | .exitChild | .exitUp | .lost => .settled
  | .leave => .gone
  | _ => .living

/-- The tids in nodes that are held are those of their threads, and nobody has been marked as waited for. -/
structure TidsOk (s : State) : Prop where
  lt : ∀ p ∈ s.allList, ∀ b ∈ (s.thread p).held, (s.node b).tid < s.nextTid
  inj : ∀ p ∈ s.allList, ∀ b ∈ (s.thread p).held, ∀ b' ∈ (s.thread p).held,
    (s.node b).tid = (s.node b').tid → b = b'
  made : ∀ p ∈ s.allList, ∀ m, (s.thread p).making = some m → (s.node m.node).tid = m.tid
  owner : ∀ p ∈ s.allList, ∀ b ∈ (s.thread p).held, ∀ q ∈ s.allList, (s.thread q).tid = (s.node b).tid →
    (s.thread q).tidNode = some b
  waiting : ∀ p ∈ s.allList, ∀ b ∈ (s.thread p).held, (s.node b).waiting = false

/-- What the log says about thread `t` at a stage, where `v` is the status in its node. -/
def StageOk (l : List Event) (t v : Int) : Stage → Prop
  | .living => v = -2
  | .deciding => if 0 ≤ v then Shows l t v ∧ prints l t = [v] else Shows l t (-1) ∧ prints l t = []
  | .settled | .gone => Final l t v

theorem StageOk.mono {t v : Int} {st : Stage} (h : StageOk l t v st) (hl : SameFate l l' t) : StageOk l' t v st := by
  cases st with
  | living => exact h
  | deciding =>
    unfold StageOk at h ⊢
    rw [hl.shows_iff, hl.shows_iff, hl.prints]
    exact h
  | settled => exact hl.final h
  | gone => exact hl.final h

/-- The exit status in each node agrees with the log. -/
structure StatusOk (s : State) : Prop where
  living : ∀ q ∈ s.allList, (s.thread q).pc.stage = .living →
    ¬ Dead s.log (s.thread q).tid ∧ prints s.log (s.thread q).tid = []
  deciding : ∀ q ∈ s.allList, (s.thread q).pc.stage = .deciding → Dead s.log (s.thread q).tid
  stage : ∀ q b, Uses s q b → StageOk s.log (s.thread q).tid (s.node b).exitStatus (s.thread q).pc.stage
  done : ∀ p ∈ s.allList, ∀ b ∈ (s.thread p).held, (∀ q, ¬ Uses s q b) →
    Final s.log (s.node b).tid (s.node b).exitStatus
  mark : ∀ p ∈ s.allList, ∀ t b r, (s.thread p).pc = .waitMark t b r →
    Final s.log t r ∧ t < s.nextTid ∧ ∀ q ∈ s.allList, (s.thread q).tid = t → (s.thread q).pc = .leave
  dead_lt : ∀ t, s.nextTid ≤ t → ¬ Dead s.log t ∧ prints s.log t = []

/-- The list of children agrees with the log. -/
structure ChildrenOk (s : State) : Prop where
  children : ∀ p ∈ s.allList, (s.thread p).pc.stage = .living → ∀ c, unwaited (s.thread p).tid c s.log = true ↔
    (∃ b ∈ (s.thread p).childNodes, (s.node b).tid = c) ∨ ∃ b r, (s.thread p).pc = .waitMark c b r
  down : ∀ p ∈ s.allList, ∀ t b, (s.thread p).pc = .waitDown t b ∨ (s.thread p).pc = .waitReap t b →
    b ∈ (s.thread p).childNodes ∧ (s.node b).tid = t
  mark : ∀ p ∈ s.allList, ∀ t b r, (s.thread p).pc = .waitMark t b r →
    ∀ x ∈ (s.thread p).childNodes, (s.node x).tid ≠ t
  exec_lt : ∀ p c r, .exec p (some c) r ∈ s.log → p < s.nextTid

structure WaitInv (s : State) : Prop where
  tids : TidsOk s
  status : StatusOk s
  children : ChildrenOk s
  log : LogOk s.log

/-! ## Changes the invariant does not speak of -/

/-- Threads keep everything but `load_sema`, nodes keep their tid, status and mark, and the log tells the same. -/
structure Mild (s s' : State) : Prop where
  allList : s'.allList = s.allList
  allocated : s'.allocated = s.allocated
  nextTid : s'.nextTid = s.nextTid
  thread : ∀ q ∈ s.allList, ∃ n, s'.thread q = { s.thread q with loadSema := n }
  node : ∀ b, s.allocated b = true → (s'.node b).tid = (s.node b).tid ∧
    (s'.node b).exitStatus = (s.node b).exitStatus ∧ (s'.node b).waiting = (s.node b).waiting
  log : SameTale s.log s'.log

namespace Mild

variable {s s' s'' : State}

theorem refl (s : State) : Mild s s :=
  ⟨rfl, rfl, rfl, fun q _ => ⟨(s.thread q).loadSema, rfl⟩, fun _ _ => ⟨rfl, rfl, rfl⟩, SameTale.refl _⟩

theorem trans (h : Mild s s') (h' : Mild s' s'') : Mild s s'' := by
  have hlog := h.log.trans h'.log
  obtain ⟨hlist, halloc, hnext, hthread, hnode, -⟩ := h
  obtain ⟨hlist', halloc', hnext', hthread', hnode', -⟩ := h'
  constructor <;> grind

theorem emit (s : State) {e : Event} (he : e.neutral = true) : Mild s (s.emit e) :=
  ⟨rfl, rfl, rfl, fun q _ => ⟨(s.thread q).loadSema, rfl⟩, fun _ _ => ⟨rfl, rfl, rfl⟩, SameTale.cons he _⟩

theorem touch (s : State) (p b : Addr) : Mild s (s.touch p b) := by
  unfold State.touch
  split
  · exact refl s
  · exact emit s rfl

theorem peek (s : State) (p q : Addr) (ok : Bool) : Mild s (s.peek p q ok) := by
  unfold State.peek
  split
  · exact refl s
  · exact emit s rfl

theorem touchNodes (s : State) (p : Addr) (nodes : List Addr) : Mild s (touchNodes s p nodes) := by
  induction nodes generalizing s with
  | nil => exact refl s
  | cons b nodes ih => exact (touch s p b).trans (ih _)

variable {b : Addr}

theorem setNode (s : State) {N : TidStatus} (h : s.allocated b = true → N.tid = (s.node b).tid ∧
    N.exitStatus = (s.node b).exitStatus ∧ N.waiting = (s.node b).waiting) : Mild s (s.setNode b N) :=
  ⟨rfl, rfl, rfl, fun q _ => ⟨(s.thread q).loadSema, rfl⟩, by grind, SameTale.refl _⟩

theorem storeLoaded (s : State) (b : Addr) (ok : Bool) : Mild s (storeLoaded s b ok) := by
  unfold Process.storeLoaded
  split
  · exact setNode s (fun _ => ⟨rfl, rfl, rfl⟩)
  · exact refl s

theorem setSema (s : State) (q : Addr) (n : Nat) : Mild s (s.setThread q { s.thread q with loadSema := n }) := by
  refine ⟨rfl, rfl, rfl, fun x _ => ?_, fun _ _ => ⟨rfl, rfl, rfl⟩, SameTale.refl _⟩
  by_cases hx : x = q
  · exact ⟨n, by simp [hx]⟩
  · exact ⟨_, if_neg hx⟩

theorem scribblePage {page : Addr} (h : page ∉ s.allList) (T : Thread) : Mild s (s.setThread page T) :=
  ⟨rfl, rfl, rfl, fun _ hx => ⟨_, if_neg (by rintro rfl; exact h hx)⟩, fun _ _ => ⟨rfl, rfl, rfl⟩, SameTale.refl _⟩

end Mild

variable {s s' : State}

theorem WaitInv.mild (h : WaitInv s) (hnode : NodeInv s) (hm : Mild s s') : WaitInv s' := by
  obtain ⟨hlist, -, hnext, hthread, hnodes, hlog⟩ := hm
  have huses : ∀ q b, Uses s' q b ↔ Uses s q b := by grind
  have hheld := hnode.held
  constructor
  case tids =>
    constructor
    case lt => have := h.tids.lt; grind
    case inj => grind [h.tids.inj]
    case made => grind [h.tids.made]
    case owner => grind [h.tids.owner]
    case waiting => grind [h.tids.waiting]
  case status =>
    have hdead : ∀ t, Dead s'.log t ↔ Dead s.log t := fun t => (hlog.fate t).dead_iff
    have hprints : ∀ t, prints s'.log t = prints s.log t := fun t => (hlog.fate t).prints
    have hfinal : ∀ t v, Final s.log t v → Final s'.log t v := fun t v => (hlog.fate t).final
    have hstage : ∀ t v st, StageOk s.log t v st → StageOk s'.log t v st := fun t v st hok => hok.mono (hlog.fate t)
    constructor
    case living => grind [h.status.living]
    case deciding => grind [h.status.deciding]
    case stage => grind [h.status.stage, hnode.allocated]
    case done => grind [h.status.done]
    case mark => grind [h.status.mark]
    case dead_lt => grind [h.status.dead_lt]
  case children =>
    constructor
    case children => grind [h.children.children, hlog.unwaited]
    case down => grind [h.children.down]
    case mark => grind [h.children.mark]
    case exec_lt => exact fun p c r hr => hnext ▸ h.children.exec_lt p c r (hlog.exec p c r hr)
  case log => exact hlog.ok h.log

/-! ## One thread moves on -/

variable {pc : Pc}

theorem Pc.stage_eq_gone : pc.stage = .gone ↔ pc = .leave := by
  cases pc <;> simp [Pc.stage]

/-- Not at the write to the freed node. -/
@[grind =] def Pc.unmarking (pc : Pc) : Prop := ∀ t b r, pc ≠ .waitMark t b r

/-- Thread `p` becomes `T` and the log becomes `l`, within the stage of `p` and without news about the end of
    threads. -/
structure Reshape (s : State) (p : Addr) (T : Thread) (l : List Event) : Prop where
  tid : T.tid = (s.thread p).tid
  tidNode : T.tidNode = (s.thread p).tidNode
  held : ∀ b ∈ T.held, b ∈ (s.thread p).held
  making : ∀ m, T.making = some m → (s.thread p).making = some m
  stage : T.pc.stage = (s.thread p).pc.stage
  fate : ∀ t, SameFate s.log l t
  unwaited : ∀ q ∈ s.allList, q ≠ p → ∀ c, unwaited (s.thread q).tid c l = unwaited (s.thread q).tid c s.log
  exec_lt : ∀ q c r, .exec q (some c) r ∈ l → q < s.nextTid
  log : LogOk l

/-- What has to be shown of thread `p` when its children or its point change. -/
structure Reshaped (s : State) (T : Thread) (l : List Event) : Prop where
  children : T.pc.stage = .living → ∀ c, unwaited T.tid c l = true ↔
    (∃ b ∈ T.childNodes, (s.node b).tid = c) ∨ ∃ b r, T.pc = .waitMark c b r
  down : ∀ t b, T.pc = .waitDown t b ∨ T.pc = .waitReap t b → b ∈ T.childNodes ∧ (s.node b).tid = t
  mark : ∀ t b r, T.pc = .waitMark t b r → Final l t r ∧ t < s.nextTid ∧
    (∀ q ∈ s.allList, (s.thread q).tid = t → (s.thread q).pc = .leave) ∧ ∀ x ∈ T.childNodes, (s.node x).tid ≠ t

variable {p : Addr} {T : Thread}

theorem WaitInv.reshape (h : WaitInv s) {alloc : Addr → Bool}
    (hr : Reshape s p T l) (hself : p ∈ s.allList → Reshaped s T l) :
    WaitInv { s.setThread p T with log := l, allocated := alloc } := by
  set s' : State := { s.setThread p T with log := l, allocated := alloc } with hs'
  have hthread : ∀ q, s'.thread q = if q = p then T else s.thread q := fun q => rfl
  have hleave : T.pc = .leave ↔ (s.thread p).pc = .leave := by
    rw [← Pc.stage_eq_gone, ← Pc.stage_eq_gone, hr.stage]
  obtain ⟨htid, htidNode, hheld, hmaking, hstage, hfate, hunw, hexec, hlog⟩ := hr
  have huses : ∀ q b, Uses s' q b ↔ Uses s q b := by grind
  constructor
  case tids =>
    obtain ⟨hlt, hinj, hmade, howner, hwaiting⟩ := h.tids
    constructor
    case lt => grind
    case inj => grind
    case made => grind
    case owner => grind
    case waiting => grind
  case status =>
    have hdead : ∀ t, Dead l t ↔ Dead s.log t := fun t => (hfate t).dead_iff
    have hprints : ∀ t, prints l t = prints s.log t := fun t => (hfate t).prints
    have hfinal : ∀ t v, Final s.log t v → Final l t v := fun t v => (hfate t).final
    have hmono : ∀ t v st, StageOk s.log t v st → StageOk l t v st := fun t v st hok => hok.mono (hfate t)
    constructor
    case living => grind [h.status.living]
    case deciding => grind [h.status.deciding]
    case stage => grind [h.status.stage]
    case done =>
      intro q hq b hb hno
      exact hfinal _ _ (h.status.done q hq b (by grind) (fun r hr => hno r ((huses r b).mpr hr)))
    case mark => grind [h.status.mark, Reshaped.mark]
    case dead_lt => grind [h.status.dead_lt]
  case children =>
    constructor
    case children => grind [h.children.children, Reshaped.children]
    case down => grind [h.children.down, Reshaped.down]
    case mark =>
      intro q hq t b r hpc x hx
      rw [hthread] at hpc hx
      split at hpc
      · rename_i hqp
        rw [if_pos hqp] at hx
        exact ((hself (hqp ▸ hq)).mark t b r hpc).2.2.2 x hx
      · rename_i hqp
        rw [if_neg hqp] at hx
        exact h.children.mark q hq t b r hpc x hx
    case exec_lt => exact hexec
  case log => exact hlog

/-- A thread goes on within its stage and keeps its nodes. -/
theorem WaitInv.move (h : WaitInv s) (htid : T.tid = (s.thread p).tid)
    (hnode : T.tidNode = (s.thread p).tidNode) (hnodes : T.childNodes = (s.thread p).childNodes)
    (hmk : T.making = (s.thread p).making) (hstage : T.pc.stage = (s.thread p).pc.stage)
    (hold : (s.thread p).pc.unmarking) (hnew : T.pc.unmarking)
    (hdown : ∀ t b, T.pc = .waitDown t b ∨ T.pc = .waitReap t b →
      b ∈ (s.thread p).childNodes ∧ (s.node b).tid = t) : WaitInv (s.setThread p T) := by
  refine h.reshape (p := p) ⟨htid, hnode, by grind, by grind, hstage, SameFate.refl s.log, fun _ _ _ _ => rfl,
    h.children.exec_lt, h.log⟩ (fun hp => ⟨?_, ?_, ?_⟩)
  · intro hst c
    have hchildren := h.children.children p hp (hstage ▸ hst) c
    grind
  · rw [hnodes]; exact hdown
  · exact fun t b r hpc => absurd hpc (hnew t b r)

/-- Points between which a thread may go without more ado. -/
@[grind =] def Pc.easy : Pc → Bool
  | .waitDown _ _ | .waitReap _ _ | .waitMark _ _ _ => false
  | _ => true

theorem Pc.unmarking_of_easy (h : pc.easy = true) : pc.unmarking := by
  rintro t b r rfl
  cases h

theorem WaitInv.goto (h : WaitInv s) (hstage : pc.stage = (s.thread p).pc.stage)
    (hold : (s.thread p).pc.unmarking) (hnew : pc.easy = true) : WaitInv (s.goto p pc) := by
  refine h.move rfl rfl rfl rfl hstage hold (Pc.unmarking_of_easy hnew) ?_
  rintro t b (heq | heq)
  · rw [show pc = _ from heq] at hnew; cases hnew
  · rw [show pc = _ from heq] at hnew; cases hnew

/-- A mild change, and then the thread goes on within its stage. -/
theorem WaitInv.mild_goto {s₁ : State} (h : WaitInv s) (hnode : NodeInv s) (hm : Mild s s₁)
    (hp : p ∈ s.allList) (hstage : pc.stage = (s.thread p).pc.stage) (hold : (s.thread p).pc.unmarking)
    (hnew : pc.easy = true) : WaitInv (s₁.goto p pc) := by
  obtain ⟨n, hn⟩ := hm.thread p hp
  exact (h.mild hnode hm).goto (by rw [hn]; exact hstage) (by rw [hn]; exact hold) hnew

/-! ## A thread comes to its end -/

/-- The second log tells more about the end of thread `t`, and about nothing else. -/
structure OnlyFate (l l' : List Event) (t : Int) : Prop where
  fate : ∀ c, c ≠ t → SameFate l l' c
  unwaited : ∀ p c, unwaited p c l' = unwaited p c l
  exec : ∀ p c r, .exec p (some c) r ∈ l' → .exec p (some c) r ∈ l

namespace OnlyFate

theorem refl (l : List Event) (t : Int) : OnlyFate l l t :=
  ⟨fun c _ => SameFate.refl l c, fun _ _ => rfl, fun _ _ _ h => h⟩

theorem cons {t : Int} {e : Event} (he : e.fate t = true) (h : OnlyFate l l' t) : OnlyFate l (e :: l') t := by
  cases e with
  | exitCall | killed | print =>
    have heq := eq_of_beq he
    refine ⟨fun c hc => (h.fate c hc).trans (SameFate.cons ?_), h.unwaited, fun p c r hr => h.exec p c r ?_⟩
    · exact beq_eq_false_iff_ne.mpr (fun hc' => hc (hc'.symm.trans heq))
    · rcases List.mem_cons.mp hr with heq | hr
      · cases heq
      · exact hr
  | load | exec | waitRet | strayThread | strayNode => cases he

end OnlyFate

/-- What a turn of thread `p` towards its end changes: its own point and the status in its own node, and what the
    log says about it. -/
structure Turn (s s' : State) (p : Addr) : Prop where
  allList : s'.allList = s.allList
  nextTid : s'.nextTid = s.nextTid
  other : ∀ q, q ≠ p → s'.thread q = s.thread q
  self : ∃ n pc, s'.thread p = { s.thread p with loadSema := n, pc }
  node : ∀ x, s.allocated x = true → (s'.node x).tid = (s.node x).tid ∧ (s'.node x).waiting = (s.node x).waiting ∧
    ((s.thread p).tidNode ≠ some x → (s'.node x).exitStatus = (s.node x).exitStatus)
  log : OnlyFate s.log s'.log (s.thread p).tid
  stage : (s'.thread p).pc.stage = .deciding ∨ (s'.thread p).pc.stage = .settled
  easy : (s'.thread p).pc.easy = true

theorem WaitInv.turn (h : WaitInv s) (hnode : NodeInv s) (hheld : Held s)
    (hp : p ∈ s.allList) (ht : Turn s s' p) (hold : (s.thread p).pc ≠ .leave)
    (hlog : LogOk s'.log) (hdead : Dead s'.log (s.thread p).tid) (hok : ∀ b, (s.thread p).tidNode = some b →
      StageOk s'.log (s.thread p).tid (s'.node b).exitStatus (s'.thread p).pc.stage) : WaitInv s' := by
  obtain ⟨n, pc, hself⟩ := ht.self
  have hpc' : (s'.thread p).pc = pc := by rw [hself]
  have hstage := ht.stage
  rw [hpc'] at hstage
  have hnotliving : pc.stage ≠ .living ∧ pc ≠ .leave := by
    rw [ne_eq, ne_eq, ← Pc.stage_eq_gone]
    rcases hstage with heq | heq <;> rw [heq] <;> decide
  have hkeep : ∀ q, (s'.thread q).tid = (s.thread q).tid ∧ (s'.thread q).tidNode = (s.thread q).tidNode ∧
      (s'.thread q).held = (s.thread q).held ∧ (s'.thread q).making = (s.thread q).making := by
    intro q
    by_cases hq : q = p
    · rw [hq, hself]; exact ⟨rfl, rfl, rfl, rfl⟩
    · rw [ht.other q hq]; exact ⟨rfl, rfl, rfl, rfl⟩
  obtain ⟨hlist, hnext, hother, -, hnodes, honly, -, -⟩ := ht
  have huses : ∀ q b, Uses s' q b ↔ Uses s q b := by grind
  have hheld' := hnode.held
  have hne : ∀ q ∈ s.allList, q ≠ p → (s.thread q).tid ≠ (s.thread p).tid :=
    fun q hq hqp heq => hqp (hheld.tid_inj _ hq p hp heq)
  constructor
  case tids =>
    constructor
    case lt => have := h.tids.lt; grind
    case inj => grind [h.tids.inj]
    case made => grind [h.tids.made, mem_held_of_making]
    case owner => grind [h.tids.owner]
    case waiting => grind [h.tids.waiting]
  case status =>
    have hdead' : ∀ t, t ≠ (s.thread p).tid → (Dead s'.log t ↔ Dead s.log t) := fun t hn => (honly.fate t hn).dead_iff
    have hprints : ∀ t, t ≠ (s.thread p).tid → prints s'.log t = prints s.log t := fun t hn => (honly.fate t hn).prints
    have hfinal : ∀ t v, t ≠ (s.thread p).tid → Final s.log t v → Final s'.log t v :=
      fun t v hn => (honly.fate t hn).final
    have hmono : ∀ t v st, t ≠ (s.thread p).tid → StageOk s.log t v st → StageOk s'.log t v st :=
      fun t v st hn hok => hok.mono (honly.fate t hn)
    constructor
    case living => grind [h.status.living]
    case deciding => grind [h.status.deciding]
    case stage =>
      intro q b hu
      have hu' := (huses q b).mp hu
      by_cases hqp : q = p
      · subst hqp
        rw [(hkeep q).1]
        exact hok b hu'.2.1
      · have hpb : (s.thread p).tidNode ≠ some b := fun hpb => hqp (hnode.inj q p b hu' ⟨hp, hpb, hold⟩)
        rw [hother q hqp, (hnodes b (hnode.allocated q b hu')).2.2 hpb]
        exact hmono _ _ _ (hne q hu'.1 hqp) (h.status.stage q b hu')
    case done =>
      intro q hq b hb hno
      rw [hlist] at hq
      rw [(hkeep q).2.2.1] at hb
      have hno' : ∀ r, ¬ Uses s r b := fun r hr => hno r ((huses r b).mpr hr)
      -- `p` is still using its node, so this is another one, and another thread's
      have hpb : (s.thread p).tidNode ≠ some b := fun hpb => hno' p ⟨hp, hpb, hold⟩
      have htid : (s.node b).tid ≠ (s.thread p).tid := fun heq => hpb (h.tids.owner q hq b hb p hp heq.symm)
      obtain ⟨ht, _, hv⟩ := hnodes b (hheld' q hq b hb)
      rw [ht, hv hpb]
      exact hfinal _ _ htid (h.status.done q hq b hb hno')
    case mark => grind [h.status.mark]
    case dead_lt =>
      intro t htn
      have hn : t ≠ (s.thread p).tid := by have := hheld.tid_lt p hp; omega
      rw [hdead' t hn, hprints t hn]
      exact h.status.dead_lt t (hnext ▸ htn)
  case children =>
    constructor
    case children => grind [h.children.children, honly.unwaited]
    case down => grind [h.children.down]
    case mark => grind [h.children.mark]
    case exec_lt => exact fun q c r hr => hnext ▸ h.children.exec_lt q c r (honly.exec q c r hr)
  case log => exact hlog

/-- The thread goes on, with a new status in its own node and news of its own end in the log. -/
theorem Turn.of_write {n : Nat} {N : Addr → TidStatus}
    (hpc : pc.stage = .deciding ∨ pc.stage = .settled) (heasy : pc.easy = true)
    (hlog : OnlyFate s.log l (s.thread p).tid)
    (hN : ∀ x, (N x).tid = (s.node x).tid ∧ (N x).waiting = (s.node x).waiting ∧
      ((s.thread p).tidNode ≠ some x → (N x).exitStatus = (s.node x).exitStatus)) :
    Turn s { s.setThread p { s.thread p with loadSema := n, pc } with node := N, log := l } p where
  allList := rfl
  nextTid := rfl
  other := fun q hq => if_neg hq
  self := ⟨n, pc, if_pos rfl⟩
  node := fun x _ => hN x
  log := hlog
  stage := by simpa using hpc
  easy := by simpa using heasy

/-- What `exit_w` adds to the log. -/
def exitLog (l : List Event) (t status : Int) : List Event :=
  if status ≥ 0 then .print t status :: .exitCall t status :: l else .exitCall t status :: l

section
variable {l : List Event} {t v : Int}

theorem OnlyFate.exitLog (l : List Event) (t status : Int) : OnlyFate l (exitLog l t status) t := by
  have hcall : OnlyFate l (.exitCall t status :: l) t := (OnlyFate.refl l t).cons (beq_self_eq_true t)
  unfold Process.exitLog
  split
  · exact hcall.cons (beq_self_eq_true t)
  · exact hcall

theorem dead_exitLog : Dead (exitLog l t v) t := by
  unfold exitLog
  split <;> exact .inr ⟨v, by simp⟩

theorem shows_exitCall (h : ¬ Dead l t) : Shows (.exitCall t v :: l) t v := by
  constructor
  · intro status hst
    rcases List.mem_cons.mp hst with heq | hst
    · cases heq; rfl
    · exact absurd (.inr ⟨status, hst⟩) h
  · intro hk
    rcases List.mem_cons.mp hk with heq | hk
    · cases heq
    · exact absurd (.inl hk) h

theorem shows_killed (h : ¬ Dead l t) : Shows (.killed t :: l) t (-1) := by
  refine ⟨?_, fun _ => rfl⟩
  intro status hst
  rcases List.mem_cons.mp hst with heq | hst
  · cases heq
  · exact absurd (.inr ⟨status, hst⟩) h

variable {w : Int}

theorem shows_print : Shows (.print t w :: l) t v ↔ Shows l t v := by
  unfold Shows
  simp

theorem dead_print : Dead (.print t w :: l) t ↔ Dead l t := by
  unfold Dead
  simp

theorem prints_print : prints (.print t w :: l) t = w :: prints l t := by
  simp [prints]

theorem logOk_exitLog (hl : LogOk l) (h : ¬ Dead l t) (hp : prints l t = []) : LogOk (exitLog l t v) := by
  unfold exitLog
  split
  · exact ⟨⟨.inr ⟨v, by simp⟩, shows_exitCall h, hp⟩, trivial, hl⟩
  · exact ⟨trivial, hl⟩

/-- `exit_w` leaves a status that `process_exit` will settle as it is, or to -1. -/
theorem stageOk_exitLog (h : ¬ Dead l t) (hp : prints l t = []) (hv : -1 ≤ v) :
    StageOk (exitLog l t v) t v .deciding := by
  unfold exitLog StageOk
  by_cases hpos : 0 ≤ v
  · rw [if_pos hpos, if_pos hpos]
    refine ⟨shows_print.mpr (shows_exitCall h), ?_⟩
    rw [prints_print]
    exact congrArg (v :: ·) hp
  · obtain rfl : v = -1 := by omega
    exact ⟨shows_exitCall h, hp⟩

/-- What `process_exit` adds to the log when it settles status `v`. -/
def settleLog (l : List Event) (t v : Int) : List Event := if v < 0 then .print t (-1) :: l else l

/-- The status that `process_exit` leaves in the node. -/
def settled (v : Int) : Int := if v < 0 then -1 else v

theorem OnlyFate.settleLog (l : List Event) (t v : Int) : OnlyFate l (settleLog l t v) t := by
  unfold Process.settleLog
  split
  · exact (OnlyFate.refl l t).cons (beq_self_eq_true t)
  · exact OnlyFate.refl l t

theorem logOk_settleLog (hl : LogOk l) (hd : Dead l t) (h : StageOk l t v .deciding) : LogOk (settleLog l t v) := by
  unfold StageOk at h
  unfold settleLog
  split
  · rw [if_neg (by omega)] at h
    exact ⟨⟨hd, h.1, h.2⟩, hl⟩
  · exact hl

/-- Settling makes the status final. -/
theorem final_settleLog (hd : Dead l t) (h : StageOk l t v .deciding) : Final (settleLog l t v) t (settled v) := by
  unfold StageOk at h
  unfold settleLog settled
  by_cases hneg : v < 0
  · rw [if_neg (by omega)] at h
    rw [if_pos hneg, if_pos hneg]
    refine ⟨dead_print.mpr hd, shows_print.mpr h.1, ?_⟩
    rw [prints_print, h.2]
  · rw [if_pos (by omega)] at h
    rw [if_neg hneg, if_neg hneg]
    exact ⟨hd, h.1, h.2⟩

end

/-- The node of a thread that is ended without `exit` still says that no status has been set. -/
theorem StatusOk.unset (h : StatusOk s) (hp : p ∈ s.allList)
    (hst : (s.thread p).pc.stage = .living) (hb : (s.thread p).tidNode = some b) : (s.node b).exitStatus = -2 := by
  have hu : Uses s p b := by
    refine ⟨hp, hb, ?_⟩
    intro heq
    rw [heq] at hst; cases hst
  have hok := h.stage p b hu
  rw [hst] at hok
  exact hok

/-- The kernel ends a thread. -/
theorem WaitInv.die (h : WaitInv s) (hnode : NodeInv s) (hheld : Held s)
    (hp : p ∈ s.allList) (hst : (s.thread p).pc.stage = .living) (n : Nat) :
    WaitInv ((s.setThread p { s.thread p with loadSema := n, pc := .exitStatus }).emit
      (.killed (s.thread p).tid)) := by
  obtain ⟨halive, hprints⟩ := h.status.living p hp hst
  refine h.turn hnode hheld hp (Turn.of_write (.inl rfl) rfl ((OnlyFate.refl _ _).cons (beq_self_eq_true _))
    (fun _ => ⟨rfl, rfl, fun _ => rfl⟩)) ?_ ⟨trivial, h.log⟩ (.inl (by simp)) ?_
  · intro heq
    rw [heq] at hst; cases hst
  · intro b hb
    rw [State.emit_thread, State.setThread_thread, if_pos rfl]
    show StageOk _ _ (s.node b).exitStatus .deciding
    rw [h.status.unset hp hst hb]
    exact ⟨shows_killed halive, hprints⟩

/-- What `exit_w` does when the node of the thread is there. -/
theorem exitW_some (hb : (s.thread p).tidNode = some b)
    (hflag : (s.thread p).tidNodeExists = true) (hal : s.allocated b = true) (status : Int) :
    exitW s p status = ({ s with log := exitLog s.log (s.thread p).tid status }.setNode b
      { s.node b with exitStatus := status }).goto p .exitStatus := by
  unfold exitW
  simp only [hb, hflag]
  rw [State.touch_of_allocated ((s.emit _).setNode b _) p b hal]
  unfold exitLog
  split <;> rfl

/-- What `exit_w` does when the thread has no node. -/
theorem exitW_none (hb : (s.thread p).tidNode = none) (status : Int) :
    exitW s p status = { s with log := exitLog s.log (s.thread p).tid status }.goto p .exitStatus := by
  unfold exitW
  simp only [hb]
  unfold exitLog
  cases (s.thread p).tidNodeExists <;> split <;> rfl

/-- A thread calls `exit` with a status that `process_exit` does not take for one that was never set. -/
theorem WaitInv.exitW (h : WaitInv s) (hnode : NodeInv s) (hheld : Held s)
    (hat : At s p .user) {status : Int} (hstatus : -1 ≤ status) : WaitInv (exitW s p status) := by
  obtain ⟨hp, hpc⟩ := hat
  obtain ⟨halive, hprints⟩ := h.status.living p hp (by rw [hpc]; rfl)
  have hnotleave : (s.thread p).pc ≠ .leave := by
    rw [hpc]
    intro heq; cases heq
  have hlog : LogOk (exitLog s.log (s.thread p).tid status) := logOk_exitLog h.log halive hprints
  cases hb : (s.thread p).tidNode with
  | none =>
    rw [exitW_none hb]
    exact h.turn hnode hheld hp (Turn.of_write (.inl rfl) rfl (OnlyFate.exitLog _ _ _)
      (fun _ => ⟨rfl, rfl, fun _ => rfl⟩)) hnotleave hlog dead_exitLog (fun b hb' => by rw [hb] at hb'; cases hb')
  | some b =>
    have hu : Uses s p b := ⟨hp, hb, hnotleave⟩
    rw [exitW_some hb (hnode.flag p b hu) (hnode.allocated p b hu)]
    refine h.turn hnode hheld hp (Turn.of_write (.inl rfl) rfl (OnlyFate.exitLog _ _ _) (by grind)) hnotleave
      hlog dead_exitLog ?_
    intro b' hb'
    rw [hb] at hb'
    obtain rfl := Option.some.inj hb'
    simpa [Pc.stage] using stageOk_exitLog halive hprints hstatus

theorem settleStatus_eq (hal : s.allocated b = true) :
    settleStatus s p b = ({ s with log := settleLog s.log (s.thread p).tid (s.node b).exitStatus }.setNode b
      { s.node b with exitStatus := settled (s.node b).exitStatus }).goto p .exitChildren := by
  unfold settleStatus settleLog settled
  rw [State.touch_of_allocated _ p b hal]
  by_cases hneg : (s.node b).exitStatus < 0
  · simp only [if_pos hneg]
    rfl
  · simp only [if_neg hneg]
    have hfun : (fun x => if x = b then s.node b else s.node x) = s.node := by
      funext x
      split
      · rename_i hx
        rw [hx]
      · rfl
    show s.goto p _ = ({ s with node := fun x => if x = b then s.node b else s.node x } : State).goto p _
    rw [hfun]

/-- `process_exit` settles the status. -/
theorem WaitInv.settleStatus (h : WaitInv s) (hnode : NodeInv s) (hheld : Held s)
    (hp : p ∈ s.allList) (hpc : (s.thread p).pc = .exitStatus) (hb : (s.thread p).tidNode = some b) :
    WaitInv (settleStatus s p b) := by
  have hnotleave : (s.thread p).pc ≠ .leave := by
    rw [hpc]
    intro heq; cases heq
  have hu : Uses s p b := ⟨hp, hb, hnotleave⟩
  have hdead := h.status.deciding p hp (by rw [hpc]; rfl)
  have hstage := h.status.stage p b hu
  rw [hpc] at hstage
  have hfinal := final_settleLog hdead hstage
  rw [settleStatus_eq (hnode.allocated p b hu)]
  refine h.turn hnode hheld hp (Turn.of_write (.inr rfl) rfl (OnlyFate.settleLog _ _ _) (by grind)) hnotleave
    (logOk_settleLog h.log hdead hstage) hfinal.dead ?_
  intro b' hb'
  rw [hb] at hb'
  obtain rfl := Option.some.inj hb'
  simpa [Pc.stage, StageOk] using hfinal

/-- A thread without a node cannot settle its status. -/
theorem WaitInv.lose (h : WaitInv s) (hnode : NodeInv s) (hheld : Held s)
    (hp : p ∈ s.allList) (hpc : (s.thread p).pc = .exitStatus) (hb : (s.thread p).tidNode = none) :
    WaitInv (s.goto p .lost) := by
  refine h.turn hnode hheld hp (Turn.of_write (.inr rfl) rfl (OnlyFate.refl _ _) (fun _ => ⟨rfl, rfl, fun _ => rfl⟩))
    ?_ h.log (h.status.deciding p hp (by rw [hpc]; rfl)) (fun b hb' => by rw [hb] at hb'; cases hb')
  rw [hpc]
  intro heq; cases heq

end Process
end Asg1
