import Mathlib.Tactic.Simps.Basic
import Asg1.Lib.Cursor
import Asg1.Lib.Lts

/-!
# `Process.Model` — processes that exec, wait and exit

`process_execute`, `start_process`, `process_wait` and `process_exit` of `userprog/process.c`, with `exit_w` of
`userprog/syscall.c` and `thread_create`, `get_thread_by_tid` and `thread_exit` of `threads/thread.c`, run by any
number of threads in any interleaving. A thread is known by the page its `struct thread` lies in and a
`tid_status` by its block; both are given out again after they have been freed. Every `Pc` is a point where the
thread can be preempted.

* A semaphore is its value: `sema_down` waits until the value is positive.
* `thread_create` is one step, since nobody knows the new thread before it ends. It finds memory for the node,
  as the source takes for granted.
* A thread leaves `all_list` and loses its page in one step: `thread_exit` runs with interrupts off until the
  next thread has freed the page.
* A freed page or block keeps its contents until the rest of the kernel writes over it, which it may do at any
  time (`scribblePage`, `scribbleBlock`). Reads and writes through a pointer that is not valid any more reach
  whatever is there, and are noted in the log.
* Open files and the page directory, which `process_exit` also gives back, are left out.
-/

namespace Asg1
namespace Process

/-- The address of a page or of a block. -/
abbrev Addr := Nat

def TID_ERROR : Int := -1

/-- `struct tid_status`. -/
structure TidStatus where
  tid : Int
  child : Option Addr
  exitStatus : Int
  loaded : Bool
  waiting : Bool
  sema : Nat

/-- Where a thread stands, with the local variables that are still needed. -/
inductive Pc where
  /-- The idle thread, which takes no part. -/
  | idle
  /-- `start_process`, inside `load`. -/
  | start
  /-- `if(success) cur->tid_node->loaded = 1;` -/
  | setLoaded (success : Bool)
  /-- `sema_up(&cur->load_sema);` -/
  | upLoad (success : Bool)
  /-- User code, and the main thread between its calls. -/
  | user
  /-- `process_execute`, back from `thread_create`. -/
  | created (tid : Int)
  /-- `get_thread_by_tid`, at list element `e`; `none` is the end of the list. -/
  | lookup (tid : Int) (e : Option Addr)
  /-- `get_thread_by_tid`, about to move on from element `e`. -/
  | lookupNext (tid : Int) (e : Addr)
  /-- `child_node = child->tid_node;` -/
  | readNode (tid : Int) (child : Addr)
  /-- `sema_down(&child->load_sema);` -/
  | downLoad (tid : Int) (child childNode : Addr)
  /-- `if(child_node->loaded == 1)` -/
  | checkLoaded (tid : Int) (childNode : Addr)
  /-- `process_wait`, at `sema_down(&child_tid_node->sema);` -/
  | waitDown (tid : Int) (node : Addr)
  /-- `result = child_tid_node->exit_status;` up to `free(child_tid_node);` -/
  | waitReap (tid : Int) (node : Addr)
  /-- `child_tid_node->waiting = 1;` -/
  | waitMark (tid : Int) (node : Addr) (result : Int)
  /-- `process_exit`, at `if(cur->tid_node->exit_status < 0)`. -/
  | exitStatus
  /-- At the head of the loop over `child_nodes`. -/
  | exitChildren
  /-- `list_remove(&cur_tid_node->elem); free(cur_tid_node);` -/
  | exitFree (node : Addr)
  /-- `if(cur->tid_node_exists) cur->tid_node->child = NULL;` -/
  | exitChild
  /-- `sema_up(&cur->tid_node->sema);` -/
  | exitUp
  /-- `thread_exit`, back from `process_exit`. -/
  | leave
  /-- A null or wild pointer was followed. -/
  | lost
  deriving DecidableEq

/-- What `thread_create` made for a `process_execute` that has not returned yet. -/
structure Made where
  tid : Int
  page : Addr
  node : Addr
  deriving DecidableEq

/-- `struct thread`, with the point where the thread stands. `making` is a history variable: no step reads it. -/
structure Thread where
  tid : Int
  tidNodeExists : Bool
  tidNode : Option Addr
  loadSema : Nat
  childNodes : List Addr
  pc : Pc
  making : Option Made

/-- What can be seen of a run. Threads are named by their tids. -/
inductive Event where
  /-- `load` returned in thread `c`. -/
  | load (c : Int) (success : Bool)
  /-- `process_execute`, called by `p`, created thread `c` (or none) and returned `result`. -/
  | exec (p : Int) (c : Option Int) (result : Int)
  /-- Thread `c` called `exit(status)`. -/
  | exitCall (c status : Int)
  /-- The kernel ended thread `c`. -/
  | killed (c : Int)
  /-- The exit line of thread `c` was printed. -/
  | print (c status : Int)
  /-- `process_wait(tid)`, called by `p`, returned `result`. -/
  | waitRet (p tid result : Int)
  /-- `process_execute`, called by `p`, read a `struct thread` whose thread is gone. -/
  | strayThread (p : Int)
  /-- `exit_w`, `process_exit` or `process_wait`, called by `p`, touched a node that had been freed. -/
  | strayNode (p : Int)
  deriving DecidableEq

/-- The memory, the list of all threads, and the log, newest event first. -/
structure State where
  thread : Addr → Thread
  allList : List Addr
  node : Addr → TidStatus
  allocated : Addr → Bool
  nextTid : Int
  log : List Event

/-- A step of the thread on page `p`, or of the rest of the kernel. -/
inductive Action where
  /-- `process_execute` up to `thread_create`, which gets `page` and `block`. -/
  | exec (p page block : Addr)
  /-- `process_execute` without a page for its copies or for the thread. -/
  | execFail (p : Addr)
  /-- `load` returns. -/
  | load (p : Addr) (success : Bool)
  /-- The system call `exit`. -/
  | exit (p : Addr) (status : Int)
  /-- A fault, a bad pointer or a bad call number: `thread_exit`. -/
  | kill (p : Addr)
  /-- `process_wait` up to its `sema_down`. -/
  | wait (p : Addr) (tid : Int)
  /-- The next step of a thread that is inside the kernel. -/
  | run (p : Addr)
  /-- The rest of the kernel writes on a page that is no thread's. -/
  | scribblePage (page : Addr) (contents : Thread)
  /-- The rest of the kernel writes on a block that is no node's. -/
  | scribbleBlock (block : Addr) (contents : TidStatus)

/-! ## Writing the memory -/

namespace State

@[simps] def setThread (s : State) (p : Addr) (T : Thread) : State :=
  { s with thread := fun q => if q = p then T else s.thread q }

@[simps] def setNode (s : State) (b : Addr) (N : TidStatus) : State :=
  { s with node := fun x => if x = b then N else s.node x }

def goto (s : State) (p : Addr) (pc : Pc) : State := s.setThread p { s.thread p with pc }

@[simps] def emit (s : State) (e : Event) : State := { s with log := e :: s.log }

/-- `free(b)`. -/
@[simps] def free (s : State) (b : Addr) : State :=
  { s with allocated := fun x => if x = b then false else s.allocated x }

/-- Thread `p` reads or writes node `b`. -/
def touch (s : State) (p b : Addr) : State :=
  if s.allocated b = true then s else s.emit (.strayNode (s.thread p).tid)

/-- `process_execute` of `p` reads the `struct thread` on page `q`; `ok` says that it is the one it means. -/
def peek (s : State) (p q : Addr) (ok : Bool) : State :=
  if q ∈ s.allList ∧ ok = true then s else s.emit (.strayThread (s.thread p).tid)

end State

/-! ## `process_execute` and `start_process` -/

/-- A thread as `thread_create` makes it. -/
@[grind =] def newThread (tid : Int) (block : Addr) : Thread :=
  { tid, tidNodeExists := true, tidNode := some block, loadSema := 0, childNodes := [], pc := .start
    making := none }

/-- A node as `thread_create` makes it; the exit status -2 says that none has been set. -/
@[grind =] def newNode (tid : Int) (page : Addr) : TidStatus :=
  { tid, child := some page, exitStatus := -2, loaded := false, waiting := false, sema := 0 }

/-- `thread_create`: a new thread on `page` with a node in `block`. -/
def threadCreate (s : State) (page block : Addr) : State :=
  { thread := fun q => if q = page then newThread s.nextTid block else s.thread q
    allList := s.allList ++ [page]
    node := fun x => if x = block then newNode s.nextTid page else s.node x
    allocated := fun x => if x = block then true else s.allocated x
    nextTid := s.nextTid + 1
    log := s.log }

/-- `process_execute` up to the return of `thread_create`. -/
def processExecute (s : State) (p page block : Addr) : State :=
  (threadCreate s page block).setThread p
    { s.thread p with pc := .created s.nextTid, making := some ⟨s.nextTid, page, block⟩ }

/-- `process_execute` returns. -/
def executeReturn (s : State) (p : Addr) (tid result : Int) (childNodes : List Addr) : State :=
  (s.setThread p { s.thread p with pc := .user, making := none, childNodes }).emit
    (.exec (s.thread p).tid (some tid) result)

/-- `if(success) cur->tid_node->loaded = 1;` -/
def storeLoaded (s : State) (b : Addr) (success : Bool) : State :=
  if success then s.setNode b { s.node b with loaded := true } else s

/-! ## `process_wait` and `process_exit` -/

/-- The search of `process_wait` through `child_nodes`. -/
def findChild (s : State) (nodes : List Addr) (tid : Int) : Option Addr :=
  nodes.find? (fun b => (s.node b).tid = tid)

/-- The search reads the nodes up to the one it finds. -/
def touchNodes (s : State) (p : Addr) (nodes : List Addr) : State := nodes.foldl (fun s b => s.touch p b) s

/-- The nodes that the search reads. -/
def searched (s : State) (nodes : List Addr) (tid : Int) : List Addr :=
  nodes.takeWhile (fun b => (s.node b).tid ≠ tid) ++ (findChild s nodes tid).toList

/-- `process_wait` up to `sema_down`. -/
def processWait (s : State) (p : Addr) (tid : Int) : State :=
  let nodes := (s.thread p).childNodes
  let s' := touchNodes s p (searched s nodes tid)
  match findChild s nodes tid with
  | none => s'.emit (.waitRet (s.thread p).tid tid (-1))
  | some b =>
    if (s.node b).waiting = true then s'.emit (.waitRet (s.thread p).tid tid (-1))
    else s'.goto p (.waitDown tid b)

/-- `exit_w`. -/
def exitW (s : State) (p : Addr) (status : Int) : State :=
  let T := s.thread p
  let s₁ := s.emit (.exitCall T.tid status)
  let s₂ := match T.tidNodeExists, T.tidNode with
    | true, some b => (s₁.setNode b { s.node b with exitStatus := status }).touch p b
    | _, _ => s₁
  let s₃ := if status ≥ 0 then s₂.emit (.print T.tid status) else s₂
  s₃.goto p .exitStatus

/-- Up to its `printf`, `exit_w` stores the status in the thread's node, if it has one. -/
theorem exitW_stores (s : State) (p : Addr) (status : Int) :
    ∃ s₂, exitW s p status = (if status ≥ 0 then s₂.emit (.print (s.thread p).tid status) else s₂).goto p .exitStatus ∧
      (s₂ = s.emit (.exitCall (s.thread p).tid status) ∨ ∃ b, (s.thread p).tidNode = some b ∧
        s₂ = ((s.emit (.exitCall (s.thread p).tid status)).setNode b
          { s.node b with exitStatus := status }).touch p b) := by
  refine ⟨_, rfl, ?_⟩
  split
  · rename_i b _ hb
    exact .inr ⟨b, hb, rfl⟩
  · exact .inl rfl

/-- `process_exit` settles the exit status. -/
def settleStatus (s : State) (p b : Addr) : State :=
  let s₁ := s.touch p b
  let s₂ := if (s.node b).exitStatus < 0 then
      (s₁.setNode b { s.node b with exitStatus := -1 }).emit (.print (s.thread p).tid (-1)) else s₁
  s₂.goto p .exitChildren

/-- One round of the loop over `child_nodes`, up to `list_remove`. -/
def releaseChild (s : State) (p : Addr) (own : Addr) : State :=
  match (s.thread p).childNodes with
  | [] => s.goto p .exitChild
  | b :: _ =>
    let s₁ := s.touch p b
    if (s.node b).child = none then s₁.goto p (.exitFree b)
    else
      let s₂ := s₁.touch p own
      match (s.node own).child with
      | none => s₂.goto p .lost
      | some q => (s₂.setThread q { s.thread q with tidNodeExists := false }).goto p (.exitFree b)

/-- The next step of thread `p`, which stands at `pc`. -/
def runPc (s : State) (p : Addr) : Pc → Option State
  | .idle | .start | .user | .lost => none
  | .setLoaded success =>
    match (s.thread p).tidNode with
    | none => some (s.goto p .lost)
    | some b => some ((storeLoaded s b success).goto p (.upLoad success))
  | .upLoad success =>
    let T := { s.thread p with loadSema := (s.thread p).loadSema + 1 }
    if success then some (s.setThread p { T with pc := .user })
    else some ((s.setThread p { T with pc := .exitStatus }).emit (.killed T.tid))
  | .created tid => some (s.goto p (.lookup tid s.allList.head?))
  | .lookup tid none => some (executeReturn s p tid TID_ERROR (s.thread p).childNodes)
  | .lookup tid (some e) =>
    let s₁ := s.peek p e true
    if (s.thread e).tid = tid then some (s₁.goto p (.readNode tid e))
    else some (s₁.goto p (.lookupNext tid e))
  | .lookupNext tid e =>
    let s₁ := s.peek p e true
    if e ∈ s.allList then some (s₁.goto p (.lookup tid (Cursor.next s.allList e))) else some (s₁.goto p .lost)
  | .readNode tid child =>
    let s₁ := s.peek p child ((s.thread child).tid == tid)
    match (s.thread child).tidNode with
    | none => some (s₁.goto p .lost)
    | some b => some (s₁.goto p (.downLoad tid child b))
  | .downLoad tid child childNode =>
    if (s.thread child).loadSema = 0 then none
    else
      let s₁ := s.peek p child ((s.thread child).tid == tid)
      let C := s.thread child
      some ((s₁.setThread child { C with loadSema := C.loadSema - 1 }).goto p (.checkLoaded tid childNode))
  | .checkLoaded tid childNode =>
    if (s.node childNode).loaded = true then
      some (executeReturn s p tid tid ((s.thread p).childNodes ++ [childNode]))
    else some (executeReturn s p tid TID_ERROR (s.thread p).childNodes)
  | .waitDown tid b =>
    if (s.node b).sema = 0 then none
    else some (((s.touch p b).setNode b { s.node b with sema := (s.node b).sema - 1 }).goto p (.waitReap tid b))
  | .waitReap tid b =>
    let T := s.thread p
    some (((s.touch p b).setThread p
      { T with childNodes := T.childNodes.erase b, pc := .waitMark tid b (s.node b).exitStatus }).free b)
  | .waitMark tid b result =>
    some ((((s.touch p b).setNode b { s.node b with waiting := true }).emit
      (.waitRet (s.thread p).tid tid result)).goto p .user)
  | .exitStatus =>
    match (s.thread p).tidNode with
    | none => some (s.goto p .lost)
    | some b => some (settleStatus s p b)
  | .exitChildren =>
    match (s.thread p).tidNode with
    | none => some (s.goto p .lost)
    | some b => some (releaseChild s p b)
  | .exitFree b =>
    let T := s.thread p
    some (((s.touch p b).setThread p { T with childNodes := T.childNodes.erase b, pc := .exitChildren }).free b)
  | .exitChild =>
    match (s.thread p).tidNode with
    | none => some (s.goto p .lost)
    | some b =>
      if (s.thread p).tidNodeExists = true then
        some (((s.touch p b).setNode b { s.node b with child := none }).goto p .exitUp)
      else some (s.goto p .exitUp)
  | .exitUp =>
    match (s.thread p).tidNode with
    | none => some (s.goto p .lost)
    | some b =>
      some (((s.touch p b).setNode b { s.node b with sema := (s.node b).sema + 1 }).goto p .leave)
  | .leave => some { s with allList := s.allList.filter (· ≠ p) }

/-- Thread `p` is there and stands at `pc`. -/
@[grind =] def At (s : State) (p : Addr) (pc : Pc) : Prop := p ∈ s.allList ∧ (s.thread p).pc = pc

instance (s : State) (p : Addr) (pc : Pc) : Decidable (At s p pc) := inferInstanceAs (Decidable (_ ∧ _))

/-- One step of the system. -/
def step (s : State) : Action → Option State
  | .exec p page block =>
    if At s p .user ∧ page ∉ s.allList ∧ s.allocated block = false then some (processExecute s p page block)
    else none
  | .execFail p => if At s p .user then some (s.emit (.exec (s.thread p).tid none TID_ERROR)) else none
  | .load p success =>
    if At s p .start then some ((s.goto p (.setLoaded success)).emit (.load (s.thread p).tid success)) else none
  | .exit p status => if At s p .user then some (exitW s p status) else none
  | .kill p => if At s p .user then some ((s.goto p .exitStatus).emit (.killed (s.thread p).tid)) else none
  | .wait p tid => if At s p .user then some (processWait s p tid) else none
  | .run p => if p ∈ s.allList then runPc s p (s.thread p).pc else none
  | .scribblePage page contents => if page ∉ s.allList then some (s.setThread page contents) else none
  | .scribbleBlock block contents =>
    if s.allocated block = false then some (s.setNode block contents) else none

/-- The kernel has started: the main thread (tid 1, no node) and the idle thread (tid 2). -/
def init : State where
  thread := fun q => if q = 1 then { newThread 2 0 with pc := .idle }
    else
      { tid := 1, tidNodeExists := false, tidNode := none, loadSema := 0, childNodes := [], pc := .user
        making := none }
  allList := [0, 1]
  node := fun _ => newNode 2 1
  allocated := fun x => x == 0
  nextTid := 3
  log := []

theorem mem_init {p : Addr} (hp : p ∈ init.allList) : p = 0 ∨ p = 1 := by simpa [init] using hp

/-! ## What the updates change -/

namespace State

variable (s : State) (p q b x : Addr) (T : Thread) (N : TidStatus) (pc : Pc) (e : Event) (ok : Bool)

attribute [grind =] setThread_thread setThread_allList setThread_node setThread_allocated setThread_nextTid
  setThread_log setNode_thread setNode_allList setNode_node setNode_allocated setNode_nextTid setNode_log
  emit_thread emit_allList emit_node emit_allocated emit_nextTid emit_log free_thread free_allList free_node
  free_allocated free_nextTid free_log

@[simp, grind =] theorem goto_thread :
    (s.goto p pc).thread q = if q = p then { s.thread p with pc } else s.thread q := rfl
@[simp, grind =] theorem goto_allList : (s.goto p pc).allList = s.allList := rfl
@[simp, grind =] theorem goto_node : (s.goto p pc).node x = s.node x := rfl
@[simp, grind =] theorem goto_allocated : (s.goto p pc).allocated x = s.allocated x := rfl
@[simp, grind =] theorem goto_nextTid : (s.goto p pc).nextTid = s.nextTid := rfl
@[simp, grind =] theorem goto_log : (s.goto p pc).log = s.log := rfl

/-- Touching a node only leaves a trace in the log. -/
theorem touch_eq : s.touch p b = { s with log := (s.touch p b).log } := by
  unfold touch
  split <;> rfl

@[simp, grind =] theorem touch_thread : (s.touch p b).thread x = s.thread x := by rw [touch_eq]
@[simp, grind =] theorem touch_allList : (s.touch p b).allList = s.allList := by rw [touch_eq]
@[simp, grind =] theorem touch_node : (s.touch p b).node x = s.node x := by rw [touch_eq]
@[simp, grind =] theorem touch_allocated : (s.touch p b).allocated x = s.allocated x := by rw [touch_eq]
@[simp, grind =] theorem touch_nextTid : (s.touch p b).nextTid = s.nextTid := by rw [touch_eq]

theorem touch_of_allocated (h : s.allocated b = true) : s.touch p b = s := by
  unfold touch
  rw [if_pos h]

@[simp, grind =] theorem peek_thread : (s.peek p q ok).thread x = s.thread x := by
  unfold peek
  split <;> rfl

theorem peek_of_ok (h : q ∈ s.allList) : s.peek p q true = s := by
  unfold peek
  rw [if_pos ⟨h, rfl⟩]

end State

section
variable {s s' : State} {p q page block x : Addr}

@[simp, grind =] theorem processExecute_thread : (processExecute s p page block).thread q =
    if q = p then { s.thread p with pc := .created s.nextTid, making := some ⟨s.nextTid, page, block⟩ }
    else if q = page then newThread s.nextTid block else s.thread q := rfl
@[simp, grind =] theorem processExecute_allList : (processExecute s p page block).allList = s.allList ++ [page] := rfl
@[simp, grind =] theorem processExecute_node : (processExecute s p page block).node x =
    if x = block then newNode s.nextTid page else s.node x := rfl
@[simp, grind =] theorem processExecute_allocated :
    (processExecute s p page block).allocated x = if x = block then true else s.allocated x := rfl
@[simp, grind =] theorem processExecute_nextTid : (processExecute s p page block).nextTid = s.nextTid + 1 := rfl
@[simp, grind =] theorem processExecute_log : (processExecute s p page block).log = s.log := rfl

/-! ## What a step can do -/

/-- `step`, one constructor for each kind of action. -/
inductive Steps (s : State) : Action → State → Prop
  | exec {p page block : Addr} (hat : At s p .user) (hpage : page ∉ s.allList) (hblock : s.allocated block = false) :
      Steps s (.exec p page block) (processExecute s p page block)
  | execFail {p : Addr} (hat : At s p .user) : Steps s (.execFail p) (s.emit (.exec (s.thread p).tid none TID_ERROR))
  | load {p : Addr} (ok : Bool) (hat : At s p .start) :
      Steps s (.load p ok) ((s.goto p (.setLoaded ok)).emit (.load (s.thread p).tid ok))
  | exit {p : Addr} (status : Int) (hat : At s p .user) : Steps s (.exit p status) (exitW s p status)
  | kill {p : Addr} (hat : At s p .user) :
      Steps s (.kill p) ((s.goto p .exitStatus).emit (.killed (s.thread p).tid))
  | wait {p : Addr} (tid : Int) (hat : At s p .user) : Steps s (.wait p tid) (processWait s p tid)
  | run {p : Addr} {s' : State} (hp : p ∈ s.allList) (hrun : runPc s p (s.thread p).pc = some s') : Steps s (.run p) s'
  | scribblePage {page : Addr} (T : Thread) (hpage : page ∉ s.allList) :
      Steps s (.scribblePage page T) (s.setThread page T)
  | scribbleBlock {block : Addr} (N : TidStatus) (hblock : s.allocated block = false) :
      Steps s (.scribbleBlock block N) (s.setNode block N)

theorem steps_of_step {a : Action} (h : step s a = some s') : Steps s a s' := by
  cases a <;> simp only [step, Option.ite_none_right_eq_some, Option.some.injEq] at h <;> obtain ⟨hcond, h⟩ := h
  case exec => exact h ▸ .exec hcond.1 hcond.2.1 hcond.2.2
  case run => exact .run hcond h
  all_goals
    subst h
    constructor
    exact hcond

/-- Points from which a thread goes on through its own node. -/
def Pc.throughNode : Pc → Bool
  | .setLoaded _ | .exitStatus | .exitChildren | .exitChild | .exitUp => true
  | _ => false

/-- `runPc`, one constructor for each way a thread can go on. -/
inductive Ran (s : State) (p : Addr) : Pc → State → Prop
  | lost {pc : Pc} (hnode : (s.thread p).tidNode = none) (hpc : pc.throughNode = true) : Ran s p pc (s.goto p .lost)
  | setLoaded (ok : Bool) {b : Addr} (hb : (s.thread p).tidNode = some b) :
      Ran s p (.setLoaded ok) ((storeLoaded s b ok).goto p (.upLoad ok))
  | loaded {ok : Bool} (hok : ok = true) : Ran s p (.upLoad ok)
      (s.setThread p { s.thread p with loadSema := (s.thread p).loadSema + 1, pc := .user })
  | unloaded {ok : Bool} (hok : ok = false) : Ran s p (.upLoad ok)
      ((s.setThread p { s.thread p with loadSema := (s.thread p).loadSema + 1, pc := .exitStatus }).emit
        (.killed (s.thread p).tid))
  | created (tid : Int) : Ran s p (.created tid) (s.goto p (.lookup tid s.allList.head?))
  | missed (tid : Int) : Ran s p (.lookup tid none) (executeReturn s p tid TID_ERROR (s.thread p).childNodes)
  | found {tid : Int} {e : Addr} (htid : (s.thread e).tid = tid) :
      Ran s p (.lookup tid (some e)) ((s.peek p e true).goto p (.readNode tid e))
  | passed {tid : Int} {e : Addr} (htid : (s.thread e).tid ≠ tid) :
      Ran s p (.lookup tid (some e)) ((s.peek p e true).goto p (.lookupNext tid e))
  | next (tid : Int) {e : Addr} (he : e ∈ s.allList) :
      Ran s p (.lookupNext tid e) ((s.peek p e true).goto p (.lookup tid (Cursor.next s.allList e)))
  | strayed (tid : Int) {e : Addr} (he : e ∉ s.allList) :
      Ran s p (.lookupNext tid e) ((s.peek p e true).goto p .lost)
  | readNode (tid : Int) {c b : Addr} (hb : (s.thread c).tidNode = some b) :
      Ran s p (.readNode tid c) ((s.peek p c ((s.thread c).tid == tid)).goto p (.downLoad tid c b))
  | noNode (tid : Int) {c : Addr} (hb : (s.thread c).tidNode = none) :
      Ran s p (.readNode tid c) ((s.peek p c ((s.thread c).tid == tid)).goto p .lost)
  | downLoad (tid : Int) {c : Addr} (b : Addr) (hsema : (s.thread c).loadSema ≠ 0) :
      Ran s p (.downLoad tid c b) (((s.peek p c ((s.thread c).tid == tid)).setThread c
        { s.thread c with loadSema := (s.thread c).loadSema - 1 }).goto p (.checkLoaded tid b))
  | checked (tid : Int) {b : Addr} (hloaded : (s.node b).loaded = true) :
      Ran s p (.checkLoaded tid b) (executeReturn s p tid tid ((s.thread p).childNodes ++ [b]))
  | refused (tid : Int) {b : Addr} (hloaded : (s.node b).loaded = false) :
      Ran s p (.checkLoaded tid b) (executeReturn s p tid TID_ERROR (s.thread p).childNodes)
  | waitDown (tid : Int) {b : Addr} (hsema : (s.node b).sema ≠ 0) : Ran s p (.waitDown tid b)
      (((s.touch p b).setNode b { s.node b with sema := (s.node b).sema - 1 }).goto p (.waitReap tid b))
  | waitReap (tid : Int) (b : Addr) : Ran s p (.waitReap tid b) (((s.touch p b).setThread p { s.thread p with
      childNodes := (s.thread p).childNodes.erase b, pc := .waitMark tid b (s.node b).exitStatus }).free b)
  | waitMark (tid : Int) (b : Addr) (r : Int) : Ran s p (.waitMark tid b r)
      ((((s.touch p b).setNode b { s.node b with waiting := true }).emit
        (.waitRet (s.thread p).tid tid r)).goto p .user)
  | exitStatus {b : Addr} (hb : (s.thread p).tidNode = some b) : Ran s p .exitStatus (settleStatus s p b)
  | exitChildren {b : Addr} (hb : (s.thread p).tidNode = some b) : Ran s p .exitChildren (releaseChild s p b)
  | exitFree (b : Addr) : Ran s p (.exitFree b) (((s.touch p b).setThread p { s.thread p with
      childNodes := (s.thread p).childNodes.erase b, pc := .exitChildren }).free b)
  | exitChild {b : Addr} (hb : (s.thread p).tidNode = some b) (hflag : (s.thread p).tidNodeExists = true) :
      Ran s p .exitChild (((s.touch p b).setNode b { s.node b with child := none }).goto p .exitUp)
  | disowned {b : Addr} (hb : (s.thread p).tidNode = some b) (hflag : (s.thread p).tidNodeExists = false) :
      Ran s p .exitChild (s.goto p .exitUp)
  | exitUp {b : Addr} (hb : (s.thread p).tidNode = some b) : Ran s p .exitUp
      (((s.touch p b).setNode b { s.node b with sema := (s.node b).sema + 1 }).goto p .leave)
  | leave : Ran s p .leave { s with allList := s.allList.filter (· ≠ p) }

theorem ran_of_runPc {pc : Pc} (h : runPc s p pc = some s') : Ran s p pc s' := by
  unfold runPc at h
  split at h
  all_goals
    try dsimp only at h
    repeat' split at h
    all_goals cases h
    all_goals first
      | exact .lost ‹_› rfl
      | exact .disowned ‹_› (Bool.not_eq_true _ ▸ ‹_›)
      | constructor <;> simp_all

end

end Process
end Asg1
