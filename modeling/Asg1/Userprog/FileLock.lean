import Asg1.Lib.Lock
import Asg1.Lib.Lts

/-!
# `Userprog.FileLock` — where the kernel enters the file system, and with which lock

The file system has no locking of its own; `file_lock` is taken by its callers in `userprog/`. This file writes
down every program path of those callers as a `Lock.Prog`: what is called, from where, and between which
`lock_acquire` and `lock_release`. What the calls do is left open (a call may return any number), and so is
what user memory, the executable's headers and the memory allocators hold; every branch that the code takes on
such a value is there.

The system calls and the closing of the open files in `process_exit` go through the lock. Three paths do not:
`load`, with everything it reads from the executable; the closing of the executable in `process_exit`; and
`halt`, whose `shutdown_power_off` runs `filesys_done`. The theorem at the end says that these are all: in
every state of every run, the discipline holds just when no thread is inside a call made on one of them.
-/

namespace Asg1
namespace FileLock

open Lock

/-! ## Call sites -/

/-- The functions of the file system that `userprog/` calls. -/
inductive FsFn
  | filesysCreate | filesysRemove | filesysOpen | filesysDone
  | fileClose | fileRead | fileWrite | fileDenyWrite | fileLength | fileSeek | fileTell
deriving DecidableEq, Repr

/-- On which path the call stands. -/
inductive Origin
  | syscall | load | exitExecutable | exitFiles | halt
deriving DecidableEq, Repr

structure Site where
  fn : FsFn
  origin : Origin
deriving DecidableEq, Repr

/-- The paths that take `file_lock` around their calls. -/
def Origin.locked : Origin → Bool
  | .syscall | .exitFiles => true
  | .load | .exitExecutable | .halt => false

def Site.locked (f : Site) : Bool := f.origin.locked

abbrev Code := Prog Site

def lockAcquire : Code Unit := .acquire (.done ())

def lockRelease : Code Unit := .release (.done ())

def fs (origin : Origin) (fn : FsFn) : Code Nat := .call ⟨fn, origin⟩ .done

/-- A word of memory that the model says nothing about. -/
def anyWord : Code UInt32 := .choose fun n => .done (UInt32.ofNat n)

/-- The outcome of a test that the model says nothing about. -/
def anyBool : Code Bool := .choose fun n => .done (n != 0)

/-! ## `load` -/

def PGSIZE : UInt32 := 4096

def PGMASK : UInt32 := 4095

def PHYS_BASE : UInt32 := 0xC0000000

def isUserVaddr (va : UInt32) : Bool := va < PHYS_BASE

def roundUp (x step : UInt32) : UInt32 := (x + step - 1) / step * step

/-- The program header, as far as `load` reads it for its course (`p_flags` only tells whether pages are writable). -/
structure Elf32Phdr where
  pType : UInt32
  pOffset : UInt32
  pVaddr : UInt32
  pFilesz : UInt32
  pMemsz : UInt32

def sizeofEhdr : Nat := 52

def sizeofPhdr : Nat := 32

def anyPhdr : Code Elf32Phdr := do
  let pType ← anyWord
  let pOffset ← anyWord
  let pVaddr ← anyWord
  let pFilesz ← anyWord
  let pMemsz ← anyWord
  return ⟨pType, pOffset, pVaddr, pFilesz, pMemsz⟩

def validateSegment (phdr : Elf32Phdr) : Code Bool :=
  if phdr.pOffset &&& PGMASK ≠ phdr.pVaddr &&& PGMASK then return false
  else do
    let length ← fs .load .fileLength
    return !(phdr.pOffset > UInt32.ofNat length || phdr.pMemsz < phdr.pFilesz || phdr.pMemsz == 0
      || !isUserVaddr phdr.pVaddr || !isUserVaddr (phdr.pVaddr + phdr.pMemsz)
      || phdr.pVaddr + phdr.pMemsz < phdr.pVaddr || phdr.pVaddr < PGSIZE)

/-- The loop of `load_segment`. Every turn takes one page off `read_bytes + zero_bytes`, a multiple of the page
    size; `pages` counts the turns left. -/
def loadPages : (pages : Nat) → (readBytes : UInt32) → Code Bool
  | 0, _ => return true
  | pages + 1, readBytes => do
    let pageReadBytes := if readBytes < PGSIZE then readBytes else PGSIZE
    let kpage ← anyBool   -- `palloc_page`
    if !kpage then return false
    else do
      let read ← fs .load .fileRead
      if read ≠ pageReadBytes.toNat then return false   -- after `palloc_free_upage`
      else loadPages pages (readBytes - pageReadBytes)

def loadSegment (readBytes zeroBytes : UInt32) : Code Bool := do
  let _ ← fs .load .fileSeek
  loadPages ((readBytes + zeroBytes) / PGSIZE).toNat readBytes

/-- What `load` does with a header of type `PT_LOAD`. -/
def loadHeader (phdr : Elf32Phdr) : Code Bool := do
  let valid ← validateSegment phdr
  if !valid then return false
  else
    let pageOffset := phdr.pVaddr &&& PGMASK
    let readBytes := if phdr.pFilesz > 0 then pageOffset + phdr.pFilesz else 0
    loadSegment readBytes (roundUp (pageOffset + phdr.pMemsz) PGSIZE - readBytes)

def PT_LOAD : UInt32 := 1

def PT_DYNAMIC : UInt32 := 2

def PT_INTERP : UInt32 := 3

def PT_SHLIB : UInt32 := 5

/-- The loop over the program headers, `headers` of them left, the next at `fileOfs` in the file. -/
def loadHeaders : (headers : Nat) → (fileOfs : Int) → Code Bool
  | 0, _ => return true
  | headers + 1, fileOfs =>
    if fileOfs < 0 then return false
    else do
      let length ← fs .load .fileLength
      if fileOfs > length then return false
      else do
        let _ ← fs .load .fileSeek
        let read ← fs .load .fileRead
        if read ≠ sizeofPhdr then return false
        else do
          let phdr ← anyPhdr
          if phdr.pType = PT_DYNAMIC ∨ phdr.pType = PT_INTERP ∨ phdr.pType = PT_SHLIB then return false
          else if phdr.pType = PT_LOAD then do
            let loaded ← loadHeader phdr
            if !loaded then return false else loadHeaders headers (fileOfs + sizeofPhdr)
          else loadHeaders headers (fileOfs + sizeofPhdr)

/-- `load` after the executable has been opened. -/
def loadFile : Code Bool := do
  let _ ← fs .load .fileDenyWrite
  let read ← fs .load .fileRead
  let ident ← anyBool   -- `e_ident`, `e_type`, `e_machine`, `e_version` and `e_phentsize` are as they should be
  let phoff ← anyWord
  let phnum ← anyWord
  if read ≠ sizeofEhdr ∨ !ident ∨ phnum % 65536 > 1024 then return false
  else do
    let loaded ← loadHeaders (phnum % 65536).toNat phoff.toInt32.toInt
    if !loaded then return false
    else anyBool   -- `setup_stack`

/-- `load`: whether the thread has an executable afterwards, and the result. -/
def load : Code (Bool × Bool) := do
  let pagedir ← anyBool
  if !pagedir then return (false, false)
  else do
    let file ← fs .load .filesysOpen
    if file = 0 then return (false, false)
    else do
      let success ← loadFile
      return (true, success)

/-! ## `process_exit` and the system calls -/

/-- What a user process has to close: its executable, if it has one, and the elements of its `fd_list`. -/
structure Proc where
  executable : Bool
  files : Nat

/-- Where a thread stands between two of the programs above. A thread is `free` in user mode, or, for the main
    thread (which has no `Proc`), in `run_actions`. -/
inductive Phase
  | unborn
  | loaded (executable success : Bool)
  | free (who : Option Proc)
  | create (who : Option Proc)
  | await (who : Option Proc) (child : Nat)
  | halted
  | gone

/-- The loop of `process_exit` over `fd_list`. -/
def closeFiles : Nat → Code Unit
  | 0 => return ()
  | files + 1 => do
    lockAcquire
    let _ ← fs .exitFiles .fileClose
    lockRelease
    closeFiles files

def closeExecutable (executable : Bool) : Code Unit :=
  if executable then do
    let _ ← fs .exitExecutable .fileClose
    return ()
  else return ()

def processExit (p : Proc) : Code Phase := do
  closeExecutable p.executable
  closeFiles p.files
  return .gone

/-- `start_process` up to the signal that `load` is over. -/
def startProcess : Code Phase := do
  let r ← load
  return .loaded r.1 r.2

/-- A call into the file system as the system calls make it. -/
def withLock (fn : FsFn) : Code Nat := do
  lockAcquire
  let result ← fs .syscall fn
  lockRelease
  return result

inductive Call
  | halt | exit | exec | wait | create | remove | open | filesize | read | write | seek | tell | close
  | invalid   -- a bad stack pointer or call number
deriving DecidableEq, Repr

/-- `open_w` after its checks. -/
def openFile (p : Proc) : Code Phase := do
  lockAcquire
  let file ← fs .syscall .filesysOpen
  if file = 0 then do
    lockRelease
    return .free (some p)
  else do
    let _ ← fs .syscall .fileLength
    lockRelease
    return .free (some { p with files := p.files + 1 })

/-- `read_w` and `write_w` beyond their pointer check: the console, a descriptor of the list, or neither. -/
def transfer (p : Proc) (fn : FsFn) : Code Phase := do
  let console ← anyBool
  let found ← anyBool
  if !console ∧ found then do
    let _ ← withLock fn
    return .free (some p)
  else return .free (some p)

/-- `seek_w` and `tell_w`, which act on a descriptor of the list or on nothing. -/
def onFd (p : Proc) (fn : FsFn) : Code Phase := do
  let found ← anyBool
  if found then do
    let _ ← withLock fn
    return .free (some p)
  else return .free (some p)

def closeW (p : Proc) : Code Phase := do
  let found ← anyBool
  if found ∧ 0 < p.files then do
    let _ ← withLock .fileClose
    return .free (some { p with files := p.files - 1 })
  else return .free (some p)

/-- The handlers that look at a user pointer first kill the process when it is bad. -/
def ifValid (p : Proc) (handler : Code Phase) : Code Phase := do
  let valid ← anyBool
  if valid then handler else processExit p

/-- `syscall_handler` for each call. -/
def handler (p : Proc) : Call → Code Phase
  | .halt => do
    let _ ← fs .halt .filesysDone
    return .halted
  | .exit => processExit p
  | .invalid => processExit p
  | .exec => ifValid p (return .create (some p))
  | .wait => return .free (some p)
  | .filesize => return .free (some p)
  | .create => ifValid p do
    let _ ← withLock .filesysCreate
    return .free (some p)
  | .remove => ifValid p do
    let empty ← anyBool
    if empty then return .free (some p)
    else do
      let _ ← withLock .filesysRemove
      return .free (some p)
  | .open => ifValid p do
    let empty ← anyBool
    if empty then return .free (some p) else openFile p
  | .read => ifValid p (transfer p .fileRead)
  | .write => ifValid p (transfer p .fileWrite)
  | .seek => onFd p .fileSeek
  | .tell => onFd p .fileTell
  | .close => closeW p

/-! ## Runs -/

/-- `signalled t`: thread `t` has raised its `load_sema`. -/
structure State where
  pool : Pool Nat Site Phase
  signalled : Nat → Bool

inductive Action
  | move (t : Nat) (m : Move)
  | syscall (t : Nat) (c : Call)
  | fault (t : Nat)                 -- an exception in user mode
  | runTask (t : Nat)               -- the main thread, in `run_actions`
  | create (t child : Nat)          -- `thread_create` in `process_execute`
  | createFails (t : Nat)
  | signal (t : Nat)                -- the end of `start_process`
  | resume (t : Nat)                -- `sema_down (&child->load_sema)` in `process_execute`

/-- The main thread is thread 1; nothing else is there. -/
def init : State where
  pool := { holder := none, prog := fun t => if t = 1 then .done (.free none) else .done .unborn }
  signalled := fun _ => false

/-- Thread `t` goes on with program `p`. -/
def State.goto (s : State) (t : Nat) (p : Code Phase) : State := { s with pool := s.pool.setProg t p }

/-- The phase of a thread that is between two programs. -/
def State.phase (s : State) (t : Nat) : Option Phase :=
  match s.pool.prog t with
  | .done phase => some phase
  | _ => none

def step (s : State) : Action → Option State
  | .move t m => (s.pool.move t m).map fun pool => { s with pool := pool }
  | .syscall t c =>
    match s.phase t with
    | some (.free (some p)) => some (s.goto t (handler p c))
    | _ => none
  | .fault t =>
    match s.phase t with
    | some (.free (some p)) => some (s.goto t (processExit p))
    | _ => none
  | .runTask t =>
    match s.phase t with
    | some (.free none) => some (s.goto t (.done (.create none)))
    | _ => none
  | .create t child =>
    match s.phase t, s.phase child with
    | some (.create who), some .unborn => some ((s.goto child startProcess).goto t (.done (.await who child)))
    | _, _ => none
  | .createFails t =>
    match s.phase t with
    | some (.create who) => some (s.goto t (.done (.free who)))
    | _ => none
  | .signal t =>
    match s.phase t with
    | some (.loaded executable success) =>
      let p : Proc := ⟨executable, 0⟩
      let s := { s with signalled := Function.update s.signalled t true }
      some (s.goto t (if success then .done (.free (some p)) else processExit p))
    | _ => none
  | .resume t =>
    match s.phase t with
    | some (.await who child) => if s.signalled child then some (s.goto t (.done (.free who))) else none
    | _ => none

/-- Any run. -/
abbrev Runs := Lts.Reaches step (fun _ _ => True)

/-! ## Every program follows the discipline

The programs of the locked paths begin and end without the lock and hold it at each call; those of the bare paths
never touch it. -/

section
variable {h : Bool} {α : Type}

theorem follows_fs {origin : Origin} {fn : FsFn} (heq : h = origin.locked) :
    (fs origin fn).Follows Site.locked h h := ⟨heq, fun _ => rfl⟩

theorem follows_anyBool : anyBool.Follows Site.locked h h := fun _ => rfl

theorem follows_anyWord : anyWord.Follows Site.locked h h := fun _ => rfl

theorem follows_anyPhdr : anyPhdr.Follows Site.locked h h := fun _ _ _ _ _ => rfl

theorem follows_lockAcquire : lockAcquire.Follows Site.locked false true := ⟨rfl, rfl⟩

theorem follows_lockRelease : lockRelease.Follows Site.locked true false := ⟨rfl, rfl⟩

theorem follows_return {r : α} : (return r : Code α).Follows Site.locked h h := rfl

end

theorem follows_validateSegment (phdr : Elf32Phdr) : (validateSegment phdr).Follows Site.locked false false :=
  .ite follows_return (.bind (follows_fs rfl) fun _ => follows_return)

theorem follows_loadPages (pages : Nat) (readBytes : UInt32) :
    (loadPages pages readBytes).Follows Site.locked false false := by
  induction pages generalizing readBytes with
  | zero => exact follows_return
  | succ pages ih =>
    refine .bind follows_anyBool fun kpage => .ite follows_return ?_
    exact .bind (follows_fs rfl) fun read => .ite follows_return (ih _)

theorem follows_loadSegment (readBytes zeroBytes : UInt32) :
    (loadSegment readBytes zeroBytes).Follows Site.locked false false :=
  .bind (follows_fs rfl) fun _ => follows_loadPages _ _

theorem follows_loadHeader (phdr : Elf32Phdr) : (loadHeader phdr).Follows Site.locked false false :=
  .bind (follows_validateSegment phdr) fun _ => .ite follows_return (follows_loadSegment _ _)

theorem follows_loadHeaders (headers : Nat) (fileOfs : Int) :
    (loadHeaders headers fileOfs).Follows Site.locked false false := by
  induction headers generalizing fileOfs with
  | zero => exact follows_return
  | succ headers ih =>
    refine .ite follows_return (.bind (follows_fs rfl) fun length => .ite follows_return ?_)
    refine .bind (follows_fs rfl) fun _ => .bind (follows_fs rfl) fun read => .ite follows_return ?_
    refine .bind follows_anyPhdr fun phdr => .ite follows_return (.ite ?_ (ih _))
    exact .bind (follows_loadHeader phdr) fun loaded => .ite follows_return (ih _)

theorem follows_loadFile : loadFile.Follows Site.locked false false := by
  refine .bind (follows_fs rfl) fun _ => .bind (follows_fs rfl) fun read => ?_
  refine .bind follows_anyBool fun ident => .bind follows_anyWord fun phoff => .bind follows_anyWord fun phnum => ?_
  refine .ite follows_return (.bind (follows_loadHeaders _ _) fun loaded => ?_)
  exact .ite follows_return follows_anyBool

theorem follows_load : load.Follows Site.locked false false := by
  refine .bind follows_anyBool fun pagedir => .ite follows_return ?_
  refine .bind (follows_fs rfl) fun file => .ite follows_return ?_
  exact .bind follows_loadFile fun success => follows_return

theorem follows_startProcess : startProcess.Follows Site.locked false false :=
  .bind follows_load fun _ => follows_return

/-- Taking the lock around locked calls. -/
theorem follows_locked {α β : Type} {p : Code α} {k : α → Code β} (hp : p.Follows Site.locked true true)
    (hk : ∀ r, (k r).Follows Site.locked false false) :
    (do lockAcquire; let r ← p; lockRelease; k r : Code β).Follows Site.locked false false :=
  .bind follows_lockAcquire fun _ => .bind hp fun r => .bind follows_lockRelease fun _ => hk r

theorem follows_closeFiles (files : Nat) : (closeFiles files).Follows Site.locked false false := by
  induction files with
  | zero => exact follows_return
  | succ files ih => exact follows_locked (follows_fs rfl) fun _ => ih

theorem follows_processExit (p : Proc) : (processExit p).Follows Site.locked false false := by
  refine .bind ?_ fun _ => .bind (follows_closeFiles _) fun _ => follows_return
  exact .ite (.bind (follows_fs rfl) fun _ => follows_return) follows_return

theorem follows_withLock (fn : FsFn) : (withLock fn).Follows Site.locked false false :=
  follows_locked (follows_fs rfl) fun _ => follows_return

theorem follows_openFile (p : Proc) : (openFile p).Follows Site.locked false false := by
  refine .bind follows_lockAcquire fun _ => .bind (follows_fs rfl) fun file => .ite ?_ ?_
  · exact .bind follows_lockRelease fun _ => follows_return
  · exact .bind (follows_fs rfl) fun _ => .bind follows_lockRelease fun _ => follows_return

theorem follows_transfer (p : Proc) (fn : FsFn) : (transfer p fn).Follows Site.locked false false := by
  refine .bind follows_anyBool fun console => .bind follows_anyBool fun found => .ite ?_ follows_return
  exact .bind (follows_withLock fn) fun _ => follows_return

theorem follows_onFd (p : Proc) (fn : FsFn) : (onFd p fn).Follows Site.locked false false :=
  .bind follows_anyBool fun _ => .ite (.bind (follows_withLock fn) fun _ => follows_return) follows_return

theorem follows_closeW (p : Proc) : (closeW p).Follows Site.locked false false :=
  .bind follows_anyBool fun _ => .ite (.bind (follows_withLock _) fun _ => follows_return) follows_return

theorem follows_ifValid {p : Proc} {handler : Code Phase} (hh : handler.Follows Site.locked false false) :
    (ifValid p handler).Follows Site.locked false false :=
  .bind follows_anyBool fun _ => .ite hh (follows_processExit p)

/-- **Every system call follows the discipline**, `halt` on its bare call included. -/
theorem follows_handler (p : Proc) (c : Call) : (handler p c).Follows Site.locked false false := by
  cases c with
  | halt => exact .bind (follows_fs rfl) fun _ => follows_return
  | exit => exact follows_processExit p
  | invalid => exact follows_processExit p
  | exec => exact follows_ifValid follows_return
  | wait => exact follows_return
  | filesize => exact follows_return
  | create => exact follows_ifValid (.bind (follows_withLock _) fun _ => follows_return)
  | remove =>
    refine follows_ifValid (.bind follows_anyBool fun empty => .ite follows_return ?_)
    exact .bind (follows_withLock _) fun _ => follows_return
  | «open» => exact follows_ifValid (.bind follows_anyBool fun _ => .ite follows_return (follows_openFile p))
  | read => exact follows_ifValid (follows_transfer p _)
  | write => exact follows_ifValid (follows_transfer p _)
  | seek => exact follows_onFd p _
  | tell => exact follows_onFd p _
  | close => exact follows_closeW p

/-! ## The discipline in every state -/

variable {s s' : State} {t : Nat} {phase : Phase}

theorem State.prog_of_phase (hphase : s.phase t = some phase) : s.pool.prog t = .done phase := by
  unfold State.phase at hphase
  split at hphase
  · rename_i phase' hprog
    obtain rfl := Option.some.inj hphase
    exact hprog
  · cases hphase

/-- A thread between two programs may go on with any program that follows the discipline. -/
theorem State.goto_ok (ok : s.pool.Ok Site.locked) (hphase : s.phase t = some phase) {p : Code Phase}
    (hp : p.Follows Site.locked false false) : (s.goto t p).pool.Ok Site.locked :=
  ok.restart (State.prog_of_phase hphase) hp

theorem step_ok {a : Action} (ok : s.pool.Ok Site.locked) (hstep : step s a = some s') : s'.pool.Ok Site.locked := by
  cases a with
  | move t m =>
    obtain ⟨pool, hmove, rfl⟩ := Option.map_eq_some_iff.mp hstep
    exact ok.move hmove
  | syscall t c =>
    simp only [step] at hstep
    split at hstep <;> cases hstep
    rename_i p hfree
    exact State.goto_ok ok hfree (follows_handler p c)
  | fault t =>
    simp only [step] at hstep
    split at hstep <;> cases hstep
    rename_i p hfree
    exact State.goto_ok ok hfree (follows_processExit p)
  | runTask t =>
    simp only [step] at hstep
    split at hstep <;> cases hstep
    rename_i hfree
    exact State.goto_ok ok hfree rfl
  | create t child =>
    simp only [step] at hstep
    split at hstep <;> cases hstep
    rename_i who hcreate hunborn
    -- the child is not the caller: one is about to create, the other is not there yet
    have hne : t ≠ child := by
      rintro rfl
      rw [hcreate] at hunborn
      cases hunborn
    have hchild := State.goto_ok ok hunborn follows_startProcess
    refine hchild.restart (r := .create who) ?_ rfl
    simpa [State.goto, hne] using State.prog_of_phase hcreate
  | createFails t =>
    simp only [step] at hstep
    split at hstep <;> cases hstep
    rename_i who hcreate
    exact State.goto_ok ok hcreate rfl
  | signal t =>
    simp only [step] at hstep
    split at hstep <;> cases hstep
    rename_i executable success hloaded
    exact ok.restart (State.prog_of_phase hloaded) (.ite rfl (follows_processExit _))
  | resume t =>
    simp only [step] at hstep
    split at hstep
    · rename_i who child hawait
      split at hstep <;> cases hstep
      exact State.goto_ok ok hawait rfl
    · cases hstep

theorem init_ok : init.pool.Ok Site.locked := by
  intro t
  exact .ite rfl rfl

theorem runs_ok (hrun : Runs init s) : s.pool.Ok Site.locked :=
  hrun.invariant init_ok fun ok _ hstep => step_ok ok hstep

/-- **The discipline.** A thread inside the file system holds `file_lock`, and no two threads are inside. -/
structure LockDiscipline (s : State) : Prop where
  holds : ∀ t f, s.pool.Inside t f → s.pool.holder = some t
  alone : ∀ t u f g, s.pool.Inside t f → s.pool.Inside u g → t = u

/-- **The discipline is broken exactly on the bare paths.** In every state of every run, a thread inside the file
    system holds `file_lock` just when it came there from a system call other than `halt` or from the closing of
    open files; and the discipline holds just when every thread inside came that way. -/
theorem file_lock_discipline (hrun : Runs init s) :
    (∀ t f, s.pool.Inside t f → (s.pool.holder = some t ↔ f.origin = .syscall ∨ f.origin = .exitFiles)) ∧
    (LockDiscipline s ↔
      ¬ ∃ t f, s.pool.Inside t f ∧
        (f.origin = .load ∨ f.origin = .exitExecutable ∨ f.origin = .halt)) := by
  have ok := runs_ok hrun
  have hlocked : ∀ f : Site, f.locked = true ↔ f.origin = .syscall ∨ f.origin = .exitFiles := by
    rintro ⟨fn, origin⟩
    cases origin <;> simp [Site.locked, Origin.locked]
  have hbare : ∀ f : Site, f.locked = false ↔ f.origin = .load ∨ f.origin = .exitExecutable ∨ f.origin = .halt := by
    rintro ⟨fn, origin⟩
    cases origin <;> simp [Site.locked, Origin.locked]
  refine ⟨fun t f hin => (ok.holds_iff hin).trans (hlocked f), ?_⟩
  constructor
  · rintro ⟨holds, -⟩ ⟨t, f, hin, hf⟩
    have htrue := (ok.holds_iff hin).mp (holds t f hin)
    rw [(hbare f).mpr hf] at htrue
    cases htrue
  · intro hnone
    have tagged : ∀ t f, s.pool.Inside t f → f.locked = true := by
      intro t f hin
      cases hf : f.locked with
      | true => rfl
      | false => exact absurd ⟨t, f, hin, (hbare f).mp hf⟩ hnone
    exact ⟨fun t f hin => (ok.holds_iff hin).mpr (tagged t f hin),
      fun t u f g ht hu => ok.exclusive ht hu (tagged t f ht) (tagged u g hu)⟩

/-- Thread `t` loads an executable with one program header, for one page at `0x08048000`. -/
def loads (t : Nat) : List Action :=
  let call (r : Nat) : List Move := [.enter, .leave r]
  let header : List Move := call 8192 ++ call 0 ++ call 32 ++
    [.choose 1, .choose 0, .choose 0x08048000, .choose 4096, .choose 4096]
  let segment : List Move := call 8192 ++ call 0 ++ [.choose 1] ++ call 4096
  let moves : List Move := [.choose 1] ++ call 1 ++ call 0 ++ call 52 ++ [.choose 1, .choose 52, .choose 1] ++
    header ++ segment ++ [.choose 1]
  moves.map (.move t) ++ [.signal t]

/-- The main thread starts process 3, which starts process 4. -/
def twoProcesses : List Action :=
  [.runTask 1, .create 1 3] ++ loads 3 ++ [.resume 1] ++
  [.syscall 3 .exec, .move 3 (.choose 1), .create 3 4] ++ loads 4 ++ [.resume 3]

/-- Process 4 calls `open` and gets into `filesys_open`. -/
def opens : List Action :=
  [.syscall 4 .open, .move 4 (.choose 1), .move 4 (.choose 0), .move 4 .acquire, .move 4 .enter]

/-- Process 3 starts process 5, which gets into the `filesys_open` of `load`. -/
def startsThird : List Action :=
  [.syscall 3 .exec, .move 3 (.choose 1), .create 3 5, .move 5 (.choose 1), .move 5 .enter]

/-- After the two are loaded and process 4 is inside `open`, it holds the lock. -/
theorem file_lock_discipline_opens :
    ∃ s, Lts.run step (fun _ _ => True) init (twoProcesses ++ opens) = some s ∧
      s.pool.Inside 4 ⟨.filesysOpen, .syscall⟩ ∧ s.pool.holder = some 4 := by
  have hrun : ∃ s, Lts.run step (fun _ _ => True) init (twoProcesses ++ opens) = some s ∧
      s.pool.Inside 4 ⟨.filesysOpen, .syscall⟩ := ⟨_, rfl, rfl⟩
  obtain ⟨s, hs, hin⟩ := hrun
  have h := file_lock_discipline (Lts.reaches_of_run _ Lts.Reaches.refl hs)
  exact ⟨s, hs, hin, (h.1 4 _ hin).mpr (.inl rfl)⟩

/-- **Two threads in the file system.** While process 4 is inside `filesys_open` with the lock, process 5 is inside
    `filesys_open` without it, for `load`. -/
theorem load_enters_without_lock :
    ∃ s, Runs init s ∧ s.pool.holder = some 4 ∧ s.pool.Inside 4 ⟨.filesysOpen, .syscall⟩ ∧
      s.pool.Inside 5 ⟨.filesysOpen, .load⟩ ∧ ¬ LockDiscipline s := by
  have hrun : (Lts.run step (fun _ _ => True) init (twoProcesses ++ opens ++ startsThird)).any (fun s =>
      s.pool.holder = some 4 ∧ s.pool.Inside 4 ⟨.filesysOpen, .syscall⟩ ∧
      s.pool.Inside 5 ⟨.filesysOpen, .load⟩) = true := by decide +kernel
  obtain ⟨s, hs, hfacts⟩ := (Option.any_eq_true _ _).mp hrun
  obtain ⟨hheld, hin4, hin5⟩ := of_decide_eq_true hfacts
  refine ⟨s, Lts.reaches_of_run _ Lts.Reaches.refl hs, hheld, hin4, hin5, ?_⟩
  intro discipline
  exact absurd (discipline.alone 4 5 _ _ hin4 hin5) (by decide)

end FileLock
end Asg1
