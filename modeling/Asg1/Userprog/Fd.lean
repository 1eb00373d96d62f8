import Asg1.Filesys.File
import Asg1.Lib.CInt
import Asg1.Lib.Keyed
import Asg1.Lib.Lts

/-!
# `Userprog.Fd` — file descriptors

`open_w`, `filesize_w`, `read_w`, `write_w`, `seek_w`, `tell_w` and `close_w` of `userprog/syscall.c`, the opening
of the executable in `load` and the closing of files in `process_exit` of `userprog/process.c`, called by any number
of processes in any order. The tables of the processes are one map from process and descriptor to open files
(`State.table`), and every call is an operation on one entry of it.

* A call is one step. User pointers are valid, and so are file names.
* What `load` reads from the executable moves only the position of its own `struct file` and is left out, as is the
  file name in `struct fd_elem`, which is stored and freed and never read.
-/

namespace Asg1
namespace Fd

open Filesys List Option

/-- `struct fd_elem`. -/
structure FdElem where
  fd : Int
  fileSize : Nat
  theFile : Addr
  deriving DecidableEq

/-- The fields of `struct thread` for open files. `used`, a history variable, are the descriptors that `open` has
    returned. -/
structure Proc where
  nextFd : Int
  fdList : List FdElem
  executable : Option Addr
  used : List Int

/-- What a call returns, and the bytes it puts into the user's buffer. -/
structure Ret where
  eax : Int
  buffer : List UInt8 := []

structure State where
  fs : Fs
  proc : Nat → Option Proc
  nextPid : Nat
  console : List UInt8

def State.setProc (s : State) (p : Nat) (P : Option Proc) : State :=
  { s with proc := fun q => if q = p then P else s.proc q }

/-- An `unsigned` passed as an `off_t`. -/
def offT (n : Nat) : Int := wrap32 n

/-! ## System calls of process `p`, whose thread is `P` -/

/-- The check and the search that the calls on a descriptor begin with. -/
def withFd (s : State) (P : Proc) (fd : Int) (found : FdElem → Option (State × Ret)) : Option (State × Ret) :=
  if fd < 2 ∨ fd ≥ P.nextFd then some (s, { eax := -1 })
  else
    match Keyed.find FdElem.fd P.fdList fd with
    | some e => found e
    | none => some (s, { eax := -1 })

/-- `open_w`; the addresses are those that `malloc` gives. -/
def openW (fmt : Format) (s : State) (p : Nat) (P : Proc) (name : List UInt8) (f a b : Addr) :
    Option (State × Ret) :=
  if name.length = 0 then some (s, { eax := -1 })
  else do
    let (fs, file) ← filesysOpen fmt s.fs name f a b
    match file with
    | none => return ({ s with fs }, { eax := -1 })
    | some theFile =>
      let fileSize ← fileLength fs theFile
      let e : FdElem := { fd := P.nextFd, fileSize, theFile }
      let P' := { P with
        nextFd := wrap32 (P.nextFd + 1), fdList := P.fdList ++ [e], used := P.nextFd :: P.used }
      return ({ s with fs }.setProc p (some P'), { eax := e.fd })

/-- `filesize_w`. -/
def filesizeW (s : State) (P : Proc) (fd : Int) : Option (State × Ret) :=
  withFd s P fd (fun e => some (s, { eax := e.fileSize }))

/-- `read_w`; `key` is what `input_getc` returns. -/
def readW (s : State) (P : Proc) (fd : Int) (size : Nat) (key : UInt8) : Option (State × Ret) :=
  if fd = 0 then some (s, { eax := key.toNat })
  else withFd s P fd (fun e => do
    let (fs, buffer) ← fileRead s.fs e.theFile (offT size).toNat
    return ({ s with fs }, { eax := buffer.length, buffer }))

/-- `write_w`; the console gets the buffer up to its first NUL. -/
def writeW (s : State) (P : Proc) (fd : Int) (buffer : List UInt8) (size : Nat) : Option (State × Ret) :=
  if fd = 1 then some ({ s with console := s.console ++ buffer.takeWhile (· ≠ 0) }, { eax := size })
  else withFd s P fd (fun e => do
    let (fs, n) ← fileWrite s.fs e.theFile buffer (offT size).toNat
    return ({ s with fs }, { eax := n }))

/-- `seek_w`, which returns -1 in any case. -/
def seekW (s : State) (P : Proc) (fd : Int) (position : Nat) : Option (State × Ret) :=
  withFd s P fd (fun e => do
    let fs ← fileSeek s.fs e.theFile (offT position)
    return ({ s with fs }, { eax := -1 }))

/-- `tell_w`. -/
def tellW (s : State) (P : Proc) (fd : Int) : Option (State × Ret) :=
  withFd s P fd (fun e => do
    let pos ← fileTell s.fs e.theFile
    return (s, { eax := pos }))

/-- `close_w`. -/
def closeW (s : State) (p : Nat) (P : Proc) (fd : Int) : Option (State × Ret) :=
  withFd s P fd (fun e => do
    let fs ← fileClose s.fs e.theFile
    return ({ s with fs }.setProc p (some { P with fdList := P.fdList.erase e }), { eax := 0 }))

/-! ## `load` and `process_exit` -/

/-- `load` opens the executable. -/
def loadOpen (fmt : Format) (s : State) (p : Nat) (P : Proc) (name : List UInt8) (f a b : Addr) : Option State := do
  let (fs, file) ← filesysOpen fmt s.fs name f a b
  match file with
  | none => return { s with fs }
  | some executable =>
    let fs' ← fileDenyWrite fs executable
    return { s with fs := fs' }.setProc p (some { P with executable })

/-- `while(!list_empty(&cur->fd_list))` -/
def closeAll (fs : Fs) : List Addr → Option Fs
  | [] => some fs
  | f :: rest => do
      let fs' ← fileClose fs f
      closeAll fs' rest

/-- `process_exit`, as far as it is about files. -/
def processExit (s : State) (p : Nat) (P : Proc) : Option State := do
  let fs ← match P.executable with
    | some f => fileClose s.fs f
    | none => some s.fs
  let fs' ← closeAll fs (P.fdList.map FdElem.theFile)
  return { s with fs := fs' }.setProc p none

/-! ## Runs -/

/-- A system call with its arguments; `sysOpen` also has the addresses that `malloc` gives, and `sysRead` the key
    that is read. -/
inductive Call where
  | sysOpen (name : List UInt8) (f a b : Addr)
  | sysFilesize (fd : Int)
  | sysRead (fd : Int) (size : Nat) (key : UInt8)
  | sysWrite (fd : Int) (buffer : List UInt8) (size : Nat)
  | sysSeek (fd : Int) (position : Nat)
  | sysTell (fd : Int)
  | sysClose (fd : Int)

def call (fmt : Format) (s : State) (p : Nat) (P : Proc) : Call → Option (State × Ret)
  | .sysOpen name f a b => openW fmt s p P name f a b
  | .sysFilesize fd => filesizeW s P fd
  | .sysRead fd size key => readW s P fd size key
  | .sysWrite fd buffer size => writeW s P fd buffer size
  | .sysSeek fd position => seekW s P fd position
  | .sysTell fd => tellW s P fd
  | .sysClose fd => closeW s p P fd

inductive Action where
  /-- A thread is created. -/
  | start
  | load (p : Nat) (name : List UInt8) (f a b : Addr)
  | call (p : Nat) (c : Call)
  | exit (p : Nat)

/-- `malloc` gives addresses that are free. -/
def Free (fs : Fs) (f a b : Addr) : Prop := f ∉ fs.files ∧ a ∉ fs.openInodes ∧ b ∉ fs.openInodes ∧ b ≠ a

instance (fs : Fs) (f a b : Addr) : Decidable (Free fs f a b) := inferInstanceAs (Decidable (_ ∧ _ ∧ _ ∧ _))

/-- What is taken for granted about a call: free addresses, fewer than 2^31 - 2 opens, positions below 2^31. -/
def Allowed (s : State) (P : Proc) : Call → Prop
  | .sysOpen _ f a b => Free s.fs f a b ∧ P.nextFd < 2 ^ 31 - 1
  | .sysSeek _ position => position < 2 ^ 31
  | _ => True

instance (s : State) (P : Proc) (c : Call) : Decidable (Allowed s P c) := by
  cases c <;> unfold Allowed <;> infer_instance

/-- A new thread, as `init_thread` makes it. -/
def newProc : Proc := { nextFd := 2, fdList := [], executable := none, used := [] }

/-- One step of the system. -/
def step (fmt : Format) (s : State) : Action → Option State
  | .start => some ({ s with nextPid := s.nextPid + 1 }.setProc s.nextPid (some newProc))
  | .load p name f a b => do
      let P ← s.proc p
      if P.executable = none ∧ Free s.fs f a b then loadOpen fmt s p P name f a b else none
  | .call p c => do
      let P ← s.proc p
      if Allowed s P c then (call fmt s p P c).map Prod.fst else none
  | .exit p => do
      let P ← s.proc p
      processExit s p P

/-- The kernel has started: the free map's file is open, on any device. -/
def init (fmt : Format) (device : Device) : State where
  fs :=
    { device
      openInodes := [0]
      inode := fun _ => { sector := 0, openCnt := 1, denyWriteCnt := 0, data := fmt.inodeDisk device 0 }
      files := [0]
      file := fun _ => { inode := 0, pos := 0, denyWrite := false }
      closed := [] }
  proc := fun _ => none
  nextPid := 0
  console := []

/-! ## The tables as one map -/

/-- The open files of all processes, by process and descriptor. -/
abbrev Table := Nat → Int → Option OpenFile

def Table.set (T : Table) (p : Nat) (fd : Int) (F : Option OpenFile) : Table :=
  fun q x => if q = p ∧ x = fd then F else T q x

def State.table (s : State) : Table := fun p fd => do
  let P ← s.proc p
  let e ← Keyed.find FdElem.fd P.fdList fd
  return s.fs.view e.theFile

/-- The `struct file`s of a process. -/
def Proc.files (P : Proc) : List Addr := P.executable.toList ++ P.fdList.map FdElem.theFile

/-! ## The invariant -/

structure ProcOk (fs : Fs) (P : Proc) : Prop where
  distinct : Keyed.Distinct FdElem.fd P.fdList
  used : ∀ e ∈ P.fdList, e.fd ∈ P.used
  range : ∀ fd ∈ P.used, 2 ≤ fd ∧ fd < P.nextFd
  nextFd : 2 ≤ P.nextFd ∧ P.nextFd < 2 ^ 31
  size : ∀ e ∈ P.fdList, e.fileSize = (fs.view e.theFile).data.length
  live : ∀ f ∈ P.files, f ∈ fs.files
  nodup : P.files.Nodup

/-- Descriptors are distinct and old, and every `struct file` is open and is known to one process, under one
    descriptor. -/
structure FdInv (s : State) : Prop where
  accounts : Accounts s.fs []
  proc : ∀ p P, s.proc p = some P → ProcOk s.fs P
  apart : ∀ p q P Q, s.proc p = some P → s.proc q = some Q → ∀ f ∈ P.files, f ∈ Q.files → p = q
  fresh : ∀ p, s.nextPid ≤ p → s.proc p = none

section
variable {s : State} {p : Nat} {P : Proc}

theorem ProcOk.mono (h : ProcOk s.fs P) (fs : Fs)
    (hfiles : ∀ f ∈ P.files, f ∈ fs.files ∧ (fs.view f).data = (s.fs.view f).data) : ProcOk fs P :=
  { h with
    size := fun e he => by
      rw [(hfiles e.theFile (mem_append_right _ (List.mem_map_of_mem he))).2]
      exact h.size e he
    live := fun f hf => (hfiles f hf).1 }

@[grind =] theorem setProc_apply (s : State) (p : Nat) (P' : Option Proc) (q : Nat) :
    (s.setProc p P').proc q = if q = p then P' else s.proc q := rfl

variable {fs : Fs} {c : Call} {q : Nat} {fmt : Format} {f a b : Addr}

/-- The files and process `p` change; the files of the other processes stay as they are. -/
theorem FdInv.update (h : FdInv s) (hp : s.proc p = some P) (P' : Option Proc) (hacc : Accounts fs [])
    (hnew : ∀ Q, P' = some Q → ProcOk fs Q ∧ ∀ f ∈ Q.files, f ∈ s.fs.files → f ∈ P.files)
    (hother : ∀ f ∈ s.fs.files, f ∉ P.files → f ∈ fs.files ∧ (fs.view f).data = (s.fs.view f).data) :
    FdInv ({ s with fs }.setProc p P') := by
  have hapart : ∀ {q Q}, q ≠ p → s.proc q = some Q → ∀ f ∈ Q.files, f ∉ P.files :=
    fun hqp hq f hf hfP => hqp (h.apart _ _ _ _ hq hp f hf hfP)
  have hlive : ∀ {q Q}, s.proc q = some Q → ∀ f ∈ Q.files, f ∈ s.fs.files := fun hq => (h.proc _ _ hq).live
  constructor
  case accounts => exact hacc
  case proc =>
    intro q Q hq
    rw [setProc_apply] at hq
    split at hq
    · exact (hnew Q hq).1
    · exact (h.proc q Q hq).mono fs fun f hf => hother f (hlive hq f hf) (hapart ‹_› hq f hf)
  case apart =>
    have := h.apart
    grind
  case fresh =>
    have := h.fresh
    grind [State.setProc]

variable {e : FdElem}

variable {fd x : Int} {device : Device}

/-- Descriptors of process `p` lead to files of its own. -/
theorem mem_files_of_find (he : Keyed.find FdElem.fd P.fdList fd = some e) :
    e.theFile ∈ P.files := mem_append_right _ (List.mem_map_of_mem (Keyed.mem_of_find he).1)

/-- Two descriptors with the same file are the same. -/
theorem FdInv.file_inj (h : FdInv s) {Q : Proc} {e' : FdElem} (hp : s.proc p = some P)
    (hq : s.proc q = some Q) (he : Keyed.find FdElem.fd P.fdList fd = some e)
    (he' : Keyed.find FdElem.fd Q.fdList x = some e') (heq : e.theFile = e'.theFile) : q = p ∧ x = fd := by
  have hqp : q = p := h.apart q p Q P hq hp _ (mem_files_of_find he') (heq ▸ mem_files_of_find he)
  subst hqp
  obtain rfl := Option.some.inj (hp.symm.trans hq)
  obtain ⟨hmem, hfd⟩ := Keyed.mem_of_find he
  obtain ⟨hmem', hx⟩ := Keyed.mem_of_find he'
  have hnodup := (List.nodup_append.mp (h.proc q P hp).nodup).2.1
  have hee : e = e' := inj_on_of_nodup_map hnodup hmem hmem' heq
  exact ⟨rfl, by rw [← hfd, ← hx, hee]⟩

end

/-! ## What each call does -/

/-- Descriptor `fd` of process `p` now has `F`, no other descriptor has changed, and the device is `device`. -/
structure Sets (s s' : State) (p : Nat) (fd : Int) (F : Option OpenFile) (device : Device) : Prop where
  table : s'.table = s.table.set p fd F
  device : s'.fs.device = device
  console : s'.console = s.console

/-- `open` of a name that is not found returns -1 and changes no descriptor; otherwise it returns a descriptor that
    it has never returned before, for the file that is found. -/
def OpenSpec (fmt : Format) (s : State) (p : Nat) (P : Proc) (name : List UInt8) (s' : State) (r : Ret) : Prop :=
  match if name.length = 0 then none else fmt.lookup s.fs.device (dataOf fmt s.fs ROOT_DIR_SECTOR) name with
  | none => r.eax = -1 ∧ s'.table = s.table ∧ s'.fs.device = s.fs.device ∧ s'.console = s.console
  | some k => 2 ≤ r.eax ∧ r.eax ∉ P.used ∧ s.table p r.eax = none ∧
      Sets s s' p r.eax (some ⟨k, dataOf fmt s.fs k, 0⟩) s.fs.device

/-- What a call does on a descriptor that has file `F`. -/
def Acts (s : State) (p : Nat) (F : OpenFile) (s' : State) (r : Ret) : Call → Prop
  | .sysOpen _ _ _ _ => True
  | .sysFilesize _ => s' = s ∧ r.eax = F.data.length
  | .sysRead fd size _ => ∃ buffer, inodeReadAt s.fs.device F.data (offT size).toNat F.pos = some buffer ∧
      r = { eax := buffer.length, buffer } ∧
      Sets s s' p fd (some { F with pos := F.pos + buffer.length }) s.fs.device
  | .sysWrite fd buffer size => ∃ device n, writeResult s.fs F buffer (offT size).toNat (device, n) ∧
      (∀ x, Outside F.data x → device x = s.fs.device x) ∧ r.eax = n ∧
      Sets s s' p fd (some { F with pos := F.pos + n }) device
  | .sysSeek fd position => Sets s s' p fd (some { F with pos := position }) s.fs.device
  | .sysTell _ => s' = s ∧ r.eax = F.pos
  | .sysClose fd => r.eax = 0 ∧ Sets s s' p fd none s.fs.device

/-- Only the thread of process `p` has changed, to `P`. -/
def Only (s s' : State) (p : Nat) (P : Option Proc) : Prop :=
  s'.proc = (s.setProc p P).proc ∧ s'.nextPid = s.nextPid

/-- The descriptor that a call is about. -/
def Call.fd : Call → Option Int
  | .sysOpen _ _ _ _ => none
  | .sysFilesize fd | .sysRead fd _ _ | .sysWrite fd _ _ | .sysSeek fd _ | .sysTell fd | .sysClose fd => some fd

section
variable {s : State} {p : Nat} {P : Proc} {fd : Int} {e : FdElem}

theorem setProc_proc (hp : s.proc p = some P) : (s.setProc p (some P)).proc = s.proc := by
  funext q
  grind

theorem Only.refl (hp : s.proc p = some P) : Only s s p (some P) := ⟨(setProc_proc hp).symm, rfl⟩

theorem table_eq (hp : s.proc p = some P) :
    s.table p fd = (Keyed.find FdElem.fd P.fdList fd).map (fun e => s.fs.view e.theFile) := by
  unfold State.table
  rw [hp]
  cases hfind : Keyed.find FdElem.fd P.fdList fd <;> simp [hfind]

theorem withFd_none (hfind : Keyed.find FdElem.fd P.fdList fd = none) (found : FdElem → Option (State × Ret)) :
    withFd s P fd found = some (s, { eax := -1 }) := by
  unfold withFd
  rw [hfind]
  split <;> rfl

theorem withFd_some (h : ProcOk s.fs P) (hfind : Keyed.find FdElem.fd P.fdList fd = some e)
    (found : FdElem → Option (State × Ret)) : withFd s P fd found = found e := by
  obtain ⟨he, hfd⟩ := Keyed.mem_of_find hfind
  have hrange := h.range e.fd (h.used e he)
  unfold withFd
  rw [hfind, if_neg (by omega)]

section
variable (h : FdInv s) (hp : s.proc p = some P)
include h hp

variable {n : Nat} {name : List UInt8}

/-- A file of process `p` moves. -/
theorem FdInv.moved (hfind : Keyed.find FdElem.fd P.fdList fd = some e)
    (hacc : Accounts (s.fs.moved e.theFile n device) []) :
    FdInv { s with fs := s.fs.moved e.theFile n device } ∧
      Sets s { s with fs := s.fs.moved e.theFile n device } p fd
        (some { s.fs.view e.theFile with pos := n }) device := by
  have hdata : ∀ f, ((s.fs.moved e.theFile n device).view f).data = (s.fs.view f).data := by
    grind [view_moved]
  have hok := (h.proc p P hp).mono (s.fs.moved e.theFile n device)
    (fun f hf => ⟨(h.proc p P hp).live f hf, hdata f⟩)
  have hinv := h.update hp (some P) hacc (by intro Q hQ; cases hQ; exact ⟨hok, fun f hf _ => hf⟩)
    (fun f hf _ => ⟨hf, hdata f⟩)
  have hsame : ({ s with fs := s.fs.moved e.theFile n device }.setProc p (some P)) =
      { s with fs := s.fs.moved e.theFile n device } :=
    congrArg (fun proc => { s with fs := s.fs.moved e.theFile n device, proc }) (setProc_proc hp)
  refine ⟨hsame ▸ hinv, ?_, rfl, rfl⟩
  funext q x
  -- another descriptor has another file
  have hinj := fun {Q e'} (hq : s.proc q = some Q) (he' : Keyed.find FdElem.fd Q.fdList x = some e') => h.file_inj hp hq hfind he'
  unfold Table.set
  cases hq : s.proc q with
  | none => grind [State.table]
  | some Q =>
    rw [table_eq (s := { s with fs := s.fs.moved e.theFile n device }) hq, table_eq hq]
    cases he' : Keyed.find FdElem.fd Q.fdList x with
    | none => grind
    | some e' => grind [view_moved]

/-- The entries of process `p` are those of its new list, and the others stay if their files do. -/
theorem FdInv.table_setProc (P' : Option Proc)
    (hview : ∀ f ∈ s.fs.files, f ∉ P.files → fs.view f = s.fs.view f) (q : Nat) (x : Int) :
    ({ s with fs }.setProc p P').table q x =
      if q = p then P'.bind (fun Q => (Keyed.find FdElem.fd Q.fdList x).map (fun e => fs.view e.theFile))
      else s.table q x := by
  have hproc : ({ s with fs }.setProc p P').proc q = if q = p then P' else s.proc q := rfl
  by_cases hqp : q = p
  · rw [if_pos hqp] at hproc ⊢
    cases P' with
    | none => simp [State.table, hproc]
    | some Q => exact table_eq hproc
  · rw [if_neg hqp] at hproc ⊢
    cases hq : s.proc q with
    | none => simp [State.table, hproc, hq]
    | some Q =>
      rw [hq] at hproc
      rw [table_eq hproc, table_eq hq]
      cases he : Keyed.find FdElem.fd Q.fdList x with
      | none => rfl
      | some e =>
        have hmem := mem_files_of_find he
        have hnot : e.theFile ∉ P.files := fun hP => hqp (h.apart q p Q P hq hp _ hmem hP)
        exact congrArg some (hview _ ((h.proc q Q hq).live _ hmem) hnot)

/-- `close` takes the descriptor away and closes its file. -/
theorem FdInv.close (hfind : Keyed.find FdElem.fd P.fdList fd = some e) :
    ∃ s', closeW s p P fd = some (s', { eax := 0 }) ∧ FdInv s' ∧ Sets s s' p fd none s.fs.device ∧
      Only s s' p (some { P with fdList := P.fdList.erase e }) := by
  have hok := h.proc p P hp
  obtain ⟨he, hfd⟩ := Keyed.mem_of_find hfind
  have hfile := mem_files_of_find hfind
  obtain ⟨fs, hclose, hacc, hdevice, hfiles, _, hview⟩ := h.accounts.fileClose (hok.live _ hfile)
  have hnodup := List.nodup_append.mp hok.nodup
  have hinj := fun e' he' heq => inj_on_of_nodup_map (x := e') hnodup.2.1 he' he heq
  have hmem : ∀ e', e' ∈ P.fdList.erase e ↔ e' ≠ e ∧ e' ∈ P.fdList :=
    fun e' => (List.Nodup.of_map _ hnodup.2.1).mem_erase_iff
  -- the files that stay are those of the other descriptors and the executable
  have hstay : ∀ f ∈ ({ P with fdList := P.fdList.erase e } : Proc).files, f ∈ P.files ∧ f ≠ e.theFile := by
    simp only [Proc.files, mem_append, List.mem_map, hmem]
    grind
  have hlive : ∀ {f}, f ∈ s.fs.files → f ≠ e.theFile → f ∈ fs.files ∧ fs.view f = s.fs.view f := by
    intro f hf hne
    have hin := (mem_erase_of_ne hne).mpr hf
    exact ⟨hfiles ▸ hin, hview f hin⟩
  refine ⟨{ s with fs }.setProc p (some { P with fdList := P.fdList.erase e }), ?_, ?_, ⟨?_, hdevice, rfl⟩,
    rfl, rfl⟩
  · unfold closeW
    rw [withFd_some hok hfind]
    simp only [hclose, bind_eq_bind, bind_some]
    rfl
  · refine h.update hp _ hacc ?_ (by grind)
    intro Q hQ
    cases hQ
    refine ⟨⟨hok.distinct.erase e, ?_, hok.range, hok.nextFd, ?_, ?_, ?_⟩, fun f hf _ => (hstay f hf).1⟩
    · exact fun e' he' => hok.used e' (mem_of_mem_erase he')
    · intro e' he'
      obtain ⟨hf, hne⟩ := hstay _ (mem_append_right _ (List.mem_map_of_mem he'))
      rw [(hlive (hok.live _ hf) hne).2]
      exact hok.size e' (mem_of_mem_erase he')
    · exact fun f hf => (hlive (hok.live f (hstay f hf).1) (hstay f hf).2).1
    · exact List.Nodup.sublist (List.Sublist.append_left (List.Sublist.map _ erase_sublist) _) hok.nodup
  · funext q x
    have hother : ∀ e', Keyed.find FdElem.fd P.fdList x = some e' → x ≠ fd → fs.view e'.theFile = s.fs.view e'.theFile :=
      fun e' he' hx => (hlive (hok.live _ (mem_files_of_find he')) fun heq => hx (h.file_inj hp hp hfind he' heq.symm).2).2
    rw [h.table_setProc hp _ (by grind)]
    unfold Table.set
    by_cases hqp : q = p
    · rw [hqp, table_eq hp]
      cases he' : Keyed.find FdElem.fd P.fdList x <;> grind [Keyed.find_erase hok.distinct he]
    · grind

/-- `open` of a name that is found takes the next descriptor. -/
theorem FdInv.openFound
    (hfree : Free s.fs f a b) (hnext : P.nextFd < 2 ^ 31 - 1) (hname : name.length ≠ 0) {k : Nat}
    (hk : fmt.lookup s.fs.device (dataOf fmt s.fs ROOT_DIR_SECTOR) name = some k) :
    ∃ s', openW fmt s p P name f a b = some (s', { eax := P.nextFd }) ∧ FdInv s' ∧
      Sets s s' p P.nextFd (some ⟨k, dataOf fmt s.fs k, 0⟩) s.fs.device ∧
      ∃ P', Only s s' p (some P') ∧ P'.used = P.nextFd :: P.used := by
  have hok := h.proc p P hp
  obtain ⟨hf, ha, hb, hab⟩ := hfree
  obtain ⟨fs, hopen, hacc, hdevice, hfiles, _, hview, hviewf⟩ := h.accounts.filesysOpen_some hf ha hb hab hk
  have hlength : fileLength fs f = some (dataOf fmt s.fs k).length := by
    rw [hacc.fileLength (by rw [hfiles]; exact mem_cons_self), hviewf]
  set e : FdElem := ⟨P.nextFd, (dataOf fmt s.fs k).length, f⟩ with he
  set P' : Proc := ⟨P.nextFd + 1, P.fdList ++ [e], P.executable, P.nextFd :: P.used⟩ with hP'
  have hlow := hok.nextFd.1
  have hwrap : wrap32 (P.nextFd + 1) = P.nextFd + 1 := wrap32_of_mem (by omega) (by omega)
  have hownfiles : P'.files = P.files ++ [f] := by
    simp [Proc.files, hP', he]
  have hnewkey : ∀ e' ∈ P.fdList, e'.fd ≠ P.nextFd := by
    intro e' he'
    have hlt := (hok.range _ (hok.used e' he')).2
    omega
  have hold : ∀ {g}, g ∈ P.files → fs.view g = s.fs.view g := fun hg => hview _ (hok.live _ hg)
  refine ⟨{ s with fs }.setProc p (some P'), ?_, ?_, ⟨?_, hdevice, rfl⟩, P', ⟨rfl, rfl⟩, rfl⟩
  · simp only [openW, hname, if_false, hopen, hlength, hwrap, bind_eq_bind, bind_some]
    rfl
  · refine h.update hp _ hacc ?_ (by grind)
    intro Q hQ
    cases hQ
    refine ⟨⟨hok.distinct.append hnewkey, ?_, ?_, ?_, ?_, ?_, ?_⟩, ?_⟩
    · grind [hok.used]
    · have := hok.range
      grind
    · grind
    · intro e' he'
      rcases List.mem_append.mp he' with he' | he'
      · rw [hold (mem_append_right _ (List.mem_map_of_mem he'))]
        exact hok.size e' he'
      · rw [List.mem_singleton.mp he', hviewf]
    · grind [hok.live]
    · grind [hok.live, hok.nodup]
    · grind
  · funext q x
    rw [h.table_setProc hp (some P') (fun g hg _ => hview g hg)]
    unfold Table.set
    by_cases hqp : q = p
    · rw [hqp, table_eq hp]
      have hfind : Keyed.find FdElem.fd P'.fdList x = if x = P.nextFd then some e else Keyed.find FdElem.fd P.fdList x :=
        Keyed.find_append hnewkey
      cases he' : Keyed.find FdElem.fd P.fdList x <;> grind [mem_files_of_find]
    · grind

end

/-- The file system changes and all open files stay as they are. -/
theorem FdInv.keeps (h : FdInv s) (hacc : Accounts fs []) (hk : Keeps s.fs fs) :
    FdInv { s with fs } ∧ ({ s with fs } : State).table = s.table := by
  constructor
  · refine ⟨hacc, ?_, h.apart, h.fresh⟩
    intro q Q hq
    refine (h.proc q Q hq).mono fs ?_
    intro f hf
    have hlive := (h.proc q Q hq).live f hf
    exact ⟨by rw [hk.files]; exact hlive, by rw [hk.view f hlive]⟩
  · funext q x
    cases hq : s.proc q with
    | none => simp [State.table, hq]
    | some Q =>
      have hq' : ({ s with fs } : State).proc q = some Q := hq
      rw [table_eq hq', table_eq hq]
      cases he : Keyed.find FdElem.fd Q.fdList x with
      | none => rfl
      | some e => exact congrArg some (hk.view _ ((h.proc q Q hq).live _ (mem_files_of_find he)))

/-- `open` does what is said of it. -/
theorem FdInv.openW (h : FdInv s) (hp : s.proc p = some P) (fmt : Format)
    (hallowed : Allowed s P (.sysOpen name f a b)) :
    ∃ s' r, openW fmt s p P name f a b = some (s', r) ∧ FdInv s' ∧ OpenSpec fmt s p P name s' r ∧
      ∃ P', Only s s' p (some P') ∧ ∀ x ∈ P.used, x ∈ P'.used := by
  have hok := h.proc p P hp
  by_cases hname : name.length = 0
  · refine ⟨s, { eax := -1 }, by simp [Fd.openW, hname], h, ?_, P, Only.refl hp, fun _ hx => hx⟩
    unfold OpenSpec
    rw [if_pos hname]
    exact ⟨rfl, rfl, rfl, rfl⟩
  · cases hk : fmt.lookup s.fs.device (dataOf fmt s.fs ROOT_DIR_SECTOR) name with
    | none =>
      obtain ⟨fs, hopen, hacc, hkeeps⟩ := h.accounts.filesysOpen_none f b hallowed.1.2.1 hk
      obtain ⟨hinv, htable⟩ := h.keeps hacc hkeeps
      refine ⟨{ s with fs }, { eax := -1 }, ?_, hinv, ?_, P, Only.refl hp, fun _ hx => hx⟩
      · simp only [Fd.openW, hname, if_false, hopen, bind_eq_bind, bind_some]
        rfl
      · unfold OpenSpec
        rw [if_neg hname, hk]
        exact ⟨rfl, htable, hkeeps.device, rfl⟩
    | some k =>
      obtain ⟨s', hopen, hinv, hsets, P', honly, hused⟩ := h.openFound hp hallowed.1 hallowed.2 hname hk
      refine ⟨s', { eax := P.nextFd }, hopen, hinv, ?_, P', honly, ?_⟩
      · have hnew : ∀ x ∈ P.used, x ≠ P.nextFd := fun x hx => Int.ne_of_lt (hok.range x hx).2
        unfold OpenSpec
        rw [if_neg hname, hk]
        refine ⟨hok.nextFd.1, fun hmem => hnew _ hmem rfl, ?_, hsets⟩
        rw [table_eq hp, Keyed.find_eq_none.mpr (fun e he => hnew _ (hok.used e he))]
        rfl
      · intro x hx
        rw [hused]
        exact mem_cons_of_mem _ hx

theorem offT_of_lt (h : n < 2 ^ 31) : offT n = n := wrap32_of_mem (by omega) (by omega)

/-- A call on an open descriptor acts on its file. -/
theorem FdInv.acts (h : FdInv s) (hp : s.proc p = some P) (fmt : Format) (hallowed : Allowed s P c)
    (hfd : c.fd = some fd) (hfind : Keyed.find FdElem.fd P.fdList fd = some e) :
    ∃ s' r, call fmt s p P c = some (s', r) ∧ FdInv s' ∧ Acts s p (s.fs.view e.theFile) s' r c ∧
      ∃ P', Only s s' p (some P') ∧ P'.used = P.used := by
  have hok := h.proc p P hp
  have hsame : ∀ fs, Only s { s with fs } p (some P) := fun _ => Only.refl hp
  have hlive : e.theFile ∈ s.fs.files := hok.live _ (mem_files_of_find hfind)
  have hrange : 2 ≤ fd := by
    obtain ⟨he, rfl⟩ := Keyed.mem_of_find hfind
    exact (hok.range _ (hok.used e he)).1
  cases c with
  | sysOpen name f a b => cases hfd
  | sysFilesize x =>
    cases hfd
    refine ⟨s, { eax := e.fileSize }, withFd_some hok hfind _, h, ⟨rfl, ?_⟩, P, hsame _, rfl⟩
    rw [hok.size e (Keyed.mem_of_find hfind).1]
  | sysRead x size key =>
    cases hfd
    obtain ⟨buffer, hread, hfile, hacc⟩ := h.accounts.fileRead hlive (offT size).toNat
    obtain ⟨hinv, hsets⟩ := h.moved hp hfind hacc
    refine ⟨_, { eax := buffer.length, buffer }, ?_, hinv, ⟨buffer, hread, rfl, hsets⟩, P, hsame _, rfl⟩
    show readW s P fd size key = _
    unfold readW
    rw [if_neg (by omega), withFd_some hok hfind]
    simp only [hfile, bind_eq_bind, bind_some]
    rfl
  | sysWrite x buffer size =>
    cases hfd
    obtain ⟨device, n, hwrite, hfile, hacc, hframe⟩ := h.accounts.fileWrite hlive buffer (offT size).toNat
    obtain ⟨hinv, hsets⟩ := h.moved hp hfind hacc
    refine ⟨_, { eax := n }, ?_, hinv, ⟨device, n, hwrite, hframe, rfl, hsets⟩, P, hsame _, rfl⟩
    show writeW s P fd buffer size = _
    unfold writeW
    rw [if_neg (by omega), withFd_some hok hfind]
    simp only [hfile, bind_eq_bind, bind_some]
    rfl
  | sysSeek x position =>
    cases hfd
    obtain ⟨hfile, hacc⟩ := h.accounts.fileSeek hlive hallowed
    obtain ⟨hinv, hsets⟩ := h.moved hp hfind hacc
    refine ⟨_, { eax := -1 }, ?_, hinv, hsets, P, hsame _, rfl⟩
    show seekW s P fd position = _
    unfold seekW
    rw [withFd_some hok hfind, offT_of_lt hallowed]
    simp only [hfile, bind_eq_bind, bind_some]
    rfl
  | sysTell x =>
    cases hfd
    refine ⟨s, { eax := (s.fs.view e.theFile).pos }, ?_, h, ⟨rfl, rfl⟩, P, hsame _, rfl⟩
    show tellW s P fd = _
    unfold tellW
    rw [withFd_some hok hfind]
    simp only [h.accounts.fileTell hlive, bind_eq_bind, bind_some]
    rfl
  | sysClose x =>
    cases hfd
    obtain ⟨s', hclose, hinv, hsets, honly⟩ := h.close hp hfind
    exact ⟨s', { eax := 0 }, hclose, hinv, ⟨rfl, hsets⟩, _, honly, rfl⟩

/-- `load` opens the executable and denies writes to it; no descriptor changes. -/
theorem FdInv.loadOpen (h : FdInv s) (hp : s.proc p = some P) (hexec : P.executable = none) (fmt : Format)
    (name : List UInt8) (hfree : Free s.fs f a b) :
    ∃ s', loadOpen fmt s p P name f a b = some s' ∧ FdInv s' ∧ s'.table = s.table ∧
      ∃ P', Only s s' p (some P') ∧ P'.used = P.used := by
  have hok := h.proc p P hp
  cases hk : fmt.lookup s.fs.device (dataOf fmt s.fs ROOT_DIR_SECTOR) name with
  | none =>
    obtain ⟨fs, hopen, hacc, hkeeps⟩ := h.accounts.filesysOpen_none f b hfree.2.1 hk
    obtain ⟨hinv, htable⟩ := h.keeps hacc hkeeps
    refine ⟨{ s with fs }, ?_, hinv, htable, P, Only.refl hp, rfl⟩
    simp only [Fd.loadOpen, hopen, bind_eq_bind, bind_some]
    rfl
  | some k =>
    obtain ⟨hf, ha, hb, hab⟩ := hfree
    obtain ⟨fs₁, hopen, hacc₁, _, hfiles₁, _, hview₁, _⟩ := h.accounts.filesysOpen_some hf ha hb hab hk
    obtain ⟨fs, hdeny, hacc, _, hfiles, _, _, hview⟩ :=
      hacc₁.fileDenyWrite (f := f) (by rw [hfiles₁]; exact mem_cons_self)
    have hfs : ∀ g ∈ s.fs.files, g ∈ fs.files ∧ fs.view g = s.fs.view g := by
      grind
    have hownfiles : ({ P with executable := some f } : Proc).files = f :: P.files := by
      simp [Proc.files, hexec]
    refine ⟨{ s with fs }.setProc p (some { P with executable := some f }), ?_, ?_, ?_,
      { P with executable := some f }, ⟨rfl, rfl⟩, rfl⟩
    · simp only [Fd.loadOpen, hopen, hdeny, bind_eq_bind, bind_some]
      rfl
    · refine h.update hp _ hacc ?_ (by grind)
      intro Q hQ
      cases hQ
      have hold := hok.mono fs fun g hg => ⟨(hfs g (hok.live g hg)).1, by rw [(hfs g (hok.live g hg)).2]⟩
      refine ⟨⟨hold.distinct, hold.used, hold.range, hold.nextFd, hold.size, ?_, ?_⟩, ?_⟩
      · grind [hold.live]
      · rw [hownfiles, nodup_cons]
        exact ⟨fun hmem => hf (hok.live f hmem), hok.nodup⟩
      · grind
    · funext q x
      rw [h.table_setProc hp _ (fun g hg _ => (hfs g hg).2)]
      split
      · rename_i hqp
        rw [hqp, table_eq hp]
        cases he : Keyed.find FdElem.fd P.fdList x <;> grind [hok.live, mem_files_of_find]
      · rfl

/-! ## `process_exit` -/

/-- Closing different files one after the other. -/
theorem closeAll_some (h : Accounts fs []) {l : List Addr} (hl : l.Nodup) (hmem : ∀ f ∈ l, f ∈ fs.files) :
    ∃ fs', closeAll fs l = some fs' ∧ Accounts fs' [] ∧ fs'.device = fs.device ∧
      fs'.closed = l.reverse ++ fs.closed ∧ (∀ g, g ∈ fs'.files ↔ g ∈ fs.files ∧ g ∉ l) ∧
      ∀ g ∈ fs'.files, fs'.view g = fs.view g := by
  induction l generalizing fs with
  | nil => exact ⟨fs, rfl, h, rfl, rfl, by simp, fun _ _ => rfl⟩
  | cons f rest ih =>
    obtain ⟨hf, hrest⟩ := List.nodup_cons.mp hl
    obtain ⟨fs₁, hclose, hacc, hdevice, hfiles, hclosed, hview⟩ :=
      h.fileClose (hmem f mem_cons_self)
    have hmem₁ : ∀ g, g ∈ fs₁.files ↔ g ≠ f ∧ g ∈ fs.files := fun g => hfiles ▸ h.files_nodup.mem_erase_iff
    obtain ⟨fs', hall, hacc', hdevice', hclosed', hfiles', hview'⟩ := ih hacc hrest (by grind)
    refine ⟨fs', ?_, hacc', hdevice'.trans hdevice, by simp [hclosed', hclosed], by grind, by grind⟩
    simp only [closeAll, hclose, bind_eq_bind, bind_some]
    exact hall

/-- `process_exit` closes the executable first and then the files of the descriptors. -/
theorem processExit_eq : processExit s p P = (closeAll s.fs P.files).map (fun fs => { s with fs }.setProc p none) := by
  have hmap : ∀ fs, (closeAll fs (P.fdList.map FdElem.theFile)).bind
      (fun fs' => some ({ s with fs := fs' }.setProc p none)) =
      (closeAll fs (P.fdList.map FdElem.theFile)).map (fun fs' => { s with fs := fs' }.setProc p none) := by
    intro fs
    cases closeAll fs (P.fdList.map FdElem.theFile) <;> rfl
  unfold processExit Proc.files
  cases P.executable with
  | none => exact hmap s.fs
  | some f =>
    show (fileClose s.fs f).bind _ = ((fileClose s.fs f).bind _).map _
    cases fileClose s.fs f with
    | none => rfl
    | some fs => exact hmap fs

/-- What `process_exit` does: each file of the process is closed, once, and no descriptor of another process
    changes. -/
structure ExitSpec (s : State) (p : Nat) (P : Proc) (s' : State) : Prop where
  closed : s'.fs.closed = P.files.reverse ++ s.fs.closed
  once : P.files.Nodup
  files : ∀ f, f ∈ s'.fs.files ↔ f ∈ s.fs.files ∧ f ∉ P.files
  table : ∀ q fd, s'.table q fd = if q = p then none else s.table q fd
  device : s'.fs.device = s.fs.device
  console : s'.console = s.console

theorem FdInv.processExit (h : FdInv s) (hp : s.proc p = some P) :
    ∃ s', processExit s p P = some s' ∧ FdInv s' ∧ ExitSpec s p P s' ∧ Only s s' p none := by
  have hok := h.proc p P hp
  obtain ⟨fs, hall, hacc, hdevice, hclosed, hfiles, hview⟩ := closeAll_some h.accounts hok.nodup hok.live
  have hfs : ∀ g ∈ s.fs.files, g ∉ P.files → g ∈ fs.files ∧ fs.view g = s.fs.view g := by
    intro g hg hgP
    have hmem := (hfiles g).mpr ⟨hg, hgP⟩
    exact ⟨hmem, hview g hmem⟩
  refine ⟨{ s with fs }.setProc p none, by rw [processExit_eq, hall]; rfl, ?_, ?_, rfl, rfl⟩
  · refine h.update hp none hacc (fun Q hQ => by cases hQ) ?_
    exact fun g hg hgP => ⟨(hfs g hg hgP).1, by rw [(hfs g hg hgP).2]⟩
  · refine ⟨hclosed, hok.nodup, hfiles, ?_, hdevice, rfl⟩
    intro q x
    rw [h.table_setProc hp none (fun g hg hgP => (hfs g hg hgP).2)]
    rfl

/-! ## Every step -/

/-- A call on the console, or on a descriptor that is not open, leaves files and threads alone; the latter fails and
    changes nothing. -/
theorem call_unopened (s : State) (p : Nat) (fmt : Format) (hfd : c.fd = some fd)
    (hfind : Keyed.find FdElem.fd P.fdList fd = none) :
    ∃ console r, call fmt s p P c = some ({ s with console }, r) ∧
      (fd ≠ 0 → fd ≠ 1 → console = s.console ∧ r = { eax := -1 }) := by
  have hnone : ∀ found, ∃ console r, withFd s P fd found = some ({ s with console }, r) ∧
      (fd ≠ 0 → fd ≠ 1 → console = s.console ∧ r = { eax := -1 }) :=
    fun found => ⟨s.console, _, withFd_none hfind found, fun _ _ => ⟨rfl, rfl⟩⟩
  cases c with
  | sysOpen name f a b => cases hfd
  | sysFilesize x | sysSeek x position | sysTell x | sysClose x =>
    cases hfd
    exact hnone _
  | sysRead x size key =>
    cases hfd
    show ∃ console r, readW s P fd size key = some ({ s with console }, r) ∧ _
    unfold readW
    split
    · exact ⟨s.console, { eax := key.toNat }, rfl, fun h0 => absurd ‹fd = 0› h0⟩
    · exact hnone _
  | sysWrite x buffer size =>
    cases hfd
    show ∃ console r, writeW s P fd buffer size = some ({ s with console }, r) ∧ _
    unfold writeW
    split
    · exact ⟨_, { eax := size }, rfl, fun _ h1 => absurd ‹fd = 1› h1⟩
    · exact hnone _

end

/-- Descriptor `fd` of process `p` has been returned by `open` and is not open. -/
structure Spent (s : State) (p : Nat) (fd : Int) : Prop where
  pid : p < s.nextPid
  used : ∀ P, s.proc p = some P → fd ∈ P.used
  table : s.table p fd = none

section
variable {s s' : State} {p : Nat} {P : Proc}

/-- A step that changes the thread of process `p` keeps what is spent, if no such descriptor is opened again. -/
theorem Spent.only (h : Spent s q fd) (hp : s.proc p = some P) {P' : Option Proc}
    (honly : Only s s' p P') (hused : ∀ Q, P' = some Q → ∀ x ∈ P.used, x ∈ Q.used)
    (htable : s'.table q fd = none) : Spent s' q fd := by
  have hproc : s'.proc q = if q = p then P' else s.proc q := congrFun honly.1 q
  refine ⟨by rw [honly.2]; exact h.pid, ?_, htable⟩
  grind [h.used]

/-- Setting an entry that is there, or one that was never used, does not bring a spent descriptor back. -/
theorem Spent.sets {F : Option OpenFile} (h : Spent s q fd)
    (hsets : Sets s s' p x F device) (hx : s.table p x ≠ none ∨ ∀ P, s.proc p = some P → x ∉ P.used)
    (hp : s.proc p = some P) : s'.table q fd = none := by
  have hused := h.used P
  have htable := h.table
  rw [hsets.table]
  unfold Table.set
  grind

/-- **Every call returns**, keeps the invariant and brings no spent descriptor back. -/
theorem FdInv.call (h : FdInv s) (hp : s.proc p = some P) (fmt : Format) (hallowed : Allowed s P c) :
    ∃ s' r, call fmt s p P c = some (s', r) ∧ FdInv s' ∧ ∀ q fd, Spent s q fd → Spent s' q fd := by
  cases hfd : c.fd with
  | none =>
    cases c with
    | sysOpen name f a b =>
      obtain ⟨s', r, hcall, hinv, hspec, P', honly, hused⟩ := h.openW hp fmt hallowed
      refine ⟨s', r, hcall, hinv, ?_⟩
      intro q fd hspent
      refine hspent.only hp honly (fun Q hQ => by cases hQ; exact hused) ?_
      unfold OpenSpec at hspec
      split at hspec
      · rw [hspec.2.1]; exact hspent.table
      · refine hspent.sets hspec.2.2.2 (.inr ?_) hp
        intro Q hQ
        rw [hp] at hQ
        cases hQ
        exact hspec.2.1
    | _ => cases hfd
  | some fd =>
    cases hfind : Keyed.find FdElem.fd P.fdList fd with
    | none =>
      obtain ⟨console, r, hcall, -⟩ := call_unopened s p fmt hfd hfind
      refine ⟨{ s with console }, r, hcall, ⟨h.accounts, h.proc, h.apart, h.fresh⟩, ?_⟩
      exact fun q x hspent => ⟨hspent.pid, hspent.used, hspent.table⟩
    | some e =>
      obtain ⟨s', r, hcall, hinv, hacts, P', honly, hused⟩ := h.acts hp fmt hallowed hfd hfind
      refine ⟨s', r, hcall, hinv, ?_⟩
      intro q x hspent
      refine hspent.only hp honly (fun Q hQ y hy => by cases hQ; rw [hused]; exact hy) ?_
      have hopen : s.table p fd ≠ none := by
        rw [table_eq hp, hfind]
        intro heq
        cases heq
      have hkeep := fun {F device} (hsets : Sets s s' p fd F device) => hspent.sets hsets (.inl hopen) hp
      cases c with
      | sysOpen name f a b => cases hfd
      | sysFilesize y | sysTell y => rw [hacts.1]; exact hspent.table
      | sysRead y size key =>
        cases hfd
        obtain ⟨_, _, _, hsets⟩ := hacts
        exact hkeep hsets
      | sysWrite y buffer size =>
        cases hfd
        obtain ⟨_, _, _, _, _, hsets⟩ := hacts
        exact hkeep hsets
      | sysSeek y position =>
        cases hfd
        exact hkeep hacts
      | sysClose y =>
        cases hfd
        exact hkeep hacts.2

/-- **Every step keeps the invariant** and brings no spent descriptor back. -/
theorem FdInv.step (h : FdInv s) {a : Action} (hstep : step fmt s a = some s') :
    FdInv s' ∧ ∀ q fd, Spent s q fd → Spent s' q fd := by
  cases a with
  | start =>
    cases hstep
    have hnew : newProc.files = [] := rfl
    have hok : ProcOk s.fs newProc := by
      refine ⟨nodup_nil, ?_, ?_, by decide, ?_, ?_, nodup_nil⟩ <;> intro x hx <;> cases hx
    constructor
    · constructor
      case accounts => exact h.accounts
      case proc => grind [h.proc, State.setProc]
      case apart =>
        have := h.apart
        grind
      case fresh =>
        have := h.fresh
        grind [State.setProc]
    · intro q fd hspent
      have hne : q ≠ s.nextPid := Nat.ne_of_lt hspent.pid
      have hproc : ({ s with nextPid := s.nextPid + 1 }.setProc s.nextPid (some newProc)).proc q = s.proc q :=
        if_neg hne
      refine ⟨Nat.lt_succ_of_lt hspent.pid, by rw [hproc]; exact hspent.used, ?_⟩
      have htable := hspent.table
      unfold State.table at htable ⊢
      rw [hproc]
      exact htable
  | load p name f a b =>
    obtain ⟨P, hp, hstep⟩ := Option.bind_eq_some_iff.mp hstep
    split at hstep
    · rename_i hcond
      obtain ⟨t, hload, hinv, htable, P', honly, hused⟩ := h.loadOpen hp hcond.1 fmt name hcond.2
      rw [hload] at hstep
      cases hstep
      refine ⟨hinv, fun q fd hspent => ?_⟩
      exact hspent.only hp honly (fun Q hQ y hy => by cases hQ; rw [hused]; exact hy)
        (by rw [htable]; exact hspent.table)
    · cases hstep
  | call p c =>
    obtain ⟨P, hp, hstep⟩ := Option.bind_eq_some_iff.mp hstep
    split at hstep
    · rename_i hallowed
      obtain ⟨t, r, hcall, hinv, hspent⟩ := h.call hp fmt hallowed
      rw [hcall] at hstep
      cases hstep
      exact ⟨hinv, hspent⟩
    · cases hstep
  | exit p =>
    obtain ⟨P, hp, hstep⟩ := Option.bind_eq_some_iff.mp hstep
    obtain ⟨t, hexit, hinv, hspec, honly⟩ := h.processExit hp
    rw [hexit] at hstep
    cases hstep
    refine ⟨hinv, fun q fd hspent => ?_⟩
    refine hspent.only hp honly (fun Q hQ => by cases hQ) ?_
    rw [hspec.table]
    split
    · rfl
    · exact hspent.table

end

theorem fdInv_init (fmt : Format) (device : Device) : FdInv (init fmt device) := by
  refine ⟨⟨nodup_singleton _, ?_, nodup_singleton _, ?_, ?_, ?_, ?_, ?_, ?_⟩, ?_, ?_, fun _ _ => rfl⟩ <;>
    simp [init, openers, deniers]

/-! ## The result -/

/-- Any sequence of steps. -/
abbrev Runs (fmt : Format) := Lts.Reaches (step fmt) (fun _ _ => True)

/-- What descriptors are like in a state, and what calls and `process_exit` do from there. -/
structure FdTables (fmt : Format) (s : State) : Prop where
  descriptors : ∀ p P, s.proc p = some P →
    (P.fdList.map FdElem.fd).Nodup ∧ ∀ e ∈ P.fdList, 2 ≤ e.fd ∧ e.fd < P.nextFd
  opens : ∀ p P name f a b, s.proc p = some P → Allowed s P (.sysOpen name f a b) →
    ∃ s' r, call fmt s p P (.sysOpen name f a b) = some (s', r) ∧ OpenSpec fmt s p P name s' r
  acts : ∀ p P c fd F, s.proc p = some P → Allowed s P c → c.fd = some fd → s.table p fd = some F →
    ∃ s' r, call fmt s p P c = some (s', r) ∧ Acts s p F s' r c
  fails : ∀ p P c fd, s.proc p = some P → c.fd = some fd → fd ≠ 0 → fd ≠ 1 → s.table p fd = none →
    call fmt s p P c = some (s, { eax := -1 })
  unopened : ∀ p P fd, s.proc p = some P → fd ∉ P.used → s.table p fd = none
  spent : ∀ p P fd, s.proc p = some P → fd ∈ P.used → s.table p fd = none →
    ∀ s', Runs fmt s s' → s'.table p fd = none
  exits : ∀ p P, s.proc p = some P → ∃ s', processExit s p P = some s' ∧ ExitSpec s p P s'

theorem FdInv.fdTables {s : State} (h : FdInv s) (fmt : Format) : FdTables fmt s := by
  constructor
  · intro p P hp
    have hok := h.proc p P hp
    exact ⟨hok.distinct, fun e he => hok.range _ (hok.used e he)⟩
  · intro p P name f a b hp hallowed
    obtain ⟨s', r, hcall, _, hspec, _⟩ := h.openW hp fmt hallowed
    exact ⟨s', r, hcall, hspec⟩
  · intro p P c fd F hp hallowed hfd hF
    rw [table_eq hp] at hF
    obtain ⟨e, hfind, rfl⟩ := Option.map_eq_some_iff.mp hF
    obtain ⟨s', r, hcall, _, hacts, _⟩ := h.acts hp fmt hallowed hfd hfind
    exact ⟨s', r, hcall, hacts⟩
  · intro p P c fd hp hfd h0 h1 hnone
    rw [table_eq hp, map_eq_none_iff] at hnone
    obtain ⟨console, r, hcall, hsame⟩ := call_unopened s p fmt hfd hnone
    obtain ⟨rfl, rfl⟩ := hsame h0 h1
    exact hcall
  · intro p P fd hp hunused
    rw [table_eq hp, map_eq_none_iff, Keyed.find_eq_none]
    rintro e he rfl
    exact hunused ((h.proc p P hp).used e he)
  · intro p P fd hp hused hnone s' hrun
    have hpid : p < s.nextPid := by
      by_contra hle
      have hfresh := h.fresh p (by omega)
      rw [hp] at hfresh
      cases hfresh
    have hspent : Spent s p fd := by
      refine ⟨hpid, ?_, hnone⟩
      intro Q hQ
      rw [hp] at hQ
      cases hQ
      exact hused
    have hlater := hrun.invariant (I := fun t => FdInv t ∧ Spent t p fd) ⟨h, hspent⟩ (by
      rintro t u a ⟨hinv, hsp⟩ _ hstep
      obtain ⟨hinv', hkeep⟩ := hinv.step hstep
      exact ⟨hinv', hkeep p fd hsp⟩)
    exact hlater.2.table
  · intro p P hp
    obtain ⟨s', hexit, _, hspec, _⟩ := h.processExit hp
    exact ⟨s', hexit, hspec⟩

/-- **File descriptors.** On any device, and after any sequence of calls by any processes: descriptors are distinct
    and lie in `[2, next_fd)`; `open` gives a new one; a call acts on the file of its descriptor and on no other; a
    descriptor that was closed or never opened fails for good; and `process_exit` closes each file once. -/
theorem fd_tables (fmt : Format) (device : Device) {s : State} (h : Runs fmt (init fmt device) s) : FdTables fmt s := by
  have hinv := h.invariant (I := FdInv) (fdInv_init fmt device) (fun hinv _ hstep => (hinv.step hstep).1)
  exact hinv.fdTables fmt

/-- One file of three bytes, named `a`, in sector 2 of the device. -/
def oneFile : Format where
  lookup := fun _ _ name => if name = [97] then some 2 else none
  inodeDisk := fun _ _ => ⟨3, 3, by decide⟩

/-- Two processes open the file; the first one reads from it, closes it and tries to read once more. -/
def twoReaders : List Action :=
  [.start, .start, .call 0 (.sysOpen [97] 5 6 7), .call 1 (.sysOpen [97] 8 9 10), .call 0 (.sysRead 2 2 0),
   .call 0 (.sysClose 2), .call 0 (.sysRead 2 1 0)]

/-- Then the first process has no descriptor 2, and the second has it at position 0. -/
theorem fd_tables_twoReaders :
    ∃ s, Lts.run (step oneFile) (fun _ _ => True) (init oneFile (fun _ => 1)) twoReaders = some s ∧
      s.table 0 2 = none ∧ (s.table 1 2).map OpenFile.pos = some 0 ∧ s.fs.closed = [5] ∧ FdTables oneFile s := by
  have hrun : ∃ s, Lts.run (step oneFile) (fun _ _ => True) (init oneFile (fun _ => 1)) twoReaders = some s ∧
      (s.table 0 2).isNone = true ∧ (s.table 1 2).map OpenFile.pos = some 0 ∧ s.fs.closed = [5] :=
    ⟨_, rfl, by decide +kernel, by decide +kernel, by decide +kernel⟩
  obtain ⟨s, hs, hfirst, hsecond, hclosed⟩ := hrun
  refine ⟨s, hs, Option.isNone_iff_eq_none.mp hfirst, hsecond, hclosed, ?_⟩
  exact fd_tables oneFile (fun _ => 1) (Lts.reaches_of_run twoReaders Lts.Reaches.refl hs)

end Fd
end Asg1
