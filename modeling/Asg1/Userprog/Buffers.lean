import Asg1.Userprog.UserMem

/-!
# `Userprog.Buffers` — the buffers and names of system calls

`read_w`, `write_w`, `create_w`, `remove_w`, `open_w` and `exec_w` get a pointer from the user. `valid_ptr` looks at the one
address it is given. What is read or written after that is a buffer of any size, or a string up to its zero byte.

What the file system does with a call is left open: how many bytes it transfers, which bytes of a name it reads once more
after `strlen`, and what it returns.

`protected_iff` says exactly when a call keeps to the memory of the process.
-/

namespace Asg1
namespace Buffers

open Pte UserMem

/-- What `read` reads from: the key that `input_getc` returns, the bytes of a file from its position on, or no file. -/
inductive Input
  | console (key : UInt8)
  | file (data : List UInt8)
  | missing

/-- What `write` writes to: the console, a file with room for some bytes after its position, or no file. -/
inductive Output
  | console
  | file (room : Nat)
  | missing

/-- What is done with a name after `strlen`: some of its bytes are read again, and there is a result. -/
structure Answer where
  again : List Nat
  result : Word

/-! ## The functions of `syscall.c`

`file_read` and `file_write` get the size as an `off_t`. -/

def readW (sp : Space) (fd : Input) (buffer size : Word) : Kern Word :=
  if ¬ validPtr sp buffer then threadExit
  else match fd with
  | .console key => return BitVec.ofNat 32 key.toNat
  | .missing => return -1
  | .file data => do
      copyOut sp (data.take size.toInt.toNat) buffer
      return BitVec.ofNat 32 (data.take size.toInt.toNat).length

def writeW (sp : Space) (fd : Output) (buffer size : Word) : Kern Word :=
  if ¬ validPtr sp buffer then threadExit
  else match fd with
  | .console => do
      printf sp buffer
      return size
  | .missing => return -1
  | .file room => do
      let bytes ← copyIn sp (min room size.toInt.toNat) buffer
      return BitVec.ofNat 32 bytes.length

/-- Reading bytes of a name of `length` bytes, and its zero byte, once more. -/
def reread (sp : Space) (name : Word) (length : Nat) : List Nat → Kern Unit
  | [] => pure ()
  | i :: again => do
      let _ ← load sp (offset name (min i length))
      reread sp name length again

/-- What the calls with a file name have in common. They differ in what becomes of an empty name. -/
def withName (sp : Space) (fileName : Word) (empty : Kern Word) (u : Answer) : Kern Word :=
  if ¬ validPtr sp fileName then threadExit
  else do
    let length ← strlen sp fileName
    if length = 0 then empty
    else do
      reread sp fileName length u.again
      return u.result

def createW (sp : Space) (fileName : Word) (u : Answer) : Kern Word := withName sp fileName threadExit u

def removeW (sp : Space) (fileName : Word) (u : Answer) : Kern Word := withName sp fileName (pure (-1)) u

def openW (sp : Space) (fileName : Word) (u : Answer) : Kern Word := withName sp fileName (pure (-1)) u

/-- `exec_w` and the start of `process_execute`, which takes two pages and copies the string. -/
def execW (sp : Space) (cmdLine : Word) (pages : Bool) (u : Answer) : Kern Word :=
  if ¬ validPtr sp cmdLine then threadExit
  else if pages = false then return -1
  else do
    let length ← strlen sp cmdLine
    reread sp cmdLine length u.again
    return u.result

/-- The system calls with a pointer. -/
inductive Call
  | read (fd : Input) (buffer size : Word)
  | write (fd : Output) (buffer size : Word)
  | create (fileName : Word) (u : Answer)
  | remove (fileName : Word) (u : Answer)
  | open (fileName : Word) (u : Answer)
  | exec (cmdLine : Word) (pages : Bool) (u : Answer)

def sysCall (sp : Space) : Call → Kern Word
  | .read fd buffer size => readW sp fd buffer size
  | .write fd buffer size => writeW sp fd buffer size
  | .create fileName u => createW sp fileName u
  | .remove fileName u => removeW sp fileName u
  | .open fileName u => openW sp fileName u
  | .exec cmdLine pages u => execW sp cmdLine pages u

def Call.pointer : Call → Word
  | .read _ buffer _ => buffer
  | .write _ buffer _ => buffer
  | .create fileName _ => fileName
  | .remove fileName _ => fileName
  | .open fileName _ => fileName
  | .exec cmdLine _ _ => cmdLine

/-! ## What a call should keep to -/

/-- All bytes that the call is about are the user's: those of the buffer, or those of the name up to its zero byte. -/
def Call.RangeOk (sp : Space) (mem : Mem) : Call → Prop
  | .read _ buffer size => ∀ i < size.toNat, sp.Writable (offset buffer i)
  | .write _ buffer size => ∀ i < size.toNat, sp.Readable (offset buffer i)
  | .create fileName _ => NameReadable sp mem fileName
  | .remove fileName _ => NameReadable sp mem fileName
  | .open fileName _ => NameReadable sp mem fileName
  | .exec cmdLine _ _ => NameReadable sp mem cmdLine

/-- **The process is protected from the kernel and the kernel from the process.** Only bytes of the user are touched, and a
    call about other bytes ends the process and changes nothing. -/
structure Protected (sp : Space) (mem : Mem) (c : Call) : Prop where
  touches : (sysCall sp c).Clean (Event.Allowed sp) mem
  terminates : ¬ c.RangeOk sp mem →
    (sysCall sp c mem).outcome = .error (.exit (-1)) ∧ (sysCall sp c mem).state = mem

/-- What is printed ends at a zero byte, whatever the size. -/
def Call.PrintOk (sp : Space) (mem : Mem) : Call → Prop
  | .write .console buffer _ => buffer = 0#32 ∨ NameReadable sp mem buffer
  | _ => True

/-- **The condition.** The first byte is not the user's, or all of them are. -/
def Call.Covered (sp : Space) (mem : Mem) (c : Call) : Prop :=
  ¬ validPtr sp c.pointer ∨ (c.RangeOk sp mem ∧ c.PrintOk sp mem)

/-! ## The calls -/

section
variable {sp : Space} {mem : Mem} {c : Call} {p buffer size : Word} {u : Answer}

/-- A pointer that is not valid ends the process. -/
theorem sysCall_invalid (h : ¬ validPtr sp c.pointer) : sysCall sp c = threadExit := by
  cases c <;> exact if_pos h

theorem readW_console {key : UInt8} (h : validPtr sp buffer) :
    readW sp (.console key) buffer size = pure (BitVec.ofNat 32 key.toNat) := if_neg (not_not_intro h)

theorem readW_missing (h : validPtr sp buffer) : readW sp .missing buffer size = pure (-1) := if_neg (not_not_intro h)

theorem readW_file {data : List UInt8} (h : validPtr sp buffer) :
    readW sp (.file data) buffer size = (do
      copyOut sp (data.take size.toInt.toNat) buffer
      return BitVec.ofNat 32 (data.take size.toInt.toNat).length) := if_neg (not_not_intro h)

theorem writeW_console (h : validPtr sp buffer) :
    writeW sp .console buffer size = (do
      printf sp buffer
      return size) := if_neg (not_not_intro h)

theorem writeW_missing (h : validPtr sp buffer) : writeW sp .missing buffer size = pure (-1) := if_neg (not_not_intro h)

theorem writeW_file {room : Nat} (h : validPtr sp buffer) :
    writeW sp (.file room) buffer size = (do
      let bytes ← copyIn sp (min room size.toInt.toNat) buffer
      return BitVec.ofNat 32 bytes.length) := if_neg (not_not_intro h)

theorem execW_no_pages (h : validPtr sp p) : execW sp p false u = pure (-1) := if_neg (not_not_intro h)

theorem execW_pages (h : validPtr sp p) :
    execW sp p true u = (do
      let length ← strlen sp p
      reread sp p length u.again
      return u.result) := if_neg (not_not_intro h)

theorem clean_reread {length : Nat} {again : List Nat} (h : ∀ i ≤ length, sp.Readable (offset p i)) :
    (reread sp p length again).Clean (Event.Allowed sp) mem := by
  induction again with
  | nil => exact Logged.clean_pure
  | cons i again ih =>
    rw [reread, clean_load]
    exact ⟨h _ (Nat.min_le_right i length), ih⟩

/-- Reading a name, and then something that keeps to it. -/
theorem clean_strlen_bind {f : Nat → Kern Word}
    (hf : ∀ n, (∀ i ≤ n, sp.Readable (offset p i)) → (f n).Clean (Event.Allowed sp) mem) :
    (strlen sp p >>= f).Clean (Event.Allowed sp) mem ↔ NameReadable sp mem p := by
  constructor
  · exact fun h => clean_strlen.mp h.left
  · intro h
    obtain ⟨n, t, hrun, -, -, hread⟩ := h.strlen_run
    exact (Logged.clean_bind_ok hrun).mpr ⟨clean_strlen.mpr h, hf n hread⟩

theorem clean_withName {empty : Kern Word} (hvalid : validPtr sp p) (hempty : empty.Clean (Event.Allowed sp) mem) :
    (withName sp p empty u).Clean (Event.Allowed sp) mem ↔ NameReadable sp mem p := by
  rw [withName, if_neg (not_not_intro hvalid)]
  refine clean_strlen_bind fun n hread => ?_
  split
  · exact hempty
  · rw [Logged.clean_bind_left (fun _ _ => Logged.clean_pure)]
    exact clean_reread hread

/-- A transfer by a file has at most `size` bytes. -/
theorem transfer_le (n : Nat) : min n size.toInt.toNat ≤ size.toNat := (Nat.min_le_right _ _).trans (toInt_toNat_le size)

theorem take_length_le (data : List UInt8) : (data.take size.toInt.toNat).length ≤ size.toNat := by
  rw [List.length_take]
  exact (Nat.min_le_left _ _).trans (toInt_toNat_le size)

/-- `printf` of a buffer: a pointer that is null does not reach the user's memory. -/
theorem clean_print : (printf sp buffer).Clean (Event.Allowed sp) mem ↔ buffer = 0#32 ∨ NameReadable sp mem buffer := by
  by_cases hnull : buffer = 0#32
  · refine iff_of_true ?_ (.inl hnull)
    rw [hnull, Logged.clean_of_run printf_null]
    intro e he
    obtain ⟨c, -, rfl⟩ := List.mem_map.mp he
    trivial
  · rw [clean_printf hnull]
    exact (or_iff_right hnull).symm

/-- The accesses of `exec_w` keep to the string if it may be read. -/
theorem clean_execW (hvalid : validPtr sp p) :
    (execW sp p true u).Clean (Event.Allowed sp) mem ↔ NameReadable sp mem p := by
  rw [execW_pages hvalid]
  refine clean_strlen_bind fun n hread => ?_
  rw [Logged.clean_bind_left (fun _ _ => Logged.clean_pure)]
  exact clean_reread hread

/-- **When all bytes are the user's, only those are touched.** -/
theorem clean_of_covered (hvalid : validPtr sp c.pointer) (hrange : c.RangeOk sp mem) (hprint : c.PrintOk sp mem) :
    (sysCall sp c).Clean (Event.Allowed sp) mem := by
  cases c with
  | read fd buffer size =>
    rw [Call.pointer] at hvalid
    cases fd with
    | console key =>
      rw [sysCall, readW_console hvalid]
      exact Logged.clean_pure
    | missing =>
      rw [sysCall, readW_missing hvalid]
      exact Logged.clean_pure
    | file data =>
      rw [sysCall, readW_file hvalid, Logged.clean_bind_left (fun _ _ => Logged.clean_pure), clean_copyOut]
      exact fun i hi => hrange i (hi.trans_le (take_length_le data))
  | write fd buffer size =>
    rw [Call.pointer] at hvalid
    cases fd with
    | console =>
      rw [sysCall, writeW_console hvalid, Logged.clean_bind_left (fun _ _ => Logged.clean_pure), clean_print]
      exact hprint
    | missing =>
      rw [sysCall, writeW_missing hvalid]
      exact Logged.clean_pure
    | file room =>
      rw [sysCall, writeW_file hvalid, Logged.clean_bind_left (fun _ _ => Logged.clean_pure), clean_copyIn]
      exact fun i hi => hrange i (hi.trans_le (transfer_le room))
  | create fileName u => exact (clean_withName hvalid Logged.clean_stop).mpr hrange
  | remove fileName u => exact (clean_withName hvalid Logged.clean_pure).mpr hrange
  | «open» fileName u => exact (clean_withName hvalid Logged.clean_pure).mpr hrange
  | exec cmdLine pages u =>
    rw [Call.pointer] at hvalid
    cases pages with
    | false =>
      rw [sysCall, execW_no_pages hvalid]
      exact Logged.clean_pure
    | true => exact (clean_execW hvalid).mpr hrange

/-- A call about a buffer that touches only the user's bytes returns. -/
theorem outcome_bind_pure {α β : Type} {x : Kern α} {g : α → β} {a : α} {mem' : Mem} {t : List Event}
    (h : x mem = ⟨.ok a, mem', t⟩) : ((x >>= fun a => pure (g a)) mem).outcome = .ok (g a) := by
  rw [Logged.bind_ok h]
  rfl

theorem readW_returns {fd : Input} (hvalid : validPtr sp buffer)
    (h : (readW sp fd buffer size).Clean (Event.Allowed sp) mem) : ∃ v, (readW sp fd buffer size mem).outcome = .ok v := by
  cases fd with
  | console key => exact ⟨_, by rw [readW_console hvalid]; rfl⟩
  | missing => exact ⟨_, by rw [readW_missing hvalid]; rfl⟩
  | file data =>
    rw [readW_file hvalid] at h ⊢
    obtain ⟨mem', t, hrun⟩ := @copyOut_run sp mem buffer _ fun i hi => (clean_copyOut.mp h.left i hi).2
    exact ⟨_, outcome_bind_pure hrun⟩

theorem writeW_returns {fd : Output} (hvalid : validPtr sp buffer)
    (h : (writeW sp fd buffer size).Clean (Event.Allowed sp) mem) :
    ∃ v, (writeW sp fd buffer size mem).outcome = .ok v := by
  cases fd with
  | missing => exact ⟨_, by rw [writeW_missing hvalid]; rfl⟩
  | file room =>
    rw [writeW_file hvalid] at h ⊢
    obtain ⟨t, hrun⟩ := @copyIn_run sp mem buffer _ fun i hi => (clean_copyIn.mp h.left i hi).2
    exact ⟨_, outcome_bind_pure hrun⟩
  | console =>
    rw [writeW_console hvalid] at h ⊢
    by_cases hnull : buffer = 0#32
    · rw [hnull]
      exact ⟨_, outcome_bind_pure printf_null⟩
    · obtain ⟨n, hcounts, -⟩ := ((clean_printf hnull).mp h.left).counts
      obtain ⟨t, hrun, -⟩ := printf_run hnull hcounts
      exact ⟨_, outcome_bind_pure hrun⟩

/-- A call that returns has not ended the process, so its bytes must have been the user's. -/
theorem Protected.range_of_ok (h : Protected sp mem c) {v : Word} (hok : (sysCall sp c mem).outcome = .ok v) :
    c.RangeOk sp mem := by
  by_contra hrange
  cases hok.symm.trans (h.terminates hrange).1

/-- **When a call keeps to the memory of the process.** -/
theorem protected_iff_covered : Protected sp mem c ↔ c.Covered sp mem := by
  by_cases hvalid : validPtr sp c.pointer
  · refine Iff.trans ?_ (or_iff_right (not_not_intro hvalid)).symm
    refine ⟨fun h => ?_, fun h => ⟨clean_of_covered hvalid h.1 h.2, fun hrange => absurd h.1 hrange⟩⟩
    have htouches := h.touches
    cases c with
    | read fd buffer size =>
      obtain ⟨v, hok⟩ := readW_returns hvalid htouches
      exact ⟨h.range_of_ok hok, trivial⟩
    | write fd buffer size =>
      rw [Call.pointer] at hvalid
      obtain ⟨v, hok⟩ := writeW_returns hvalid htouches
      refine ⟨h.range_of_ok hok, ?_⟩
      cases fd with
      | console =>
        rw [sysCall, writeW_console hvalid] at htouches
        exact clean_print.mp htouches.left
      | missing => trivial
      | file room => trivial
    | create fileName u => exact ⟨(clean_withName hvalid Logged.clean_stop).mp htouches, trivial⟩
    | remove fileName u => exact ⟨(clean_withName hvalid Logged.clean_pure).mp htouches, trivial⟩
    | «open» fileName u => exact ⟨(clean_withName hvalid Logged.clean_pure).mp htouches, trivial⟩
    | exec cmdLine pages u =>
      rw [Call.pointer] at hvalid
      cases pages with
      | false =>
        have hok : (sysCall sp (.exec cmdLine false u) mem).outcome = .ok (-1) := by
          rw [sysCall, execW_no_pages hvalid]
          rfl
        exact ⟨h.range_of_ok hok, trivial⟩
      | true => exact ⟨(clean_execW hvalid).mp htouches, trivial⟩
  · refine iff_of_true ⟨?_, fun _ => ?_⟩ (.inl hvalid)
    · rw [sysCall_invalid hvalid]
      exact Logged.clean_stop
    · rw [sysCall_invalid hvalid]
      exact ⟨rfl, rfl⟩

end

/-- **Buffers and names that are not protected.** A file of two bytes is read to the last byte of the last mapped page: the
    first byte is stored, and the kernel panics at the second. At the end of the user's part of the address space the
    second byte goes into the kernel. A name without a zero byte before the end of the page is a panic too. -/
theorem buffers_leave_user_memory :
    ((sysCall (oneUserPage 0x8048 false) (.read (.file [7, 8]) 0x08048fff#32 2#32) fun _ => 97).outcome =
        .error (.fault 0x08049000#32) ∧
      (sysCall (oneUserPage 0x8048 false) (.read (.file [7, 8]) 0x08048fff#32 2#32) fun _ => 97).state 0x08048fff#32 = 7 ∧
      ¬ Protected (oneUserPage 0x8048 false) (fun _ => 97) (.read (.file [7, 8]) 0x08048fff#32 2#32)) ∧
    ((sysCall (oneUserPage 0xbffff true) (.read (.file [7, 8]) 0xbfffffff#32 2#32) fun _ => 97).outcome = .ok 2#32 ∧
      (sysCall (oneUserPage 0xbffff true) (.read (.file [7, 8]) 0xbfffffff#32 2#32) fun _ => 97).state 0xc0000000#32 = 8 ∧
      ¬ Protected (oneUserPage 0xbffff true) (fun _ => 97) (.read (.file [7, 8]) 0xbfffffff#32 2#32)) ∧
    ¬ Protected (oneUserPage 0x8048 false) (fun _ => 97) (.open 0x08048fff#32 ⟨[], 2#32⟩) := by
  have hlast : ∀ n : Nat, ¬ ∀ i < (2#32 : Word).toNat, (oneUserPage n true).Writable (offset 0xbfffffff#32 i) :=
    fun n h => absurd (h 1 (by decide)).1 (by decide)
  refine ⟨⟨rfl, rfl, fun h => ?_⟩, ⟨rfl, rfl, fun h => ?_⟩, fun h => ?_⟩
  · have hrange : ¬ Call.RangeOk (oneUserPage 0x8048 false) (fun _ => 97) (.read (.file [7, 8]) 0x08048fff#32 2#32) :=
      fun h => absurd (h 1 (by decide)).2 (by decide)
    cases (h.terminates hrange).1
  · cases (h.terminates (hlast _)).1
  · obtain ⟨n, hzero, -⟩ := (clean_withName (show validPtr (oneUserPage 0x8048 false) 0x08048fff#32 by decide)
      Logged.clean_pure).mp h.touches
    cases hzero

end Buffers
end Asg1
