import Asg1.Filesys.Ownership

/-!
# `Userprog.IntArgs` — sizes and positions in system calls

`create_w`, `seek_w`, `read_w` and `write_w` take 32-bit numbers without a sign from the user and hand them to functions
that take an `off_t`, which has one. From 2³¹ on they arrive there as negative numbers. `file_read` and `file_write`
transfer nothing then. `inode_create` and `file_seek` assert that the number is not negative: the assertion of `file_seek`
can be failed by anybody with an open file, that of `inode_create` if the root directory can be opened and there is a free
sector.

The descriptors here are those of files; the console is in `Userprog.Console`.
-/

namespace Asg1
namespace IntArgs

open Filesys Flat Volume

/-- What the search for a descriptor in `fd_list` has found. -/
inductive Desc
  | file (theFile : Addr)
  | missing

/-- The system calls with a size or a position. A name is a string of the user, without its zero byte; a buffer is the
    memory from the buffer's address on. -/
inductive SysCall
  | create (fileName : List UInt8) (initialSize : BitVec 32)
  | seek (fd : Desc) (position : BitVec 32)
  | read (fd : Desc) (size : BitVec 32)
  | write (fd : Desc) (buffer : Nat → UInt8) (size : BitVec 32)

/-- How a system call ends: with `thread_exit`, or with a number in `eax`. -/
inductive Ret
  | exit
  | eax (value : BitVec 32)

/-! The conversion of `unsigned int` to `off_t` is `BitVec.toInt`. -/

/-- `create_w`, for a pointer that is valid. -/
def createW (fileName : List UInt8) (initialSize : BitVec 32) : K Ret :=
  if fileName.length = 0 then return .exit
  else do
    let result ← filesysCreate fileName initialSize.toInt
    return .eax (if result then 1 else 0)

/-- `seek_w` -/
def seekW (fd : Desc) (position : BitVec 32) : K Ret :=
  match fd with
  | .missing => return .eax (-1)
  | .file f => do
      onFs (fileSeek · f position.toInt)
      return .eax (-1)

/-- `read_w`, for a buffer that is valid. -/
def readW (fd : Desc) (size : BitVec 32) : K Ret :=
  match fd with
  | .missing => return .eax (-1)
  | .file f => do
      let buffer ← Volume.fileRead f size.toInt
      return .eax (BitVec.ofNat 32 buffer.length)

/-- `write_w`, for a buffer that is valid. `file_write` gets the bytes that it may read. -/
def writeW (fd : Desc) (buffer : Nat → UInt8) (size : BitVec 32) : K Ret :=
  match fd with
  | .missing => return .eax (-1)
  | .file f => do
      let n ← Volume.fileWrite f (slice buffer 0 size.toInt.toNat) size.toInt
      return .eax (BitVec.ofNat 32 n)

def sysCall : SysCall → K Ret
  | .create fileName initialSize => createW fileName initialSize
  | .seek fd position => seekW fd position
  | .read fd size => readW fd size
  | .write fd buffer size => writeW fd buffer size

/-- A descriptor that was found is that of a file which the process has open. -/
def Desc.Open (s : Vol) : Desc → Prop
  | .file f => User s f
  | .missing => True

def SysCall.Open (s : Vol) : SysCall → Prop
  | .create _ _ => True
  | .seek fd _ => fd.Open s
  | .read fd _ => fd.Open s
  | .write fd _ _ => fd.Open s

/-! ## What a call should come to -/

/-- A transfer of `n` of `size` bytes: it ends within the file, and moves the position. -/
structure Transfers (s s' : Vol) (f : Addr) (size : BitVec 32) (n : Nat) : Prop where
  short : n ≤ size.toNat
  inside : n = 0 ∨ (s.file f).pos + n ≤ (s.dataOf f).length
  pos : (s'.file f).pos = (s.file f).pos + n
  no_overflow : (s.file f).pos + n < 2 ^ 31

/-- The result, for each call. A file can only be created if its bytes fit the device. -/
def SysCall.Result (s s' : Vol) (r : Ret) : SysCall → Prop
  | .create fileName initialSize =>
    (fileName = [] ∧ r = .exit) ∨ r = .eax 0 ∨ (r = .eax 1 ∧ initialSize.toNat ≤ s.blocks * 512)
  | .seek fd position => r = .eax (-1) ∧ ∀ f, fd = .file f → (s'.file f).pos = position.toNat
  | .read fd size => (fd = .missing ∧ r = .eax (-1)) ∨
      ∃ f n, fd = .file f ∧ r = .eax (BitVec.ofNat 32 n) ∧ Transfers s s' f size n
  | .write fd _ size => (fd = .missing ∧ r = .eax (-1)) ∨
      ∃ f n, fd = .file f ∧ r = .eax (BitVec.ofNat 32 n) ∧ Transfers s s' f size n

/-- **The call completes**: no assertion fails, the result is as it should be, and every position is an `off_t` that is
    not negative. -/
def Completes (s : Vol) (c : SysCall) : Prop :=
  ∃ r s', sysCall c s = some (r, s') ∧ c.Result s s' r ∧ ∀ f ∈ s'.files, (s'.file f).pos < 2 ^ 31

/-- **The condition.** A size or a position that is too large for an `off_t` does not reach an assertion. -/
def SysCall.InRange (s : Vol) : SysCall → Prop
  | .create fileName initialSize => initialSize.toNat < 2 ^ 31 ∨ fileName = [] ∨ ¬ Creates s
  | .seek fd position => position.toNat < 2 ^ 31 ∨ fd = .missing
  | .read _ _ => True
  | .write _ _ _ => True

/-! ## The calls -/

section
variable {s s' : Vol} {x : BitVec 32} {f : Addr}

/-- The position after a transfer. -/
theorem transfers_of_avail {device : Device} {mem : List Bool} {n : Nat} (hpos : (s.file f).pos < 2 ^ 31)
    (hle : n ≤ avail (s.dataOf f) x.toInt (s.file f).pos) : Transfers s (s.moved f n device mem) f x n := by
  refine ⟨?_, ?_, ?_, pos_after hpos hle⟩
  · exact Nat.le_trans hle (Nat.le_trans (Nat.min_le_left _ _) (toInt_toNat_le x))
  · have hin := avail_inside hle
    rwa [Int.toNat_natCast] at hin
  · show (if f = f then _ else _ : File).pos = _
    rw [if_pos rfl]

theorem positions_lt (h : Inv s []) : ∀ f ∈ s.files, (s.file f).pos < 2 ^ 31 := h.accounts.pos_lt

theorem read_completes (h : Inv s []) {fd : Desc} (hopen : fd.Open s) (size : BitVec 32) : Completes s (.read fd size) := by
  cases fd with
  | missing => exact ⟨_, s, rfl, .inl ⟨rfl, rfl⟩, positions_lt h⟩
  | file f =>
    obtain ⟨buffer, s', hread, hinv, m, mem, rfl, rfl, hle, -⟩ := h.fileRead hopen.1 (toInt_lt size)
    refine ⟨.eax (BitVec.ofNat 32 m), _, ?_, .inr ⟨f, m, rfl, rfl, ?_⟩, positions_lt hinv⟩
    · rw [sysCall, readW, Proc.bind_run hread, length_slice]
      rfl
    · exact transfers_of_avail (positions_lt h f hopen.1) hle

theorem write_completes (h : Inv s []) {fd : Desc} (hopen : fd.Open s) (buffer : Nat → UInt8) (size : BitVec 32) :
    Completes s (.write fd buffer size) := by
  cases fd with
  | missing => exact ⟨_, s, rfl, .inl ⟨rfl, rfl⟩, positions_lt h⟩
  | file f =>
    have hlength : size.toInt.toNat ≤ (slice buffer 0 size.toInt.toNat).length := by rw [length_slice]
    obtain ⟨n, s', hwrite, hinv, mem, rfl, hle, -, -⟩ := h.fileWrite hopen (toInt_lt size) hlength
    refine ⟨.eax (BitVec.ofNat 32 n), _, ?_, .inr ⟨f, n, rfl, rfl, ?_⟩, positions_lt hinv⟩
    · rw [sysCall, writeW, Proc.bind_run hwrite]
      rfl
    · exact transfers_of_avail (positions_lt h f hopen.1) hle

/-- What has been allocated fits the device. -/
theorem entered_size_le (h : Inv s []) {name : List UInt8} {size sector : Nat} (hsize : size < 2 ^ 31)
    (hentered : Entered s s' name size sector) : size ≤ s.blocks * 512 := by
  obtain ⟨b₁, hfirst, start, hrun, -⟩ := hentered.bits
  have hend := hrun.1
  rw [hfirst.bitCnt, h.layout.bitCnt] at hend
  have hsectors := le_bytesToSectors hsize
  omega

theorem create_completes_iff (h : Inv s []) (name : List UInt8) (size : BitVec 32) :
    Completes s (.create name size) ↔ SysCall.InRange s (.create name size) := by
  by_cases hname : name = []
  · subst hname
    exact ⟨fun _ => .inr (.inl rfl), fun _ => ⟨.exit, s, rfl, .inl ⟨rfl, rfl⟩, positions_lt h⟩⟩
  have hlength : name.length ≠ 0 := fun hzero => hname (List.length_eq_zero_iff.mp hzero)
  have hcall : ∀ {r t}, filesysCreate name size.toInt s = some (r, t) →
      sysCall (.create name size) s = some (.eax (if r then 1 else 0), t) := by
    intro r t hrun
    rw [sysCall, createW, if_neg hlength, Proc.bind_run hrun]
    rfl
  by_cases hsmall : size.toNat < 2 ^ 31
  · refine ⟨fun _ => .inl hsmall, fun _ => ?_⟩
    have hnonneg : 0 ≤ size.toInt := by
      rw [toInt_small hsmall]
      exact Int.natCast_nonneg _
    obtain ⟨r, t, hrun, hinv, -, hcreated⟩ := @Volume.Inv.filesysCreate _ _ name _ h hnonneg (toInt_lt size)
    refine ⟨_, t, hcall hrun, ?_, positions_lt hinv⟩
    cases r with
    | false => exact .inr (.inl rfl)
    | true =>
      obtain ⟨sector, hentered⟩ := hcreated.created rfl
      rw [toInt_small hsmall, Int.toNat_natCast] at hentered
      exact .inr (.inr ⟨rfl, entered_size_le h hsmall hentered⟩)
  · have hneg := toInt_large hsmall
    constructor
    · rintro ⟨r, t, hrun, -⟩
      refine .inr (.inr fun hcreates => ?_)
      have hstuck := filesysCreate_stuck name hneg hcreates
      have hnone : sysCall (.create name size) s = none := by
        rw [sysCall, createW, if_neg hlength]
        show (filesysCreate name size.toInt s).bind _ = none
        rw [hstuck]
        rfl
      rw [hnone] at hrun
      cases hrun
    · rintro (hlt | hempty | hcreates)
      · exact absurd hlt hsmall
      · exact absurd hempty hname
      · obtain ⟨r, t, hrun, rfl, hinv, -⟩ := h.filesysCreate_refused name hneg hcreates
        exact ⟨_, t, hcall hrun, .inr (.inl rfl), positions_lt hinv⟩

theorem seek_completes_iff (h : Inv s []) {fd : Desc} (hopen : fd.Open s) (position : BitVec 32) :
    Completes s (.seek fd position) ↔ SysCall.InRange s (.seek fd position) := by
  cases fd with
  | missing =>
    refine ⟨fun _ => .inr rfl, fun _ => ⟨_, s, rfl, ⟨rfl, ?_⟩, positions_lt h⟩⟩
    intro f hf
    cases hf
  | file f =>
    by_cases hsmall : position.toNat < 2 ^ 31
    · refine ⟨fun _ => .inl hsmall, fun _ => ?_⟩
      have hnonneg : 0 ≤ position.toInt := by
        rw [toInt_small hsmall]
        exact Int.natCast_nonneg _
      obtain ⟨_, t, hrun, hinv, rfl⟩ := h.fileSeek hopen.1 hnonneg (toInt_lt position)
      refine ⟨.eax (-1), _, ?_, ⟨rfl, ?_⟩, positions_lt hinv⟩
      · rw [sysCall, seekW, Proc.bind_run hrun]
        rfl
      · rintro _ ⟨⟩
        show (if f = f then _ else _ : File).pos = _
        rw [if_pos rfl, toInt_small hsmall, Int.toNat_natCast]
    · have hneg := toInt_large hsmall
      constructor
      · rintro ⟨r, t, hrun, -⟩
        have hseek : Filesys.fileSeek s.toFs f position.toInt = none := by
          simp only [Filesys.fileSeek, h.accounts.deref hopen.1, Option.bind_eq_bind, Option.bind_some]
          exact if_neg (by omega)
        have hnone : sysCall (.seek (.file f) position) s = none := by
          show (onFs (Filesys.fileSeek · f position.toInt) s).bind _ = none
          rw [onFs, hseek]
          rfl
        rw [hnone] at hrun
        cases hrun
      · rintro (hlt | hmissing)
        · exact absurd hlt hsmall
        · cases hmissing

theorem SysCall.Open.setMem {c : SysCall} (hopen : c.Open s) (mem : List Bool) : c.Open { s with mem } := by
  cases c with
  | create name size => trivial
  | seek fd _ | read fd _ | write fd _ _ => cases fd <;> exact hopen

/-- **Sizes and positions.** After any calls of the file system, whatever `malloc` returns, a system call with a 32-bit
    size or position completes unless the number is too large for an `off_t` and reaches an assertion. -/
theorem completes_iff_in_range (hrun : Runs WritesAhead s) {c : SysCall} (hopen : c.Open s) (mem : List Bool) :
    Completes { s with mem } c ↔ c.InRange { s with mem } := by
  have h := (inv_of_runs hrun).setMem mem
  have hopen' := hopen.setMem mem
  cases c with
  | create name size => exact create_completes_iff h name size
  | seek fd position => exact seek_completes_iff h hopen' position
  | read fd size => exact ⟨fun _ => trivial, fun _ => read_completes h hopen' size⟩
  | write fd buffer size => exact ⟨fun _ => trivial, fun _ => write_completes h hopen' buffer size⟩

end

/-- A read of 2³² - 1 bytes completes. -/
theorem completes_iff_in_range_read :
    ∃ s, Runs WritesAhead s ∧ User s 9 ∧ Completes { s with mem := [] } (.read (.file 9) 0xffffffff#32) := by
  obtain ⟨s, hrun, hfacts⟩ := runs_sixteen WritesAhead [(.create fileA 512, []), (.open fileA, [])]
    (fun s => decide (User s 9)) (by decide +kernel)
  have hopen : User s 9 := of_decide_eq_true hfacts
  exact ⟨s, hrun, hopen, (completes_iff_in_range hrun (c := .read (.file 9) 0xffffffff#32) hopen []).mpr trivial⟩

/-- **The kernel can be stopped by a seek and by a create.** -/
theorem large_arguments_fail_assertions :
    ∃ s, Runs WritesAhead s ∧ User s 9 ∧ sysCall (.seek (.file 9) 0x80000000#32) { s with mem := [] } = none ∧
      sysCall (.create fileB 0x80000000#32) { s with mem := [] } = none := by
  obtain ⟨s, hrun, hfacts⟩ := runs_sixteen WritesAhead [(.create fileA 512, []), (.open fileA, [])]
    (fun s => decide (User s 9 ∧ (sysCall (.seek (.file 9) 0x80000000#32) { s with mem := [] }).isNone = true ∧
      (sysCall (.create fileB 0x80000000#32) { s with mem := [] }).isNone = true)) (by decide +kernel)
  obtain ⟨hopen, hseek, hcreate⟩ := of_decide_eq_true hfacts
  exact ⟨s, hrun, hopen, Option.isNone_iff_eq_none.mp hseek, Option.isNone_iff_eq_none.mp hcreate⟩

end IntArgs
end Asg1
