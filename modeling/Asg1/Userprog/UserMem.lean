import Asg1.Lib.CInt
import Asg1.Lib.Logged
import Asg1.Userprog.Pagedir

/-!
# `Userprog.UserMem` — the kernel's accesses to the memory of a user

A system call gets pointers from the user and follows them in the kernel, with the page directory of the process in place.
The processor does not stop it at `PHYS_BASE`; it stops it at a page that is not mapped, and at a page that is not
writable if the access is a store, and `page_fault` then ends in a panic because the fault is one of the kernel
(`kill`, `SEL_KCSEG`).

A program here makes accesses to bytes one after the other. Its log has them all, with the one that faults as the last.
`Event.Allowed` says which accesses the kernel should make: to addresses below `PHYS_BASE` that the process has mapped.
For each function of `string.c` and `stdio.c` that the system calls use on user memory there is a lemma that says when
all of its accesses are of this kind, and one that says what it returns then.
-/

namespace Asg1
namespace UserMem

open Pte Pagedir BitVec

/-- The pages of an address space, by their numbers: whether a page is mapped, and if so whether it is writable. Below
    `PHYS_BASE` they are those of the process, above it those of the kernel. -/
structure Space where
  pages : Nat → Option Bool

namespace Space

variable (sp : Space) (a : Word)

def Mapped : Prop := (sp.pages (a.toNat / 4096)).isSome = true

def MappedW : Prop := sp.pages (a.toNat / 4096) = some true

instance : Decidable (sp.Mapped a) := inferInstanceAs (Decidable (_ = _))

instance : Decidable (sp.MappedW a) := inferInstanceAs (Decidable (_ = _))

/-- A byte that the process may read. -/
def Readable : Prop := isUserVaddr a ∧ sp.Mapped a

/-- A byte that the process may write. -/
def Writable : Prop := isUserVaddr a ∧ sp.MappedW a

instance : Decidable (sp.Readable a) := inferInstanceAs (Decidable (_ ∧ _))

instance : Decidable (sp.Writable a) := inferInstanceAs (Decidable (_ ∧ _))

end Space

/-- One page of the user, and the first page of the kernel if `kernel`. -/
def oneUserPage (n : Nat) (kernel : Bool) : Space where
  pages k := if k = n ∨ (kernel = true ∧ k = 786432) then some true else none

/-! ## Accesses -/

/-- What the kernel does: it reads a byte, it writes one, it sends one to the console. -/
inductive Event
  | load (a : Word)
  | store (a : Word)
  | putc (c : UInt8)
  deriving DecidableEq

/-- Why a system call does not return. -/
inductive Stop
  /-- The process has ended, and its parent gets this status. -/
  | exit (status : Int)
  /-- The kernel panics. -/
  | fault (a : Word)
  /-- The kernel jumps to address 0. -/
  | nullCall
  /-- A loop that does not end. -/
  | spin
  deriving DecidableEq

/-- **What the kernel may do.** -/
def Event.Allowed (sp : Space) : Event → Prop
  | .load a => sp.Readable a
  | .store a => sp.Writable a
  | .putc _ => True

abbrev Mem := Word → UInt8

abbrev Kern := Logged Mem Stop Event

/-- The status that `process_exit` leaves for the parent. -/
def processExit (exitStatus : Int) : Int := if exitStatus < 0 then -1 else exitStatus

/-- `thread_exit` in a process that has not called `exit`: its status is still -2, from `thread_create`. -/
def threadExit {α : Type} : Kern α := Logged.stop (.exit (processExit (-2)))

/-- `*a` -/
def load (sp : Space) (a : Word) : Kern UInt8 := fun mem =>
  if sp.Mapped a then ⟨.ok (mem a), mem, [.load a]⟩ else ⟨.error (.fault a), mem, [.load a]⟩

/-- `*a = c` -/
def store (sp : Space) (a : Word) (c : UInt8) : Kern Unit := fun mem =>
  if sp.MappedW a then ⟨.ok (), fun b => if b = a then c else mem b, [.store a]⟩
  else ⟨.error (.fault a), mem, [.store a]⟩

/-- `memcpy` from `n` bytes of the user. -/
def copyIn (sp : Space) : (n : Nat) → (src : Word) → Kern (List UInt8)
  | 0, _ => pure []
  | n + 1, src => do
      let c ← load sp src
      let rest ← copyIn sp n (src + 1#32)
      return c :: rest

/-- `memcpy` to the user. -/
def copyOut (sp : Space) : List UInt8 → (dst : Word) → Kern Unit
  | [], _ => pure ()
  | c :: rest, dst => do
      store sp dst c
      copyOut sp rest (dst + 1#32)

/-- The loop of `strlen`, `n` bytes from the start. The addresses repeat after 2³² steps. -/
def strlenLoop (sp : Space) : (left : Nat) → (p : Word) → (n : Nat) → Kern Nat
  | 0, _, _ => Logged.stop .spin
  | left + 1, p, n => do
      let c ← load sp p
      if c = 0 then return n else strlenLoop sp left (p + 1#32) (n + 1)

def strlen (sp : Space) (string : Word) : Kern Nat := strlenLoop sp (2 ^ 32) string 0

/-- The loop of `strnlen`, with `left` steps to `maxlen`. The byte at `maxlen` is read and makes no difference. -/
def strnlenLoop (sp : Space) : (left : Nat) → (p : Word) → (length : Nat) → Kern Nat
  | 0, p, length => do
      let _ ← load sp p
      return length
  | left + 1, p, length => do
      let c ← load sp p
      if c = 0 then return length else strnlenLoop sp left (p + 1#32) (length + 1)

def strnlen (sp : Space) (string : Word) (maxlen : Nat) : Kern Nat := strnlenLoop sp maxlen string 0

/-- The loop of `format_string`, which has no width to fill. -/
def formatString (sp : Space) : (length : Nat) → (string : Word) → Kern Unit
  | 0, _ => pure ()
  | length + 1, string => do
      let c ← load sp string
      Logged.emit (.putc c)
      formatString sp length (string + 1#32)

/-- Printing a string of the kernel. -/
def putAll : List UInt8 → Kern Unit
  | [] => pure ()
  | c :: rest => do
      Logged.emit (.putc c)
      putAll rest

def SIZE_MAX : Nat := 2 ^ 32 - 1

/-- `(null)` -/
def nullText : List UInt8 := [40, 110, 117, 108, 108, 41]

/-- The number of characters that `format_string` prints. The length is a `size_t` in `strnlen` and an `int` here. -/
def printed (length : Nat) : Nat := (BitVec.ofNat 32 length).toInt.toNat

/-- `printf ("%s", s)` -/
def printf (sp : Space) (s : Word) : Kern Unit :=
  if s = 0#32 then putAll nullText
  else do
    let length ← strnlen sp s SIZE_MAX
    formatString sp (printed length) s

def validPtr (sp : Space) (p : Word) : Prop := sp.Readable p

instance (sp : Space) (p : Word) : Decidable (validPtr sp p) := inferInstanceAs (Decidable (sp.Readable p))

/-! ## The page directory of a process -/

/-- The pages that a page directory maps, and those that the kernel has mapped for itself. -/
def Space.ofDir (r : Ram) (pd : Word) (kernel : Nat → Option Bool) : Space where
  pages n :=
    if n < 786432 then
      (pagedirGetPage r pd (BitVec.ofNat 32 (n * 4096))).join.map fun _ =>
        (pagedirIsWritable r pd (BitVec.ofNat 32 (n * 4096))).getD false
    else kernel n

variable {k : Boot} {dirs : List Word} {r : Ram} {pd : Word}

/-- A page is mapped at all of its addresses or at none. -/
theorem getPage_isSome {va va' : Word} (ok : Ok k dirs r) (hpd : pd ∈ dirs)
    (hva : isUserVaddr va) (hva' : isUserVaddr va') (hsame : pgRoundDown va' = pgRoundDown va) :
    (pagedirGetPage r pd va').join.isSome = (pagedirGetPage r pd va).join.isSome := by
  rw [ok.getPage hpd hva, ok.getPage hpd hva', view_congr hsame]
  split
  · rfl
  · cases pteGetPage (view r pd va) <;> rfl

/-- **`valid_ptr`**, as it asks the page directory. -/
theorem validPtr_ofDir {p : Word} {kernel : Nat → Option Bool} (ok : Ok k dirs r) (hpd : pd ∈ dirs) :
    validPtr (Space.ofDir r pd kernel) p ↔ isUserVaddr p ∧ ∃ kaddr, pagedirGetPage r pd p = some (some kaddr) := by
  refine and_congr_right fun huser => ?_
  have hlt : p.toNat < 3221225472 := huser
  have hround : pgRoundDown (BitVec.ofNat 32 (p.toNat / 4096 * 4096)) = pgRoundDown p := by
    rw [← toNat_inj, pgRoundDown_toNat, pgRoundDown_toNat, toNat_ofNat]
    omega
  have huser' : isUserVaddr (BitVec.ofNat 32 (p.toNat / 4096 * 4096)) := by
    show (BitVec.ofNat 32 (p.toNat / 4096 * 4096)).toNat < 3221225472
    rw [toNat_ofNat]
    omega
  have hpages : p.toNat / 4096 < 786432 := by omega
  simp only [Space.Mapped, Space.ofDir, if_pos hpages, Option.isSome_map]
  rw [getPage_isSome ok hpd huser huser' hround, Option.isSome_iff_exists]
  simp only [Option.join_eq_some_iff]

/-! ## One access -/

section
variable {sp : Space} {mem : Mem} {a : Word} {α : Type}

theorem load_run (h : sp.Mapped a) : load sp a mem = ⟨.ok (mem a), mem, [.load a]⟩ := if_pos h

theorem load_fault (h : ¬ sp.Mapped a) : load sp a mem = ⟨.error (.fault a), mem, [.load a]⟩ := if_neg h

variable {c : UInt8}

theorem store_run (h : sp.MappedW a) :
    store sp a c mem = ⟨.ok (), fun b => if b = a then c else mem b, [.store a]⟩ := if_pos h

theorem store_fault (h : ¬ sp.MappedW a) : store sp a c mem = ⟨.error (.fault a), mem, [.store a]⟩ := if_neg h

/-- A load, and what follows it: it goes on only if the load was allowed. -/
theorem clean_load {f : UInt8 → Kern α} :
    (load sp a >>= f).Clean (Event.Allowed sp) mem ↔ sp.Readable a ∧ (f (mem a)).Clean (Event.Allowed sp) mem := by
  by_cases h : sp.Mapped a
  · rw [Logged.clean_bind_ok (load_run h), Logged.clean_of_run (load_run h), List.forall_mem_singleton]
    rfl
  · rw [Logged.clean_bind_error (load_fault h), Logged.clean_of_run (load_fault h), List.forall_mem_singleton]
    exact ⟨fun hall => absurd hall.2 h, fun hall => hall.1⟩

theorem clean_store {f : Unit → Kern α} :
    (store sp a c >>= f).Clean (Event.Allowed sp) mem ↔
      sp.Writable a ∧ (f ()).Clean (Event.Allowed sp) (fun b => if b = a then c else mem b) := by
  by_cases h : sp.MappedW a
  · rw [Logged.clean_bind_ok (store_run h), Logged.clean_of_run (store_run h), List.forall_mem_singleton]
    rfl
  · rw [Logged.clean_bind_error (store_fault h), Logged.clean_of_run (store_fault h), List.forall_mem_singleton]
    exact ⟨fun hall => absurd hall.2 h, fun hall => hall.1⟩

end

/-! ## Copying -/

/-- `n` bytes from an address on. -/
def bytesAt (mem : Mem) : (n : Nat) → (a : Word) → List UInt8
  | 0, _ => []
  | n + 1, a => mem a :: bytesAt mem n (a + 1#32)

/-- The address `i` bytes further on. -/
def offset (a : Word) (i : Nat) : Word := a + BitVec.ofNat 32 i

@[simp] theorem offset_zero (a : Word) : offset a 0 = a := BitVec.add_zero a

theorem offset_succ (a : Word) (i : Nat) : offset (a + 1#32) i = offset a (i + 1) := by
  rw [offset, offset, BitVec.add_assoc, Nat.add_comm i 1, ofNat_add]

section
variable {sp : Space} {mem : Mem} {a : Word} {n : Nat}

/-- Quantifying over the bytes from an address on, the first one apart. -/
theorem forall_offset_succ {P : Word → Prop} : (∀ i < n + 1, P (offset a i)) ↔ P a ∧ ∀ i < n, P (offset (a + 1#32) i) := by
  simp only [offset_succ]
  rw [Nat.forall_lt_succ_left, offset_zero]

theorem clean_copyIn :
    (copyIn sp n a).Clean (Event.Allowed sp) mem ↔ ∀ i < n, sp.Readable (offset a i) := by
  induction n generalizing a with
  | zero => exact ⟨fun _ i hi => absurd hi (Nat.not_lt_zero i), fun _ => Logged.clean_pure⟩
  | succ n ih =>
    rw [copyIn, clean_load, forall_offset_succ, Logged.clean_bind_left (fun _ _ => Logged.clean_pure), ih]

theorem copyIn_run (h : ∀ i < n, sp.Mapped (offset a i)) : ∃ t, copyIn sp n a mem = ⟨.ok (bytesAt mem n a), mem, t⟩ := by
  induction n generalizing a with
  | zero => exact ⟨_, rfl⟩
  | succ n ih =>
    rw [forall_offset_succ] at h
    obtain ⟨t, hrest⟩ := ih h.2
    refine ⟨[.load a] ++ (t ++ []), ?_⟩
    rw [copyIn, Logged.bind_ok (load_run h.1), Logged.bind_ok hrest]
    rfl

variable {cs : List UInt8}

theorem clean_copyOut :
    (copyOut sp cs a).Clean (Event.Allowed sp) mem ↔ ∀ i < cs.length, sp.Writable (offset a i) := by
  induction cs generalizing a mem with
  | nil => exact ⟨fun _ i hi => absurd hi (Nat.not_lt_zero i), fun _ => Logged.clean_pure⟩
  | cons c cs ih => rw [copyOut, clean_store, List.length_cons, forall_offset_succ, ih]

theorem copyOut_run (h : ∀ i < cs.length, sp.MappedW (offset a i)) :
    ∃ mem' t, copyOut sp cs a mem = ⟨.ok (), mem', t⟩ := by
  induction cs generalizing a mem with
  | nil => exact ⟨_, _, rfl⟩
  | cons c cs ih =>
    rw [List.length_cons, forall_offset_succ] at h
    obtain ⟨mem', t, hrest⟩ := @ih (fun b => if b = a then c else mem b) (a + 1#32) h.2
    refine ⟨mem', [.store a] ++ t, ?_⟩
    rw [copyOut, Logged.bind_ok (store_run h.1), hrest]

end

/-! ## Strings -/

/-- **A string that the process may read**: it has a zero byte, and all bytes up to there are mapped for the user. -/
def NameReadable (sp : Space) (mem : Mem) (p : Word) : Prop :=
  ∃ n, mem (offset p n) = 0 ∧ ∀ i ≤ n, sp.Readable (offset p i)

section
variable {sp : Space} {mem : Mem} {p : Word} {n left : Nat}

/-- The bytes of a string are those with no zero byte before them. -/
def InString (mem : Mem) (p : Word) (i : Nat) : Prop := ∀ k < i, mem (offset p k) ≠ 0

theorem inString_zero : InString mem p 0 := fun k hk => absurd hk (Nat.not_lt_zero k)

theorem inString_succ {i : Nat} : InString mem p (i + 1) ↔ mem p ≠ 0 ∧ InString mem (p + 1#32) i :=
  @forall_offset_succ p i fun a => mem a ≠ 0

/-- After 2³² bytes the addresses repeat. -/
theorem offset_mod (p : Word) (i : Nat) : offset p (i % 2 ^ 32) = offset p i := by
  rw [offset, offset, ← toNat_inj, toNat_add, toNat_add, toNat_ofNat, toNat_ofNat,
    Nat.mod_mod]

/-- Some byte of those that follow an address is not the user's. -/
theorem exists_not_readable (sp : Space) (p : Word) : ∃ i < 2 ^ 32, ¬ sp.Readable (offset p i) := by
  refine ⟨(PHYS_BASE - p).toNat, (PHYS_BASE - p).isLt, ?_⟩
  have hbase : offset p (PHYS_BASE - p).toNat = PHYS_BASE := by
    rw [offset, ofNat_toNat, setWidth_eq, BitVec.add_comm, BitVec.sub_add_cancel]
  rw [hbase]
  exact fun h => absurd h.1 (by decide)

/-- The first zero byte of a string. -/
theorem NameReadable.first (h : NameReadable sp mem p) :
    ∃ n < 2 ^ 32, mem (offset p n) = 0 ∧ InString mem p n ∧ ∀ i ≤ n, sp.Readable (offset p i) := by
  obtain ⟨m, hm, hread⟩ := h
  have hex : ∃ n, mem (offset p n) = 0 := ⟨m, hm⟩
  have hle : Nat.find hex ≤ m := Nat.find_min' hex hm
  refine ⟨Nat.find hex, ?_, Nat.find_spec hex, fun k hk => Nat.find_min hex hk, fun i hi => hread i (hi.trans hle)⟩
  -- up to there all bytes are the user's, and not all addresses are
  obtain ⟨i, hi, hnot⟩ := exists_not_readable sp p
  by_contra hge
  exact hnot (hread i (by omega))

theorem nameReadable_iff :
    NameReadable sp mem p ↔ ∀ i < 2 ^ 32, InString mem p i → sp.Readable (offset p i) := by
  constructor
  · rintro ⟨n, hzero, hread⟩ i - hin
    refine hread i (Nat.le_of_not_lt fun hlt => ?_)
    exact hin n hlt hzero
  · intro h
    by_cases hex : ∃ n, mem (offset p n) = 0
    · have hspec := Nat.find_spec hex
      have hlt : Nat.find hex < 2 ^ 32 := by
        refine lt_of_le_of_lt (Nat.find_min' hex ?_) (Nat.mod_lt (Nat.find hex) (by decide))
        rwa [offset_mod]
      exact ⟨Nat.find hex, hspec, fun i hi => h i (by omega) fun k hk => Nat.find_min hex (by omega)⟩
    · obtain ⟨i, hi, hnot⟩ := exists_not_readable sp p
      exact absurd (h i hi fun k _ hzero => hex ⟨k, hzero⟩) hnot

theorem clean_strlenLoop : (strlenLoop sp left p n).Clean (Event.Allowed sp) mem ↔
    ∀ i < left, InString mem p i → sp.Readable (offset p i) := by
  induction left generalizing p n with
  | zero => exact ⟨fun _ i hi => absurd hi (Nat.not_lt_zero i), fun _ => Logged.clean_stop⟩
  | succ left ih =>
    rw [strlenLoop, clean_load, Nat.forall_lt_succ_left, offset_zero]
    refine and_congr ⟨fun h _ => h, fun h => h inString_zero⟩ ?_
    simp only [inString_succ, ← offset_succ]
    split
    · exact ⟨fun _ i _ hin => absurd ‹mem p = 0› hin.1, fun _ => Logged.clean_pure⟩
    · rw [ih]
      exact forall_congr' fun i => forall_congr' fun _ => ⟨fun h hin => h hin.2, fun h hin => h ⟨‹_›, hin⟩⟩

theorem clean_strlen : (strlen sp p).Clean (Event.Allowed sp) mem ↔ NameReadable sp mem p :=
  clean_strlenLoop.trans nameReadable_iff.symm

variable {m : Nat}

theorem strlenLoop_run (hlt : n < left) (hzero : mem (offset p n) = 0) (hin : InString mem p n)
    (hmap : ∀ i ≤ n, sp.Mapped (offset p i)) : ∃ t, strlenLoop sp left p m mem = ⟨.ok (m + n), mem, t⟩ := by
  induction left generalizing p n m with
  | zero => exact absurd hlt (Nat.not_lt_zero n)
  | succ left ih =>
    have hfirst := hmap 0 (Nat.zero_le n)
    rw [offset_zero] at hfirst
    cases n with
    | zero =>
      rw [offset_zero] at hzero
      refine ⟨[.load p] ++ [], ?_⟩
      rw [strlenLoop, Logged.bind_ok (load_run hfirst), if_pos hzero]
      rfl
    | succ n =>
      rw [inString_succ] at hin
      rw [← offset_succ] at hzero
      obtain ⟨t, hrest⟩ := @ih (p + 1#32) n (m + 1) (by omega) hzero hin.2 fun i hi => by
        rw [offset_succ]
        exact hmap (i + 1) (by omega)
      refine ⟨[.load p] ++ t, ?_⟩
      rw [strlenLoop, Logged.bind_ok (load_run hfirst), if_neg hin.1, hrest, Nat.add_assoc, Nat.add_comm 1 n]

/-- What `strlen` returns. -/
theorem NameReadable.strlen_run (h : NameReadable sp mem p) :
    ∃ n t, strlen sp p mem = ⟨.ok n, mem, t⟩ ∧ mem (offset p n) = 0 ∧ InString mem p n ∧
      ∀ i ≤ n, sp.Readable (offset p i) := by
  obtain ⟨n, hlt, hzero, hin, hread⟩ := h.first
  obtain ⟨t, hrun⟩ := @strlenLoop_run sp mem p n (2 ^ 32) 0 hlt hzero hin fun i hi => (hread i hi).2
  rw [Nat.zero_add] at hrun
  exact ⟨n, t, hrun, hzero, hin, hread⟩

/-! ## Printing -/

def Event.char : Event → Option UInt8
  | .putc c => some c
  | .load _ => none
  | .store _ => none

/-- What comes out on the console. -/
def console (t : List Event) : List UInt8 := t.filterMap Event.char

/-- **What `strnlen` counts**, with no bound that matters: the bytes before the first zero byte. -/
structure Counts (sp : Space) (mem : Mem) (p : Word) (left n : Nat) : Prop where
  le : n ≤ left
  inString : InString mem p n
  mapped : ∀ i ≤ n, sp.Mapped (offset p i)
  ends : mem (offset p n) = 0 ∨ n = left

theorem counts_zero : Counts sp mem p left 0 ↔ sp.Mapped p ∧ (mem p = 0 ∨ left = 0) := by
  constructor
  · rintro ⟨-, -, hmap, hends⟩
    have hfirst := hmap 0 (Nat.le_refl 0)
    rw [offset_zero] at hfirst hends
    exact ⟨hfirst, hends.imp id Eq.symm⟩
  · rintro ⟨hmap, hends⟩
    refine ⟨Nat.zero_le left, inString_zero, fun i hi => ?_, ?_⟩
    · rw [Nat.le_zero.mp hi, offset_zero]
      exact hmap
    · rw [offset_zero]
      exact hends.imp id Eq.symm

theorem counts_succ : Counts sp mem p (left + 1) (n + 1) ↔ sp.Mapped p ∧ mem p ≠ 0 ∧ Counts sp mem (p + 1#32) left n := by
  have hmapped : (∀ i ≤ n + 1, sp.Mapped (offset p i)) ↔ sp.Mapped p ∧ ∀ i ≤ n, sp.Mapped (offset (p + 1#32) i) := by
    simp only [← Nat.lt_succ_iff]
    exact forall_offset_succ
  constructor
  · rintro ⟨hle, hin, hmap, hends⟩
    rw [inString_succ] at hin
    rw [hmapped] at hmap
    rw [← offset_succ] at hends
    exact ⟨hmap.1, hin.1, by omega, hin.2, hmap.2, hends.imp id (by omega)⟩
  · rintro ⟨hfirst, hne, hle, hin, hmap, hends⟩
    refine ⟨by omega, inString_succ.mpr ⟨hne, hin⟩, hmapped.mpr ⟨hfirst, hmap⟩, ?_⟩
    rw [← offset_succ]
    exact hends.imp id (by omega)

/-- `strnlen` returns if there is a number for it to return. -/
theorem strnlenLoop_run (h : Counts sp mem p left n) :
    ∃ t, strnlenLoop sp left p m mem = ⟨.ok (m + n), mem, t⟩ ∧ console t = [] := by
  induction left generalizing p n m with
  | zero =>
    obtain rfl := Nat.le_zero.mp h.le
    refine ⟨[.load p] ++ [], ?_, rfl⟩
    rw [strnlenLoop, Logged.bind_ok (load_run (counts_zero.mp h).1)]
    rfl
  | succ left ih =>
    cases n with
    | zero =>
      obtain ⟨hmap, hzero | hleft⟩ := counts_zero.mp h
      · refine ⟨[.load p] ++ [], ?_, rfl⟩
        rw [strnlenLoop, Logged.bind_ok (load_run hmap), if_pos hzero]
        rfl
      · omega
    | succ n =>
      obtain ⟨hmap, hne, hrest⟩ := counts_succ.mp h
      obtain ⟨t, hrun, hsilent⟩ := @ih (p + 1#32) n (m + 1) hrest
      refine ⟨[.load p] ++ t, ?_, hsilent⟩
      rw [strnlenLoop, Logged.bind_ok (load_run hmap), if_neg hne, hrun, Nat.add_assoc, Nat.add_comm 1 n]

theorem strnlen_run (h : Counts sp mem p left n) : ∃ t, strnlen sp p left mem = ⟨.ok n, mem, t⟩ ∧ console t = [] := by
  obtain ⟨t, hrun, hsilent⟩ := @strnlenLoop_run sp mem p n left 0 h
  rw [Nat.zero_add] at hrun
  exact ⟨t, hrun, hsilent⟩

theorem clean_strnlenLoop : (strnlenLoop sp left p n).Clean (Event.Allowed sp) mem ↔
    ∀ i < left + 1, InString mem p i → sp.Readable (offset p i) := by
  induction left generalizing p n with
  | zero =>
    rw [strnlenLoop, clean_load, Nat.forall_lt_succ_left, offset_zero]
    refine and_congr ⟨fun h _ => h, fun h => h inString_zero⟩ ?_
    exact ⟨fun _ i hi => absurd hi (Nat.not_lt_zero i), fun _ => Logged.clean_pure⟩
  | succ left ih =>
    rw [strnlenLoop, clean_load, Nat.forall_lt_succ_left, offset_zero]
    refine and_congr ⟨fun h _ => h, fun h => h inString_zero⟩ ?_
    simp only [inString_succ, ← offset_succ]
    split
    · exact ⟨fun _ i _ hin => absurd ‹mem p = 0› hin.1, fun _ => Logged.clean_pure⟩
    · rw [ih]
      exact forall_congr' fun i => forall_congr' fun _ => ⟨fun h hin => h hin.2, fun h hin => h ⟨‹_›, hin⟩⟩

theorem clean_formatString : (formatString sp n p).Clean (Event.Allowed sp) mem ↔ ∀ i < n, sp.Readable (offset p i) := by
  induction n generalizing p with
  | zero => exact ⟨fun _ i hi => absurd hi (Nat.not_lt_zero i), fun _ => Logged.clean_pure⟩
  | succ n ih =>
    rw [formatString, clean_load, forall_offset_succ, Logged.clean_bind_ok (Logged.emit_run _), ih]
    exact and_congr_right fun _ => and_iff_right (List.forall_mem_singleton.mpr trivial)

theorem formatString_run (h : ∀ i < n, sp.Mapped (offset p i)) :
    ∃ t, formatString sp n p mem = ⟨.ok (), mem, t⟩ ∧ console t = bytesAt mem n p := by
  induction n generalizing p with
  | zero => exact ⟨[], rfl, rfl⟩
  | succ n ih =>
    rw [forall_offset_succ] at h
    obtain ⟨t, hrest, hconsole⟩ := ih h.2
    refine ⟨[.load p] ++ ([.putc (mem p)] ++ t), ?_, ?_⟩
    · rw [formatString, Logged.bind_ok (load_run h.1), Logged.bind_ok (Logged.emit_run _), hrest]
    · rw [bytesAt, ← hconsole]
      rfl

theorem putAll_run (cs : List UInt8) : putAll cs mem = ⟨.ok (), mem, cs.map .putc⟩ := by
  induction cs with
  | nil => rfl
  | cons c cs ih =>
    rw [putAll, Logged.bind_ok (Logged.emit_run _), ih]
    rfl

/-- A string that may be read has a length for `strnlen`. -/
theorem NameReadable.counts (h : NameReadable sp mem p) :
    ∃ n, Counts sp mem p SIZE_MAX n ∧ ∀ i ≤ n, sp.Readable (offset p i) := by
  obtain ⟨n, hlt, hzero, hin, hread⟩ := h.first
  exact ⟨n, ⟨Nat.le_sub_one_of_lt hlt, hin, fun i hi => (hread i hi).2, .inl hzero⟩, hread⟩

theorem printed_le (n : Nat) : printed n ≤ n := by
  refine (toInt_toNat_le _).trans ?_
  exact Nat.mod_le _ _

/-- **`printf ("%s", s)` reads what it should if the string may be read**, and then it returns. -/
theorem clean_printf (hs : p ≠ 0#32) : (printf sp p).Clean (Event.Allowed sp) mem ↔ NameReadable sp mem p := by
  rw [printf, if_neg hs]
  constructor
  · intro h
    exact nameReadable_iff.mpr (clean_strnlenLoop.mp h.left)
  · intro h
    obtain ⟨n, hcounts, hread⟩ := h.counts
    obtain ⟨t, hrun, -⟩ := strnlen_run hcounts
    rw [Logged.clean_bind_ok hrun]
    refine ⟨clean_strnlenLoop.mpr (nameReadable_iff.mp h), clean_formatString.mpr fun i hi => ?_⟩
    exact hread i (hi.le.trans (printed_le n))

/-- What `printf ("%s", s)` sends to the console. -/
theorem printf_run (hs : p ≠ 0#32) (h : Counts sp mem p SIZE_MAX n) :
    ∃ t, printf sp p mem = ⟨.ok (), mem, t⟩ ∧ console t = bytesAt mem (printed n) p := by
  obtain ⟨t, hrun, hsilent⟩ := strnlen_run h
  obtain ⟨t', hrun', hprints⟩ := @formatString_run sp mem p (printed n) fun i hi => h.mapped i (hi.le.trans (printed_le n))
  refine ⟨t ++ t', ?_, ?_⟩
  · rw [printf, if_neg hs, Logged.bind_ok hrun, hrun']
  · rw [console, List.filterMap_append, ← console, ← console, hsilent, hprints]
    rfl

theorem printf_null : printf sp 0#32 mem = ⟨.ok (), mem, nullText.map .putc⟩ := putAll_run nullText

end

end UserMem
end Asg1
