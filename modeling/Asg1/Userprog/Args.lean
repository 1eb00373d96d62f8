import Asg1.Lib.Bytes
import Asg1.Lib.Checked
import Asg1.Lib.Downward
import Asg1.Lib.Runs

/-!
# `Userprog.Args` — the arguments on a new user stack

`setup_stack` of `userprog/process.c`, which maps the top page of user memory and pushes the arguments of a program, the
pointers to them, and the frame of its `main`. The stack is a memory of bytes with the stack pointer `*esp` and a log of
all writes. `palloc_page` is a parameter, which says whether there was a page; the arguments come from one page, so that
addresses are plain numbers.

`MainFrame` is what the C calling convention expects at `esp`. `setup_stack` builds it whenever everything fits into the
page. When it does not fit, something is written below the page, and in one case nobody is told.
-/

namespace Asg1
namespace Args

open Flat Bytes Runs List

def PGSIZE : Nat := 4096

def PHYS_BASE : Nat := 0xc0000000

/-- The page that `setup_stack` maps. -/
def UPAGE : Nat := PHYS_BASE - PGSIZE

/-- The length of `arg_pointers` -/
def ARG_POINTERS : Nat := 50

theorem physBase_eq : PHYS_BASE = 3221225472 := rfl

theorem stack_page : PHYS_BASE = 3221225472 ∧ UPAGE = 3221221376 ∧ PGSIZE = 4096 := ⟨rfl, rfl, rfl⟩

/-! ## Local arrays and strings -/

/-- The arrays on the kernel stack of a thread that starts a process. -/
inductive Local
  | argv
  | argPointers
  deriving DecidableEq, Repr

/-- What stops the kernel: an index outside an array, a place of an array that was never set, a null pointer where the
    code asserts that there is none, a string without an end, a loop that does not end. -/
inductive Fault
  | outside (array : Local) (i : Nat)
  | unset (array : Local) (i : Nat)
  | null
  | unterminated
  | endless
  deriving DecidableEq, Repr

section Places

variable {α : Type} {array : Local} {places : List (Option α)} {i : Nat} {x : α}

/-- `array[i] = x` -/
def store (array : Local) (places : List (Option α)) (i : Nat) (x : α) : Except Fault (List (Option α)) :=
  if i < places.length then .ok (places.set i (some x)) else .error (.outside array i)

/-- `array[i]` -/
def fetch (array : Local) (places : List (Option α)) (i : Nat) : Except Fault α :=
  match places[i]? with
  | some (some x) => .ok x
  | some none => .error (.unset array i)
  | none => .error (.outside array i)

theorem store_ok (hi : i < places.length) : store array places i x = .ok (places.set i (some x)) := if_pos hi

theorem fetch_ok (hx : places[i]? = some (some x)) : fetch array places i = .ok x := by
  unfold fetch
  rw [hx]

end Places

/-- `strlcpy`, from a string given by its characters. -/
def strlcpy (s : Downward UInt8) (dst : Nat) (src : List UInt8) (size : Nat) : Downward UInt8 :=
  let srcLen := src.length
  if 0 < size then
    let dstLen := if srcLen < size - 1 then srcLen else size - 1
    (s.write dst (src.take dstLen)).write (dst + dstLen) [0]
  else s

def sizeOfCharArg (arg : List UInt8) : Nat := arg.length + 1

def wordAlign (add size : Nat) : Nat := add / size * size

/-! ## `setup_stack` -/

/-- `argv[i]`, for the arguments as strings. -/
def argAt (argv : List (List UInt8)) (i : Nat) : Except Fault (List UInt8) :=
  match argv[i]? with
  | some arg => .ok arg
  | none => .error (.outside .argv i)

/-- The loop that pushes the strings, with `i` rounds left. -/
def pushStrings (argv : List (List UInt8)) : Nat → Downward UInt8 → List (Option Nat) →
    Except Fault (Downward UInt8 × List (Option Nat))
  | 0, s, argPointers => .ok (s, argPointers)
  | i + 1, s, argPointers => do
      let arg ← argAt argv i
      let s := s.lower (sizeOfCharArg arg)
      let s := strlcpy s s.sp arg (sizeOfCharArg arg)
      let argPointers ← store .argPointers argPointers i s.sp
      pushStrings argv i s argPointers

/-- `esp_limit` -/
def ESP_LIMIT : Nat := PHYS_BASE - PGSIZE + 12

/-- The loop that pushes the pointers, with `i` rounds left. It returns how many rounds it has left undone. -/
def pushPointers (argPointers : List (Option Nat)) : Nat → Downward UInt8 → Except Fault (Nat × Downward UInt8)
  | 0, s => .ok (0, s)
  | i + 1, s =>
    if ESP_LIMIT ≤ s.sp then do
      let pointer ← fetch .argPointers argPointers i
      pushPointers argPointers i (s.push (le32 (BitVec.ofNat 32 pointer)))
    else .ok (i + 1, s)

/-- `memset (*esp, 0, 4)` after `*esp -= 4` -/
def pushZero (s : Downward UInt8) : Downward UInt8 := s.push (List.replicate 4 0)

/-- The last three words: `argv`, `argc` and the return address. -/
def pushTail (argc : Nat) (s : Downward UInt8) : Downward UInt8 :=
  let s := s.push (le32 (BitVec.ofNat 32 s.sp))
  let s := s.push (le32 (BitVec.ofNat 32 argc))
  pushZero s

/-- What `setup_stack` returns and leaves: whether the page is still mapped, and the stack. -/
structure Outcome where
  success : Bool
  mapped : Bool
  stack : Downward UInt8

/-- What `palloc_page` leaves: a page of zeros, and `*esp = PHYS_BASE`. -/
def freshPage (s : Downward UInt8) : Downward UInt8 :=
  { s with mem := patch s.mem UPAGE (List.replicate PGSIZE 0), sp := PHYS_BASE }

def setupStack (allocated : Bool) (s : Downward UInt8) (argv : List (List UInt8)) : Except Fault Outcome :=
  if allocated then do
    let (s, argPointers) ← pushStrings argv argv.length (freshPage s) (List.replicate ARG_POINTERS none)
    let s := { s with sp := wordAlign s.sp 4 }
    let s := pushZero s
    let (left, s) ← pushPointers argPointers argv.length s
    -- when rounds are left undone the page is freed, and the code goes on all the same
    let success := decide (left = 0)
    return { success, mapped := success, stack := pushTail argv.length s }
  else return { success := false, mapped := false, stack := s }

/-! ## What has to fit -/

/-- The arguments one after the other, each with its terminator. -/
def strings (argv : List (List UInt8)) : List UInt8 := argv.flatMap (· ++ [0])

/-- The bytes of the strings, rounded up to a word. -/
def packedSize (argv : List (List UInt8)) : Nat := ((strings argv).length + 3) / 4 * 4

/-- The strings, the pointers with the null pointer after them, and three words fit into the page. -/
def Fits (argv : List (List UInt8)) : Prop := packedSize argv + 4 * (argv.length + 1) + 12 ≤ PGSIZE

instance decideFits (argv : List (List UInt8)) : Decidable (Fits argv) :=
  inferInstanceAs (Decidable (packedSize argv + 4 * (argv.length + 1) + 12 ≤ PGSIZE))

/-- Where argument `i` lies. -/
def pointer (argv : List (List UInt8)) (i : Nat) : Nat := PHYS_BASE - (strings (argv.drop i)).length

variable {i : Nat} {argPointers : List (Option Nat)}


theorem strings_drop {argv : List (List UInt8)} (hi : i < argv.length) :
    strings (argv.drop i) = argv[i] ++ [0] ++ strings (argv.drop (i + 1)) := by
  unfold strings
  rw [drop_eq_getElem_cons hi, flatMap_cons]

theorem length_strings_drop_le (argv : List (List UInt8)) (i : Nat) :
    (strings (argv.drop i)).length ≤ (strings argv).length := by
  have hall : (strings (argv.take i ++ argv.drop i)).length =
      (strings (argv.take i)).length + (strings (argv.drop i)).length := by
    unfold strings
    rw [flatMap_append, length_append]
  rw [take_append_drop] at hall
  omega

/-! ## The strings -/

section Strings

variable {s : Downward UInt8} {argv : List (List UInt8)}

/-- A whole string is copied with its terminator, in two pieces. -/
theorem strlcpy_whole (s : Downward UInt8) (dst : Nat) (src : List UInt8) :
    strlcpy s dst src (sizeOfCharArg src) = (s.write dst src).write (dst + src.length) [0] := by
  unfold strlcpy sizeOfCharArg
  simp

/-- One round: room for the string, and its copy. -/
def pushString (s : Downward UInt8) (arg : List UInt8) : Downward UInt8 :=
  strlcpy (s.lower (sizeOfCharArg arg)) (s.lower (sizeOfCharArg arg)).sp arg (sizeOfCharArg arg)

theorem pushString_sp (arg : List UInt8) : (pushString s arg).sp = s.sp - (arg.length + 1) := by
  unfold pushString
  rfl

variable {arg : List UInt8}

variable {top : Nat} {cells : List UInt8}

theorem pushString_holds (h : s.Holds top cells) (hroom : arg.length + 1 ≤ s.sp) :
    (pushString s arg).Holds top (arg ++ [0] ++ cells) := by
  have hlen : (arg ++ [0]).length = arg.length + 1 := by simp
  have hpush : (s.push (arg ++ [0])).Holds top (arg ++ [0] ++ cells) := h.push (by omega)
  have hmem : (pushString s arg).mem = (s.push (arg ++ [0])).mem := by
    unfold pushString
    rw [strlcpy_whole]
    show patch (patch s.mem (s.sp - (arg.length + 1)) arg) (s.sp - (arg.length + 1) + arg.length) [0] =
      patch s.mem (s.sp - (arg ++ [0]).length) (arg ++ [0])
    rw [patch_append, hlen]
  have hsp : (pushString s arg).sp = (s.push (arg ++ [0])).sp := by
    rw [pushString_sp, Downward.push_sp, hlen]
  exact ⟨by rw [hsp]; exact hpush.top, by rw [hmem, hsp]; exact hpush.cells⟩

theorem pushString_grows (hroom : arg.length + 1 ≤ s.sp) : s.Grows (pushString s arg) := by
  unfold pushString
  rw [strlcpy_whole]
  have hsp : (s.lower (sizeOfCharArg arg)).sp = s.sp - (arg.length + 1) := rfl
  refine ((Downward.Grows.lower s _).write (Nat.le_refl _) ?_).write ?_ ?_
  · omega
  · exact Nat.le_add_right _ _
  · rw [hsp, length_singleton]
    omega

/-- What the loop over the strings has done when `i` rounds are left. -/
structure Pushed (argv : List (List UInt8)) (i : Nat) (s : Downward UInt8) (argPointers : List (Option Nat)) : Prop where
  holds : s.Holds PHYS_BASE (strings (argv.drop i))
  size : argPointers.length = ARG_POINTERS
  pointers : ∀ j, i ≤ j → j < argv.length → argPointers[j]? = some (some (pointer argv j))

theorem Pushed.round (h : Pushed argv (i + 1) s argPointers)
    (hi : i < argv.length) (hfew : argv.length ≤ ARG_POINTERS) (hroom : (strings argv).length ≤ PHYS_BASE) :
    s.Grows (pushString s argv[i]) ∧
      Pushed argv i (pushString s argv[i]) (argPointers.set i (some (pushString s argv[i]).sp)) := by
  have hdrop := strings_drop hi
  have hlen := congrArg List.length hdrop
  have hle := length_strings_drop_le argv i
  have htop := h.holds.top
  simp only [length_append, length_singleton] at hlen
  have hspace : argv[i].length + 1 ≤ s.sp := by omega
  refine ⟨pushString_grows hspace, ?_, ?_, ?_⟩
  · rw [hdrop]
    exact pushString_holds h.holds hspace
  · rw [length_set, h.size]
  · intro j hj hlt
    by_cases heq : j = i
    · subst heq
      have hpos : (pushString s argv[j]).sp = pointer argv j := by
        rw [pushString_sp]
        unfold pointer
        omega
      rw [hpos, getElem?_set_self (by rw [h.size]; omega)]
    · rw [getElem?_set_ne (by omega), h.pointers j (by omega) hlt]

/-- **The strings.** The last one is pushed first, and every pointer is kept. -/
theorem Pushed.run (h : Pushed argv i s argPointers) (hi : i ≤ argv.length)
    (hfew : argv.length ≤ ARG_POINTERS) (hroom : (strings argv).length ≤ PHYS_BASE) :
    ∃ s' argPointers', pushStrings argv i s argPointers = .ok (s', argPointers') ∧ s.Grows s' ∧
      Pushed argv 0 s' argPointers' := by
  -- on the rounds that are left
  induction i generalizing s argPointers with
  | zero => exact ⟨s, argPointers, rfl, Downward.Grows.refl s, h⟩
  | succ i ih =>
    obtain ⟨hgrows, hpushed⟩ := h.round hi hfew hroom
    obtain ⟨s', argPointers', hrun, hgrows', hend⟩ := ih hpushed (by omega)
    have harg : argAt argv i = .ok argv[i] := by
      unfold argAt
      rw [List.getElem?_eq_getElem hi]
    have hstore : store .argPointers argPointers i (pushString s argv[i]).sp =
        .ok (argPointers.set i (some (pushString s argv[i]).sp)) := store_ok (by rw [h.size]; omega)
    refine ⟨s', argPointers', ?_, hgrows.trans hgrows', hend⟩
    exact (Checked.ok_bind harg).trans ((Checked.ok_bind hstore).trans hrun)

end Strings

/-! ## The words below the strings -/

section Words

variable {s : Downward UInt8} {argv : List (List UInt8)} {top : Nat} {cells : List UInt8}

theorem wordAlign_sp (s : Downward UInt8) : { s with sp := wordAlign s.sp 4 } = s.lower (s.sp % 4) := by
  have heq : wordAlign s.sp 4 = s.sp - s.sp % 4 := by
    unfold wordAlign
    omega
  unfold Downward.lower
  rw [heq]

theorem pushZero_holds (h : s.Holds top cells) (hroom : 4 ≤ s.sp) :
    (pushZero s).Holds top (List.replicate 4 0 ++ cells) := h.push (by simpa using hroom)

theorem pushZero_grows (hroom : 4 ≤ s.sp) : s.Grows (pushZero s) := Downward.Grows.push (by simpa using hroom)

/-- The bytes of the pointers to the arguments from `left` on, `n` of them. -/
def pointerBytes (argv : List (List UInt8)) (left n : Nat) : List UInt8 :=
  (List.range' left n).flatMap fun j => le32 (BitVec.ofNat 32 (pointer argv j))

theorem length_pointerBytes (argv : List (List UInt8)) (left n : Nat) : (pointerBytes argv left n).length = 4 * n := by
  unfold pointerBytes
  simp [Nat.mul_comm]

theorem pointerBytes_succ (argv : List (List UInt8)) (left n : Nat) :
    pointerBytes argv left (n + 1) = pointerBytes argv left n ++ le32 (BitVec.ofNat 32 (pointer argv (left + n))) := by
  unfold pointerBytes
  rw [range'_concat, flatMap_append]
  simp

/-- What the loop over the pointers leaves: it stops at the first round that starts below the limit. -/
structure Pointed (argv : List (List UInt8)) (i : Nat) (s : Downward UInt8) (top : Nat) (cells : List UInt8) (left : Nat)
    (s' : Downward UInt8) : Prop where
  left_le : left ≤ i
  grows : s.Grows s'
  holds : s'.Holds top (pointerBytes argv left (i - left) ++ cells)
  stopped : left ≠ 0 → s'.sp < ESP_LIMIT
  went : left < i → ESP_LIMIT ≤ s'.sp + 4

/-- **The pointers.** -/
theorem pushPointers_run
    (hpointers : ∀ j < i, argPointers[j]? = some (some (pointer argv j))) (hholds : s.Holds top cells)
    (hroom : 4 * i ≤ s.sp) :
    ∃ left s', pushPointers argPointers i s = .ok (left, s') ∧ Pointed argv i s top cells left s' := by
  -- on the rounds that are left
  induction i generalizing s cells with
  | zero => exact ⟨0, s, rfl, Nat.le_refl 0, Downward.Grows.refl s, hholds, fun h => absurd rfl h, fun h => absurd h (by omega)⟩
  | succ i ih =>
    by_cases hlimit : ESP_LIMIT ≤ s.sp
    · have hspace : (le32 (BitVec.ofNat 32 (pointer argv i))).length ≤ s.sp := by
        rw [length_le32]
        omega
      have hsp : (s.push (le32 (BitVec.ofNat 32 (pointer argv i)))).sp = s.sp - 4 := rfl
      obtain ⟨left, s', hrun, hp⟩ := ih (fun j hj => hpointers j (by omega)) (hholds.push hspace) (by omega)
      have hle := hp.left_le
      refine ⟨left, s', ?_, by omega, (Downward.Grows.push hspace).trans hp.grows, ?_, hp.stopped, ?_⟩
      · exact (if_pos hlimit).trans ((Checked.ok_bind (fetch_ok (hpointers i (by omega)))).trans hrun)
      · have hcount : i + 1 - left = i - left + 1 := by omega
        have hlast : left + (i - left) = i := by omega
        rw [hcount, pointerBytes_succ, hlast, List.append_assoc]
        exact hp.holds
      · intro _
        by_cases hmore : left < i
        · exact hp.went hmore
        · -- the last round was this one
          have htop := hp.holds.top
          have hold := hholds.top
          have hzero : i - left = 0 := by omega
          rw [hzero, length_append, length_pointerBytes, length_append, length_le32] at htop
          omega
    · refine ⟨i + 1, s, if_neg hlimit, Nat.le_refl _, Downward.Grows.refl s, ?_, fun _ => by omega, fun h => absurd h (by omega)⟩
      rw [Nat.sub_self]
      exact hholds

/-- The three words of the frame, from `esp` on. -/
def tailBytes (argc sp : Nat) : List UInt8 :=
  List.replicate 4 0 ++ le32 (BitVec.ofNat 32 argc) ++ le32 (BitVec.ofNat 32 sp)

theorem length_tailBytes (argc sp : Nat) : (tailBytes argc sp).length = 12 := by
  simp [tailBytes]

/-- The three words fit, one below the other. -/
theorem pushTail_room (argc : Nat) (hroom : 12 ≤ s.sp) :
    (le32 (BitVec.ofNat 32 s.sp)).length ≤ s.sp ∧
      (le32 (BitVec.ofNat 32 argc)).length ≤ (s.push (le32 (BitVec.ofNat 32 s.sp))).sp ∧
      4 ≤ ((s.push (le32 (BitVec.ofNat 32 s.sp))).push (le32 (BitVec.ofNat 32 argc))).sp := by
  simp only [Downward.push_sp, length_le32]
  omega

theorem pushTail_holds (argc : Nat) (h : s.Holds top cells) (hroom : 12 ≤ s.sp) :
    (pushTail argc s).Holds top (tailBytes argc s.sp ++ cells) := by
  obtain ⟨hargv, hargc, hzero⟩ := pushTail_room argc hroom
  have h₃ := pushZero_holds ((h.push hargv).push hargc) hzero
  exact h₃

theorem pushTail_grows (argc : Nat) (hroom : 12 ≤ s.sp) : s.Grows (pushTail argc s) := by
  obtain ⟨hargv, hargc, hzero⟩ := pushTail_room argc hroom
  exact ((Downward.Grows.push hargv).trans (Downward.Grows.push hargc)).trans (pushZero_grows hzero)

/-- The return address is written last. -/
theorem pushTail_writes (argc : Nat) (s : Downward UInt8) :
    ((pushTail argc s).sp, List.replicate 4 0) ∈ (pushTail argc s).writes := mem_cons_self

end Words

/-! ## The whole function -/

section Setup

variable {s : Downward UInt8} {argv : List (List UInt8)} {left : Nat} {o : Outcome}

/-- The stack when the loop over the pointers has left `left` rounds undone, from `esp` on. -/
def stackBytes (argv : List (List UInt8)) (left sp : Nat) : List UInt8 :=
  tailBytes argv.length sp ++ (pointerBytes argv left (argv.length - left) ++
    (List.replicate 4 0 ++ (List.replicate (packedSize argv - (strings argv).length) 0 ++ strings argv)))

/-- What `setup_stack` does with a page. -/
structure Built (s : Downward UInt8) (argv : List (List UInt8)) (left : Nat) (o : Outcome) : Prop where
  success : o.success = decide (left = 0)
  mapped : o.mapped = decide (left = 0)
  left_le : left ≤ argv.length
  grows : (freshPage s).Grows o.stack
  holds : o.stack.Holds PHYS_BASE (stackBytes argv left (o.stack.sp + 12))
  stopped : left ≠ 0 → o.stack.sp < UPAGE
  went : left < argv.length → UPAGE ≤ o.stack.sp + 4
  last : (o.stack.sp, List.replicate 4 0) ∈ o.stack.writes

theorem packedSize_ge (argv : List (List UInt8)) : (strings argv).length ≤ packedSize argv := by
  unfold packedSize
  omega

theorem Built.sp_eq (h : Built s argv left o) :
    o.stack.sp + packedSize argv + 4 * (argv.length - left + 1) + 12 = PHYS_BASE := by
  have htop := h.holds.top
  have hge := packedSize_ge argv
  unfold stackBytes at htop
  simp only [length_append, length_tailBytes, length_pointerBytes, length_replicate] at htop
  omega

theorem freshPage_zero {x : Nat} (hlow : UPAGE ≤ x) (hhigh : x < PHYS_BASE) : (freshPage s).mem x = 0 := by
  obtain ⟨hp, hu, hsize⟩ := stack_page
  have hin : x < UPAGE + (List.replicate PGSIZE (0 : UInt8)).length := by
    rw [length_replicate]
    omega
  show patch s.mem UPAGE (List.replicate PGSIZE 0) x = 0
  rw [patch_getD hlow hin 0, getD_eq_getElem?_getD, getElem?_replicate]
  split
  · rfl
  · rfl

/-- The bytes that the alignment skips are zeros of the page. -/
theorem Pushed.align (h : Pushed argv 0 s argPointers)
    {s₀ : Downward UInt8} (hgrows : (freshPage s₀).Grows s) (hpage : (strings argv).length ≤ PGSIZE) :
    (s.lower (s.sp % 4)).Holds PHYS_BASE
      (List.replicate (packedSize argv - (strings argv).length) 0 ++ strings argv) := by
  have htop := h.holds.top
  rw [drop_zero] at htop
  obtain ⟨hp, hu, hsize⟩ := stack_page
  have hpad : packedSize argv - (strings argv).length = s.sp % 4 := by
    unfold packedSize
    omega
  have hzero : slice s.mem (s.sp - s.sp % 4) (s.sp % 4) = List.replicate (s.sp % 4) 0 := by
    apply ext_getElem?
    intro i
    rw [getElem?_slice, getElem?_replicate]
    split
    · rw [hgrows.mem _ (.inl (by omega)), freshPage_zero (by omega) (by omega)]
    · rfl
  have hlow : (s.lower (List.replicate (s.sp % 4) (0 : UInt8)).length).Holds PHYS_BASE
      (List.replicate (s.sp % 4) 0 ++ strings argv) := by
    have hall := h.holds
    refine hall.lower ?_ ?_
    · rw [length_replicate]
      omega
    · rw [length_replicate]
      exact hzero
  rw [length_replicate] at hlow
  rwa [hpad]

/-- **`setup_stack`** with a page, when the strings are no longer than the page. -/
theorem setupStack_built (s : Downward UInt8) (hfew : argv.length ≤ ARG_POINTERS)
    (hpage : (strings argv).length ≤ PGSIZE) : ∃ left o, setupStack true s argv = .ok o ∧ Built s argv left o := by
  obtain ⟨hp, hu, hsize⟩ := stack_page
  have hmax : ARG_POINTERS = 50 := rfl
  have hstart : Pushed argv argv.length (freshPage s) (List.replicate ARG_POINTERS none) := by
    refine ⟨?_, length_replicate, fun j hj hlt => absurd hlt (by omega)⟩
    rw [drop_length]
    exact Downward.Holds.nil rfl
  obtain ⟨s₁, argPointers, hrun₁, hgrows₁, hpushed⟩ := hstart.run (Nat.le_refl _) hfew (by omega)
  have htop₁ := hpushed.holds.top
  rw [drop_zero] at htop₁
  have halign := hpushed.align hgrows₁ hpage
  have hsp₂ : (s₁.lower (s₁.sp % 4)).sp = s₁.sp - s₁.sp % 4 := rfl
  have hzero := pushZero_holds halign (by omega)
  have hsp₃ : (pushZero (s₁.lower (s₁.sp % 4))).sp = s₁.sp - s₁.sp % 4 - 4 := rfl
  obtain ⟨left, s₂, hrun₂, hpointed⟩ :=
    pushPointers_run (fun j hj => hpushed.pointers j (Nat.zero_le j) hj) hzero (by omega)
  have hroom : 12 ≤ s₂.sp := by
    have htop₂ := hpointed.holds.top
    have hpad : packedSize argv ≤ (strings argv).length + 3 := by
      unfold packedSize
      omega
    simp only [length_append, length_pointerBytes, length_replicate] at htop₂
    omega
  have hsp : (pushTail argv.length s₂).sp = s₂.sp - 4 - 4 - 4 := rfl
  have hback : (pushTail argv.length s₂).sp + 12 = s₂.sp := by omega
  refine ⟨left, ⟨decide (left = 0), decide (left = 0), pushTail argv.length s₂⟩, ?_, rfl, rfl, hpointed.left_le, ?_, ?_, ?_, ?_,
    pushTail_writes _ _⟩
  · refine (if_pos rfl).trans ((Checked.ok_bind hrun₁).trans ?_)
    rw [← wordAlign_sp] at hrun₂
    exact (Checked.ok_bind hrun₂).trans rfl
  · exact ((hgrows₁.trans (Downward.Grows.lower _ _)).trans (pushZero_grows (by omega))).trans
      (hpointed.grows.trans (pushTail_grows _ hroom))
  · rw [hback]
    exact pushTail_holds _ hpointed.holds hroom
  · intro hleft
    have hstop := hpointed.stopped hleft
    show (pushTail argv.length s₂).sp < UPAGE
    unfold ESP_LIMIT at hstop
    omega
  · intro hmore
    have hwent := hpointed.went hmore
    show UPAGE ≤ (pushTail argv.length s₂).sp + 4
    unfold ESP_LIMIT at hwent
    omega

end Setup

/-! ## What `main` finds -/

/-- The word at an address, as a number. -/
def wordAt (mem : Nat → UInt8) (a : Nat) : Nat := (word32 (slice mem a 4)).toNat

/-- The string at an address: its characters up to the first null byte. -/
structure StringAt (mem : Nat → UInt8) (a : Nat) (arg : List UInt8) : Prop where
  bytes : slice mem a (arg.length + 1) = arg ++ [0]
  clean : 0 ∉ arg

/-- `argv[i]`, as a program finds it with its stack pointer at `esp`. -/
def argument (mem : Nat → UInt8) (esp i : Nat) : Nat := wordAt mem (wordAt mem (esp + 8) + 4 * i)

/-- The stack that the C calling convention gives to `main (argc, argv)`. -/
structure MainFrame (mem : Nat → UInt8) (esp : Nat) (argv : List (List UInt8)) : Prop where
  inside : UPAGE ≤ esp
  aligned : esp % 4 = 0 ∧ wordAt mem (esp + 8) % 4 = 0
  returnAddress : wordAt mem esp = 0
  argc : wordAt mem (esp + 4) = argv.length
  array : wordAt mem (esp + 8) = esp + 12
  string : ∀ i (hi : i < argv.length), StringAt mem (argument mem esp i) argv[i]
  null : argument mem esp argv.length = 0
  above : ∀ i < argv.length, esp + 12 + 4 * (argv.length + 1) ≤ argument mem esp i
  below : ∀ i (hi : i < argv.length), argument mem esp i + (argv[i].length + 1) ≤ PHYS_BASE
  apart : ∀ i j (hij : i < j) (hj : j < argv.length), argument mem esp i + (argv[i].length + 1) ≤ argument mem esp j

section Frame

variable {s : Downward UInt8} {argv : List (List UInt8)} {o : Outcome} {i : Nat} {n left : Nat}

/-- A word of the stack, by its distance from the pointer. -/
theorem wordAt_of_holds {first last : List UInt8} (h : s.Holds top cells)
    (hcells : cells = first ++ (le32 (BitVec.ofNat 32 n) ++ last)) (hn : n < 4294967296) :
    wordAt s.mem (s.sp + first.length) = n := by
  rw [hcells, ← List.append_assoc] at h
  have hslice := h.slice_eq
  rw [length_le32] at hslice
  unfold wordAt
  rw [hslice, word32_le32, BitVec.toNat_ofNat]
  omega

theorem pointerBytes_split (argv : List (List UInt8)) (hi : i < n) :
    pointerBytes argv 0 n =
      pointerBytes argv 0 i ++ le32 (BitVec.ofNat 32 (pointer argv i)) ++ pointerBytes argv (i + 1) (n - i - 1) := by
  have hsplit : n = i + (n - i - 1 + 1) := by omega
  have hrange : List.range' 0 n = List.range' 0 i ++ i :: List.range' (i + 1) (n - i - 1) := by
    conv_lhs => rw [hsplit]
    rw [← range'_append_1, Nat.zero_add, range'_succ]
  unfold pointerBytes
  rw [hrange, flatMap_append, flatMap_cons, List.append_assoc]

theorem strings_split (hi : i < argv.length) :
    strings argv = strings (argv.take i) ++ (argv[i] ++ [0]) ++ strings (argv.drop (i + 1)) := by
  have hall : strings argv = strings (argv.take i) ++ strings (argv.drop i) := by
    unfold strings
    rw [← flatMap_append, take_append_drop]
  rw [hall, strings_drop hi, List.append_assoc, List.append_assoc, List.append_assoc]

/-- The pointer to argument `i`, when all pointers are there. -/
theorem Built.pointer_word (h : Built s argv 0 o) (hi : i < argv.length) :
    wordAt o.stack.mem (o.stack.sp + 12 + 4 * i) = pointer argv i := by
  have hcells : stackBytes argv 0 (o.stack.sp + 12) =
      (tailBytes argv.length (o.stack.sp + 12) ++ pointerBytes argv 0 i) ++ (le32 (BitVec.ofNat 32 (pointer argv i)) ++
        (pointerBytes argv (i + 1) (argv.length - i - 1) ++ (List.replicate 4 0 ++
          (List.replicate (packedSize argv - (strings argv).length) 0 ++ strings argv)))) := by
    unfold stackBytes
    rw [Nat.sub_zero, pointerBytes_split argv hi]
    simp only [List.append_assoc]
  have hword := wordAt_of_holds h.holds hcells (by
    have hp := physBase_eq
    unfold pointer
    omega)
  rwa [length_append, length_tailBytes, length_pointerBytes, ← Nat.add_assoc] at hword

/-- Argument `i` lies where its pointer points to. -/
theorem Built.string_bytes (h : Built s argv left o) (hi : i < argv.length) :
    slice o.stack.mem (pointer argv i) (argv[i].length + 1) = argv[i] ++ [0] := by
  have hholds := h.holds
  unfold stackBytes at hholds
  rw [strings_split hi] at hholds
  simp only [← List.append_assoc] at hholds
  rw [List.append_assoc _ argv[i] [0]] at hholds
  have hslice := hholds.slice_eq
  have htop := hholds.top
  have hlen := congrArg List.length (strings_drop hi)
  rw [length_append, length_append] at htop
  rw [length_append] at hlen
  have hat : ∀ a n : Nat, a + n = PHYS_BASE - (argv[i] ++ [0]).length - (strings (argv.drop (i + 1))).length →
      a + n = pointer argv i := by
    intro a n hsum
    unfold pointer
    omega
  rw [hat _ _ (by omega), length_append, length_singleton] at hslice
  exact hslice

theorem zeroWord : List.replicate 4 (0 : UInt8) = le32 (BitVec.ofNat 32 0) := by decide

/-- The null pointer after the pointers. -/
theorem Built.null_word (h : Built s argv 0 o) : wordAt o.stack.mem (o.stack.sp + 12 + 4 * argv.length) = 0 := by
  have hcells : stackBytes argv 0 (o.stack.sp + 12) =
      (tailBytes argv.length (o.stack.sp + 12) ++ pointerBytes argv 0 argv.length) ++ (le32 (BitVec.ofNat 32 0) ++
        (List.replicate (packedSize argv - (strings argv).length) 0 ++ strings argv)) := by
    unfold stackBytes
    rw [Nat.sub_zero, zeroWord, List.append_assoc]
  have hword := wordAt_of_holds h.holds hcells (by omega)
  rwa [length_append, length_tailBytes, length_pointerBytes, ← Nat.add_assoc] at hword

/-- The three words at the stack pointer. -/
theorem Built.tail_words (h : Built s argv left o) (hfew : argv.length ≤ ARG_POINTERS) :
    wordAt o.stack.mem o.stack.sp = 0 ∧ wordAt o.stack.mem (o.stack.sp + 4) = argv.length ∧
      wordAt o.stack.mem (o.stack.sp + 8) = o.stack.sp + 12 := by
  have hp := physBase_eq
  have hmax : ARG_POINTERS = 50 := rfl
  have hsp := h.sp_eq
  have hrest : stackBytes argv left (o.stack.sp + 12) = le32 (BitVec.ofNat 32 0) ++
      (le32 (BitVec.ofNat 32 argv.length) ++ (le32 (BitVec.ofNat 32 (o.stack.sp + 12)) ++
        (pointerBytes argv left (argv.length - left) ++ (List.replicate 4 0 ++
          (List.replicate (packedSize argv - (strings argv).length) 0 ++ strings argv))))) := by
    unfold stackBytes tailBytes
    rw [zeroWord, List.append_assoc, List.append_assoc]
  have hreturn := wordAt_of_holds h.holds (hrest.trans (nil_append _).symm) (by omega)
  have hargc := wordAt_of_holds h.holds hrest (by omega)
  have harray := wordAt_of_holds h.holds (hrest.trans (List.append_assoc _ _ _).symm) (by omega)
  exact ⟨hreturn, hargc, harray⟩

theorem Built.frame (h : Built s argv 0 o) (hfew : argv.length ≤ ARG_POINTERS) (hclean : ∀ arg ∈ argv, 0 ∉ arg)
    (hfits : Fits argv) : MainFrame o.stack.mem o.stack.sp argv := by
  obtain ⟨hp, hu, hsize⟩ := stack_page
  have hsp := h.sp_eq
  have hge := packedSize_ge argv
  have hfour : packedSize argv % 4 = 0 := by
    unfold packedSize
    omega
  obtain ⟨hzero, hargc, harray⟩ := h.tail_words hfew
  unfold Fits at hfits
  have hargument : ∀ i < argv.length, argument o.stack.mem o.stack.sp i = pointer argv i := by
    intro i hi
    unfold argument
    rw [harray, h.pointer_word hi]
  -- the bytes of argument `i` and of those after it
  have hbytes : ∀ i (hi : i < argv.length), (strings (argv.drop i)).length =
      argv[i].length + 1 + (strings (argv.drop (i + 1))).length := by
    intro i hi
    rw [strings_drop hi, length_append, length_append, length_singleton]
  have hlater : ∀ i j, i ≤ j → (strings (argv.drop j)).length ≤ (strings (argv.drop i)).length := by
    intro i j hij
    have hle := length_strings_drop_le (argv.drop i) (j - i)
    rwa [drop_drop, Nat.add_sub_cancel' hij] at hle
  refine ⟨by omega, ⟨by omega, by omega⟩, hzero, hargc, harray, ?_, ?_, ?_, ?_, ?_⟩
  · intro i hi
    rw [hargument i hi]
    exact ⟨h.string_bytes hi, hclean _ (getElem_mem hi)⟩
  · unfold argument
    rw [harray, h.null_word]
  · intro i hi
    rw [hargument i hi]
    have hle := length_strings_drop_le argv i
    unfold pointer
    omega
  · intro i hi
    rw [hargument i hi]
    have heq := hbytes i hi
    have hle := length_strings_drop_le argv i
    unfold pointer
    omega
  · intro i j hij hj
    rw [hargument i (by omega), hargument j hj]
    have heq := hbytes i (by omega)
    have hle := length_strings_drop_le argv i
    have hnext := hlater (i + 1) j hij
    unfold pointer
    omega

end Frame

/-! ## Results -/

section Results

variable {s : Downward UInt8} {argv : List (List UInt8)} {left : Nat} {o : Outcome}

/-- The loop over the pointers gets through when one word less than all would fit. -/
theorem Built.left_eq_zero_iff (h : Built s argv left o) :
    left = 0 ↔ argv.length = 0 ∨ packedSize argv + 4 * argv.length + 12 ≤ PGSIZE := by
  obtain ⟨hp, hu, hsize⟩ := stack_page
  have hsp := h.sp_eq
  have hle := h.left_le
  constructor
  · intro hzero
    by_cases hnone : argv.length = 0
    · exact .inl hnone
    · have hwent := h.went (by omega)
      exact .inr (by omega)
  · intro hroom
    by_contra hleft
    have hstopped := h.stopped hleft
    omega

theorem Fits.strings_le (h : Fits argv) : (strings argv).length ≤ PGSIZE := by
  have hge := packedSize_ge argv
  unfold Fits at h
  omega

/-- **Argument passing.** When everything fits into the page, `main` finds the arguments. -/
theorem setupStack_passes_arguments (s : Downward UInt8) {argv : List (List UInt8)} (hfew : argv.length ≤ 49)
    (hclean : ∀ arg ∈ argv, 0 ∉ arg) (hfits : Fits argv) :
    ∃ o, setupStack true s argv = .ok o ∧ o.success = true ∧ o.mapped = true ∧
      MainFrame o.stack.mem o.stack.sp argv := by
  have hmax : ARG_POINTERS = 50 := rfl
  obtain ⟨left, o, hrun, hbuilt⟩ := setupStack_built s (by omega) hfits.strings_le
  have hleft : left = 0 := by
    apply hbuilt.left_eq_zero_iff.mpr
    unfold Fits at hfits
    exact .inr (by omega)
  subst hleft
  exact ⟨o, hrun, hbuilt.success, hbuilt.mapped, hbuilt.frame (by omega) hclean hfits⟩

/-- `echo x` -/
theorem setupStack_passes_arguments_echo :
    ∃ o, setupStack true ⟨fun _ => 0, 0, []⟩ [[101, 99, 104, 111], [120]] = .ok o ∧ o.success = true ∧
      o.mapped = true ∧ MainFrame o.stack.mem o.stack.sp [[101, 99, 104, 111], [120]] :=
  setupStack_passes_arguments _ (by decide) (by decide) (by decide)

end Results

end Args
end Asg1
