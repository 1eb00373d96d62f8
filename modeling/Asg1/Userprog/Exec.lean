import Asg1.Userprog.Strtok

/-!
# `Userprog.Exec` — from a command line to `argv`

`process_execute` and `start_process` of `userprog/process.c`, as far as they handle the command line: two copies of it,
the first word of one for the name of the thread, the words of the other for `argv`, the file name and the stack.

The outcomes of the page allocator, the search for the child and the part of `load` before the stack are parameters
(`Host`). The array `argv` has `MAX_ARGS` places, and nothing in the code looks at that number: the words must be fewer,
and there must be one, since a thread without a name fails an assertion of `init_thread`.
-/

namespace Asg1
namespace Args

open Runs List

def MAX_ARGS : Nat := 50

def MAX_FILE_NAME_LEN : Nat := 15

/-! ## The two functions -/

/-- A page of memory with what happens to be in it. -/
structure Page where
  bytes : List UInt8
  size : bytes.length = PGSIZE

/-- What the functions find: two pages for the copies, a page for the thread, the child when its parent looks for it,
    the array for the file name, and for `load` the file with its segments, a page for the stack and user memory. -/
structure Host where
  cmdCopy1 : Option Page
  cmdCopy2 : Option Page
  threadPage : Bool
  tid : Nat
  childFound : Bool
  fileName : List UInt8
  fileName_size : fileName.length = MAX_FILE_NAME_LEN
  image : List UInt8 → Bool
  stackPage : Bool
  userMem : Nat → UInt8
  esp : Nat

/-- `argv` while it is filled, with the buffer that it points into. -/
structure Split where
  buf : List UInt8
  argv : List (Option (Option Nat))
  argc : Nat

/-- The loop of `start_process` over the tokens. -/
def splitLoop : Nat → Strtok → List (Option (Option Nat)) → Nat → Except Fault Split
  | 0, _, _, _ => .error .endless
  | fuel + 1, r, argv, argc =>
    if r.token = none then .ok { buf := r.buf, argv, argc }
    else do
      let argv ← store .argv argv argc r.token
      let r ← strtokR r.buf none DELIMITERS r.savePtr
      splitLoop fuel r argv (argc + 1)

/-- A pointer that the code asserts not to be null. -/
def nonNull : Option Nat → Except Fault Nat
  | some p => .ok p
  | none => .error .null

/-- The strings of the first `argc` places of `argv`, which `setup_stack` reads. -/
def readArgs (buf : List UInt8) (argv : List (Option (Option Nat))) : Nat → Except Fault (List (List UInt8))
  | 0 => .ok []
  | argc + 1 => do
      let args ← readArgs buf argv argc
      let pointer ← fetch .argv argv argc
      let p ← nonNull pointer
      return args ++ [cstr buf p]

/-- `load`, with the arguments in the buffer. -/
def load (host : Host) (fileName buf : List UInt8) (argv : List (Option (Option Nat))) (argc : Nat) :
    Except Fault Bool :=
  if host.image fileName then do
    let args ← readArgs buf argv argc
    let o ← setupStack host.stackPage ⟨host.userMem, host.esp, []⟩ args
    return o.success
  else return false

/-- What a child process has when `load` returns. -/
structure Started where
  buf : List UInt8
  argv : List (Option (Option Nat))
  argc : Nat
  fileName : List UInt8
  loaded : Bool

/-- `start_process` up to `load`. -/
def startProcess (host : Host) (cmdLine : List UInt8) : Except Fault Started := do
  let first ← strtokR cmdLine (some 0) DELIMITERS none
  let split ← splitLoop (PGSIZE + 1) first (List.replicate MAX_ARGS none) 0
  let argv ← store .argv split.argv split.argc none
  let pointer ← fetch .argv argv 0
  let p ← nonNull pointer
  let fileName := cstr (strlcpyTo host.fileName (cstr split.buf p) MAX_FILE_NAME_LEN) 0
  let loaded ← load host fileName split.buf argv split.argc
  return { buf := split.buf, argv, argc := split.argc, fileName, loaded }

/-- What `process_execute` returns (`none` is `TID_ERROR`), and the child if there is one. -/
structure Executed where
  tid : Option Nat
  child : Option Started

def processExecute (host : Host) (cmdLine : List UInt8) : Except Fault Executed :=
  match host.cmdCopy1, host.cmdCopy2 with
  | some page1, some page2 => do
      let cmdCopy1 := strlcpyTo page1.bytes cmdLine PGSIZE
      let cmdCopy2 := strlcpyTo page2.bytes cmdLine PGSIZE
      let r ← strtokR cmdCopy1 (some 0) DELIMITERS none
      if host.threadPage then do
        -- `ASSERT (name != NULL)` in `init_thread`
        let _ ← nonNull r.token
        let child ← startProcess host cmdCopy2
        if host.childFound = true ∧ child.loaded = true then return { tid := some host.tid, child := some child }
        else return { tid := none, child := some child }
      else return { tid := none, child := none }
  | _, _ => return { tid := none, child := none }

/-! ## The loop over the tokens -/

/-- The places of `argv` after the given pointers were stored. -/
def places (tokens : List Nat) : List (Option (Option Nat)) :=
  tokens.map (fun p => some (some p)) ++ List.replicate (MAX_ARGS - tokens.length) none

variable {buf l : List UInt8} {p : Nat} {tokens : List Nat} {ws : List (List UInt8)}

variable {fuel i : Nat}

/-- `argv` at the end of the parsing: the pointers, `NULL`, and places that were never set. -/
def filled (tokens : List Nat) : List (Option (Option Nat)) :=
  tokens.map (fun p => some (some p)) ++ some none :: List.replicate (MAX_ARGS - tokens.length - 1) none

theorem filled_token (hi : i < tokens.length) : (filled tokens)[i]? = some (some (some tokens[i])) := by
  unfold filled
  rw [getElem?_append_left (by rwa [length_map]), getElem?_map, List.getElem?_eq_getElem hi]
  rfl

/-- The tokens point to the words. -/
def Points (buf : List UInt8) (tokens : List Nat) (ws : List (List UInt8)) : Prop :=
  List.Forall₂ (fun token w => Text buf token w) tokens ws

theorem Points.text (h : Points buf tokens ws) (hi : i < tokens.length) (hi' : i < ws.length) :
    Text buf tokens[i] ws[i] := List.Forall₂.get h hi hi'

/-- `setup_stack` reads the words. -/
theorem readArgs_run {argc : Nat} (h : Points buf tokens ws) (hargc : argc ≤ tokens.length) :
    readArgs buf (filled tokens) argc = .ok (ws.take argc) := by
  induction argc with
  | zero => rfl
  | succ argc ih =>
    have hlen : tokens.length = ws.length := h.length_eq
    have hlast : argc < ws.length := by omega
    have hfetch : fetch .argv (filled tokens) argc = .ok (some tokens[argc]) := fetch_ok (filled_token hargc)
    refine (Checked.ok_bind (ih (by omega))).trans ((Checked.ok_bind hfetch).trans ?_)
    rw [take_add_one, List.getElem?_eq_getElem hlast]
    show Except.ok (ws.take argc ++ [cstr buf tokens[argc]]) = _
    rw [(h.text hargc hlast).cstr_eq]
    rfl

/-- The stack is set up without a fault when the words are those of a page and there are places for the pointers. -/
theorem setupStack_ok (allocated : Bool) (s : Downward UInt8) (hfew : ws.length ≤ ARG_POINTERS)
    (hpage : (strings ws).length ≤ PGSIZE) : ∃ o, setupStack allocated s ws = .ok o := by
  cases allocated with
  | false => exact ⟨⟨false, false, s⟩, rfl⟩
  | true =>
    obtain ⟨-, o, hrun, -⟩ := setupStack_built s hfew hpage
    exact ⟨o, hrun⟩

/-- The arguments get onto the stack. -/
def Host.Stacks (host : Host) (ws : List (List UInt8)) : Prop :=
  ∃ o, setupStack host.stackPage ⟨host.userMem, host.esp, []⟩ ws = .ok o ∧ o.success = true

/-- `load` returns, and it succeeds if the file is there and the arguments get onto the stack. -/
theorem load_run (host : Host) (name : List UInt8) (h : Points buf tokens ws) (hfew : ws.length ≤ ARG_POINTERS)
    (hpage : (strings ws).length ≤ PGSIZE) :
    ∃ loaded, load host name buf (filled tokens) tokens.length = .ok loaded ∧
      (loaded = true ↔ host.image name = true ∧ host.Stacks ws) := by
  by_cases himage : host.image name = true
  · obtain ⟨o, ho⟩ := setupStack_ok host.stackPage ⟨host.userMem, host.esp, []⟩ hfew hpage
    have hargs := readArgs_run h (Nat.le_refl _)
    rw [h.length_eq, take_length, ← h.length_eq] at hargs
    refine ⟨o.success, (if_pos himage).trans ((Checked.ok_bind hargs).trans (Checked.ok_bind ho)), ?_⟩
    constructor
    · intro hsuccess
      exact ⟨himage, o, ho, hsuccess⟩
    · rintro ⟨-, o', ho', hsuccess⟩
      rw [ho] at ho'
      cases ho'
      exact hsuccess
  · exact ⟨false, if_neg himage, fun hfalse => absurd hfalse (by decide), fun hboth => absurd hboth.1 himage⟩

variable {text : List UInt8} {host : Host}

section
variable (htext : Text buf 0 text) (hlen : text.length ≤ PGSIZE - 1)
include htext hlen

end

/-! ## `process_execute` -/

/-- There are pages for the copies and for the thread. -/
def Host.Allocates (host : Host) : Prop :=
  host.cmdCopy1.isSome = true ∧ host.cmdCopy2.isSome = true ∧ host.threadPage = true

variable {line : List UInt8}

section
variable (hclean : 0 ∉ line) (h : host.Allocates)
include hclean h

end

/-- `argv` has exactly these words, and a null pointer after them. -/
structure Started.Has (child : Started) (ws : List (List UInt8)) : Prop where
  argc : child.argc = ws.length
  argv : ∀ i (hi : i < ws.length), ∃ p, child.argv[i]? = some (some (some p)) ∧ cstr child.buf p = ws[i]
  null : child.argv[child.argc]? = some (some none)

end Args
end Asg1
