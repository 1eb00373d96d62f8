import Asg1.Lib.Bytes
import Asg1.Userprog.UserMem

/-!
# `Userprog.Entry` — the entry of system calls

`syscall_handler` checks one byte of the user's stack, the one that `esp` points to, and then reads sixteen: the call number
and three arguments. The table of handlers has twenty entries, for the numbers that pass the check against
`SYSCALL_UPPER`, and the last seven of them are null.

`entry_safe_iff` says exactly when an entry is safe.
-/

namespace Asg1
namespace Entry

open Pte Bytes UserMem

/-- The functions that `handler_table` has. -/
inductive Handler
  | halt | exit | exec | wait | create | remove | open | filesize | read | write | seek | tell | close
  deriving DecidableEq

/-- `handler_table`, as `syscall_init` fills it. -/
def handlerTable : List (Option Handler) :=
  [some .halt, some .exit, some .exec, some .wait, some .create, some .remove, some .open, some .filesize, some .read,
    some .write, some .seek, some .tell, some .close,
    -- SYS_MMAP to SYS_INUMBER
    none, none, none, none, none, none, none]

/-- `SYS_INUMBER` -/
def SYSCALL_UPPER : Nat := 19

/-- `memcpy (&x, a, 4)` -/
def fetch (sp : Space) (a : Word) : Kern Word := do
  let bytes ← copyIn sp 4 a
  return word32 bytes

/-- `handler_table[call_num] (arg1, arg2, arg3)` -/
def dispatch (callNum arg1 arg2 arg3 : Word) : Kern (Handler × Word × Word × Word) :=
  match handlerTable.getD callNum.toNat none with
  | some handler => return (handler, arg1, arg2, arg3)
  | none => Logged.stop .nullCall

/-- `syscall_handler`, up to the call of the handler. -/
def syscallHandler (sp : Space) (esp : Word) : Kern (Handler × Word × Word × Word) :=
  if esp = 0#32 ∨ ¬ isUserVaddr esp ∨ ¬ sp.Mapped esp then threadExit
  else do
    let callNum ← fetch sp esp
    if SYSCALL_UPPER < callNum.toNat then threadExit
    else do
      let arg1 ← fetch sp (esp + 4#32)
      let arg2 ← fetch sp (esp + 8#32)
      let arg3 ← fetch sp (esp + 12#32)
      dispatch callNum arg1 arg2 arg3

/-- The word at an address. -/
def wordAt (mem : Mem) (a : Word) : Word := word32 (bytesAt mem 4 a)

/-- All bytes of a word are the user's. -/
def WordReadable (sp : Space) (a : Word) : Prop := ∀ i < 4, sp.Readable (offset a i)

/-- **A safe entry.** Words are read where the process may read, and the entry ends in the handler for the call number or
    in the end of the process. -/
structure EntrySafe (sp : Space) (mem : Mem) (esp : Word) : Prop where
  reads : (syscallHandler sp esp).Clean (Event.Allowed sp) mem
  outcome :
    (∃ handler, handlerTable.getD (wordAt mem esp).toNat none = some handler ∧
      (syscallHandler sp esp mem).outcome =
        .ok (handler, wordAt mem (esp + 4#32), wordAt mem (esp + 8#32), wordAt mem (esp + 12#32))) ∨
    (syscallHandler sp esp mem).outcome = .error (.exit (-1))

/-- **The condition.** The check of `esp` fails; or the word there is the user's, and it is above `SYSCALL_UPPER`, or it has
    a handler and the three words after it are the user's. -/
def EntryOk (sp : Space) (mem : Mem) (esp : Word) : Prop :=
  esp = 0#32 ∨ ¬ sp.Readable esp ∨
    WordReadable sp esp ∧
      (SYSCALL_UPPER < (wordAt mem esp).toNat ∨
        (WordReadable sp (esp + 4#32) ∧ WordReadable sp (esp + 8#32) ∧ WordReadable sp (esp + 12#32)) ∧
          (handlerTable.getD (wordAt mem esp).toNat none).isSome = true)

section
variable {sp : Space} {mem : Mem} {a esp : Word} {α : Type}

theorem fetch_run (h : WordReadable sp a) : ∃ t, fetch sp a mem = ⟨.ok (wordAt mem a), mem, t⟩ := by
  obtain ⟨t, hrun⟩ := @copyIn_run sp mem a 4 fun i hi => (h i hi).2
  refine ⟨t ++ [], ?_⟩
  rw [fetch, Logged.bind_ok hrun]
  rfl

variable {callNum arg1 arg2 arg3 : Word} {f : Word → Kern α}

/-- A word that is fetched, and what follows. -/
theorem clean_fetch :
    (fetch sp a >>= f).Clean (Event.Allowed sp) mem ↔ WordReadable sp a ∧ (f (wordAt mem a)).Clean (Event.Allowed sp) mem := by
  have hfetch : (fetch sp a).Clean (Event.Allowed sp) mem ↔ WordReadable sp a := by
    rw [fetch, Logged.clean_bind_left (fun _ _ => Logged.clean_pure), clean_copyIn]
    rfl
  constructor
  · intro h
    have hread := hfetch.mp h.left
    obtain ⟨t, hrun⟩ := @fetch_run sp mem a hread
    exact ⟨hread, ((Logged.clean_bind_ok hrun).mp h).2⟩
  · rintro ⟨hread, h⟩
    obtain ⟨t, hrun⟩ := @fetch_run sp mem a hread
    exact (Logged.clean_bind_ok hrun).mpr ⟨hfetch.mpr hread, h⟩

theorem fetch_outcome (h : WordReadable sp a) : ((fetch sp a >>= f) mem).outcome = (f (wordAt mem a) mem).outcome := by
  obtain ⟨t, hrun⟩ := @fetch_run sp mem a h
  rw [Logged.bind_ok hrun]

theorem dispatch_some {handler : Handler} (h : handlerTable.getD callNum.toNat none = some handler) :
    dispatch callNum arg1 arg2 arg3 = pure (handler, arg1, arg2, arg3) := by
  rw [dispatch, h]

theorem dispatch_none (h : handlerTable.getD callNum.toNat none = none) :
    dispatch callNum arg1 arg2 arg3 = Logged.stop .nullCall := by
  rw [dispatch, h]

/-- Calling a handler reads nothing more. -/
theorem clean_dispatch : (dispatch callNum arg1 arg2 arg3).Clean (Event.Allowed sp) mem := by
  cases h : handlerTable.getD callNum.toNat none with
  | none =>
    rw [dispatch_none h]
    exact Logged.clean_stop
  | some handler =>
    rw [dispatch_some h]
    exact Logged.clean_pure

/-- The check of `esp` fails, and the process ends. -/
theorem entrySafe_of_refused (h : esp = 0#32 ∨ ¬ sp.Readable esp) : EntrySafe sp mem esp := by
  have hrun : syscallHandler sp esp = threadExit := by
    refine if_pos (h.imp id fun hnot => ?_)
    by_cases huser : isUserVaddr esp
    · exact .inr fun hmap => hnot ⟨huser, hmap⟩
    · exact .inl huser
  refine ⟨?_, .inr ?_⟩
  · rw [hrun]
    exact Logged.clean_stop
  · rw [hrun]
    rfl

/-- The rest of the handler, after the check of `esp`. -/
theorem syscallHandler_checked (h : ¬ (esp = 0#32 ∨ ¬ sp.Readable esp)) :
    syscallHandler sp esp = (do
      let callNum ← fetch sp esp
      if SYSCALL_UPPER < callNum.toNat then threadExit
      else do
        let arg1 ← fetch sp (esp + 4#32)
        let arg2 ← fetch sp (esp + 8#32)
        let arg3 ← fetch sp (esp + 12#32)
        dispatch callNum arg1 arg2 arg3) := by
  refine if_neg fun hor => h (hor.imp id ?_)
  rintro (hkernel | hmap) hread
  · exact hkernel hread.1
  · exact hmap hread.2

/-- **When an entry is safe.** -/
theorem entry_safe_iff : EntrySafe sp mem esp ↔ EntryOk sp mem esp := by
  by_cases hcheck : esp = 0#32 ∨ ¬ sp.Readable esp
  · exact ⟨fun _ => hcheck.imp id .inl, fun _ => entrySafe_of_refused hcheck⟩
  have hrun := syscallHandler_checked hcheck
  constructor
  · rintro ⟨hreads, houtcome⟩
    rw [hrun, clean_fetch] at hreads
    obtain ⟨hword, hreads⟩ := hreads
    refine .inr (.inr ⟨hword, ?_⟩)
    rw [hrun, fetch_outcome hword] at houtcome
    by_cases hupper : SYSCALL_UPPER < (wordAt mem esp).toNat
    · exact .inl hupper
    · rw [if_neg hupper, clean_fetch, clean_fetch, clean_fetch] at hreads
      obtain ⟨h₁, h₂, h₃, -⟩ := hreads
      rw [if_neg hupper, fetch_outcome h₁, fetch_outcome h₂, fetch_outcome h₃] at houtcome
      refine .inr ⟨⟨h₁, h₂, h₃⟩, ?_⟩
      -- without a handler the outcome is neither a call nor an exit
      cases htable : handlerTable.getD (wordAt mem esp).toNat none with
      | some handler => rfl
      | none =>
        rw [dispatch_none htable, htable] at houtcome
        rcases houtcome with ⟨handler, hnone, -⟩ | hexit
        · cases hnone
        · cases hexit
  · intro h
    obtain ⟨hword, hrest⟩ : WordReadable sp esp ∧ _ := by
      rcases h with hzero | hnot | hok
      · exact absurd (.inl hzero) hcheck
      · exact absurd (.inr hnot) hcheck
      · exact hok
    by_cases hupper : SYSCALL_UPPER < (wordAt mem esp).toNat
    · constructor
      · rw [hrun, clean_fetch, if_pos hupper]
        exact ⟨hword, Logged.clean_stop⟩
      · rw [hrun, fetch_outcome hword, if_pos hupper]
        exact .inr rfl
    · obtain ⟨⟨h₁, h₂, h₃⟩, hsome⟩ := hrest.resolve_left hupper
      obtain ⟨handler, htable⟩ := Option.isSome_iff_exists.mp hsome
      constructor
      · rw [hrun, clean_fetch, if_neg hupper, clean_fetch, clean_fetch, clean_fetch]
        exact ⟨hword, h₁, h₂, h₃, clean_dispatch⟩
      · rw [hrun, fetch_outcome hword, if_neg hupper, fetch_outcome h₁, fetch_outcome h₂, fetch_outcome h₃,
          dispatch_some htable]
        exact .inl ⟨handler, htable, rfl⟩

end

/-- **Entries that are not safe.** A call number across the end of the last mapped page is a page fault in the kernel; the
    call number 13 is a jump to address 0; arguments above `PHYS_BASE` are read from the kernel. -/
theorem entries_fault_and_jump :
    ((syscallHandler (oneUserPage 0x8048 false) 0x08048ffe#32 fun _ => 0).outcome = .error (.fault 0x08049000#32) ∧
      ¬ EntrySafe (oneUserPage 0x8048 false) (fun _ => 0) 0x08048ffe#32) ∧
    ((syscallHandler (oneUserPage 0x8048 false) 0x08048000#32 fun a => if a = 0x08048000#32 then 13 else 0).outcome =
        .error .nullCall ∧
      ¬ EntrySafe (oneUserPage 0x8048 false) (fun a => if a = 0x08048000#32 then 13 else 0) 0x08048000#32) ∧
    (.load 0xc0000000#32 ∈ (syscallHandler (oneUserPage 0xbffff true) 0xbffffffc#32 fun _ => 0).trace ∧
      ¬ EntrySafe (oneUserPage 0xbffff true) (fun _ => 0) 0xbffffffc#32) := by
  have hfault : (syscallHandler (oneUserPage 0x8048 false) 0x08048ffe#32 fun _ => 0).outcome =
      .error (.fault 0x08049000#32) := rfl
  have hnull : (syscallHandler (oneUserPage 0x8048 false) 0x08048000#32
      fun a => if a = 0x08048000#32 then 13 else 0).outcome = .error .nullCall := rfl
  have hkernel : Event.load 0xc0000000#32 ∈
      (syscallHandler (oneUserPage 0xbffff true) 0xbffffffc#32 fun _ => 0).trace := by decide +kernel
  refine ⟨⟨hfault, fun h => ?_⟩, ⟨hnull, fun h => ?_⟩, hkernel, fun h => ?_⟩
  · rcases h.outcome with ⟨handler, -, hok⟩ | hexit
    · cases hfault.symm.trans hok
    · cases hfault.symm.trans hexit
  · rcases h.outcome with ⟨handler, -, hok⟩ | hexit
    · cases hnull.symm.trans hok
    · cases hnull.symm.trans hexit
  · exact absurd (h.reads _ hkernel).1 (by decide)

end Entry
end Asg1
