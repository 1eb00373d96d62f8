import Asg1.Userprog.Args

/-!
# `Userprog.Strtok` — cutting a command line into words

`strtok_r` and the string functions it is used with, on a buffer of bytes in which pointers are indices. `strtok_r`
writes a null byte over the delimiter after each word and keeps its place in `*save_ptr`. A read past the end of the
buffer is a fault.

`Text buf p l` says that the string at `p` is `l`. One call of `strtok_r` there finds the first word of `l` and leaves
the rest of the line as the next text; a string that ends before that place stays as it is.
-/

namespace Asg1
namespace Args

open Flat Runs List

/-! ## The string functions -/

/-- The string at a pointer. -/
def cstr (buf : List UInt8) (p : Nat) : List UInt8 := (buf.drop p).takeWhile (fun c => c != 0)

/-- `strchr`, in a string given by its characters. -/
def strchr : List UInt8 → UInt8 → Option Nat
  | [], c => if c = 0 then some 0 else none
  | x :: string, c => if x = c then some 0 else (strchr string c).map (· + 1)

/-- `strlcpy` into a buffer. -/
def strlcpyTo (dst src : List UInt8) (size : Nat) : List UInt8 :=
  let srcLen := src.length
  if 0 < size then
    let dstLen := if srcLen < size - 1 then srcLen else size - 1
    overwrite (overwrite dst 0 (src.take dstLen)) dstLen [0]
  else dst

/-- The first loop of `strtok_r`, over the characters from `s` on: whether the string has ended, and the place. -/
def skipDelimiters (delimiters : List UInt8) : List UInt8 → Nat → Except Fault (Bool × Nat)
  | [], _ => .error .unterminated
  | c :: rest, s =>
    if (strchr delimiters c).isSome then
      if c = 0 then .ok (true, s) else skipDelimiters delimiters rest (s + 1)
    else .ok (false, s)

/-- The second loop of `strtok_r`. -/
def skipToken (delimiters : List UInt8) : List UInt8 → Nat → Except Fault Nat
  | [], _ => .error .unterminated
  | c :: rest, s =>
    if (strchr delimiters c).isNone then skipToken delimiters rest (s + 1) else .ok s

/-- The buffer after a call of `strtok_r`, `*save_ptr`, and the token. -/
structure Strtok where
  buf : List UInt8
  savePtr : Option Nat
  token : Option Nat

/-- `strtok_r` from the place where it starts. -/
def strtokAt (buf : List UInt8) (s : Nat) (delimiters : List UInt8) : Except Fault Strtok := do
  let (ended, s) ← skipDelimiters delimiters (buf.drop s) s
  if ended then return { buf, savePtr := some s, token := none }
  else
    let token := s
    let s ← skipToken delimiters (buf.drop s) s
    if buf[s]? ≠ some 0 then return { buf := buf.set s 0, savePtr := some (s + 1), token := some token }
    else return { buf, savePtr := some s, token := some token }

def strtokR (buf : List UInt8) (s : Option Nat) (delimiters : List UInt8) (savePtr : Option Nat) :
    Except Fault Strtok :=
  match s, savePtr with
  | some s, _ => strtokAt buf s delimiters
  | none, some s => strtokAt buf s delimiters
  -- `ASSERT (s != NULL)`
  | none, none => .error .null

/-! ## Texts -/

variable {buf : List UInt8} {p q : Nat} {l w : List UInt8}

/-- The string at `p` is `l`. -/
structure Text (buf : List UInt8) (p : Nat) (l : List UInt8) : Prop where
  clean : 0 ∉ l
  there : ∃ junk, buf.drop p = l ++ 0 :: junk

theorem Text.cstr_eq (h : Text buf p l) : cstr buf p = l := by
  obtain ⟨junk, hjunk⟩ := h.there
  unfold cstr
  rw [hjunk, takeWhile_append_of_pos, takeWhile_cons_of_neg (by simp), append_nil]
  intro c hc
  have hne : c ≠ 0 := fun h0 => h.clean (h0 ▸ hc)
  simpa using hne

variable {c : UInt8} {gap rest : List UInt8}

/-- The delimiters of a command line. -/
def DELIMITERS : List UInt8 := [32]

end Args
end Asg1
