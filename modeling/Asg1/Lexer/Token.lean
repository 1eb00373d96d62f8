import Asg1.Lexer.Scan
import Mathlib.Data.Fintype.Basic

/-!
# `Lexer.Token` — tokens (`token.h`), the character classes (`scanner.c`, `lexan.h`) and the host

The union `tokenval` is a sum of its members: each routine of the lexer writes one of them. The links of a
token (`symtype`, `symentry`, `operands`, `link`) are never touched by the lexer and are left out.

Two things the lexer computes with are not fixed by its source and come in as a `Host`: the arithmetic of
`double`, and what lies in memory just outside the tables `CHARCLASS`, `dcl` and `pdcl`.
-/

namespace Asg1
namespace Lexer

/-! ## Numbering (`token.h`) -/

/-! ### Token types -/

def OPERATOR : Int := 0
def DELIMITER : Int := 1
def RESERVED : Int := 2
def IDENTIFIERTOK : Int := 3
def STRINGTOK : Int := 4
def NUMBERTOK : Int := 5

/-! ### Number types -/

def INTEGER : Int := 0
def REAL : Int := 1

/-! ### Operators -/

def PLUSOP : Int := 1
def MINUSOP : Int := 2
def TIMESOP : Int := 3
def DIVIDEOP : Int := 4
def ASSIGNOP : Int := 5
def EQOP : Int := 6
def NEOP : Int := 7
def LTOP : Int := 8
def LEOP : Int := 9
def GEOP : Int := 10
def GTOP : Int := 11
def POINTEROP : Int := 12
def DOTOP : Int := 13
def ANDOP : Int := 14
def OROP : Int := 15
def NOTOP : Int := 16
def DIVOP : Int := 17
def MODOP : Int := 18
def INOP : Int := 19

/-! ### Delimiters -/

def COMMA : Int := 280
def DELIMITER_BIAS : Int := COMMA - 1
def SEMICOLON : Int := 281
def COLON : Int := 282
def LPAREN : Int := 283
def RPAREN : Int := 284
def LBRACKET : Int := 285
def RBRACKET : Int := 286
def DOTDOT : Int := 287

/-! ### Reserved words -/

def ARRAY : Int := 288
def RESERVED_BIAS : Int := ARRAY - 1
def BEGINBEGIN : Int := 289
def CASE : Int := 290
def CONST : Int := 291
def DO : Int := 292
def DOWNTO : Int := 293
def ELSE : Int := 294
def END : Int := 295
def FILEFILE : Int := 296
def FOR : Int := 297
def FUNCTION : Int := 298
def GOTO : Int := 299
def IF : Int := 300
def LABEL : Int := 301
def NIL : Int := 302
def OF : Int := 303
def PACKED : Int := 304
def PROCEDURE : Int := 305
def PROGRAM : Int := 306
def RECORD : Int := 307
def REPEAT : Int := 308
def SET : Int := 309
def THEN : Int := 310
def TO : Int := 311
def TYPE : Int := 312
def UNTIL : Int := 313
def VAR : Int := 314
def WHILE : Int := 315
def WITH : Int := 316

/-! ## Tokens -/

/-- The union `tokenval`: the member that was written last. `tokenstring` is the whole 16-byte array. -/
inductive TokenVal (D : Type) where
  | tokenstring (s : List UInt8)
  | which (n : Int)
  | intnum (n : Int)
  | realnum (d : D)
deriving DecidableEq, Repr

/-- A token record. -/
structure Token (D : Type) where
  tokentype : Int
  datatype : Int
  tokenval : TokenVal D
deriving DecidableEq, Repr

/-- `talloc`: a record of zero bytes, whose `whichval` reads 0. -/
def talloc {D : Type} : Token D := ⟨0, 0, .which 0⟩

namespace Token

variable {D : Type}

/-- `whichval`, where that is the member in use. -/
def whichval (tok : Token D) : Option Int :=
  match tok.tokenval with
  | .which n => some n
  | _ => none

/-- `intval`, where that is the member in use. -/
def intval (tok : Token D) : Option Int :=
  match tok.tokenval with
  | .intnum n => some n
  | _ => none

/-- `stringval` as a C string: the bytes before the first NUL. -/
def stringval (tok : Token D) : Option (List UInt8) :=
  match tok.tokenval with
  | .tokenstring s => some (s.takeWhile (· ≠ 0))
  | _ => none

end Token

/-- `strncpy(dest, src, n)`: the bytes of `src` before its NUL, at most `n` of them, padded with NULs. -/
def strncpy (src : List UInt8) (n : Nat) : List UInt8 :=
  let cs := (src.takeWhile (· ≠ 0)).take n
  cs ++ List.replicate (n - cs.length) 0

/-! ## The host -/

/-- What the source leaves to the machine: `double` arithmetic, and the memory next to the tables. -/
structure Host (D : Type) where
  /-- Conversion of an `int` to `double`. -/
  ofInt : Int → D
  add : D → D → D
  mul : D → D → D
  /-- The constant `.1`. -/
  tenth : D
  /-- What `CHARCLASS[-1]` reads, `-1` being `EOF`. -/
  charclassBelow : Nat
  /-- What `dcl[i]` reads for `i` outside `0..99`. -/
  dclOutside : Int → D
  /-- What `pdcl[i]` reads for `i` outside `0..99`. -/
  pdclOutside : Int → D

/-! ## Character classes -/

def ALPHA : Nat := 1
def NUMERIC : Nat := 2
def SPECIAL : Nat := 3

/-- The special characters, `specchar` of `scanner.c`. -/
def specchar : List UInt8 := bytes "+-*/:=<>^.,;()[]\x7b\x7d"

/-- `for (i = lo; i <= hi; ++i) CHARCLASS[i] = cls;` -/
def setRange (lo hi : Char) (cls : Nat) (tbl : Nat → Nat) : Nat → Nat :=
  (List.range' lo.toNat (hi.toNat + 1 - lo.toNat)).foldl (fun t i => fun j => if j = i then cls else t j) tbl

/-- `init_charclass`: the table it leaves in `CHARCLASS`. -/
def init_charclass : Nat → Nat :=
  let t := fun _ => 0
  let t := setRange 'A' 'Z' ALPHA t
  let t := setRange 'a' 'z' ALPHA t
  let t := setRange '0' '9' NUMERIC t
  specchar.foldl (fun t c => fun j => if j = c.toNat then SPECIAL else t j) t

/-- `CHARCLASS[c]` after `init_charclass`, for `c` from `getchar`: an index `-1` reads below the table. -/
def CHARCLASS {D : Type} (H : Host D) (c : Option UInt8) : Nat :=
  match c with
  | none => H.charclassBelow
  | some c => init_charclass c.toNat

/-- A letter. -/
def isAlpha (c : UInt8) : Bool := (65 ≤ c.toNat && c.toNat ≤ 90) || (97 ≤ c.toNat && c.toNat ≤ 122)

/-- A decimal digit. -/
def isNumeric (c : UInt8) : Bool := 48 ≤ c.toNat && c.toNat ≤ 57

/-- A letter or a digit. -/
def isAlnum (c : UInt8) : Bool := isAlpha c || isNumeric c

/-- A space, a newline or a tab: the white space that `skipblanks` skips. -/
def isBlank (c : UInt8) : Bool := c = 32 || c = 10 || c = 9

theorem not_numeric_of_alpha {c : UInt8} (h : isAlpha c = true) : isNumeric c = false := by
  simp only [isAlpha, isNumeric, Bool.or_eq_true, Bool.and_eq_true, decide_eq_true_eq] at h ⊢
  simp only [Bool.and_eq_false_iff, decide_eq_false_iff_not]
  omega

theorem uint8_forall {p : UInt8 → Prop} (h : ∀ i : Fin 256, p (UInt8.ofNat i.val)) (c : UInt8) : p c := by
  have hc := h ⟨c.toNat, c.toNat_lt⟩
  simpa using hc

theorem init_charclass_alpha (c : UInt8) : init_charclass c.toNat = ALPHA ↔ isAlpha c = true :=
  uint8_forall (p := fun c => init_charclass c.toNat = ALPHA ↔ isAlpha c = true) (by decide +kernel) c

theorem init_charclass_numeric (c : UInt8) : init_charclass c.toNat = NUMERIC ↔ isNumeric c = true :=
  uint8_forall (p := fun c => init_charclass c.toNat = NUMERIC ↔ isNumeric c = true) (by decide +kernel) c

section
variable {D : Type} (H : Host D)

@[simp] theorem CHARCLASS_some_alpha (c : UInt8) : CHARCLASS H (some c) = ALPHA ↔ isAlpha c = true :=
  init_charclass_alpha c

@[simp] theorem CHARCLASS_some_numeric (c : UInt8) : CHARCLASS H (some c) = NUMERIC ↔ isNumeric c = true :=
  init_charclass_numeric c

end

end Lexer
end Asg1
