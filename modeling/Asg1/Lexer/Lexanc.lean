import Asg1.Lib.CInt
import Asg1.Lexer.Token

/-!
# `Lexer.Lexanc` — the scanners of `lexanc.c` and `gettoken` of `scanner.c`

The repository has two versions of `lexanc.c`: the one at the top level and the one that was turned in. They
differ in `createReserved` and in the texts of the two range errors of `number`; everything else is the same
code, and is modelled once with the version as a parameter. (The turned-in `number` also counts the digits of
an exponent in a variable it never reads again; that counter is left out.)
-/

namespace Asg1
namespace Lexer

/-- The two versions of `lexanc.c`. -/
inductive Source where
  | lexanc
  | turnin
deriving DecidableEq, Repr

variable {D : Type}

/-! ## Token constructors -/

def createOperator (opVal : Int) (tok : Token D) : Token D :=
  { tok with tokentype := OPERATOR, tokenval := .which opVal }

def createDelimiter (delimVal : Int) (tok : Token D) : Token D :=
  { tok with tokentype := DELIMITER, tokenval := .which (delimVal - DELIMITER_BIAS) }

def createReserved : Source → Int → Token D → Token D
  | .lexanc, resVal, tok => { tok with tokentype := RESERVED - RESERVED_BIAS, tokenval := .which resVal }
  | .turnin, resVal, tok => { tok with tokentype := RESERVED, tokenval := .which (resVal - RESERVED_BIAS) }

def createIdentifier (identifier : List UInt8) (tok : Token D) : Token D :=
  { tok with tokentype := IDENTIFIERTOK, tokenval := .tokenstring (strncpy identifier 16) }

def createString (word : List UInt8) (tok : Token D) : Token D :=
  { tok with tokentype := STRINGTOK, tokenval := .tokenstring (strncpy word 16) }

/-! ## Blanks and comments -/

/-- One round of the `do` loop of a brace comment: eat, and go on until the next character is the closing
    brace or `EOF`. -/
def skipBraceBody : Unit → Scan (Unit ⊕ Option UInt8) := fun _ => do
  let _ ← getchar
  let c ← peekchar
  if c ≠ none ∧ c ≠ some '}'.toUInt8 then return .inl () else return .inr c

/-- The branch of a brace comment. Returns the character it stopped at. -/
def skipBrace : Scan (Option UInt8) := Scan.loop skipBraceBody ()

/-- One round of the `do` loop of a `(*` comment: a window `c`, `cc` of two characters slides along. -/
def skipParenBody : Option UInt8 → Scan (Option UInt8 ⊕ Option UInt8) := fun c => do
  let _ ← getchar
  let cc ← peek2char
  if cc ≠ none ∧ (c ≠ some '*'.toUInt8 ∨ cc ≠ some ')'.toUInt8) then return .inl cc else return .inr cc

/-- The branch of a `(*` comment, entered with `cc` the star. -/
def skipParen (cc : Option UInt8) : Scan (Option UInt8) := do
  let _ ← getchar
  let cc ← Scan.loop skipParenBody cc
  let _ ← getchar
  return cc

/-- The body of the branch taken at character `c`: it returns the character left in `c`. -/
def skipOne (c cc : Option UInt8) : Scan (Option UInt8) :=
  if c = some '{'.toUInt8 then skipBrace
  else if c = some '('.toUInt8 then skipParen cc
  else pure c

/-- One round of the loop of `skipblanks`. -/
def skipblanksBody : Unit → Scan (Unit ⊕ Unit) := fun _ => do
  let c ← peekchar
  let cc ← peek2charIf (c == some '('.toUInt8)
  if c ≠ none ∧ (c = some ' '.toUInt8 ∨ c = some '\n'.toUInt8 ∨ c = some '\t'.toUInt8
      ∨ c = some '{'.toUInt8 ∨ (c = some '('.toUInt8 ∧ cc = some '*'.toUInt8)) then do
    let c ← skipOne c cc
    -- move the pointer past the end of the comment or white space
    let _ ← getcharIf (c != none)
    return .inl ()
  else return .inr ()

/-- Skip blanks, white space and comments. -/
def skipblanks : Scan Unit := Scan.loop skipblanksBody ()

/-! ## Identifiers and reserved words -/

/-- What a word of the `switch` in `identifier` stands for. -/
inductive WordKind where
  | reserved (resVal : Int)
  | operator (opVal : Int)
deriving DecidableEq, Repr

/-- The words each case of the `switch(counter)` compares with, in order. -/
def wordTable : Nat → List (String × WordKind)
  | 2 => [("do", .reserved DO), ("if", .reserved IF), ("of", .reserved OF), ("to", .reserved TO),
      ("or", .operator OROP), ("in", .operator INOP)]
  | 3 => [("end", .reserved END), ("for", .reserved FOR), ("nil", .reserved NIL), ("set", .reserved SET),
      ("var", .reserved VAR), ("and", .operator ANDOP), ("not", .operator NOTOP), ("div", .operator DIVOP),
      ("mod", .operator MODOP)]
  | 4 => [("case", .reserved CASE), ("else", .reserved ELSE), ("file", .reserved FILEFILE),
      ("goto", .reserved GOTO), ("then", .reserved THEN), ("type", .reserved TYPE), ("with", .reserved WITH)]
  | 5 => [("array", .reserved ARRAY), ("begin", .reserved BEGINBEGIN), ("const", .reserved CONST),
      ("label", .reserved LABEL), ("until", .reserved UNTIL), ("while", .reserved WHILE)]
  | _ => [("downto", .reserved DOWNTO), ("function", .reserved FUNCTION), ("packed", .reserved PACKED),
      ("procedure", .reserved PROCEDURE), ("program", .reserved PROGRAM), ("record", .reserved RECORD),
      ("repeat", .reserved REPEAT)]

/-- The first word of the case that `strcmp` finds equal. -/
def findWord (word : List UInt8) : Option WordKind :=
  ((wordTable word.length).find? (fun e => bytes e.1 = word)).map (·.2)

/-- `c != EOF && (CHARCLASS[c] == ALPHA || CHARCLASS[c] == NUMERIC)` -/
def wordChar (H : Host D) (c : Option UInt8) : Bool :=
  c != none && (CHARCLASS H c == ALPHA || CHARCLASS H c == NUMERIC)

/-- One round of the first loop of `identifier`, on `word` (whose length is `counter`) and `numericFlag`. -/
def identifierBody (H : Host D) (st : List UInt8 × Bool) :
    Scan ((List UInt8 × Bool) ⊕ (List UInt8 × Bool × Option UInt8)) := do
  let ch ← getchar
  let c ← peekchar
  -- the class is looked up before `c` is compared with `EOF`
  if (st.1 ++ [ch.getD 255]).length < 15 ∧ wordChar H c then
    return .inl (st.1 ++ [ch.getD 255], st.2 || CHARCLASS H c == NUMERIC)
  else return .inr (st.1 ++ [ch.getD 255], st.2 || CHARCLASS H c == NUMERIC, c)

/-- The first loop of `identifier`: up to 15 letters and digits go into `word`; also returns the numeric flag
    and the character the loop stopped at. -/
def identifierWord (H : Host D) : Scan (List UInt8 × Bool × Option UInt8) :=
  Scan.loop (identifierBody H) ([], false)

/-- One round of the second loop of `identifier`. -/
def identifierRestBody (H : Host D) (c : Option UInt8) : Scan (Option UInt8 ⊕ Unit) :=
  if wordChar H c then do
    let _ ← getchar
    let c ← peekchar
    return .inl c
  else return .inr ()

/-- The second loop of `identifier`: eat the remaining letters and digits. -/
def identifierRest (H : Host D) (c : Option UInt8) : Scan Unit := Scan.loop (identifierRestBody H) c

/-- The token for a scanned word. -/
def wordToken (src : Source) (word : List UInt8) (numericFlag : Bool) (tok : Token D) : Token D :=
  if numericFlag = true ∨ word.length < 2 ∨ word.length > 9 then createIdentifier (word ++ [0]) tok
  else match findWord word with
    | some (.reserved resVal) => createReserved src resVal tok
    | some (.operator opVal) => createOperator opVal tok
    | none => createIdentifier (word ++ [0]) tok

/-- Get identifiers and reserved words. -/
def identifier (src : Source) (H : Host D) (tok : Token D) : Scan (Token D) := do
  let (word, numericFlag, c) ← identifierWord H
  identifierRest H c
  return wordToken src word numericFlag tok

/-! ## Strings -/

/-- The apostrophe. -/
def apostrophe : UInt8 := 39

/-- One round of the loop of `getstring`: at most 15 characters go into `word`, the rest is eaten. -/
def getstringBody (word : List UInt8) : Scan (List UInt8 ⊕ List UInt8) := do
  let c ← peekchar
  let cc ← peek2char
  if c = none ∨ (c = some apostrophe ∧ cc ≠ some apostrophe) then return .inr word
  else do
    -- of a doubled apostrophe the first one is dropped
    let _ ← getcharIf (c == some apostrophe)
    let ch ← getchar
    return .inl (if word.length < 15 then word ++ [ch.getD 255] else word)

def getstring (tok : Token D) : Scan (Token D) := do
  let _ ← getchar
  let word ← Scan.loop getstringBody []
  let _ ← getchar
  return createString (word ++ [0]) tok

/-! ## Special characters -/

/-- What a branch of the `switch` in `special` does: the token it makes, and whether it eats a second
    character. -/
inductive SpecialCase where
  | operator (opVal : Int) (two : Bool)
  | delimiter (delimVal : Int) (two : Bool)
  | unrecognized
deriving DecidableEq, Repr

/-- The `switch(c)` of `special`. -/
def specialCase (c cc : Option UInt8) : SpecialCase :=
  if c = some '+'.toUInt8 then .operator PLUSOP false
  else if c = some '-'.toUInt8 then .operator MINUSOP false
  else if c = some '*'.toUInt8 then .operator TIMESOP false
  else if c = some '/'.toUInt8 then .operator DIVIDEOP false
  else if c = some ':'.toUInt8 then
    if cc = some '='.toUInt8 then .operator ASSIGNOP true
    else .delimiter COLON false
  else if c = some '='.toUInt8 then .operator EQOP false
  else if c = some '<'.toUInt8 then
    if cc = some '>'.toUInt8 then .operator NEOP true
    else if cc = some '='.toUInt8 then .operator LEOP true
    else .operator LTOP false
  else if c = some '>'.toUInt8 then
    if cc = some '='.toUInt8 then .operator GEOP true
    else .operator GTOP false
  else if c = some '^'.toUInt8 then .operator POINTEROP false
  else if c = some '.'.toUInt8 then
    if cc = some '.'.toUInt8 then .delimiter DOTDOT true
    else .operator DOTOP false
  else if c = some ','.toUInt8 then .delimiter COMMA false
  else if c = some ';'.toUInt8 then .delimiter SEMICOLON false
  else if c = some '('.toUInt8 then .delimiter LPAREN false
  else if c = some ')'.toUInt8 then .delimiter RPAREN false
  else if c = some '['.toUInt8 then .delimiter LBRACKET false
  else if c = some ']'.toUInt8 then .delimiter RBRACKET false
  else .unrecognized

def special (tok : Token D) : Scan (Token D) := do
  let c ← peekchar
  let cc ← peek2char
  match specialCase c cc with
  | .operator opVal two =>
    let _ ← getcharIf two
    let _ ← getchar
    return createOperator opVal tok
  | .delimiter delimVal two =>
    let _ ← getcharIf two
    let _ ← getchar
    return createDelimiter delimVal tok
  | .unrecognized =>
    printf ("Unrecognized symbol: " ++ String.singleton (Char.ofNat (c.getD 255).toNat) ++ " \n")
    let _ ← getchar
    return tok

/-! ## Numbers -/

/-- The table `createDCL` makes: `dcl[i] = dcl[i-1] * .1`. -/
def createDCL (H : Host D) : Nat → D
  | 0 => H.ofInt 1
  | i + 1 => H.mul (createDCL H i) H.tenth

/-- The table `createPDCL` makes: `pdcl[i] = pdcl[i-1] * 10`. -/
def createPDCL (H : Host D) : Nat → D
  | 0 => H.ofInt 1
  | i + 1 => H.mul (createPDCL H i) (H.ofInt 10)

/-- `dcl[i]`. -/
def dcl (H : Host D) (i : Int) : D :=
  if 0 ≤ i ∧ i < 100 then createDCL H i.toNat else H.dclOutside i

/-- `pdcl[i]`. -/
def pdcl (H : Host D) (i : Int) : D :=
  if 0 ≤ i ∧ i < 100 then createPDCL H i.toNat else H.pdclOutside i

/-- The value of a digit, `c - '0'`. -/
def charval (c : UInt8) : Int := c.toNat - 48

/-- One round of a loop over digits: `push` is what the body does with the digit. -/
def digitBody {σ : Type} (H : Host D) (push : σ → Int → σ) (x : σ) : Scan (σ ⊕ σ) := do
  let c ← peekchar
  if c ≠ none ∧ CHARCLASS H c = NUMERIC then do
    let c ← getchar
    return .inl (push x (charval (c.getD 255)))
  else return .inr x

/-- `while ((c = peekchar()) != EOF && CHARCLASS[c] == NUMERIC)`, the loop over a run of digits. -/
def digitLoop {σ : Type} (H : Host D) (push : σ → Int → σ) (x : σ) : Scan σ :=
  Scan.loop (digitBody H push) x

/-- The variables of the loop over the integer digits. -/
structure IntPart (D : Type) where
  lnum : Int
  dnum : D
  nonZeroFlag : Bool
  sigDigCounter : Int

/-- One integer digit. -/
def IntPart.push (H : Host D) (v : IntPart D) (charval : Int) : IntPart D :=
  let nonZeroFlag := v.nonZeroFlag || charval != 0
  let lnum := wrap64 (v.lnum * 10 + charval)
  if nonZeroFlag then
    -- digits after the eighth significant one count as zeros
    let charval := if v.sigDigCounter ≥ 8 then 0 else charval
    { lnum, nonZeroFlag
      dnum := H.add (H.mul v.dnum (H.ofInt 10)) (H.ofInt charval)
      sigDigCounter := wrap32 (v.sigDigCounter + 1) }
  else { v with lnum, nonZeroFlag }

/-- The variables of the loop over the digits after the point. -/
structure FracPart (D : Type) where
  dnum : D
  nonZeroFlag : Bool
  sigDigCounter : Int
  firstSigDigLoc : Int
  dclCounter : Int

/-- One digit after the point. -/
def FracPart.push (H : Host D) (v : FracPart D) (charval : Int) : FracPart D :=
  let nonZeroFlag := v.nonZeroFlag || charval != 0
  let firstSigDigLoc := if nonZeroFlag then v.firstSigDigLoc else wrap32 (v.firstSigDigLoc - 1)
  let dcharval := H.mul (H.ofInt charval) (dcl H v.dclCounter)
  let dclCounter := wrap32 (v.dclCounter + 1)
  if nonZeroFlag ∧ v.sigDigCounter < 8 then
    { nonZeroFlag, firstSigDigLoc, dclCounter
      dnum := H.add v.dnum dcharval
      sigDigCounter := wrap32 (v.sigDigCounter + 1) }
  else { v with nonZeroFlag, firstSigDigLoc, dclCounter }

/-- The variables of the loop over the exponent digits. -/
structure ExpPart where
  expVal : Int
  nonZeroFlag : Bool

/-- One exponent digit. -/
def ExpPart.push (v : ExpPart) (charval : Int) : ExpPart :=
  let nonZeroFlag := v.nonZeroFlag || charval != 0
  if nonZeroFlag then { nonZeroFlag, expVal := wrap32 (v.expVal * 10 + charval) }
  else { v with nonZeroFlag }

/-- The digits before the point or the `e`. -/
def numberInt (H : Host D) : Scan (IntPart D) :=
  digitLoop H (IntPart.push H) ⟨0, H.ofInt 0, false, 0⟩

/-- The digits after the point, if a point with a digit after it is there: the variables after it, and
    whether it was there. -/
def numberFrac (H : Host D) (v : FracPart D) : Scan (FracPart D × Bool) := do
  let c ← peekchar
  let cc ← peek2charIf (c == some '.'.toUInt8)
  if c = some '.'.toUInt8 ∧ CHARCLASS H cc = NUMERIC then do
    let _ ← getchar
    let v ← digitLoop H (FracPart.push H) v
    return (v, true)
  else return (v, false)

/-- Move the significant digits to the ones place. -/
def normalize (H : Host D) (dnum : D) (firstSigDigLoc : Int) : D :=
  if firstSigDigLoc > 0 then H.mul dnum (dcl H firstSigDigLoc)
  else if firstSigDigLoc < 0 then H.mul dnum (pdcl H (wrap32 (-firstSigDigLoc)))
  else dnum

/-- The exponent, if there is one: its signed value, the overflow flag, and whether it was there. -/
def numberExp (H : Host D) : Scan (Int × Bool × Bool) := do
  let c ← peekchar
  if c = some 'e'.toUInt8 ∨ c = some 'E'.toUInt8 then do
    let _ ← getchar
    let c ← peekchar
    let _ ← getcharIf (c == some '+'.toUInt8 || c == some '-'.toUInt8)
    let v ← digitLoop H ExpPart.push ⟨0, false⟩
    return (if c = some '-'.toUInt8 then wrap32 (-v.expVal) else v.expVal, decide (v.expVal < 0), true)
  else return (0, false, false)

/-- `for(; i > expVal; i--) dnum *= .1;` from `i = 0`. -/
def scaleDown (H : Host D) (dnum : D) (expVal : Int) : D :=
  (fun d => H.mul d H.tenth)^[(-expVal).toNat] dnum

/-- The text printed for a float out of range. -/
def floatRangeMsg : Source → String
  | .lexanc => "Floating number out of range\n"
  | .turnin => "Error in creating NUMBERTOK: floating point variable out of range. \n"

/-- The text printed for an integer out of range. -/
def intRangeMsg : Source → String
  | .lexanc => "Integer number out of range\n"
  | .turnin => "Error in creating NUMBERTOK: int variable out of range. \n"

/-- The token for a real number: `dnum` is normalised to one digit before the point. -/
def realToken (src : Source) (H : Host D) (dnum : D) (expVal : Int) (floatErrorFlag : Bool) (tok : Token D) :
    Scan (Token D) :=
  if expVal > 38 ∨ expVal < -38 ∨ floatErrorFlag = true then do
    printf (floatRangeMsg src)
    return { tok with tokentype := NUMBERTOK, datatype := REAL, tokenval := .realnum (H.ofInt 0) }
  else
    let dnum :=
      if expVal > 0 then H.mul dnum (pdcl H expVal)
      else if expVal < 0 then scaleDown H dnum expVal
      else dnum
    return { tok with tokentype := NUMBERTOK, datatype := REAL, tokenval := .realnum dnum }

/-- The token for an integer. -/
def intToken (src : Source) (lnum : Int) (intErrorFlag : Bool) (tok : Token D) : Scan (Token D) :=
  if intErrorFlag then do
    printf (intRangeMsg src)
    return { tok with tokentype := NUMBERTOK, datatype := INTEGER, tokenval := .intnum 0 }
  else return { tok with tokentype := NUMBERTOK, datatype := INTEGER, tokenval := .intnum (wrap32 lnum) }

/-- `sigDigCounter > 10 || lnum < 0 || lnum > 2147483647`: the integer does not fit. -/
def intErrorFlag (v : IntPart D) : Bool := decide (v.sigDigCounter > 10 ∨ v.lnum < 0 ∨ v.lnum > 2147483647)

/-- The variables when the digits before the point have been read. -/
def IntPart.toFrac (v : IntPart D) : FracPart D :=
  ⟨v.dnum, v.nonZeroFlag, v.sigDigCounter, wrap32 (v.sigDigCounter - 1), 1⟩

/-- Get and convert unsigned numbers of all types. -/
def number (src : Source) (H : Host D) (tok : Token D) : Scan (Token D) := do
  let v ← numberInt H
  let w ← numberFrac H v.toFrac
  let x ← numberExp H
  if w.2 || x.2.2 then
    realToken src H (normalize H w.1.dnum w.1.firstSigDigLoc) (wrap32 (x.1 + w.1.firstSigDigLoc)) x.2.1 tok
  else intToken src v.lnum (intErrorFlag v) tok

/-! ## `gettoken` and the driver -/

/-- The scanner for a token that starts with character `c`. -/
def scanToken (src : Source) (H : Host D) (c : Option UInt8) : Scan (Token D) :=
  if CHARCLASS H c = ALPHA then identifier src H talloc
  else if CHARCLASS H c = NUMERIC then number src H talloc
  else if c = some apostrophe then getstring talloc
  else special talloc

/-- Get the next token from the input. -/
def gettoken (src : Source) (H : Host D) : Scan (Token D) := do
  skipblanks
  let c ← peekchar
  if c ≠ none then scanToken src H c
  else do
    setEOFFLG
    return talloc

/-- One round of the loop of `testscanner`; `toks` are the tokens printed so far. -/
def testscannerBody (src : Source) (H : Host D) (toks : List (Token D)) :
    Scan (List (Token D) ⊕ List (Token D)) := ⟨fun n s =>
  if s.EOFFLG = 0 then
    match (gettoken src H).run n s with
    | none => none
    | some (tok, s') => some (.inl (if s'.EOFFLG = 0 then toks ++ [tok] else toks), s')
  else some (.inr toks, s)⟩

/-- `testscanner` of the driver: scan until `EOFFLG` is set. Returns the tokens it prints, in order. -/
def testscanner (src : Source) (H : Host D) : Scan (List (Token D)) := Scan.loop (testscannerBody src H) []

/-- The globals after `initscanner` and `init_charclass`, with `input` on standard input. -/
def initscanner (input : List UInt8) : LexState := { stdin := input, EOFFLG := 0, stdout := [] }

end Lexer
end Asg1
