import Asg1.Lexer.Agree

/-!
# `Lexer.RoundTrip` — writing tokens and scanning them back

A `PascalToken` is a token as a Pascal programmer writes it, with its spelling; its fields carry what makes it
well formed. A text is a list of tokens, each followed by a nonempty separator of spaces, tabs and newlines.
The turned-in lexer turns every such text back into the tokens it was written from (`lexer_round_trip`).
-/

namespace Asg1
namespace Lexer

open List

variable {D : Type}

/-! ## Tokens and their spelling -/

/-- The symbol operators and delimiters: spelling, token type and number (`token.h`). -/
def symbolTable : List (String × Int × Int) :=
  [("+", OPERATOR, PLUSOP), ("-", OPERATOR, MINUSOP), ("*", OPERATOR, TIMESOP), ("/", OPERATOR, DIVIDEOP),
   (":=", OPERATOR, ASSIGNOP), ("=", OPERATOR, EQOP), ("<>", OPERATOR, NEOP), ("<", OPERATOR, LTOP),
   ("<=", OPERATOR, LEOP), (">=", OPERATOR, GEOP), (">", OPERATOR, GTOP), ("^", OPERATOR, POINTEROP),
   (".", OPERATOR, DOTOP),
   (",", DELIMITER, COMMA - DELIMITER_BIAS), (";", DELIMITER, SEMICOLON - DELIMITER_BIAS),
   (":", DELIMITER, COLON - DELIMITER_BIAS), ("(", DELIMITER, LPAREN - DELIMITER_BIAS),
   (")", DELIMITER, RPAREN - DELIMITER_BIAS), ("[", DELIMITER, LBRACKET - DELIMITER_BIAS),
   ("]", DELIMITER, RBRACKET - DELIMITER_BIAS), ("..", DELIMITER, DOTDOT - DELIMITER_BIAS)]

/-- The word operators and the reserved words: spelling, token type and number (`token.h`). -/
def reservedTable : List (String × Int × Int) :=
  [("and", OPERATOR, ANDOP), ("or", OPERATOR, OROP), ("not", OPERATOR, NOTOP), ("div", OPERATOR, DIVOP),
   ("mod", OPERATOR, MODOP), ("in", OPERATOR, INOP),
   ("array", RESERVED, ARRAY - RESERVED_BIAS), ("begin", RESERVED, BEGINBEGIN - RESERVED_BIAS),
   ("case", RESERVED, CASE - RESERVED_BIAS), ("const", RESERVED, CONST - RESERVED_BIAS),
   ("do", RESERVED, DO - RESERVED_BIAS), ("downto", RESERVED, DOWNTO - RESERVED_BIAS),
   ("else", RESERVED, ELSE - RESERVED_BIAS), ("end", RESERVED, END - RESERVED_BIAS),
   ("file", RESERVED, FILEFILE - RESERVED_BIAS), ("for", RESERVED, FOR - RESERVED_BIAS),
   ("function", RESERVED, FUNCTION - RESERVED_BIAS), ("goto", RESERVED, GOTO - RESERVED_BIAS),
   ("if", RESERVED, IF - RESERVED_BIAS), ("label", RESERVED, LABEL - RESERVED_BIAS),
   ("nil", RESERVED, NIL - RESERVED_BIAS), ("of", RESERVED, OF - RESERVED_BIAS),
   ("packed", RESERVED, PACKED - RESERVED_BIAS), ("procedure", RESERVED, PROCEDURE - RESERVED_BIAS),
   ("program", RESERVED, PROGRAM - RESERVED_BIAS), ("record", RESERVED, RECORD - RESERVED_BIAS),
   ("repeat", RESERVED, REPEAT - RESERVED_BIAS), ("set", RESERVED, SET - RESERVED_BIAS),
   ("then", RESERVED, THEN - RESERVED_BIAS), ("to", RESERVED, TO - RESERVED_BIAS),
   ("type", RESERVED, TYPE - RESERVED_BIAS), ("until", RESERVED, UNTIL - RESERVED_BIAS),
   ("var", RESERVED, VAR - RESERVED_BIAS), ("while", RESERVED, WHILE - RESERVED_BIAS),
   ("with", RESERVED, WITH - RESERVED_BIAS)]

/-- The number a run of decimal digits denotes. -/
def decValue (ds : List UInt8) : Nat := ds.foldl (fun a d => a * 10 + (d.toNat - 48)) 0

/-- An identifier: a letter, then letters and digits, not a word that Pascal reserves. -/
structure Ident where
  first : UInt8
  rest : List UInt8
  first_alpha : isAlpha first = true
  rest_alnum : ∀ c ∈ rest, isAlnum c = true
  not_reserved : ∀ e ∈ reservedTable, bytes e.1 ≠ first :: rest

/-- An integer constant: digits, with any number of leading zeros, of a value up to 2147483647. -/
structure IntConst where
  first : UInt8
  rest : List UInt8
  digits : ∀ c ∈ first :: rest, isNumeric c = true
  value_le : decValue (first :: rest) ≤ 2147483647

/-- The contents of a string constant: any bytes but NUL. -/
structure StrConst where
  chars : List UInt8
  nul_free : (0 : UInt8) ∉ chars

/-- The tokens of Pascal. -/
inductive PascalToken where
  | symbol (e : String × Int × Int) (h : e ∈ symbolTable)
  | word (e : String × Int × Int) (h : e ∈ reservedTable)
  | ident (w : Ident)
  | int (k : IntConst)
  | str (s : StrConst)

/-- The characters of a string constant with each apostrophe doubled. -/
def doubled (cs : List UInt8) : List UInt8 :=
  cs.flatMap (fun c => if c = apostrophe then [apostrophe, apostrophe] else [c])

/-- How a token is written. -/
def PascalToken.spelling : PascalToken → List UInt8
  | .symbol e _ => bytes e.1
  | .word e _ => bytes e.1
  | .ident w => w.first :: w.rest
  | .int k => k.first :: k.rest
  | .str s => apostrophe :: (doubled s.chars ++ [apostrophe])

/-- A separator: at least one space, tab or newline. -/
structure Separator where
  first : UInt8
  rest : List UInt8
  first_blank : isBlank first = true
  rest_blank : ∀ c ∈ rest, isBlank c = true

/-- The text of a list of tokens, each followed by its separator. -/
def text : List (PascalToken × Separator) → List UInt8
  | [] => []
  | (p, sep) :: toks => p.spelling ++ sep.first :: (sep.rest ++ text toks)

/-- The token record that stands for a token: type, and number, integer or the first 15 characters. -/
def Matches : PascalToken → Token D → Prop
  | .symbol e _, tok => tok.tokentype = e.2.1 ∧ tok.whichval = some e.2.2
  | .word e _, tok => tok.tokentype = e.2.1 ∧ tok.whichval = some e.2.2
  | .ident w, tok => tok.tokentype = IDENTIFIERTOK ∧ tok.stringval = some ((w.first :: w.rest).take 15)
  | .int k, tok => tok.tokentype = NUMBERTOK ∧ tok.datatype = INTEGER ∧
      tok.intval = some (decValue (k.first :: k.rest) : Int)
  | .str s, tok => tok.tokentype = STRINGTOK ∧ tok.stringval = some (s.chars.take 15)

/-! ## Blanks -/

variable {b c : UInt8} {w rest : List UInt8}

theorem ne_of_blank (h : isBlank b = true) (hc : isBlank c = false) : b ≠ c := by
  rintro rfl
  rw [h] at hc
  cases hc

theorem isBlank_cases (h : isBlank b = true) : b = 32 ∨ b = 10 ∨ b = 9 := by
  simpa [isBlank, or_assoc] using h

theorem not_alnum_of_blank (h : isBlank b = true) : isAlnum b = false := by
  rcases isBlank_cases h with rfl | rfl | rfl <;> decide

theorem not_numeric_of_blank (h : isBlank b = true) : isNumeric b = false :=
  (Bool.or_eq_false_iff.mp (not_alnum_of_blank h)).2

theorem dropBlanks_blank (h : isBlank b = true) (t : List UInt8) : dropBlanks (b :: t) = dropBlanks t := by
  rw [dropBlanks.eq_def (b :: t)]; simp [h]

theorem dropBlanks_blanks : ∀ (bs t : List UInt8), (∀ b ∈ bs, isBlank b = true) →
    dropBlanks (bs ++ t) = dropBlanks t
  | [], _, _ => rfl
  | b :: bs, t, h => by
    rw [List.cons_append, dropBlanks_blank (h b (by simp)),
      dropBlanks_blanks bs t (fun c hc => h c (by simp [hc]))]

variable {val n : Nat} {t : List UInt8} {d : UInt8} {v : IntPart D}

theorem dropBlanks_startsToken (h : startsToken t) : dropBlanks t = t := by
  cases t with
  | nil => rw [dropBlanks]
  | cons c t =>
    obtain ⟨hb, hbr, hp⟩ := h
    rw [dropBlanks.eq_def (c :: t)]
    simp only [hb, if_neg hbr, if_neg hp, Bool.false_eq_true, if_false]

/-- A word never starts with a blank or a comment. -/
theorem startsToken_alnum (h : isAlnum c = true) (t : List UInt8) : startsToken (c :: t) := by
  have hall : ∀ c : UInt8, isAlnum c = true → isBlank c = false ∧ c ≠ '{'.toUInt8 ∧ c ≠ '('.toUInt8 :=
    uint8_forall (by decide +kernel)
  obtain ⟨hb, hbr, hp⟩ := hall c h
  exact ⟨hb, hbr, fun hc => hp hc.1⟩

/-- The bytes of a 15-character buffer come back out of `stringval`. -/
theorem strncpy_word {w : List UInt8} (h0 : (0 : UInt8) ∉ w) (hlen : w.length ≤ 15) :
    (strncpy (w ++ [0]) 16).takeWhile (· ≠ 0) = w := by
  have hpos : ∀ c ∈ w, decide (c ≠ 0) = true := fun c hc => by
    simp only [ne_eq, decide_not, Bool.not_eq_true', decide_eq_false_iff_not]
    rintro rfl
    exact h0 hc
  have hw : (w ++ [0]).takeWhile (· ≠ 0) = w := by
    rw [takeWhile_append_of_pos hpos]; simp
  have htake : w.take 16 = w := take_of_length_le (by omega)
  simp only [strncpy, hw, htake]
  rw [takeWhile_append_of_pos hpos]
  simp

/-! ## One scanner per class of tokens

Each lemma has the shape `ScansTo p`: the first character leads to a scanner that eats exactly the spelling of
`p` and returns a matching token, whatever follows the separator. -/

/-- The turned-in scanners read `p` off the front of any input in which a blank follows it. -/
def ScansTo (H : Host D) (p : PascalToken) : Prop :=
  ∀ (b : UInt8) (rest : List UInt8), isBlank b = true → ∀ (n : Nat) (e : Int) (o : List String),
    (p.spelling ++ b :: rest).length < n →
    ∃ c t tok, p.spelling ++ b :: rest = c :: t ∧ startsToken (c :: t) ∧
      (scanToken .turnin H (some c)).run n ⟨c :: t, e, o⟩ = some (tok, ⟨b :: rest, e, o⟩) ∧ Matches p tok

/-! ### Symbols -/

theorem scanToken_special (H : Host D) (ha : isAlpha c = false) (hd : isNumeric c = false)
    (hq : c ≠ apostrophe) : scanToken .turnin H (some c) = special talloc := by
  unfold scanToken
  rw [if_neg (by simp [ha]), if_neg (by simp [hd]), if_neg (by simpa using hq)]

/-- The branch of `special` that makes the token of a table entry. -/
def entryCase (e : String × Int × Int) (two : Bool) : SpecialCase :=
  if e.2.1 = OPERATOR then .operator e.2.2 two else .delimiter (e.2.2 + DELIMITER_BIAS) two

theorem special_run_entry {e : String × Int × Int} (he : e.2.1 = OPERATOR ∨ e.2.1 = DELIMITER) (two : Bool)
    (hcase : specialCase (some c) t.head? = entryCase e two) (n : Nat) (e' : Int) (o : List String) :
    (special (talloc : Token D)).run n ⟨c :: t, e', o⟩
      = some (⟨e.2.1, 0, .which e.2.2⟩, ⟨if two then t.tail else t, e', o⟩) := by
  simp only [special, peekchar_bind, peek2char_bind, head?_cons, tail_cons, hcase, entryCase]
  rcases he with he | he
  · cases two <;> simp [he, createOperator, talloc]
  · have hne : DELIMITER ≠ OPERATOR := by decide
    cases two <;> simp [he, hne, createDelimiter, talloc]

/-- What the symbol scanner needs to know about a table entry followed by the blank `b`. -/
def symbolOk (e : String × Int × Int) (b : UInt8) : Bool :=
  decide (e.2.1 = OPERATOR ∨ e.2.1 = DELIMITER) &&
  match bytes e.1 with
  | [c] => !isAlnum c && c != apostrophe && !isBlank c && c != '{'.toUInt8 &&
      decide (specialCase (some c) (some b) = entryCase e false)
  | [c, d] => !isAlnum c && c != apostrophe && !isBlank c && c != '{'.toUInt8 && d != '*'.toUInt8 &&
      decide (specialCase (some c) (some d) = entryCase e true)
  | _ => false

theorem symbolTable_ok : ∀ e ∈ symbolTable, ∀ b, isBlank b = true → symbolOk e b = true := by
  have h : symbolTable.all (fun e => symbolOk e 32 && symbolOk e 10 && symbolOk e 9) = true := by decide +kernel
  intro e he b hb
  have hall := (List.all_eq_true.mp h) e he
  simp only [Bool.and_eq_true] at hall
  rcases isBlank_cases hb with rfl | rfl | rfl
  · exact hall.1.1
  · exact hall.1.2
  · exact hall.2

theorem scansTo_symbol (H : Host D) (e : String × Int × Int) (he : e ∈ symbolTable) : ScansTo H (.symbol e he) := by
  intro b rest hb n e' o _
  have hok := symbolTable_ok e he b hb
  simp only [symbolOk, Bool.and_eq_true, decide_eq_true_eq] at hok
  obtain ⟨hkind, hok⟩ := hok
  -- the spelling has one or two characters
  split at hok
  · rename_i c hbytes
    simp only [Bool.and_eq_true, Bool.not_eq_true', decide_eq_true_eq, bne_iff_ne] at hok
    obtain ⟨⟨⟨⟨hal, hq⟩, hbl⟩, hbr⟩, hcase⟩ := hok
    have hal' := Bool.or_eq_false_iff.mp hal
    have hstar : b ≠ '*'.toUInt8 := ne_of_blank hb (by decide)
    refine ⟨c, b :: rest, ⟨e.2.1, 0, .which e.2.2⟩, by simp [PascalToken.spelling, hbytes], ⟨hbl, hbr, ?_⟩, ?_,
      rfl, rfl⟩
    · rintro ⟨_, hs⟩
      exact hstar (by simpa using hs)
    · rw [scanToken_special H hal'.1 hal'.2 hq]
      exact special_run_entry hkind false hcase n e' o
  · rename_i c d hbytes
    simp only [Bool.and_eq_true, Bool.not_eq_true', decide_eq_true_eq, bne_iff_ne] at hok
    obtain ⟨⟨⟨⟨⟨hal, hq⟩, hbl⟩, hbr⟩, hd⟩, hcase⟩ := hok
    have hal' := Bool.or_eq_false_iff.mp hal
    refine ⟨c, d :: b :: rest, ⟨e.2.1, 0, .which e.2.2⟩, by simp [PascalToken.spelling, hbytes],
      ⟨hbl, hbr, ?_⟩, ?_, rfl, rfl⟩
    · rintro ⟨_, hs⟩
      exact hd (by simpa using hs)
    · rw [scanToken_special H hal'.1 hal'.2 hq]
      exact special_run_entry hkind true hcase n e' o
  · cases hok

/-! ### Words -/

theorem takeWhile_alnum_blank (hw : ∀ c ∈ w, isAlnum c = true)
    (hb : isBlank b = true) : (w ++ b :: rest).takeWhile isAlnum = w := by
  rw [takeWhile_append_of_pos hw]
  simp [not_alnum_of_blank hb]

theorem dropWhile_alnum_blank (hw : ∀ c ∈ w, isAlnum c = true)
    (hb : isBlank b = true) : (w ++ b :: rest).dropWhile isAlnum = b :: rest := by
  rw [dropWhile_append_of_pos hw]
  simp [not_alnum_of_blank hb]

/-- The word scanner on a word followed by a blank. -/
theorem scanToken_word (H : Host D) (hc : isAlpha c = true)
    (hw : ∀ d ∈ w, isAlnum d = true) (hb : isBlank b = true) {e : Int} {o : List String}
    (hn : (c :: w ++ b :: rest).length < n) :
    ∃ flag, (scanToken .turnin H (some c)).run n ⟨c :: (w ++ b :: rest), e, o⟩
        = some (wordToken .turnin ((c :: w).take 15) flag talloc, ⟨b :: rest, e, o⟩) ∧
      ((∀ d ∈ w, isNumeric d = false) → (c :: w).length ≤ 15 → flag = false) := by
  have hcls : CHARCLASS H (some c) = ALPHA := (CHARCLASS_some_alpha H c).mpr hc
  refine ⟨(wordScan H (c :: (w ++ b :: rest)) [] false).2.1, ?_, ?_⟩
  · unfold scanToken
    rw [if_pos hcls, identifier_run .turnin H talloc (by simpa using hn), takeWhile_alnum_blank hw hb,
      dropWhile_alnum_blank hw hb]
  · intro hlet hlen
    rw [wordScan_flag H _ c [] false (by rwa [takeWhile_alnum_blank hw hb])
      (by rw [takeWhile_alnum_blank hw hb]; simpa using hlen), dropWhile_alnum_blank hw hb]
    simp [not_numeric_of_blank hb]

/-- What the word scanner needs to know about a table entry. -/
def wordOk (e : String × Int × Int) : Bool :=
  match bytes e.1 with
  | [] => false
  | c :: w => isAlpha c && w.all isAlpha && decide (2 ≤ (c :: w).length) && decide ((c :: w).length ≤ 9) &&
      decide ((e.2.1 = OPERATOR ∧ findWord (c :: w) = some (.operator e.2.2)) ∨
        (e.2.1 = RESERVED ∧ findWord (c :: w) = some (.reserved (e.2.2 + RESERVED_BIAS))))

theorem reservedTable_ok : ∀ e ∈ reservedTable, wordOk e = true := by
  have h : reservedTable.all wordOk = true := by decide +kernel
  exact List.all_eq_true.mp h

theorem scansTo_word (H : Host D) (e : String × Int × Int) (he : e ∈ reservedTable) : ScansTo H (.word e he) := by
  intro b rest hb n e' o hn
  have hok := reservedTable_ok e he
  unfold wordOk at hok
  split at hok
  · cases hok
  · rename_i c w hbytes
    simp only [Bool.and_eq_true, decide_eq_true_eq, List.all_eq_true] at hok
    obtain ⟨⟨⟨⟨hc, hw⟩, h2⟩, h9⟩, hfind⟩ := hok
    have halnum : ∀ d ∈ w, isAlnum d = true := fun d hd => by simp [isAlnum, hw d hd]
    simp only [PascalToken.spelling, hbytes] at hn ⊢
    obtain ⟨flag, hrun, hflag⟩ := scanToken_word H hc halnum hb (e := e') (o := o) hn
    have hfalse : flag = false := hflag (fun d hd => not_numeric_of_alpha (hw d hd)) (by omega)
    have hcond : ¬(false = true ∨ (c :: w).length < 2 ∨ (c :: w).length > 9) := by
      simp only [Bool.false_eq_true, false_or, not_or]; omega
    refine ⟨c, w ++ b :: rest, _, rfl, startsToken_alnum (by simp [isAlnum, hc]) _, hrun, ?_⟩
    rw [hfalse, take_of_length_le (by omega)]
    rcases hfind with ⟨ht, hf⟩ | ⟨ht, hf⟩
    · simp only [Matches, wordToken, if_neg hcond, hf, ht]
      exact ⟨rfl, rfl⟩
    · simp only [Matches, wordToken, if_neg hcond, hf, ht]
      exact ⟨rfl, by simp [Token.whichval, createReserved]⟩

/-- A word that is no table entry is not found by the `switch`. -/
theorem findWord_none {word : List UInt8} (h : ∀ e ∈ reservedTable, bytes e.1 ≠ word) : findWord word = none := by
  have htable : ∀ k, ∀ e ∈ wordTable k, ∃ e' ∈ reservedTable, e'.1 = e.1 := by
    intro k
    unfold wordTable
    split <;> simp [reservedTable]
  unfold findWord
  rw [Option.map_eq_none_iff, find?_eq_none]
  intro e he
  obtain ⟨e', he', heq⟩ := htable _ e he
  simpa [← heq] using h e' he'

theorem alnum_ne_zero (h : isAlnum c = true) : c ≠ 0 := by
  rintro rfl
  exact absurd h (by decide)

theorem scansTo_ident (H : Host D) (w : Ident) : ScansTo H (.ident w) := by
  intro b rest hb n e' o hn
  obtain ⟨c, w, hc, hw, hnr⟩ := w
  obtain ⟨flag, hrun, _⟩ := scanToken_word H hc hw hb (e := e') (o := o) hn
  have hcn : isAlnum c = true := by simp [isAlnum, hc]
  refine ⟨c, w ++ b :: rest, _, rfl, startsToken_alnum hcn _, hrun, ?_⟩
  -- whatever branch is taken, the word becomes an identifier
  have htok : wordToken .turnin ((c :: w).take 15) flag (talloc : Token D)
      = createIdentifier ((c :: w).take 15 ++ [0]) talloc := by
    unfold wordToken
    split
    · rfl
    · have hlen : (c :: w).length ≤ 15 := by
        by_contra hlong
        have : ((c :: w).take 15).length = 15 := by rw [length_take]; omega
        omega
      rw [take_of_length_le hlen, findWord_none hnr]
  have h0 : (0 : UInt8) ∉ (c :: w).take 15 := by
    intro hmem
    rcases List.mem_cons.mp (mem_of_mem_take hmem) with h | h
    · exact alnum_ne_zero hcn h.symm
    · exact alnum_ne_zero (hw 0 h) rfl
  rw [htok]
  refine ⟨rfl, ?_⟩
  simp only [createIdentifier, Token.stringval]
  rw [strncpy_word h0 (by rw [length_take]; omega)]

/-! ### Strings -/

/-- The string scanner takes the doubling back. -/
theorem stringBody_doubled (hb : isBlank b = true) (rest : List UInt8) :
    ∀ cs : List UInt8, stringBody (doubled cs ++ apostrophe :: b :: rest) = (cs, apostrophe :: b :: rest)
  | [] => by
    have hne : b ≠ apostrophe := ne_of_blank hb (by decide)
    simp [doubled, stringBody, hne]
  | c :: cs => by
    have ih := stringBody_doubled hb rest cs
    by_cases hc : c = apostrophe
    · subst hc
      have hcons : doubled (apostrophe :: cs) = apostrophe :: apostrophe :: doubled cs := by simp [doubled]
      rw [hcons, List.cons_append, List.cons_append, stringBody, if_pos rfl, if_pos rfl, ih]
    · have hcons : doubled (c :: cs) = c :: doubled cs := by simp [doubled, hc]
      rw [hcons, List.cons_append]
      -- at least the closing apostrophe follows
      obtain ⟨d, u, hdu⟩ : ∃ d u, doubled cs ++ apostrophe :: b :: rest = d :: u := by
        cases h : doubled cs ++ apostrophe :: b :: rest with
        | nil => simp at h
        | cons d u => exact ⟨d, u, rfl⟩
      rw [hdu] at ih ⊢
      rw [stringBody, if_neg hc, ih]

theorem scansTo_str (H : Host D) (s : StrConst) : ScansTo H (.str s) := by
  intro b rest hb n e' o hn
  obtain ⟨cs, h0⟩ := s
  have hspell : (PascalToken.str ⟨cs, h0⟩).spelling ++ b :: rest
      = apostrophe :: (doubled cs ++ apostrophe :: b :: rest) := by
    simp [PascalToken.spelling]
  have hscan : scanToken .turnin H (some apostrophe) = getstring talloc := by
    have ha : ¬ CHARCLASS H (some apostrophe) = ALPHA := by rw [CHARCLASS_some_alpha]; decide
    have hd : ¬ CHARCLASS H (some apostrophe) = NUMERIC := by rw [CHARCLASS_some_numeric]; decide
    unfold scanToken
    rw [if_neg ha, if_neg hd, if_pos rfl]
  rw [hspell] at hn ⊢
  refine ⟨apostrophe, _, createString (cs.take 15 ++ [0]) talloc, rfl,
    ⟨by decide, by decide, fun h => absurd h.1 (by decide)⟩, ?_, ?_⟩
  · rw [hscan, getstring_run talloc (by simpa using hn), stringBody_doubled hb rest cs]
    rfl
  · have h0' : (0 : UInt8) ∉ cs.take 15 := fun h => h0 (mem_of_mem_take h)
    refine ⟨rfl, ?_⟩
    simp only [createString, Token.stringval]
    rw [strncpy_word h0' (by rw [length_take]; omega)]

/-! ### Integers -/

/-- The variables of the digit loop after digits of value `val`: `lnum` has not wrapped and `sigDigCounter`
    counts the digits from the first nonzero one. -/
def IntInv (v : IntPart D) (val : Nat) : Prop :=
  v.lnum = val ∧ v.nonZeroFlag = decide (val ≠ 0) ∧
    ∃ k : Nat, v.sigDigCounter = k ∧ ((val = 0 ∧ k = 0) ∨ (0 < val ∧ 10 ^ k ≤ val * 10))

/-- A value in the range of `int` has at most ten significant digits. -/
theorem sigDigits_le {k : Nat} (h : (val = 0 ∧ k = 0) ∨ (0 < val ∧ 10 ^ k ≤ val * 10))
    (hval : val ≤ 2147483647) : k ≤ 10 := by
  by_contra hk
  rcases h with ⟨_, h⟩ | ⟨_, h⟩
  · omega
  · have hpow : 10 ^ 11 ≤ 10 ^ k := Nat.pow_le_pow_right (by omega) (by omega)
    omega

theorem charval_of_numeric (h : isNumeric d = true) : charval d = ((d.toNat - 48 : Nat) : Int) ∧ d.toNat - 48 ≤ 9 := by
  have hd : 48 ≤ d.toNat ∧ d.toNat ≤ 57 := by
    have hall : ∀ d : UInt8, isNumeric d = true → 48 ≤ d.toNat ∧ d.toNat ≤ 57 := uint8_forall (by decide +kernel)
    exact hall d h
  unfold charval
  omega

theorem IntInv.push (H : Host D) (hv : IntInv v val)
    (hd : isNumeric d = true) (hle : val * 10 + (d.toNat - 48) ≤ 2147483647) :
    IntInv (v.push H (charval d)) (val * 10 + (d.toNat - 48)) := by
  obtain ⟨hl, hz, k, hk, hcount⟩ := hv
  obtain ⟨hc, hc9⟩ := charval_of_numeric hd
  have hk10 : k ≤ 10 := sigDigits_le hcount (by omega)
  generalize d.toNat - 48 = m at hc hc9 hle ⊢
  have hlnum : wrap64 (v.lnum * 10 + charval d) = ((val * 10 + m : Nat) : Int) := by
    rw [wrap64_of_mem] <;> omega
  have hflag : (v.nonZeroFlag || charval d != 0) = decide (val * 10 + m ≠ 0) := by
    rw [hz, hc, Bool.eq_iff_iff]
    simp only [Bool.or_eq_true, decide_eq_true_eq, bne_iff_ne]
    omega
  unfold IntPart.push
  simp only [hflag, hlnum]
  by_cases hpos : val * 10 + m ≠ 0
  · rw [if_pos (decide_eq_true hpos)]
    refine ⟨rfl, rfl, k + 1, ?_, .inr ⟨by omega, ?_⟩⟩
    · show wrap32 (v.sigDigCounter + 1) = _
      rw [wrap32_of_mem] <;> omega
    · rcases hcount with ⟨_, rfl⟩ | ⟨_, h⟩
      · omega
      · omega
  · rw [if_neg (by rwa [decide_eq_true_eq])]
    exact ⟨rfl, rfl, k, hk, .inl ⟨by omega, (hcount.resolve_right (by omega)).2⟩⟩

/-- Reading more digits never makes the value smaller. -/
theorem le_foldl_digits (ds : List UInt8) (a : Nat) : a ≤ ds.foldl (fun a d => a * 10 + (d.toNat - 48)) a := by
  induction ds generalizing a with
  | nil => exact Nat.le_refl a
  | cons d ds ih =>
    have := ih (a * 10 + (d.toNat - 48))
    simp only [foldl_cons]
    omega

theorem IntInv.foldl (H : Host D) (ds : List UInt8) (hds : ∀ d ∈ ds, isNumeric d = true)
    (hv : IntInv v val) (hle : ds.foldl (fun a d => a * 10 + (d.toNat - 48)) val ≤ 2147483647) :
    IntInv ((ds.map charval).foldl (IntPart.push H) v)
      (ds.foldl (fun a d => a * 10 + (d.toNat - 48)) val) := by
  induction ds generalizing v val with
  | nil => exact hv
  | cons d ds ih =>
    have hstep : val * 10 + (d.toNat - 48) ≤ 2147483647 := (le_foldl_digits ds _).trans hle
    exact ih (fun x hx => hds x (mem_cons_of_mem d hx))
      (hv.push H (hds d mem_cons_self) hstep) hle

theorem numberFrac_blank (H : Host D) (hb : isBlank b = true) (rest : List UInt8) (v : FracPart D)
    (n : Nat) (e : Int) (o : List String) :
    (numberFrac H v).run n ⟨b :: rest, e, o⟩ = some ((v, false), ⟨b :: rest, e, o⟩) := by
  have hdot : b ≠ '.'.toUInt8 := ne_of_blank hb (by decide)
  simp [numberFrac, hdot]

theorem numberExp_blank (H : Host D) (hb : isBlank b = true) (rest : List UInt8) (n : Nat) (e : Int) (o : List String) :
    (numberExp H).run n ⟨b :: rest, e, o⟩ = some ((0, false, false), ⟨b :: rest, e, o⟩) := by
  have he : b ≠ 'e'.toUInt8 := ne_of_blank hb (by decide)
  have hE : b ≠ 'E'.toUInt8 := ne_of_blank hb (by decide)
  simp [numberExp, he, hE]

theorem scansTo_int (H : Host D) (k : IntConst) : ScansTo H (.int k) := by
  intro b rest hb n e o hn
  obtain ⟨c, ds, hds, hle⟩ := k
  have hc : isNumeric c = true := hds c mem_cons_self
  have hcls : CHARCLASS H (some c) = NUMERIC := (CHARCLASS_some_numeric H c).mpr hc
  have hnb := not_numeric_of_blank hb
  have hnn : ((c :: ds) ++ b :: rest).length < n := hn
  -- the digit loop stops at the blank, with the value of the digits in `lnum`
  have hint := digitLoop_run H (IntPart.push H) ⟨0, H.ofInt 0, false, 0⟩ (s := ⟨(c :: ds) ++ b :: rest, e, o⟩) hnn
  rw [takeWhile_append_of_pos hds, dropWhile_append_of_pos hds, takeWhile_cons_of_neg (by simp [hnb]),
    dropWhile_cons_of_neg (by simp [hnb]), append_nil] at hint
  have hinv : IntInv (((c :: ds).map charval).foldl (IntPart.push H) ⟨0, H.ofInt 0, false, 0⟩)
      (decValue (c :: ds)) :=
    IntInv.foldl H (c :: ds) hds ⟨rfl, rfl, 0, rfl, .inl ⟨rfl, rfl⟩⟩ hle
  generalize ((c :: ds).map charval).foldl (IntPart.push H) ⟨0, H.ofInt 0, false, 0⟩ = v at hint hinv
  obtain ⟨hl, _, m, hm, hcount⟩ := hinv
  have hm10 := sigDigits_le hcount hle
  have hflag : intErrorFlag v = false := by
    simp only [intErrorFlag, decide_eq_false_iff_not]
    omega
  have hwrap : wrap32 v.lnum = (decValue (c :: ds) : Int) := by
    rw [wrap32_of_mem] <;> omega
  refine ⟨c, ds ++ b :: rest, ⟨NUMBERTOK, INTEGER, .intnum (decValue (c :: ds))⟩, rfl,
    startsToken_alnum (by simp [isAlnum, hc]) _, ?_, rfl, rfl, rfl⟩
  have hnalpha : ¬ CHARCLASS H (some c) = ALPHA := by rw [hcls]; decide
  rw [List.cons_append] at hint
  unfold scanToken
  rw [if_neg hnalpha, if_pos hcls]
  unfold number numberInt
  rw [Scan.run_bind hint, Scan.run_bind (numberFrac_blank H hb rest _ n e o),
    Scan.run_bind (numberExp_blank H hb rest n e o)]
  simp [intToken, hflag, hwrap]

/-! ## Whole texts -/

theorem scansTo (H : Host D) : ∀ p : PascalToken, ScansTo H p
  | .symbol e h => scansTo_symbol H e h
  | .word e h => scansTo_word H e h
  | .ident w => scansTo_ident H w
  | .int k => scansTo_int H k
  | .str s => scansTo_str H s

/-- Over a text that stands behind blanks, the calls of `gettoken` return its tokens one by one. The blanks
    are what is left of the separator before it. -/
theorem calls_text (H : Host D) (toks : List (PascalToken × Separator)) :
    ∀ (blanks : List UInt8) (o : List String), (∀ b ∈ blanks, isBlank b = true) →
      (blanks ++ text toks).length < n →
      ∃ out s', Calls .turnin H n ⟨blanks ++ text toks, 0, o⟩ out s' ∧
        List.Forall₂ Matches (toks.map Prod.fst) out ∧ s'.stdin.length < n ∧ dropBlanks s'.stdin = [] ∧
        s'.EOFFLG = 0 ∧ s'.stdout = o := by
  induction toks with
  | nil =>
    intro blanks o hblanks hn
    refine ⟨[], _, Calls.nil, List.Forall₂.nil, hn, ?_, rfl, rfl⟩
    rw [dropBlanks_blanks blanks _ hblanks, text, dropBlanks]
  | cons head toks ih =>
    obtain ⟨p, sep⟩ := head
    intro blanks o hblanks hn
    have hlen : (p.spelling ++ sep.first :: (sep.rest ++ text toks)).length < n := by
      have : (blanks ++ text ((p, sep) :: toks)).length
          = blanks.length + (p.spelling ++ sep.first :: (sep.rest ++ text toks)).length := by
        rw [length_append]; rfl
      omega
    obtain ⟨c, t, tok, hct, hstart, hscan, hmatch⟩ :=
      scansTo H p sep.first (sep.rest ++ text toks) sep.first_blank n 0 o hlen
    -- the blanks in front are skipped and the token's scanner stops at its separator
    have hdrop : dropBlanks (blanks ++ text ((p, sep) :: toks)) = c :: t := by
      rw [dropBlanks_blanks blanks _ hblanks, text, hct]
      exact dropBlanks_startsToken hstart
    have hrun : (gettoken .turnin H).run n ⟨blanks ++ text ((p, sep) :: toks), 0, o⟩
        = some (tok, ⟨sep.first :: (sep.rest ++ text toks), 0, o⟩) :=
      (gettoken_run_token .turnin H hn hdrop).trans hscan
    have hsep : ∀ b ∈ sep.first :: sep.rest, isBlank b = true := by
      intro b hb
      rcases List.mem_cons.mp hb with rfl | hb
      · exact sep.first_blank
      · exact sep.rest_blank b hb
    have hlen' : ((sep.first :: sep.rest) ++ text toks).length < n := by
      simp only [length_append, length_cons] at hlen ⊢
      omega
    obtain ⟨out, s', hcalls, hout, hs', hend, hflag, hstdout⟩ := ih (sep.first :: sep.rest) o hsep hlen'
    have hspell : p.spelling ≠ [] := by
      intro hnil
      have := hstart.1
      rw [hnil, nil_append] at hct
      cases hct
      rw [sep.first_blank] at this
      cases this
    refine ⟨tok :: out, s', Calls.cons hrun ?_ ⟨blanks ++ p.spelling, by simp [hspell], ?_⟩ rfl hcalls,
      List.Forall₂.cons hmatch hout, hs', hend, hflag, hstdout⟩
    · rw [reachesEnd_iff hn, hdrop]
      simp
    · rw [text, List.append_assoc]

/-- **Round trip.** Written out and scanned, every list of tokens comes back: each call of `gettoken` returns
    the record of the next token and prints nothing, and the call after the last sets `EOFFLG`.

    An identifier is a word that is none of Pascal's reserved words, which include the six word operators. -/
theorem lexer_round_trip (H : Host D) (toks : List (PascalToken × Separator)) (extra : Nat) :
    ∃ out s' s'', Calls .turnin H ((text toks).length + 1 + extra) (initscanner (text toks)) out s' ∧
      List.Forall₂ Matches (toks.map Prod.fst) out ∧ s'.EOFFLG = 0 ∧ s'.stdout = [] ∧
      (gettoken .turnin H).run ((text toks).length + 1 + extra) s' = some (talloc, s'') ∧ s''.EOFFLG = 1 := by
  obtain ⟨out, s', hcalls, hout, hn, hend, hflag, hstdout⟩ :=
    calls_text H (n := (text toks).length + 1 + extra) toks [] [] (by simp)
      (by rw [nil_append]; omega)
  exact ⟨out, s', _, hcalls, hout, hflag, hstdout, gettoken_run_end .turnin H hn hend, rfl⟩

end Lexer
end Asg1
