import Asg1.Lexer.Lexanc

/-!
# `Lexer.Closed` — what each loop of the lexer leaves of the input

Each loop of `lexanc.c` gets its closed form here: a function on the remaining bytes, with a theorem that the
loop computes it as soon as the fuel exceeds the length of the input. Later modules use these equations and
never look into a loop again.
-/

namespace Asg1
namespace Lexer

open List

variable {D : Type}

/-! ## Comments and blanks -/

variable {n : Nat} {s : LexState} {t : List UInt8} {e : Int} {o : List String}

/-- Where the loop of a brace comment stops: at the closing brace, or at the end. -/
theorem skipBrace_run (hn : s.stdin.length < n) :
    skipBrace.run n s = some ((s.stdin.tail.dropWhile (· ≠ '}'.toUInt8)).head?,
      { s with stdin := s.stdin.tail.dropWhile (· ≠ '}'.toUInt8) }) := by
  refine Scan.loop_eq (fun _ _ => True)
    (fun _ s => ((s.stdin.tail.dropWhile (· ≠ '}'.toUInt8)).head?,
      { s with stdin := s.stdin.tail.dropWhile (· ≠ '}'.toUInt8) })) ?_ trivial hn
  rintro _ ⟨stdin, e, o⟩ _
  simp only [skipBraceBody, getchar_bind, peekchar_bind]
  rcases stdin with _ | ⟨c, _ | ⟨d, t⟩⟩
  · exact .inr rfl
  · exact .inr rfl
  · by_cases hd : d = '}'.toUInt8
    · refine .inr ?_
      simp [hd]
    · refine .inl ⟨(), ⟨d :: t, e, o⟩, ?_, trivial, by simp, ?_⟩
      · simp [hd]
      · simp [hd]

/-- The input at the moment the loop of a `(*` comment ends: at most one byte is left, or the second one is the
    closing parenthesis. The first argument is the character the window starts with. -/
def starWindow : UInt8 → List UInt8 → List UInt8
  | _, [] => []
  | _, [x] => [x]
  | c, x :: y :: r => if c = '*'.toUInt8 ∧ y = ')'.toUInt8 then x :: y :: r else starWindow y (y :: r)

theorem starWindow_suffix : ∀ (c : UInt8) (t : List UInt8), starWindow c t <:+ t
  | _, [] => suffix_refl _
  | _, [_] => suffix_refl _
  | c, x :: y :: r => by
    rw [starWindow]
    split
    · exact suffix_refl _
    · exact (starWindow_suffix y (y :: r)).trans (suffix_cons x (y :: r))

variable {c : UInt8}

/-- The loop of a `(*` comment, entered at the star with `c` the character its window starts with. -/
theorem skipParenLoop_run (hn : s.stdin.length < n) :
    (Scan.loop skipParenBody (some c)).run n s = some ((starWindow c s.stdin.tail).tail.head?,
      { s with stdin := starWindow c s.stdin.tail }) := by
  refine Scan.loop_eq (fun c _ => c ≠ none)
    (fun c s => ((starWindow (c.getD 0) s.stdin.tail).tail.head?,
      { s with stdin := starWindow (c.getD 0) s.stdin.tail })) ?_ (by simp) hn
  rintro (_ | c) ⟨stdin, e, o⟩ hc
  · exact absurd rfl hc
  simp only [skipParenBody, getchar_bind, peek2char_bind, Option.getD_some]
  rcases stdin with _ | ⟨a, _ | ⟨x, _ | ⟨y, r⟩⟩⟩
  · exact .inr rfl
  · exact .inr rfl
  · exact .inr rfl
  · by_cases hy : c = '*'.toUInt8 ∧ y = ')'.toUInt8
    · refine .inr ?_
      simp [starWindow, hy]
    · refine .inl ⟨some y, ⟨x :: y :: r, e, o⟩, ?_, by simp, by simp, ?_⟩
      · have hcont : c ≠ '*'.toUInt8 ∨ y ≠ ')'.toUInt8 := not_and_or.mp hy
        simpa using fun h => hcont.resolve_left (not_not.mpr h)
      · simp only [tail_cons, Option.getD_some, starWindow, if_neg hy]

/-- The `(*` branch, entered at the opening parenthesis with the star in `cc`. -/
theorem skipParen_run
    (hs : s.stdin = '('.toUInt8 :: '*'.toUInt8 :: t) (hn : s.stdin.length < n) :
    (skipParen (some '*'.toUInt8)).run n s = some ((starWindow '*'.toUInt8 t).tail.head?,
      { s with stdin := (starWindow '*'.toUInt8 t).tail }) := by
  have hn' : (LexState.mk ('*'.toUInt8 :: t) s.EOFFLG s.stdout).stdin.length < n := by
    rw [hs] at hn; simp only [length_cons] at hn ⊢; omega
  unfold skipParen
  rw [getchar_bind, hs, tail_cons, Scan.run_bind (skipParenLoop_run hn')]
  simp only [tail_cons, getchar_bind, Scan.run_pure]

/-- The input after the blanks and comments at its front. -/
def dropBlanks : List UInt8 → List UInt8
  | [] => []
  | c :: t =>
    if isBlank c then dropBlanks t
    else if c = '{'.toUInt8 then dropBlanks (t.dropWhile (· ≠ '}'.toUInt8)).tail
    else if c = '('.toUInt8 ∧ t.head? = some '*'.toUInt8 then dropBlanks ((starWindow '*'.toUInt8 t.tail).drop 2)
    else c :: t
termination_by l => l.length
decreasing_by
  · simp
  · have h : (t.dropWhile (· ≠ '}'.toUInt8)).length ≤ t.length := (dropWhile_suffix _).length_le
    simp only [length_tail, length_cons]; omega
  · have h : (starWindow '*'.toUInt8 t.tail).length ≤ t.tail.length := (starWindow_suffix _ _).length_le
    simp only [length_drop, length_cons, length_tail] at h ⊢; omega

/-- `if (c != EOF) getchar();` for `c` the next character: it eats it, if there is one. -/
theorem eatPeeked_run {β : Type} {f : Option UInt8 → Scan β} {r : β} (hf : ∀ c, f c = pure r) :
    (getcharIf (s.stdin.head? != none) >>= f).run n s
      = some (r, { s with stdin := s.stdin.tail }) := by
  obtain ⟨stdin, e, o⟩ := s
  cases stdin with
  | nil => simp [hf]
  | cons c t => simp [hf]

/-- What one round of `skipblanks` removes when it goes on. -/
theorem skipblanksBody_blank
    (hc : isBlank c = true) : (skipblanksBody ()).run n ⟨c :: t, e, o⟩ = some (.inl (), ⟨t, e, o⟩) := by
  have h3 : c = 32 ∨ c = 10 ∨ c = 9 := by simpa [isBlank, or_assoc] using hc
  rcases h3 with rfl | rfl | rfl <;> rfl

theorem skipblanksBody_brace (hn : t.length + 1 < n) :
    (skipblanksBody ()).run n ⟨'{'.toUInt8 :: t, e, o⟩
      = some (.inl (), ⟨(t.dropWhile (· ≠ '}'.toUInt8)).tail, e, o⟩) := by
  have hrun := skipBrace_run (n := n) (s := ⟨'{'.toUInt8 :: t, e, o⟩) (by simpa using hn)
  have hone : (skipOne (some '{'.toUInt8) none).run n ⟨'{'.toUInt8 :: t, e, o⟩
      = some ((t.dropWhile (· ≠ '}'.toUInt8)).head?, ⟨t.dropWhile (· ≠ '}'.toUInt8), e, o⟩) := by
    simpa [skipOne] using hrun
  have hne : (some '{'.toUInt8 == some '('.toUInt8) = false := by decide
  simp only [skipblanksBody, peekchar_bind, peek2charIf_bind, head?_cons, hne, Bool.false_eq_true, if_false,
    Scan.run_ite]
  rw [if_pos (by simp), Scan.run_bind hone]
  exact eatPeeked_run (s := ⟨t.dropWhile (· ≠ '}'.toUInt8), e, o⟩) (fun _ => rfl)

theorem skipblanksBody_paren (hn : t.length + 2 < n) :
    (skipblanksBody ()).run n ⟨'('.toUInt8 :: '*'.toUInt8 :: t, e, o⟩
      = some (.inl (), ⟨(starWindow '*'.toUInt8 t).drop 2, e, o⟩) := by
  have hrun := skipParen_run (n := n) (s := ⟨'('.toUInt8 :: '*'.toUInt8 :: t, e, o⟩) rfl (by simpa using hn)
  have hone : (skipOne (some '('.toUInt8) (some '*'.toUInt8)).run n ⟨'('.toUInt8 :: '*'.toUInt8 :: t, e, o⟩
      = some ((starWindow '*'.toUInt8 t).tail.head?, ⟨(starWindow '*'.toUInt8 t).tail, e, o⟩) := by
    have hne : ¬ (some '('.toUInt8 = some '{'.toUInt8) := by decide
    exact hrun
  simp only [skipblanksBody, peekchar_bind, peek2charIf_bind, head?_cons, tail_cons, BEq.rfl, if_true,
    Scan.run_ite]
  rw [if_pos (by simp), Scan.run_bind hone]
  have heat := eatPeeked_run (n := n) (s := ⟨(starWindow '*'.toUInt8 t).tail, e, o⟩)
    (f := fun _ => pure (.inl () : Unit ⊕ Unit)) (fun _ => rfl)
  refine heat.trans ?_
  simp only [← drop_one, drop_drop]

/-- A character at which `skipblanks` stops. -/
def startsToken : List UInt8 → Prop
  | [] => True
  | c :: t => isBlank c = false ∧ c ≠ '{'.toUInt8 ∧ ¬(c = '('.toUInt8 ∧ t.head? = some '*'.toUInt8)

theorem skipblanksBody_stop (h : startsToken s.stdin) : (skipblanksBody ()).run n s = some (.inr (), s) := by
  obtain ⟨stdin, e, o⟩ := s
  cases stdin with
  | nil => rfl
  | cons c t =>
    obtain ⟨hb, hbr, hp⟩ := h
    have hb' : c ≠ ' '.toUInt8 ∧ c ≠ '\n'.toUInt8 ∧ c ≠ '\t'.toUInt8 := by
      rw [show ' '.toUInt8 = 32 from rfl, show '\n'.toUInt8 = 10 from rfl, show '\t'.toUInt8 = 9 from rfl]
      simpa [isBlank, and_assoc] using hb
    simp only [skipblanksBody, peekchar_bind, peek2charIf_bind, head?_cons, tail_cons]
    by_cases hc : c = '('.toUInt8
    · have hcc : t.head? ≠ some '*'.toUInt8 := fun hcc => hp ⟨hc, hcc⟩
      rw [hc] at hb' hbr
      simp [hc, hcc, hb', hbr]
    · simp [hc, hb', hbr]

/-- **`skipblanks` computes `dropBlanks`.** -/
theorem skipblanks_run (hn : s.stdin.length < n) :
    skipblanks.run n s = some ((), { s with stdin := dropBlanks s.stdin }) := by
  refine Scan.loop_eq (fun _ s => s.stdin.length < n) (fun _ s => ((), { s with stdin := dropBlanks s.stdin }))
    ?_ hn hn
  rintro ⟨⟩ ⟨stdin, e, o⟩ hlen
  cases stdin with
  | nil => exact .inr (by rw [skipblanksBody_stop (by simp [startsToken]), dropBlanks])
  | cons c t =>
    simp only [length_cons] at hlen
    by_cases hb : isBlank c = true
    · refine .inl ⟨(), ⟨t, e, o⟩, skipblanksBody_blank hb, by simp; omega, by simp, ?_⟩
      rw [dropBlanks.eq_def (c :: t)]; simp [hb]
    · by_cases hbr : c = '{'.toUInt8
      · subst hbr
        have hle : (t.dropWhile (· ≠ '}'.toUInt8)).length ≤ t.length := (dropWhile_suffix _).length_le
        refine .inl ⟨(), _, skipblanksBody_brace hlen, ?_, ?_, ?_⟩
        · simp only [length_tail]; omega
        · simp only [length_tail, length_cons]; omega
        · rw [dropBlanks.eq_def ('{'.toUInt8 :: t)]; simp [hb]
      · by_cases hp : c = '('.toUInt8 ∧ t.head? = some '*'.toUInt8
        · obtain ⟨rfl, hh⟩ := hp
          obtain ⟨u, rfl⟩ : ∃ u, t = '*'.toUInt8 :: u := by
            cases t with
            | nil => simp at hh
            | cons d u => simp only [head?_cons, Option.some.injEq] at hh; exact ⟨u, by rw [hh]⟩
          have hle : (starWindow '*'.toUInt8 u).length ≤ u.length := (starWindow_suffix _ _).length_le
          simp only [length_cons] at hlen
          refine .inl ⟨(), _, skipblanksBody_paren (by omega), ?_, ?_, ?_⟩
          · simp only [length_drop]; omega
          · simp only [length_drop, length_cons]; omega
          · rw [dropBlanks.eq_def ('('.toUInt8 :: '*'.toUInt8 :: u)]; simp [hb, hbr]
        · refine .inr ?_
          have hst : startsToken (c :: t) := ⟨by simpa using hb, hbr, hp⟩
          rw [skipblanksBody_stop hst, dropBlanks.eq_def (c :: t)]
          simp only [hb, if_neg hbr, if_neg hp, Bool.false_eq_true, if_false]

/-! ## Words -/

@[simp] theorem wordChar_some (H : Host D) (c : UInt8) : wordChar H (some c) = isAlnum c := by
  rw [Bool.eq_iff_iff]
  simp [wordChar, isAlnum]

@[simp] theorem wordChar_none (H : Host D) : wordChar H none = false := rfl

/-- The first loop of `identifier` on the remaining input: `word`, `numericFlag` and what is left. -/
def wordScan (H : Host D) : List UInt8 → List UInt8 → Bool → List UInt8 × Bool × List UInt8
  | [], w, fl => (w ++ [255], fl || CHARCLASS H none == NUMERIC, [])
  | ch :: t, w, fl =>
    if (w ++ [ch]).length < 15 ∧ wordChar H t.head? then
      wordScan H t (w ++ [ch]) (fl || CHARCLASS H t.head? == NUMERIC)
    else (w ++ [ch], fl || CHARCLASS H t.head? == NUMERIC, t)

theorem identifierWord_run (H : Host D) (hn : s.stdin.length < n) :
    (identifierWord H).run n s = some (((wordScan H s.stdin [] false).1, (wordScan H s.stdin [] false).2.1,
        (wordScan H s.stdin [] false).2.2.head?),
      { s with stdin := (wordScan H s.stdin [] false).2.2 }) := by
  refine Scan.loop_eq (fun _ _ => True)
    (fun (st : List UInt8 × Bool) s => (((wordScan H s.stdin st.1 st.2).1, (wordScan H s.stdin st.1 st.2).2.1,
        (wordScan H s.stdin st.1 st.2).2.2.head?),
      { s with stdin := (wordScan H s.stdin st.1 st.2).2.2 })) ?_ trivial hn
  rintro ⟨w, fl⟩ ⟨stdin, e, o⟩ _
  simp only [identifierBody, getchar_bind, peekchar_bind]
  cases stdin with
  | nil =>
    refine .inr ?_
    simp [wordScan]
  | cons ch t =>
    by_cases hc : (w ++ [ch]).length < 15 ∧ wordChar H t.head? = true
    · refine .inl ⟨(w ++ [ch], fl || CHARCLASS H t.head? == NUMERIC), ⟨t, e, o⟩, ?_, trivial, by simp, ?_⟩
      · exact congrArg (fun m => Scan.run m n ⟨t, e, o⟩) (if_pos hc)
      · simp only [wordScan, if_pos hc]
    · refine .inr ?_
      simp only [wordScan, if_neg hc]
      exact congrArg (fun m => Scan.run m n ⟨t, e, o⟩) (if_neg hc)

theorem identifierRest_run (H : Host D) (hn : s.stdin.length < n) :
    (identifierRest H s.stdin.head?).run n s = some ((), { s with stdin := s.stdin.dropWhile isAlnum }) := by
  refine Scan.loop_eq (fun c s => c = s.stdin.head?) (fun _ s => ((), { s with stdin := s.stdin.dropWhile isAlnum }))
    ?_ rfl hn
  rintro c ⟨stdin, e, o⟩ rfl
  cases stdin with
  | nil =>
    refine .inr ?_
    simp [identifierRestBody]
  | cons ch t =>
    by_cases hc : isAlnum ch = true
    · refine .inl ⟨t.head?, ⟨t, e, o⟩, ?_, rfl, by simp, ?_⟩
      · simp [identifierRestBody, hc]
      · simp [hc]
    · refine .inr ?_
      simp [identifierRestBody, hc]

section WordScan
variable (H : Host D)

theorem wordScan_word : ∀ (t : List UInt8) (ch : UInt8) (w : List UInt8) (fl : Bool), w.length < 15 →
    (wordScan H (ch :: t) w fl).1 = (w ++ ch :: t.takeWhile isAlnum).take 15
  | [], ch, w, fl, hw => by
    have hlen : (w ++ [ch]).length ≤ 15 := by simp; omega
    simp [wordScan, take_of_length_le hlen]
  | d :: t, ch, w, fl, hw => by
    rw [wordScan]
    by_cases hd : isAlnum d = true
    · by_cases hlen : (w ++ [ch]).length < 15
      · rw [if_pos ⟨hlen, by simpa using hd⟩, wordScan_word t d (w ++ [ch]) _ hlen]
        simp [hd]
      · rw [if_neg (fun h => hlen h.1)]
        have h14 : w.length = 14 := by simp at hlen; omega
        simp [hd, List.take_append, h14]
    · rw [if_neg (fun h => hd (by simpa using h.2))]
      have hlen : (w ++ [ch]).length ≤ 15 := by simp; omega
      simp [hd, take_of_length_le hlen]

theorem wordScan_rest : ∀ (t : List UInt8) (ch : UInt8) (w : List UInt8) (fl : Bool),
    (wordScan H (ch :: t) w fl).2.2.dropWhile isAlnum = t.dropWhile isAlnum
  | [], ch, w, fl => by simp [wordScan]
  | d :: t, ch, w, fl => by
    rw [wordScan]
    split
    · rename_i h
      have hd : isAlnum d = true := by simpa using h.2
      rw [wordScan_rest t d, dropWhile_cons_of_pos hd]
    · rfl

/-- Letters alone never set the numeric flag: what may still set it is the character after the word. -/
theorem wordScan_flag : ∀ (t : List UInt8) (ch : UInt8) (w : List UInt8) (fl : Bool),
    (∀ c ∈ t.takeWhile isAlnum, isNumeric c = false) → (w ++ ch :: t.takeWhile isAlnum).length ≤ 15 →
    (wordScan H (ch :: t) w fl).2.1 = (fl || CHARCLASS H (t.dropWhile isAlnum).head? == NUMERIC)
  | [], ch, w, fl, _, _ => by simp [wordScan]
  | d :: t, ch, w, fl, hlet, hlen => by
    rw [wordScan]
    by_cases hd : isAlnum d = true
    · rw [takeWhile_cons_of_pos hd] at hlet hlen
      have hdn : isNumeric d = false := hlet d (by simp)
      have hcls : (CHARCLASS H (some d) == NUMERIC) = false := by simpa using hdn
      simp only [length_append, length_cons] at hlen
      rw [if_pos ⟨by simp; omega, by simpa using hd⟩,
        wordScan_flag t d (w ++ [ch]) _ (fun c hc => hlet c (by simp [hc])) (by simp; omega)]
      simp [hcls, hd]
    · rw [if_neg (fun h => hd (by simpa using h.2))]
      simp [hd]

theorem wordScan_suffix : ∀ (t : List UInt8) (ch : UInt8) (w : List UInt8) (fl : Bool),
    (wordScan H (ch :: t) w fl).2.2 <:+ t
  | [], ch, w, fl => by simp [wordScan]
  | d :: t, ch, w, fl => by
    rw [wordScan]
    split
    · exact (wordScan_suffix t d _ _).trans (suffix_cons d t)
    · exact suffix_refl _

end WordScan

/-- **`identifier` on a word**: up to 15 characters of the maximal word are kept, and all of it is eaten. -/
theorem identifier_run (src : Source) (H : Host D) (tok : Token D) {ch : UInt8} (hn : t.length + 1 < n) :
    (identifier src H tok).run n ⟨ch :: t, e, o⟩
      = some (wordToken src ((ch :: t.takeWhile isAlnum).take 15) (wordScan H (ch :: t) [] false).2.1 tok,
          ⟨t.dropWhile isAlnum, e, o⟩) := by
  have hrest : ((wordScan H (ch :: t) [] false).2.2).length < n :=
    Nat.lt_of_le_of_lt (wordScan_suffix H t ch [] false).length_le (by omega)
  unfold identifier
  rw [Scan.run_bind (identifierWord_run H (s := ⟨ch :: t, e, o⟩) (by simpa using hn)),
    Scan.run_bind (identifierRest_run H (s := ⟨(wordScan H (ch :: t) [] false).2.2, e, o⟩) hrest)]
  simp only [Scan.run_pure, wordScan_word H t ch [] false (by simp), wordScan_rest, nil_append]

/-! ## Strings -/

/-- The loop of `getstring` on the input after the opening apostrophe: the characters of the string, and the
    input from the closing apostrophe on. -/
def stringBody : List UInt8 → List UInt8 × List UInt8
  | [] => ([], [])
  | [c] => if c = apostrophe then ([], [c]) else ([c], [])
  | c :: d :: u =>
    if c = apostrophe then
      if d = apostrophe then (apostrophe :: (stringBody u).1, (stringBody u).2) else ([], c :: d :: u)
    else (c :: (stringBody (d :: u)).1, (stringBody (d :: u)).2)

theorem stringBody_suffix : ∀ (t : List UInt8), (stringBody t).2 <:+ t
  | [] => suffix_refl _
  | [c] => by
    rw [stringBody]
    split
    · exact suffix_refl _
    · exact nil_suffix
  | c :: d :: u => by
    rw [stringBody]
    split
    · split
      · exact (stringBody_suffix u).trans ((suffix_cons d u).trans (suffix_cons c (d :: u)))
      · exact suffix_refl _
    · exact (stringBody_suffix (d :: u)).trans (suffix_cons c (d :: u))

/-- Appending to a buffer that keeps its first 15 bytes. -/
theorem take15_append (w : List UInt8) (c : UInt8) (l : List UInt8) (hw : w.length ≤ 15) :
    ((if w.length < 15 then w ++ [c] else w) ++ l).take 15 = (w ++ c :: l).take 15 := by
  split
  · simp
  · have h15 : w.length = 15 := by omega
    simp [h15]

theorem getstringLoop_run (hn : s.stdin.length < n) :
    (Scan.loop getstringBody []).run n s
      = some ((stringBody s.stdin).1.take 15, { s with stdin := (stringBody s.stdin).2 }) := by
  suffices h : (Scan.loop getstringBody []).run n s
      = some (([] ++ (stringBody s.stdin).1).take 15, { s with stdin := (stringBody s.stdin).2 }) by
    simpa using h
  refine Scan.loop_eq (fun w _ => w.length ≤ 15)
    (fun w s => ((w ++ (stringBody s.stdin).1).take 15, { s with stdin := (stringBody s.stdin).2 })) ?_
    (by simp) hn
  rintro w ⟨stdin, e, o⟩ hw
  -- the buffer after one more character still has at most 15
  have hw' : ∀ c : UInt8, (if w.length < 15 then w ++ [c] else w).length ≤ 15 := by
    intro c; split
    · simp; omega
    · exact hw
  simp only [getstringBody, peekchar_bind, peek2char_bind, Scan.run_ite, getcharIf_bind]
  rcases stdin with _ | ⟨c, _ | ⟨d, u⟩⟩
  · exact .inr (by simp [stringBody, take_of_length_le hw])
  · by_cases hc : c = apostrophe
    · exact .inr (by simp [stringBody, hc, take_of_length_le hw])
    · refine .inl ⟨_, ⟨[], e, o⟩, by simp [hc], hw' c, by simp, ?_⟩
      simpa [stringBody, hc] using take15_append w c [] hw
  · by_cases hc : c = apostrophe
    · by_cases hd : d = apostrophe
      · refine .inl ⟨_, ⟨u, e, o⟩, by simp [hc, hd], hw' apostrophe, by simp only [length_cons]; omega, ?_⟩
        simpa [stringBody, hc, hd] using take15_append w apostrophe (stringBody u).1 hw
      · exact .inr (by simp [stringBody, hc, hd, take_of_length_le hw])
    · refine .inl ⟨_, ⟨d :: u, e, o⟩, by simp [hc], hw' c, by simp, ?_⟩
      simpa [stringBody, hc] using take15_append w c (stringBody (d :: u)).1 hw

/-- **`getstring`** from the opening apostrophe on. -/
theorem getstring_run (tok : Token D) {q : UInt8} (hn : t.length + 1 < n) :
    (getstring tok).run n ⟨q :: t, e, o⟩
      = some (createString ((stringBody t).1.take 15 ++ [0]) tok, ⟨(stringBody t).2.tail, e, o⟩) := by
  unfold getstring
  rw [getchar_bind, tail_cons, Scan.run_bind (getstringLoop_run (s := ⟨t, e, o⟩) (by show t.length < n; omega))]
  simp only [getchar_bind, Scan.run_pure]

/-! ## Digits -/

/-- **A loop over digits** folds its body over the maximal run of digits. -/
theorem digitLoop_run {σ : Type} (H : Host D) (push : σ → Int → σ) (x : σ) (hn : s.stdin.length < n) :
    (digitLoop H push x).run n s = some (((s.stdin.takeWhile isNumeric).map charval).foldl push x,
      { s with stdin := s.stdin.dropWhile isNumeric }) := by
  refine Scan.loop_eq (fun _ _ => True)
    (fun x s => (((s.stdin.takeWhile isNumeric).map charval).foldl push x,
      { s with stdin := s.stdin.dropWhile isNumeric })) ?_ trivial hn
  rintro x ⟨stdin, e, o⟩ _
  simp only [digitBody, peekchar_bind]
  cases stdin with
  | nil => exact .inr rfl
  | cons c t =>
    by_cases hc : isNumeric c = true
    · refine .inl ⟨push x (charval c), ⟨t, e, o⟩, by simp [hc], trivial, by simp, ?_⟩
      simp [hc]
    · exact .inr (by simp [hc])

end Lexer
end Asg1
