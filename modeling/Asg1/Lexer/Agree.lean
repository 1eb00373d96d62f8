import Asg1.Lexer.Progress

/-!
# `Lexer.Agree` — the top-level lexer against the turned-in one

Both versions run the same code except for `createReserved`, so they consume the same characters in every call
and return the same tokens, up to reserved words: there the top-level version stores the biased number and puts
`RESERVED - RESERVED_BIAS` in the token type. The two versions therefore agree on an input exactly when no call
of the run stands before a reserved word (`lexers_agree_iff`).
-/

namespace Asg1
namespace Lexer

open List

variable {D : Type}

/-! ## Runs of the two versions -/

/-- Call `gettoken` until it sets `EOFFLG`: each token with the input left after the call. The first number
    bounds the loops inside a call, the second the number of calls. -/
def scanAll (src : Source) (H : Host D) (n : Nat) : Nat → LexState → Option (List (Token D × List UInt8))
  | 0, _ => none
  | k + 1, s =>
    match (gettoken src H).run n s with
    | none => none
    | some (tok, s') =>
      if s'.EOFFLG = 0 then (scanAll src H n k s').map ((tok, s'.stdin) :: ·)
      else some [(tok, s'.stdin)]

/-- Two states with the same input and flag; what was printed may differ. -/
def SameInput (s t : LexState) : Prop := s.stdin = t.stdin ∧ s.EOFFLG = t.EOFFLG

/-- Two routines that return the same value and leave the same input, started on the same input. -/
def Twin {α : Type} (m m' : Scan α) : Prop :=
  ∀ n s t, SameInput s t → s.stdin.length < n →
    ∃ a s' t', m.run n s = some (a, s') ∧ m'.run n t = some (a, t') ∧ SameInput s' t' ∧ s'.stdin <:+ s.stdin

namespace Twin

variable {α β : Type}

theorem pure (a : α) : Twin (pure a : Scan α) (pure a) :=
  fun _ s t h _ => ⟨a, s, t, rfl, rfl, h, suffix_refl _⟩

variable {m m' : Scan α}

theorem bind {f f' : α → Scan β} (hm : Twin m m') (hf : ∀ a, Twin (f a) (f' a)) : Twin (m >>= f) (m' >>= f') := by
  intro n s t hst hn
  obtain ⟨a, s₁, t₁, h₁, h₁', hst₁, hs₁⟩ := hm n s t hst hn
  obtain ⟨b, s₂, t₂, h₂, h₂', hst₂, hs₂⟩ := hf a n s₁ t₁ hst₁ (Nat.lt_of_le_of_lt hs₁.length_le hn)
  exact ⟨b, s₂, t₂, by rw [Scan.run_bind h₁, h₂], by rw [Scan.run_bind h₁', h₂'], hst₂, hs₂.trans hs₁⟩

theorem ite {p : Prop} [Decidable p] {k k' : Scan α} (hm : Twin m m') (hk : Twin k k') :
    Twin (if p then m else k) (if p then m' else k') := by
  split
  · exact hm
  · exact hk

theorem getchar : Twin getchar getchar := by
  rintro n s t ⟨hin, he⟩ _
  refine ⟨_, _, { t with stdin := t.stdin.tail }, getchar_run n s, ?_, ⟨by simp [hin], he⟩, tail_suffix _⟩
  rw [getchar_run, hin]

theorem peekchar : Twin peekchar peekchar := by
  rintro n s t ⟨hin, he⟩ _
  refine ⟨_, _, t, peekchar_run n s, ?_, ⟨hin, he⟩, suffix_refl _⟩
  rw [peekchar_run, hin]

theorem peek2char : Twin peek2char peek2char := by
  rintro n s t ⟨hin, he⟩ _
  refine ⟨_, _, t, peek2char_run n s, ?_, ⟨hin, he⟩, suffix_refl _⟩
  rw [peek2char_run, hin]

theorem printf (msg msg' : String) : Twin (printf msg) (printf msg') :=
  fun _ _ _ h _ => ⟨(), _, _, rfl, rfl, h, suffix_refl _⟩

theorem getcharIf (p : Bool) : Twin (getcharIf p) (getcharIf p) := ite getchar (pure none)

theorem peek2charIf (p : Bool) : Twin (peek2charIf p) (peek2charIf p) := ite peek2char (pure none)

theorem digitLoop {σ : Type} (H : Host D) (push : σ → Int → σ) (x : σ) :
    Twin (digitLoop H push x) (digitLoop H push x) := by
  rintro n s t ⟨hin, he⟩ hn
  refine ⟨_, _, { t with stdin := t.stdin.dropWhile isNumeric }, digitLoop_run H push x hn, ?_,
    ⟨by simp [hin], he⟩, dropWhile_suffix _⟩
  rw [digitLoop_run H push x (hin ▸ hn), hin]

end Twin

/-- The two versions of `number` differ in their messages only. -/
theorem number_twin (H : Host D) (tok : Token D) : Twin (number .lexanc H tok) (number .turnin H tok) := by
  refine Twin.bind (Twin.digitLoop H _ _) fun v => Twin.bind ?_ fun w => Twin.bind ?_ fun x => Twin.ite ?_ ?_
  · exact Twin.bind Twin.peekchar fun c => Twin.bind (Twin.peek2charIf _) fun cc => Twin.ite
      (Twin.bind Twin.getchar fun _ => Twin.bind (Twin.digitLoop H _ _) fun _ => Twin.pure _) (Twin.pure _)
  · exact Twin.bind Twin.peekchar fun c => Twin.ite
      (Twin.bind Twin.getchar fun _ => Twin.bind Twin.peekchar fun _ => Twin.bind (Twin.getcharIf _) fun _ =>
        Twin.bind (Twin.digitLoop H _ _) fun _ => Twin.pure _) (Twin.pure _)
  · exact Twin.ite (Twin.bind (Twin.printf _ _) fun _ => Twin.pure _) (Twin.pure _)
  · exact Twin.ite (Twin.bind (Twin.printf _ _) fun _ => Twin.pure _) (Twin.pure _)

theorem special_twin (tok : Token D) : Twin (special tok) (special tok) := by
  refine Twin.bind Twin.peekchar fun c => Twin.bind Twin.peek2char fun cc => ?_
  split
  · exact Twin.bind (Twin.getcharIf _) fun _ => Twin.bind Twin.getchar fun _ => Twin.pure _
  · exact Twin.bind (Twin.getcharIf _) fun _ => Twin.bind Twin.getchar fun _ => Twin.pure _
  · exact Twin.bind (Twin.printf _ _) fun _ => Twin.bind Twin.getchar fun _ => Twin.pure _

/-! ## Reserved words -/

/-- The reserved words (`resprnt` of `printtoken.c`). -/
def reservedWords : List String :=
  ["array", "begin", "case", "const", "do", "downto", "else", "end", "file", "for", "function", "goto", "if",
   "label", "nil", "of", "packed", "procedure", "program", "record", "repeat", "set", "then", "to", "type",
   "until", "var", "while", "with"]

/-- A word is one of the reserved words. -/
def isReserved (word : List UInt8) : Bool := reservedWords.any (fun w => bytes w = word)

variable {n : Nat} {word : List UInt8} {s : LexState}

theorem isReserved_iff : isReserved word = true ↔ ∃ w ∈ reservedWords, bytes w = word := by
  simp [isReserved]

/-- Every reserved entry of the `switch` is a reserved word. -/
theorem wordTable_reserved (k : Nat) : ∀ e ∈ wordTable k, ∀ v, e.2 = .reserved v → e.1 ∈ reservedWords := by
  unfold wordTable
  split <;> simp [reservedWords]

/-- Every reserved word is found by the `switch`, and is 2 to 9 letters long. -/
theorem reservedWords_found : ∀ w ∈ reservedWords,
    (∃ v, findWord (bytes w) = some (.reserved v)) ∧ 2 ≤ (bytes w).length ∧ (bytes w).length ≤ 9 ∧
      ∀ c ∈ bytes w, isNumeric c = false ∧ isAlpha c = true := by
  have h : reservedWords.all (fun w => (match findWord (bytes w) with | some (.reserved _) => true | _ => false) &&
      decide (2 ≤ (bytes w).length) && decide ((bytes w).length ≤ 9) &&
      (bytes w).all (fun c => !isNumeric c && isAlpha c)) = true := by decide +kernel
  intro w hw
  have hall := (List.all_eq_true.mp h) w hw
  simp only [Bool.and_eq_true, decide_eq_true_eq, List.all_eq_true, Bool.not_eq_true'] at hall
  obtain ⟨⟨⟨hf, h2⟩, h9⟩, hc⟩ := hall
  refine ⟨?_, h2, h9, fun c hcm => ⟨(hc c hcm).1, (hc c hcm).2⟩⟩
  split at hf
  · rename_i v hv; exact ⟨v, hv⟩
  · cases hf

theorem isReserved_iff_findWord :
    isReserved word = true ↔ ∃ v, findWord word = some (.reserved v) := by
  rw [isReserved_iff]
  constructor
  · rintro ⟨w, hw, rfl⟩
    exact (reservedWords_found w hw).1
  · rintro ⟨v, hv⟩
    obtain ⟨e, he, hev⟩ := Option.map_eq_some_iff.mp hv
    have hmem := mem_of_find?_eq_some he
    have heq : bytes e.1 = word := by simpa using find?_some he
    exact ⟨e.1, wordTable_reserved _ e hmem v hev, heq⟩

/-- The two `createReserved` never make the same token. -/
theorem createReserved_ne (v v' : Int) (tok : Token D) :
    createReserved .lexanc v tok ≠ createReserved .turnin v' tok := by
  intro h
  have ht : RESERVED - RESERVED_BIAS = RESERVED := congrArg Token.tokentype h
  exact absurd ht (by decide)

/-- **Tokens of words.** The two versions differ on a word exactly when it is reserved and was not taken for one
    with a digit. -/
theorem wordToken_eq_iff (word : List UInt8) (flag : Bool) (tok : Token D) :
    wordToken .lexanc word flag tok = wordToken .turnin word flag tok
      ↔ ¬(isReserved word = true ∧ flag = false) := by
  by_cases hres : isReserved word = true
  · obtain ⟨w, hw, rfl⟩ := isReserved_iff.mp hres
    obtain ⟨⟨v, hv⟩, h2, h9, _⟩ := reservedWords_found w hw
    cases flag with
    | true => simp [wordToken]
    | false =>
      have hlen : ¬(false = true ∨ (bytes w).length < 2 ∨ (bytes w).length > 9) := by
        simp only [Bool.false_eq_true, false_or, not_or]; omega
      simp only [wordToken, if_neg hlen, hv]
      simp [hres, createReserved_ne v v tok]
  · have hnf : ∀ v, findWord word ≠ some (.reserved v) := fun v hv =>
      hres (isReserved_iff_findWord.mpr ⟨v, hv⟩)
    have heq : wordToken .lexanc word flag tok = wordToken .turnin word flag tok := by
      unfold wordToken
      split
      · rfl
      · cases hf : findWord word with
        | none => rfl
        | some kind =>
          cases kind with
          | reserved v => exact absurd hf (hnf v)
          | operator v => rfl
    simp [heq, hres]

/-- The input, after blanks and comments, starts with a reserved word: a maximal run of letters and digits that
    spells one. (A word that ends the input counts unless the memory below `CHARCLASS` happens to hold the class
    of digits, in which case both versions take it for an identifier.) -/
def ReservedAhead (H : Host D) (input : List UInt8) : Prop :=
  ∃ c t, dropBlanks input = c :: t ∧ isAlpha c = true ∧ isReserved (c :: t.takeWhile isAlnum) = true ∧
    (t.dropWhile isAlnum = [] → H.charclassBelow ≠ NUMERIC)

/-- A reserved word is short, so cutting a word at 15 characters neither makes nor breaks one. -/
theorem isReserved_take15 (word : List UInt8) : isReserved (word.take 15) = isReserved word := by
  by_cases hlen : word.length ≤ 15
  · rw [take_of_length_le hlen]
  · have hno : ∀ l : List UInt8, 10 ≤ l.length → isReserved l = false := by
      intro l hl
      rw [Bool.eq_false_iff, ne_eq, isReserved_iff]
      rintro ⟨w, hw, rfl⟩
      have := (reservedWords_found w hw).2.2.1
      omega
    rw [hno word (by omega), hno (word.take 15) (by simp; omega)]

/-- The numeric flag of a reserved word: only `EOF` right after it can set it. -/
theorem wordScan_flag_reserved (H : Host D) {c : UInt8} {t : List UInt8}
    (hres : isReserved (c :: t.takeWhile isAlnum) = true) :
    (wordScan H (c :: t) [] false).2.1 = false ↔ (t.dropWhile isAlnum = [] → H.charclassBelow ≠ NUMERIC) := by
  obtain ⟨w, hw, hword⟩ := isReserved_iff.mp hres
  obtain ⟨_, _, h9, hletters⟩ := reservedWords_found w hw
  rw [hword] at h9 hletters
  rw [wordScan_flag H t c [] false (fun d hd => (hletters d (by simp [hd])).1) (by simp at h9 ⊢; omega)]
  cases hrest : t.dropWhile isAlnum with
  | nil => simp [CHARCLASS]
  | cons d u =>
    have hd : isAlnum d = false := by
      have := head?_dropWhile_not isAlnum t
      simpa [hrest] using this
    have hdn : isNumeric d = false := by
      exact (Bool.or_eq_false_iff.mp hd).2
    simp [hdn]

/-! ## One call, and the whole run -/

/-- **One call of both versions.** They leave the same input, and return the same token exactly when no reserved
    word is ahead. -/
theorem gettoken_both (H : Host D) {t : LexState} (hst : SameInput s t) (hn : s.stdin.length < n) :
    ∃ tok tok' s' t', (gettoken .lexanc H).run n s = some (tok, s') ∧
      (gettoken .turnin H).run n t = some (tok', t') ∧ SameInput s' t' ∧
      (tok = tok' ↔ ¬ ReservedAhead H s.stdin) := by
  obtain ⟨hin, he⟩ := hst
  have hnt : t.stdin.length < n := hin ▸ hn
  cases hb : dropBlanks s.stdin with
  | nil =>
    refine ⟨_, _, _, _, gettoken_run_end _ H hn hb, gettoken_run_end _ H hnt (hin ▸ hb), ⟨rfl, rfl⟩, ?_⟩
    simp [ReservedAhead, hb]
  | cons c u =>
    rw [gettoken_run_token .lexanc H hn hb, gettoken_run_token .turnin H hnt (hin ▸ hb)]
    have hlen : u.length + 1 < n := by
      have h := (dropBlanks_suffix s.stdin).length_le
      rw [hb] at h
      simp only [length_cons] at h; omega
    -- off the word scanner the two calls run the same code
    have hsame : ∀ {m m' : Scan (Token D)}, isAlpha c = false → Twin m m' →
        ∃ tok tok' s' t', m.run n { s with stdin := c :: u } = some (tok, s') ∧
          m'.run n { t with stdin := c :: u } = some (tok', t') ∧ SameInput s' t' ∧
          (tok = tok' ↔ ¬ ReservedAhead H s.stdin) := by
      intro m m' hc hm
      obtain ⟨a, s', t', h₁, h₂, hst', _⟩ := hm n { s with stdin := c :: u } { t with stdin := c :: u }
        ⟨rfl, he⟩ (by simpa using hlen)
      refine ⟨a, a, s', t', h₁, h₂, hst', by simp [ReservedAhead, hb, hc]⟩
    unfold scanToken
    by_cases ha : CHARCLASS H (some c) = ALPHA
    · rw [if_pos ha, if_pos ha]
      refine ⟨_, _, _, _, identifier_run .lexanc H talloc hlen, identifier_run .turnin H talloc hlen,
        ⟨rfl, he⟩, ?_⟩
      have hac : isAlpha c = true := (CHARCLASS_some_alpha H c).mp ha
      rw [wordToken_eq_iff, isReserved_take15, not_iff_not]
      constructor
      · rintro ⟨hres, hfl⟩
        exact ⟨c, u, hb, hac, hres, (wordScan_flag_reserved H hres).mp hfl⟩
      · rintro ⟨c', u', hb', _, hres, hend⟩
        rw [hb] at hb'
        cases hb'
        exact ⟨hres, (wordScan_flag_reserved H hres).mpr hend⟩
    · have hac : isAlpha c = false := Bool.eq_false_iff.mpr (fun h => ha ((CHARCLASS_some_alpha H c).mpr h))
      rw [if_neg ha, if_neg ha]
      by_cases hd : CHARCLASS H (some c) = NUMERIC
      · rw [if_pos hd, if_pos hd]
        exact hsame hac (number_twin H talloc)
      · rw [if_neg hd, if_neg hd]
        by_cases hq : some c = some apostrophe
        · rw [if_pos hq]
          refine ⟨_, _, _, _, getstring_run talloc hlen, getstring_run talloc hlen, ⟨rfl, he⟩, ?_⟩
          simp [ReservedAhead, hb, hac]
        · rw [if_neg hq]
          exact hsame hac (special_twin talloc)

/-- No call of the run stands before a reserved word. -/
def NoReservedWord (H : Host D) (n : Nat) (s : LexState) : Prop :=
  ∀ toks s', Calls .lexanc H n s toks s' → ¬ ReservedAhead H s'.stdin

theorem noReservedWord_cons {H : Host D} {s₁ : LexState} {tok : Token D}
    (hrun : (gettoken .lexanc H).run n s = some (tok, s₁)) (hmore : ¬ ReachesEnd n s)
    (heaten : ∃ p ≠ [], s.stdin = p ++ s₁.stdin) (hflag : s₁.EOFFLG = 0) :
    NoReservedWord H n s ↔ ¬ ReservedAhead H s.stdin ∧ NoReservedWord H n s₁ := by
  constructor
  · intro h
    exact ⟨h [] s Calls.nil, fun toks s' hc => h (tok :: toks) s' (Calls.cons hrun hmore heaten hflag hc)⟩
  · rintro ⟨h0, h1⟩ toks s' hc
    cases hc with
    | nil => exact h0
    | cons run _ _ _ rest =>
      rw [hrun] at run
      cases run
      exact h1 _ s' rest

/-- The two runs from states with the same input, by induction on what is left of it. -/
theorem scanAll_both (H : Host D) :
    ∀ (k : Nat) (s t : LexState), SameInput s t → s.stdin.length < k → s.stdin.length < n → s.EOFFLG = 0 →
      ∃ r r', scanAll .lexanc H n k s = some r ∧ scanAll .turnin H n k t = some r' ∧
        (r = r' ↔ NoReservedWord H n s) := by
  intro k
  induction k with
  | zero =>
    intro s t _ hk
    exact absurd hk (Nat.not_lt_zero _)
  | succ k ih =>
    intro s t hst hk hn he
    obtain ⟨tok, tok', s', t', h₁, h₂, hst', htok⟩ := gettoken_both H hst hn
    obtain ⟨tok'', s'', h₁', hsuf, hcase⟩ := gettoken_step .lexanc H hn
    rw [h₁] at h₁'
    cases h₁'
    rcases hcase with ⟨hb, he1, _⟩ | ⟨hb, he0, hlt⟩
    · -- the call that sets the flag: no token, and no further call
      have hres : ¬ ReservedAhead H s.stdin := by
        rintro ⟨c, u, hb', _⟩
        rw [hb] at hb'; cases hb'
      have hnr : NoReservedWord H n s := by
        intro toks s₂ hc
        cases hc with
        | nil => exact hres
        | cons _ hmore => exact absurd ((reachesEnd_iff hn).mpr hb) hmore
      refine ⟨[(tok, s'.stdin)], [(tok', t'.stdin)], ?_, ?_, ?_⟩
      · simp [scanAll, h₁, he1]
      · simp [scanAll, h₂, ← hst'.2, he1]
      · simp [htok.mpr hres, hst'.1, hnr]
    · obtain ⟨r, r', hr, hr', hiff⟩ := ih s' t' hst' (by omega) (by omega) (he0.trans he)
      have hcons := noReservedWord_cons (H := H) h₁ (by rwa [reachesEnd_iff hn])
        (exists_prefix_of_suffix hsuf hlt) (he0.trans he)
      refine ⟨(tok, s'.stdin) :: r, (tok', t'.stdin) :: r', ?_, ?_, ?_⟩
      · simp [scanAll, h₁, he0, he, hr]
      · simp [scanAll, h₂, ← hst'.2, he0, he, hr']
      · rw [hcons, ← htok, ← hiff]
        simp [hst'.1]

/-- **When the two lexers agree.** On every input both runs end, and they return the same tokens and leave the
    same input after every call if and only if no call of the run stands before a reserved word. -/
theorem lexers_agree_iff (H : Host D) (input : List UInt8) (extra : Nat) :
    ∃ r r', scanAll .lexanc H (input.length + 1 + extra) (input.length + 1 + extra) (initscanner input) = some r ∧
      scanAll .turnin H (input.length + 1 + extra) (input.length + 1 + extra) (initscanner input) = some r' ∧
      (r = r' ↔ NoReservedWord H (input.length + 1 + extra) (initscanner input)) :=
  scanAll_both H _ (initscanner input) (initscanner input) ⟨rfl, rfl⟩ (by show input.length < _; omega)
    (by show input.length < _; omega) rfl

/-- A host without floating point, for runs on inputs that have no number. -/
def plainHost : Host Unit where
  ofInt _ := ()
  add _ _ := ()
  mul _ _ := ()
  tenth := ()
  charclassBelow := 0
  dclOutside _ := ()
  pdclOutside _ := ()

/-- The lexers differ on the one-word input `do`: the top-level version returns the token type `-285` and the
    number `292`, the turned-in one `RESERVED` and `5`. -/
theorem lexers_differ_on_do :
    scanAll .lexanc plainHost 4 4 (initscanner (bytes "do "))
        = some [(⟨-285, 0, .which 292⟩, [32]), (talloc, [])] ∧
      scanAll .turnin plainHost 4 4 (initscanner (bytes "do "))
        = some [(⟨RESERVED, 0, .which 5⟩, [32]), (talloc, [])] ∧
      scanAll .lexanc plainHost 4 4 (initscanner (bytes "do "))
        ≠ scanAll .turnin plainHost 4 4 (initscanner (bytes "do ")) := by
  refine ⟨by decide +kernel, by decide +kernel, by decide +kernel⟩

end Lexer
end Asg1
