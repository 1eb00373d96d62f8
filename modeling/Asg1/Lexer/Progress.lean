import Asg1.Lexer.Closed

/-!
# `Lexer.Progress` — every call eats from the front of the input, and the driver ends

`Tame m`: with enough fuel the routine `m` returns, what it leaves of the input is a suffix of what it found,
and it does not touch `EOFFLG`. Tameness is compositional, so the scanners get it from their parts. A scanner
that starts by eating a character also makes progress; the driver `testscanner` then ends, because the input
is a decreasing measure of its loop.
-/

namespace Asg1
namespace Lexer

open List

variable {D : Type}

/-! ## Tame routines -/

/-- The routine returns, eats a prefix of the input, and leaves `EOFFLG` alone. -/
def Tame {α : Type} (m : Scan α) : Prop :=
  ∀ n s, s.stdin.length < n →
    ∃ a s', m.run n s = some (a, s') ∧ s'.stdin <:+ s.stdin ∧ s'.EOFFLG = s.EOFFLG

namespace Tame

variable {α β : Type}

theorem pure (a : α) : Tame (pure a : Scan α) :=
  fun _ s _ => ⟨a, s, rfl, suffix_refl _, rfl⟩

theorem bind {m : Scan α} {f : α → Scan β} (hm : Tame m) (hf : ∀ a, Tame (f a)) : Tame (m >>= f) := by
  intro n s hn
  obtain ⟨a, s₁, h₁, hs₁, he₁⟩ := hm n s hn
  obtain ⟨b, s₂, h₂, hs₂, he₂⟩ := hf a n s₁ (Nat.lt_of_le_of_lt hs₁.length_le hn)
  exact ⟨b, s₂, by rw [Scan.run_bind h₁, h₂], hs₂.trans hs₁, he₂.trans he₁⟩

theorem ite {p : Prop} [Decidable p] {m m' : Scan α} (hm : Tame m) (hm' : Tame m') : Tame (if p then m else m') := by
  split
  · exact hm
  · exact hm'

theorem getchar : Tame getchar :=
  fun n s _ => ⟨_, _, getchar_run n s, tail_suffix _, rfl⟩

theorem peekchar : Tame peekchar :=
  fun n s _ => ⟨_, _, peekchar_run n s, suffix_refl _, rfl⟩

theorem peek2char : Tame peek2char :=
  fun n s _ => ⟨_, _, peek2char_run n s, suffix_refl _, rfl⟩

theorem printf (msg : String) : Tame (printf msg) :=
  fun _ _ _ => ⟨_, _, rfl, suffix_refl _, rfl⟩

theorem getcharIf (p : Bool) : Tame (getcharIf p) := ite getchar (pure none)

theorem peek2charIf (p : Bool) : Tame (peek2charIf p) := ite peek2char (pure none)

theorem digitLoop {σ : Type} (H : Host D) (push : σ → Int → σ) (x : σ) : Tame (digitLoop H push x) :=
  fun _ _ hn => ⟨_, _, digitLoop_run H push x hn, dropWhile_suffix _, rfl⟩

end Tame

theorem numberFrac_tame (H : Host D) (v : FracPart D) : Tame (numberFrac H v) := by
  refine Tame.bind Tame.peekchar fun c => Tame.bind (Tame.peek2charIf _) fun cc => Tame.ite ?_ (Tame.pure _)
  exact Tame.bind Tame.getchar fun _ => Tame.bind (Tame.digitLoop H _ v) fun _ => Tame.pure _

theorem numberExp_tame (H : Host D) : Tame (numberExp H) := by
  refine Tame.bind Tame.peekchar fun c => Tame.ite ?_ (Tame.pure _)
  exact Tame.bind Tame.getchar fun _ => Tame.bind Tame.peekchar fun _ => Tame.bind (Tame.getcharIf _) fun _ =>
    Tame.bind (Tame.digitLoop H _ _) fun _ => Tame.pure _

theorem realToken_tame (src : Source) (H : Host D) (dnum : D) (expVal : Int) (flag : Bool) (tok : Token D) :
    Tame (realToken src H dnum expVal flag tok) :=
  Tame.ite (Tame.bind (Tame.printf _) fun _ => Tame.pure _) (Tame.pure _)

theorem intToken_tame (src : Source) (lnum : Int) (flag : Bool) (tok : Token D) : Tame (intToken src lnum flag tok) :=
  Tame.ite (Tame.bind (Tame.printf _) fun _ => Tame.pure _) (Tame.pure _)

/-- What `number` does after its first loop. -/
theorem numberTail_tame (src : Source) (H : Host D) (tok : Token D) (v : IntPart D) :
    Tame (do
      let w ← numberFrac H v.toFrac
      let x ← numberExp H
      if w.2 || x.2.2 then
        realToken src H (normalize H w.1.dnum w.1.firstSigDigLoc) (wrap32 (x.1 + w.1.firstSigDigLoc)) x.2.1 tok
      else intToken src v.lnum (intErrorFlag v) tok) :=
  Tame.bind (numberFrac_tame H _) fun _ => Tame.bind (numberExp_tame H) fun _ =>
    Tame.ite (realToken_tame src H _ _ _ tok) (intToken_tame src _ _ tok)

theorem number_tame (src : Source) (H : Host D) (tok : Token D) : Tame (number src H tok) :=
  Tame.bind (Tame.digitLoop H _ _) fun v => numberTail_tame src H tok v

/-! ## Scanners that make progress -/

/-- From an input that starts with `c`, the routine returns, eats at least that character, and leaves `EOFFLG`
    alone. -/
def Eats {α : Type} (m : Scan α) (c : UInt8) : Prop :=
  ∀ n t e o, t.length + 1 < n →
    ∃ a s', m.run n ⟨c :: t, e, o⟩ = some (a, s') ∧ s'.stdin <:+ t ∧ s'.EOFFLG = e

theorem identifier_eats (src : Source) (H : Host D) (tok : Token D) (c : UInt8) : Eats (identifier src H tok) c :=
  fun _ _ _ _ hn => ⟨_, _, identifier_run src H tok hn, dropWhile_suffix _, rfl⟩

theorem getstring_eats (tok : Token D) (c : UInt8) : Eats (getstring tok) c :=
  fun _ t _ _ hn => ⟨_, _, getstring_run tok hn, (tail_suffix _).trans (stringBody_suffix t), rfl⟩

theorem number_eats (src : Source) (H : Host D) (tok : Token D) {c : UInt8} (hc : isNumeric c = true) :
    Eats (number src H tok) c := by
  intro n t e o hn
  have hint := digitLoop_run H (IntPart.push H) ⟨0, H.ofInt 0, false, 0⟩ (n := n) (s := ⟨c :: t, e, o⟩)
    (by simpa using hn)
  rw [show (LexState.mk (c :: t) e o).stdin.dropWhile isNumeric = t.dropWhile isNumeric from
    dropWhile_cons_of_pos hc] at hint
  have hsuf : t.dropWhile isNumeric <:+ t := dropWhile_suffix _
  obtain ⟨a, s', hrun, hs', he'⟩ := numberTail_tame src H tok _ n ⟨t.dropWhile isNumeric, e, o⟩
    (Nat.lt_of_le_of_lt hsuf.length_le (by omega))
  exact ⟨a, s', (Scan.run_bind hint).trans hrun, hs'.trans hsuf, he'⟩

theorem special_eats (tok : Token D) (c : UInt8) : Eats (special tok) c := by
  intro n t e o _
  have h2 : t.tail <:+ t := tail_suffix t
  simp only [special, peekchar_bind, peek2char_bind]
  split
  · rename_i opVal two _
    cases two
    · exact ⟨_, ⟨t, e, o⟩, rfl, suffix_refl _, rfl⟩
    · refine ⟨createOperator opVal tok, ⟨t.tail, e, o⟩, ?_, h2, rfl⟩
      simp
  · rename_i delimVal two _
    cases two
    · exact ⟨_, ⟨t, e, o⟩, rfl, suffix_refl _, rfl⟩
    · refine ⟨createDelimiter delimVal tok, ⟨t.tail, e, o⟩, ?_, h2, rfl⟩
      simp
  · exact ⟨tok, ⟨t, e, o ++ [_]⟩, rfl, suffix_refl _, rfl⟩

theorem scanToken_eats (src : Source) (H : Host D) (c : UInt8) : Eats (scanToken src H (some c)) c := by
  unfold scanToken
  by_cases ha : CHARCLASS H (some c) = ALPHA
  · rw [if_pos ha]; exact identifier_eats src H talloc c
  · rw [if_neg ha]
    by_cases hd : CHARCLASS H (some c) = NUMERIC
    · rw [if_pos hd]; exact number_eats src H talloc ((CHARCLASS_some_numeric H c).mp hd)
    · rw [if_neg hd]
      by_cases hq : some c = some apostrophe
      · rw [if_pos hq]; exact getstring_eats talloc c
      · rw [if_neg hq]; exact special_eats talloc c

/-! ## `gettoken` -/

theorem dropBlanks_suffix (t : List UInt8) : dropBlanks t <:+ t := by
  fun_induction dropBlanks t with
  | case1 => exact suffix_refl _
  | case2 c t _ ih => exact ih.trans (suffix_cons c t)
  | case3 t _ ih =>
    exact ih.trans ((tail_suffix _).trans ((dropWhile_suffix _).trans (suffix_cons _ t)))
  | case4 c t _ _ _ ih =>
    exact ih.trans ((drop_suffix 2 _).trans
      ((starWindow_suffix _ _).trans ((tail_suffix t).trans (suffix_cons c t))))
  | case5 => exact suffix_refl _

variable {n : Nat} {s : LexState}

/-- At the end of the input `gettoken` sets `EOFFLG` and returns an empty token. -/
theorem gettoken_run_end (src : Source) (H : Host D) (hn : s.stdin.length < n) (hb : dropBlanks s.stdin = []) :
    (gettoken src H).run n s = some (talloc, { s with stdin := [], EOFFLG := 1 }) := by
  unfold gettoken
  rw [Scan.run_bind (skipblanks_run hn), hb]
  rfl

/-- Otherwise it is the scanner for the first character after the blanks. -/
theorem gettoken_run_token (src : Source) (H : Host D) (hn : s.stdin.length < n)
    {c : UInt8} {t : List UInt8} (hb : dropBlanks s.stdin = c :: t) :
    (gettoken src H).run n s = (scanToken src H (some c)).run n { s with stdin := c :: t } := by
  unfold gettoken
  rw [Scan.run_bind (skipblanks_run hn), hb]
  rfl

/-- **One call of `gettoken`.** It returns; if blanks and comments are all that is left it sets `EOFFLG` and
    uses the input up, and otherwise it leaves `EOFFLG` alone and eats a nonempty prefix. -/
theorem gettoken_step (src : Source) (H : Host D) (hn : s.stdin.length < n) :
    ∃ tok s', (gettoken src H).run n s = some (tok, s') ∧ s'.stdin <:+ s.stdin ∧
      ((dropBlanks s.stdin = [] ∧ s'.EOFFLG = 1 ∧ s'.stdin = []) ∨
       (dropBlanks s.stdin ≠ [] ∧ s'.EOFFLG = s.EOFFLG ∧ s'.stdin.length < s.stdin.length)) := by
  have hsuf := dropBlanks_suffix s.stdin
  cases hb : dropBlanks s.stdin with
  | nil =>
    exact ⟨_, _, gettoken_run_end src H hn hb, nil_suffix, .inl ⟨rfl, rfl, rfl⟩⟩
  | cons c t =>
    rw [hb] at hsuf
    have hlen : t.length + 1 ≤ s.stdin.length := by simpa using hsuf.length_le
    obtain ⟨tok, s', hrun, hs', he'⟩ := scanToken_eats src H c n t s.EOFFLG s.stdout (by omega)
    refine ⟨tok, s', (gettoken_run_token src H hn hb).trans hrun,
      hs'.trans ((suffix_cons c t).trans hsuf), .inr ⟨by simp, he', ?_⟩⟩
    have := hs'.length_le
    omega

/-! ## The driver -/

/-- `skipblanks`, called in state `s`, reaches the end of the input. -/
def ReachesEnd (n : Nat) (s : LexState) : Prop := ∃ s', skipblanks.run n s = some ((), s') ∧ s'.stdin = []

theorem reachesEnd_iff (hn : s.stdin.length < n) : ReachesEnd n s ↔ dropBlanks s.stdin = [] := by
  unfold ReachesEnd
  rw [skipblanks_run hn]
  constructor
  · rintro ⟨s', hs', he⟩
    cases hs'
    exact he
  · intro h
    exact ⟨_, rfl, h⟩

/-- Successive calls of `gettoken` from a first state to a last one: none reaches the end of the input, each
    removes a nonempty prefix of it and leaves `EOFFLG` at 0; the list holds the tokens they return. -/
inductive Calls (src : Source) (H : Host D) (n : Nat) : LexState → List (Token D) → LexState → Prop where
  | nil {s : LexState} : Calls src H n s [] s
  | cons {s s₁ s' : LexState} {tok : Token D} {toks : List (Token D)}
      (run : (gettoken src H).run n s = some (tok, s₁)) (more : ¬ ReachesEnd n s)
      (eaten : ∃ p ≠ [], s.stdin = p ++ s₁.stdin) (flag : s₁.EOFFLG = 0)
      (rest : Calls src H n s₁ toks s') : Calls src H n s (tok :: toks) s'

/-- A suffix that is shorter leaves a nonempty prefix. -/
theorem exists_prefix_of_suffix {l l' : List UInt8} (h : l' <:+ l) (hlt : l'.length < l.length) :
    ∃ p ≠ [], l = p ++ l' := by
  obtain ⟨p, rfl⟩ := h
  refine ⟨p, ?_, rfl⟩
  rintro rfl
  simp at hlt

/-- From any state with `EOFFLG` at 0, finitely many calls make progress and then one call sets the flag. -/
theorem calls_to_end (src : Source) (H : Host D) :
    ∀ (k : Nat) (s : LexState), s.stdin.length ≤ k → s.stdin.length < n → s.EOFFLG = 0 →
      ∃ toks s₁ s₂, Calls src H n s toks s₁ ∧ (gettoken src H).run n s₁ = some (talloc, s₂) ∧
        ReachesEnd n s₁ ∧ s₁.EOFFLG = 0 ∧ s₂.EOFFLG = 1 ∧ s₂.stdin = [] ∧
        toks.length + s₁.stdin.length ≤ s.stdin.length := by
  intro k
  induction k with
  | zero =>
    intro s hk hn he
    have hnil : s.stdin = [] := List.length_eq_zero_iff.mp (by omega)
    have hb : dropBlanks s.stdin = [] := by rw [hnil, dropBlanks]
    exact ⟨[], s, _, Calls.nil, gettoken_run_end src H hn hb, (reachesEnd_iff hn).mpr hb, he, rfl, rfl,
      by simp⟩
  | succ k ih =>
    intro s hk hn he
    obtain ⟨tok, s', hrun, hsuf, ⟨hb, _, _⟩ | ⟨hb, he', hlt⟩⟩ := gettoken_step src H hn
    · exact ⟨[], s, _, Calls.nil, gettoken_run_end src H hn hb, (reachesEnd_iff hn).mpr hb, he, rfl, rfl,
        by simp⟩
    · obtain ⟨toks, s₁, s₂, hcalls, hlast, hend, h0, h1, hnil, hlen⟩ :=
        ih s' (by omega) (by omega) (he'.trans he)
      refine ⟨tok :: toks, s₁, s₂, Calls.cons hrun ?_ (exists_prefix_of_suffix hsuf hlt) (he'.trans he) hcalls,
        hlast, hend, h0, h1, hnil, ?_⟩
      · rwa [reachesEnd_iff hn]
      · simp only [length_cons]; omega

/-- The loop of the driver follows the calls: one iteration each. -/
theorem testscannerLoop_calls (src : Source) (H : Host D) {s s' : LexState} {toks : List (Token D)}
    (h : Calls src H n s toks s') (h0 : s.EOFFLG = 0) (acc : List (Token D)) (k : Nat) :
    Loop.run (Scan.iter (testscannerBody src H) n) (toks.length + k) (acc, s)
      = Loop.run (Scan.iter (testscannerBody src H) n) k (acc ++ toks, s') := by
  induction h generalizing acc with
  | nil => simp
  | @cons s s₁ s' tok toks run more eaten flag rest ih =>
    have hbody : (testscannerBody src H acc).run n s = some (.inl (acc ++ [tok]), s₁) := by
      simp [testscannerBody, h0, run, flag]
    rw [length_cons, Nat.add_right_comm, Loop.run_continue _ (Scan.iter_continue hbody),
      ih flag (acc ++ [tok]), List.append_assoc, singleton_append]

/-- The driver run on an input: the calls before the last make progress, the last is the one that reaches the
    end and sets `EOFFLG`, and the driver returns the tokens of the others. -/
def DriverEnds (src : Source) (H : Host D) (n : Nat) (input : List UInt8) : Prop :=
  ∃ toks s₁ s₂, Calls src H n (initscanner input) toks s₁ ∧ ReachesEnd n s₁ ∧
    (gettoken src H).run n s₁ = some (talloc, s₂) ∧ s₂.EOFFLG = 1 ∧ s₂.stdin = [] ∧
    (testscanner src H).run n (initscanner input) = some (toks, s₂)

theorem driverEnds (src : Source) (H : Host D) (input : List UInt8) (hn : input.length + 2 ≤ n) :
    DriverEnds src H n input := by
  obtain ⟨toks, s₁, s₂, hcalls, hlast, hend, h0, h1, hnil, hlen⟩ :=
    calls_to_end src H (n := n) input.length (initscanner input) (Nat.le_refl _)
      (by show input.length < n; omega) rfl
  refine ⟨toks, s₁, s₂, hcalls, hend, hlast, h1, hnil, ?_⟩
  have hlen' : toks.length + s₁.stdin.length ≤ input.length := hlen
  -- `toks.length` iterations for the calls, one for the call that sets the flag, one to see the flag
  obtain ⟨k, hk⟩ : ∃ k, n = toks.length + (k + 2) := ⟨n - toks.length - 2, by omega⟩
  have hlastBody : (testscannerBody src H toks).run n s₁ = some (.inl toks, s₂) := by
    simp [testscannerBody, h0, hlast, h1]
  have hexit : (testscannerBody src H toks).run n s₂ = some (.inr toks, s₂) := by
    simp [testscannerBody, h1]
  have hrun := testscannerLoop_calls src H hcalls rfl [] (k + 2)
  rw [← hk, nil_append, Loop.run_continue (k + 1) (Scan.iter_continue hlastBody),
    Loop.run_exit k (Scan.iter_exit hexit)] at hrun
  exact hrun

/-- What one call of `gettoken` does in any state, whatever is left of the input: it returns, the rest is a
    suffix, and either `skipblanks` reached the end and `EOFFLG` is set, or a nonempty prefix is gone and
    `EOFFLG` is as it was. Peeking changes nothing. -/
def CallsEatPrefixes (src : Source) (H : Host D) (n : Nat) : Prop :=
  ∀ s : LexState, s.stdin.length < n →
    peekchar.run n s = some (s.stdin.head?, s) ∧ peek2char.run n s = some (s.stdin.tail.head?, s) ∧
    ∃ tok s', (gettoken src H).run n s = some (tok, s') ∧ s'.stdin <:+ s.stdin ∧
      (ReachesEnd n s → s'.EOFFLG = 1) ∧
      (¬ ReachesEnd n s → s'.EOFFLG = s.EOFFLG ∧ ∃ p ≠ [], s.stdin = p ++ s'.stdin)

theorem callsEatPrefixes (src : Source) (H : Host D) (n : Nat) : CallsEatPrefixes src H n := by
  intro s hn
  refine ⟨peekchar_run n s, peek2char_run n s, ?_⟩
  obtain ⟨tok, s', hrun, hsuf, hcase⟩ := gettoken_step src H hn
  refine ⟨tok, s', hrun, hsuf, ?_, ?_⟩
  · intro hend
    rcases hcase with ⟨_, h1, _⟩ | ⟨hb, _, _⟩
    · exact h1
    · exact absurd ((reachesEnd_iff hn).mp hend) hb
  · intro hend
    rcases hcase with ⟨hb, _, _⟩ | ⟨_, he, hlt⟩
    · exact absurd ((reachesEnd_iff hn).mpr hb) hend
    · exact ⟨he, exists_prefix_of_suffix hsuf hlt⟩

/-- **The driver ends on every input.** With fuel for the length of the input (and any more), `testscanner`
    returns; before that every call of `gettoken` but the last removes a nonempty prefix, and the last is the
    first whose `skipblanks` reaches the end of the input and the one that sets `EOFFLG`. -/
theorem testscanner_ends (H : Host D) (input : List UInt8) (extra : Nat) :
    DriverEnds .lexanc H (input.length + 2 + extra) input ∧
      CallsEatPrefixes .lexanc H (input.length + 2 + extra) :=
  ⟨driverEnds .lexanc H input (by omega), callsEatPrefixes .lexanc H _⟩

end Lexer
end Asg1
