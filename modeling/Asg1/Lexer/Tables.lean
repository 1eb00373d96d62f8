import Asg1.Lexer.Number
import Asg1.Lexer.Reads

/-!
# `Lexer.Tables` — which inputs make the lexer read outside its tables

Both kinds of tables can be left. The powers of ten are indexed by the place of a digit and by the place of the first
significant one, which nothing bounds; the character classes are looked up for the character behind a word, and for
the one behind a point, before it is known that there is one. For each the inputs on which all reads stay inside are
described exactly.
-/

namespace Asg1
namespace Lexer

open Traced Decimal Literal

variable {D : Type} {H : Host D}

/-- A read of one of the tables of powers of ten. -/
def Read.ofPowers : Read → Bool
  | .charclass _ => false
  | .dcl _ => true
  | .pdcl _ => true

/-- The reads of one kind of table stay inside. -/
def StaysInside (powers : Bool) (l : List Read) : Prop := ∀ r ∈ l, r.ofPowers = powers → r.Inside

variable {l : List Read} {s s' : LexState} {c : UInt8} {n : Nat} {t : List UInt8} {src : Source} {p : Bool} {tok tok' : Token D}

theorem staysInside_append {l l' : List Read} : StaysInside p (l ++ l') ↔ StaysInside p l ∧ StaysInside p l' := by
  simp only [StaysInside, List.mem_append]
  constructor
  · exact fun h => ⟨fun r hr => h r (.inl hr), fun r hr => h r (.inr hr)⟩
  · rintro ⟨h, h'⟩ r (hr | hr)
    · exact h r hr
    · exact h' r hr

theorem staysInside_cons {r : Read} : StaysInside p (r :: l) ↔ (r.ofPowers = p → r.Inside) ∧ StaysInside p l := by
  simp [StaysInside]

@[simp] theorem staysInside_nil (p : Bool) : StaysInside p [] := fun _ h => absurd h List.not_mem_nil

theorem inside_charclass (c : UInt8) : (Read.charclass (some c)).Inside := by
  have := c.toNat_lt
  refine ⟨?_, ?_⟩ <;> simp only [Read.index, Read.size] <;> omega

theorem not_inside_eof : ¬ (Read.charclass none).Inside := by
  rintro ⟨h, _⟩
  exact absurd h (by decide)

/-- A read for a character that is there is no concern. -/
theorem staysInside_cons_charclass :
    StaysInside p (.charclass (some c) :: l) ↔ StaysInside p l := by
  rw [staysInside_cons]
  exact ⟨fun h => h.2, fun h => ⟨fun _ => inside_charclass c, h⟩⟩

/-! ## Loops over digits -/

section Digits
variable {σ : Type} (push : σ → Int → σ) (cells : σ → List Read) (x : σ) {n : Nat}

theorem digitBodyT_nil (e : Int) (o : List String) :
    (digitBodyT H push cells x).run n ⟨[], e, o⟩ = some ((.inr x, []), ⟨[], e, o⟩) := rfl

theorem digitBodyT_digit (hc : isNumeric c = true) (t : List UInt8) (e : Int) (o : List String) :
    (digitBodyT H push cells x).run n ⟨c :: t, e, o⟩
      = some ((.inl (push x (charval c)), .charclass (some c) :: cells x), ⟨t, e, o⟩) := by
  simp [digitBodyT, hc, after]

theorem digitBodyT_other (hc : isNumeric c = false) (t : List UInt8) (e : Int) (o : List String) :
    (digitBodyT H push cells x).run n ⟨c :: t, e, o⟩ = some ((.inr x, [.charclass (some c)]), ⟨c :: t, e, o⟩) := by
  simp [digitBodyT, hc, after]

variable {y : σ}

variable {push cells x} in
/-- The reads of a loop over digits, digit by digit. -/
theorem digitLoopT_reads (Q : σ → List UInt8 → List Read → Prop) (hnil : ∀ x, Q x [] [])
    (hother : ∀ x c t, isNumeric c = false → Q x (c :: t) [.charclass (some c)])
    (hdigit : ∀ x c t l, isNumeric c = true → Q (push x (charval c)) t l →
      Q x (c :: t) (.charclass (some c) :: (cells x ++ l)))
    (h : (digitLoopT H push cells x).run n s = some ((y, l), s')) : Q x s.stdin l := by
  refine loop_reads (fun x s l => Q x s.stdin l) ?_ h
  rintro x ⟨_ | ⟨c, t⟩, e, o⟩ z l s' hbody
  · cases hbody
    exact hnil x
  · by_cases hc : isNumeric c = true
    · rw [digitBodyT_digit push cells x hc] at hbody
      cases hbody
      exact fun l' hQ => hdigit x c t l' hc hQ
    · rw [digitBodyT_other push cells x (by simpa using hc)] at hbody
      cases hbody
      exact hother x c t (by simpa using hc)

variable {push cells x} in
/-- A loop stays inside if the powers that it reads do. -/
theorem digitLoopT_inside (hcells : ∀ x, StaysInside p (cells x))
    (h : (digitLoopT H push cells x).run n s = some ((y, l), s')) : StaysInside p l := by
  refine digitLoopT_reads (fun _ _ l => StaysInside p l) ?_ ?_ ?_ h
  · exact fun _ => staysInside_nil p
  · exact fun _ _ _ _ => staysInside_cons_charclass.mpr (staysInside_nil p)
  · exact fun x _ _ _ _ hl => staysInside_cons_charclass.mpr (staysInside_append.mpr ⟨hcells x, hl⟩)

end Digits

/-! ## The fraction -/

theorem dclCounter_push (v : FracPart D) (d : Int) : (v.push H d).dclCounter = wrap32 (v.dclCounter + 1) := by
  unfold FracPart.push
  dsimp only
  split <;> dsimp only

variable {v : FracPart D}

/-- The digits behind the point use `dcl[1]`, `dcl[2]` and so on. -/
theorem fracLoop_powers {w : FracPart D} (hv : v.dclCounter = 1)
    (h : (digitLoopT H (FracPart.push H) (fun v => [.dcl v.dclCounter]) v).run n s = some ((w, l), s')) :
    StaysInside true l ↔ (s.stdin.takeWhile isNumeric).length ≤ 99 := by
  have hreads := digitLoopT_reads (fun v t l => ∀ k : Nat, k ≤ 99 → v.dclCounter = 1 + (k : Int) →
    (StaysInside true l ↔ k + (t.takeWhile isNumeric).length ≤ 99)) ?_ ?_ ?_ h 0 (by decide) hv
  · simpa using hreads
  · intro v k hk _
    exact ⟨fun _ => hk, fun _ => staysInside_nil _⟩
  · intro v c t hc k hk _
    rw [staysInside_cons_charclass]
    exact ⟨fun _ => by simpa [hc] using hk, fun _ => staysInside_nil _⟩
  · intro v c t l hc ih k hk hv
    rw [List.takeWhile_cons_of_pos hc, List.length_cons, staysInside_cons_charclass, List.singleton_append,
      staysInside_cons, hv]
    -- the hundredth digit is the first one outside
    by_cases h99 : k = 99
    · refine ⟨fun hl => ?_, fun hl => by omega⟩
      have hin := (hl.1 rfl).2
      simp only [Read.index, Read.size] at hin
      omega
    · rw [ih (k + 1) (by omega) (by
        rw [dclCounter_push, hv, wrap32_of_mem (by omega) (by omega)]
        omega)]
      have hin : (Read.dcl (1 + (k : Int))).Inside := by
        constructor <;> simp only [Read.index, Read.size] <;> omega
      constructor
      · rintro ⟨_, hl⟩
        omega
      · exact fun hl => ⟨fun _ => hin, by omega⟩

/-- The reads of `numberFrac`. Past the end of the input it looks up the class of `EOF` behind a last point. -/
theorem numberFracT_reads {w : FracPart D × Bool}
    (h : (numberFracT H v).run n s = some ((w, l), s')) (hv : v.dclCounter = 1) :
    (StaysInside false l ↔ s.stdin ≠ ['.'.toUInt8]) ∧
      (StaysInside true l ↔
        (s.stdin.head? = some '.'.toUInt8 → (s.stdin.tail.takeWhile isNumeric).length ≤ 99)) := by
  obtain ⟨stdin, e, o⟩ := s
  simp only [numberFracT, run_peekchar_bind, run_ite, run_peek2char_bind, run_charclassT_bind, run_pure] at h
  by_cases hp : stdin.head? = some '.'.toUInt8
  · obtain ⟨t, rfl⟩ := List.head?_eq_some_iff.mp hp
    obtain ⟨⟨⟨w', l'⟩, s₁⟩, hrun, heq⟩ := Option.map_eq_some_iff.mp h
    cases heq
    simp only [List.tail_cons, List.singleton_append] at hrun ⊢
    -- the rest of the reads are those of the loop, if it is entered
    have hrest : StaysInside false l' ∧ (StaysInside true l' ↔ (t.takeWhile isNumeric).length ≤ 99) := by
      by_cases hn : CHARCLASS H t.head? = NUMERIC
      · have hloop := (if_pos hn).symm.trans hrun
        rw [run_getchar_bind] at hloop
        obtain ⟨v', s₂, l₁, l₂, hloop, hpure, rfl⟩ := run_bind_eq_some hloop
        cases hpure
        rw [List.append_nil]
        refine ⟨digitLoopT_inside (fun v => ?_) hloop, fracLoop_powers hv hloop⟩
        simp [staysInside_cons, Read.ofPowers]
      · have hnone := (if_neg hn).symm.trans hrun
        cases hnone
        refine ⟨staysInside_nil _, fun _ => ?_, fun _ => staysInside_nil _⟩
        cases t with
        | nil => simp
        | cons c t =>
          have hc : isNumeric c = false := by simpa using hn
          simp [hc]
    cases t with
    | nil =>
      refine ⟨⟨fun hl => ?_, fun hne => absurd rfl hne⟩, ?_⟩
      · exact absurd ((staysInside_cons.mp hl).1 rfl) not_inside_eof
      · rw [staysInside_cons]
        exact ⟨fun hl _ => hrest.2.mp hl.2, fun hl => ⟨fun hp => absurd hp (by decide), hrest.2.mpr (hl rfl)⟩⟩
    | cons c t =>
      rw [List.head?_cons, staysInside_cons_charclass, staysInside_cons_charclass]
      exact ⟨⟨fun _ => by simp, fun _ => hrest.1⟩, fun hl _ => hrest.2.mp hl, fun hl => hrest.2.mpr (hl rfl)⟩
  · rw [if_neg hp] at h
    cases h
    refine ⟨⟨fun _ heq => hp ?_, fun _ => staysInside_nil _⟩, fun _ hhead => absurd hhead hp, fun _ => staysInside_nil _⟩
    exact congrArg List.head? heq

/-! ## `number` -/

/-- The digits in front of the point. -/
def wholeDigits (l : List UInt8) : List (Fin 10) := (l.takeWhile isNumeric).map digitOf

/-- The text behind the point, if the input starts with one. -/
def afterPoint (l : List UInt8) : List UInt8 := if l.head? = some '.'.toUInt8 then l.tail else []

/-- The digits behind the point, if one follows the digits in front. -/
def pointDigits (l : List UInt8) : List (Fin 10) := ((afterPoint (l.dropWhile isNumeric)).takeWhile isNumeric).map digitOf

theorem foldl_charval {σ : Type} (push : σ → Int → σ) (x : σ) (t : List UInt8) :
    ((t.takeWhile isNumeric).map charval).foldl push x
      = ((t.takeWhile isNumeric).map digitOf).foldl (fun y d => push y d.val) x := by
  have hmap : (t.takeWhile isNumeric).map charval = ((t.takeWhile isNumeric).map digitOf).map (fun d => (d.val : Int)) := by
    rw [List.map_map]
    refine List.map_congr_left fun c hc => ?_
    exact charval_digitOf (List.mem_takeWhile_imp hc)
  rw [hmap, List.foldl_map]

/-- What `numberFrac` leaves in its variables, on any input. -/
theorem numberFrac_fold (H : Host D) (v : FracPart D) {s : LexState} (hn : s.stdin.length < n) :
    ∃ b s', (numberFrac H v).run n s = some ((((afterPoint s.stdin).takeWhile isNumeric).map digitOf |>.foldl
      (fun v d => FracPart.push H v d.val) v, b), s') := by
  obtain ⟨stdin, e, o⟩ := s
  unfold afterPoint
  by_cases hp : stdin.head? = some '.'.toUInt8
  · obtain ⟨t, rfl⟩ := List.head?_eq_some_iff.mp hp
    rw [if_pos hp, List.tail_cons]
    have hlen : t.length < n := by simp at hn; omega
    cases t with
    | nil =>
      -- the class of `EOF` decides whether the point is eaten; there is no digit either way
      by_cases hc : CHARCLASS H none = NUMERIC
      · refine ⟨true, ⟨[], e, o⟩, ?_⟩
        refine (congrArg (fun m => Scan.run m n ⟨['.'.toUInt8], e, o⟩) (if_pos ⟨rfl, hc⟩)).trans ?_
        exact Scan.run_bind (digitLoop_run H _ v (s := ⟨[], e, o⟩) hlen)
      · refine ⟨false, ⟨['.'.toUInt8], e, o⟩, ?_⟩
        exact congrArg (fun m => Scan.run m n ⟨['.'.toUInt8], e, o⟩) (if_neg fun h => hc h.2)
    | cons c t =>
      by_cases hc : isNumeric c = true
      · refine ⟨true, ⟨(c :: t).dropWhile isNumeric, e, o⟩, (Literal.numberFrac_present H v hc).trans ?_⟩
        rw [Scan.run_bind (digitLoop_run H _ v (s := ⟨c :: t, e, o⟩) hlen), foldl_charval]
        rfl
      · have hc' : isNumeric c = false := by simpa using hc
        rw [List.takeWhile_cons_of_neg (by simp [hc'])]
        exact ⟨false, _, Literal.numberFrac_absent H v fun _ => ⟨c, t, rfl, hc'⟩⟩
  · rw [if_neg hp]
    exact ⟨false, _, Literal.numberFrac_absent H v fun h => absurd h hp⟩

/-- The normalisation stays inside the tables for places within 99 of the point. -/
theorem normalizeCells_powers (x : Int) :
    StaysInside true (normalizeCells (wrap32 x)) ↔ -99 ≤ wrap32 x ∧ wrap32 x ≤ 99 := by
  have hmem := wrap32_mem x
  generalize wrap32 x = i at hmem ⊢
  unfold normalizeCells
  split
  · simp only [StaysInside, List.mem_singleton, forall_eq, Read.ofPowers, Read.Inside, Read.index, Read.size,
      forall_const]
    omega
  · split
    · simp only [StaysInside, List.mem_singleton, forall_eq, Read.ofPowers, Read.Inside, Read.index, Read.size,
        forall_const]
      by_cases hmin : i = -2147483648
      · subst hmin
        decide
      · rw [wrap32_of_mem (by omega) (by omega)]
        omega
    · exact ⟨fun _ => by omega, fun _ => staysInside_nil _⟩

theorem normalizeCells_charclass (i : Int) : StaysInside false (normalizeCells i) := by
  unfold normalizeCells
  intro r hr hp
  split at hr
  · rw [List.mem_singleton.mp hr] at hp
    cases hp
  · split at hr
    · rw [List.mem_singleton.mp hr] at hp
      cases hp
    · cases hr

/-- The net exponent has been checked when it is used. -/
theorem exponentCells_inside (i : Int) (flag p : Bool) : StaysInside p (exponentCells i flag) := by
  unfold exponentCells
  intro r hr hp
  split at hr
  · cases hr
  · split at hr
    · rw [List.mem_singleton.mp hr]
      constructor <;> simp only [Read.index, Read.size] <;> omega
    · cases hr

theorem numberExpT_inside {x : Int × Bool × Bool}
    (h : (numberExpT H).run n s = some ((x, l), s')) (p : Bool) : StaysInside p l := by
  simp only [numberExpT, run_peekchar_bind, run_ite, run_getchar_bind, run_pure] at h
  split at h
  · obtain ⟨c, s₁, l₁, l₂, hlift, hrest, rfl⟩ := run_bind_eq_some h
    obtain ⟨v, s₂, l₃, l₄, hloop, hpure, rfl⟩ := run_bind_eq_some hrest
    cases hpure
    rw [(run_lift_eq_some hlift).2, List.nil_append, List.append_nil]
    exact digitLoopT_inside (fun _ => staysInside_nil p) hloop
  · cases h
    exact staysInside_nil p

/-- The reads after the exponent. -/
theorem numberEnd_inside {dnum : D} {lnum expVal : Int} {real flag err : Bool} (h : (if real = true then do
          note (exponentCells expVal flag)
          lift (realToken src H dnum expVal flag tok)
        else lift (intToken src lnum err tok)).run n s = some ((tok', l), s')) (p : Bool) : StaysInside p l := by
  split at h
  · obtain ⟨_, _, l₁, l₂, hnote, hlift, rfl⟩ := run_bind_eq_some h
    cases hnote
    rw [(run_lift_eq_some hlift).2, List.append_nil]
    exact exponentCells_inside expVal flag p
  · rw [(run_lift_eq_some h).2]
    exact staysInside_nil p

/-- The place of the first significant digit in the input. -/
def inputExponent (l : List UInt8) : Int := leadExponent (wholeDigits l) (pointDigits l)

/-- The reads of `number` on any input. -/
theorem numberT_reads
    (h : (numberT src H tok).run n s = some ((tok', l), s')) (hn : s.stdin.length < n) :
    (StaysInside false l ↔ s.stdin.dropWhile isNumeric ≠ ['.'.toUInt8]) ∧
      (StaysInside true l ↔ (pointDigits s.stdin).length ≤ 99 ∧
        -99 ≤ wrap32 (inputExponent s.stdin) ∧ wrap32 (inputExponent s.stdin) ≤ 99) := by
  obtain ⟨v, s₁, l₁, l₂, hint, hrest, rfl⟩ := run_bind_eq_some h
  obtain ⟨w, s₂, l₃, l₄, hfrac, hrest', rfl⟩ := run_bind_eq_some hrest
  obtain ⟨_, _, l₅, l₆, hnote, hrest'', rfl⟩ := run_bind_eq_some hrest'
  cases hnote
  obtain ⟨x, s₄, l₇, l₈, hexp, hend, rfl⟩ := run_bind_eq_some hrest''
  -- the variables and the input after the first two loops
  have hv := (digitLoop_run H (IntPart.push H) ⟨0, H.ofInt 0, false, 0⟩ hn).symm.trans
    (run_erase (erase_digitLoopT ..) hint)
  rw [foldl_charval] at hv
  cases hv
  have hcounts := intCounts_foldl (H := H) (wholeDigits s.stdin)
  have hlen : (s.stdin.dropWhile isNumeric).length < n :=
    Nat.lt_of_le_of_lt (List.dropWhile_suffix _).length_le hn
  obtain ⟨b, s₅, hw⟩ := numberFrac_fold H (IntPart.toFrac _) (s := { s with stdin := s.stdin.dropWhile isNumeric }) hlen
  have hloc : w.1.firstSigDigLoc = wrap32 (inputExponent s.stdin) := by
    have hw' := hw.symm.trans (run_erase (erase_numberFracT H _) hfrac)
    rw [← (Prod.mk.inj (Option.some.inj hw')).1]
    exact (hcounts.toFrac.foldl (pointDigits s.stdin)).place
  obtain ⟨hclass, hpowers⟩ := numberFracT_reads hfrac rfl
  have hpoint : ((s.stdin.dropWhile isNumeric).head? = some '.'.toUInt8 →
      ((s.stdin.dropWhile isNumeric).tail.takeWhile isNumeric).length ≤ 99) ↔ (pointDigits s.stdin).length ≤ 99 := by
    unfold pointDigits afterPoint
    split
    · rename_i hp
      simp [hp]
    · rename_i hp
      simp [hp]
  rw [hloc] at hrest' ⊢
  simp only [staysInside_append, hclass, hpowers, hpoint, normalizeCells_powers, normalizeCells_charclass,
    digitLoopT_inside (fun _ => staysInside_nil _) hint, numberExpT_inside hexp, numberEnd_inside hend, true_and, and_true]

/-- **Reads of the powers of ten.** On an input, `number` stays inside `dcl` and `pdcl` if and only if at most 99 digits
    follow the point and the first significant digit stands within 99 places of it, as the counter has it. -/
theorem number_powers_inside_iff (H : Host D) (tok : Token D) (l : List UInt8) (e : Int) (o : List String) :
    (∀ n, l.length < n → ∃ tok' reads s', (numberT .lexanc H tok).run n ⟨l, e, o⟩ = some ((tok', reads), s') ∧
      StaysInside true reads) ↔
    (pointDigits l).length ≤ 99 ∧ -99 ≤ wrap32 (inputExponent l) ∧ wrap32 (inputExponent l) ≤ 99 := by
  constructor
  · intro h
    obtain ⟨tok', reads, s', hrun, hinside⟩ := h (l.length + 1) (Nat.lt_succ_self _)
    exact (numberT_reads hrun (Nat.lt_succ_self _)).2.mp hinside
  · intro h n hn
    obtain ⟨tok', s', hrun, _⟩ := number_tame .lexanc H tok n ⟨l, e, o⟩ hn
    obtain ⟨reads, hrun⟩ := exists_reads (erase_numberT .lexanc H tok) hrun
    exact ⟨tok', reads, s', hrun, (numberT_reads hrun hn).2.mpr h⟩

/-- An integer of 101 digits reads `dcl[100]`. -/
theorem long_integer_reads_outside :
    ∃ tok reads s', (numberT .lexanc integerHost talloc).run 103 (initscanner (List.replicate 101 '1'.toUInt8))
      = some ((tok, reads), s') ∧ Read.dcl 100 ∈ reads ∧ ¬ (Read.dcl 100).Inside := by
  have hany : ((numberT .lexanc integerHost talloc).run 103 (initscanner (List.replicate 101 '1'.toUInt8))).any
      (fun x => decide (Read.dcl 100 ∈ x.1.2)) = true := by decide +kernel
  obtain ⟨⟨⟨tok, reads⟩, s'⟩, hrun, hmem⟩ := (Option.any_eq_true _ _).mp hany
  exact ⟨tok, reads, s', hrun, of_decide_eq_true hmem, by unfold Read.Inside; decide⟩

/-! ## Words -/

section Words
variable {n : Nat} {e : Int} {o : List String}

/-- The test for a character of a word reads the class of that character, once or twice. -/
theorem wordCharT_run (H : Host D) (c : UInt8) (s : LexState) :
    ∃ l, (wordCharT H (some c)).run n s = some ((isAlnum c, l), s) ∧ ∀ p, StaysInside p l := by
  by_cases hc : isAlpha c = true
  · refine ⟨[.charclass (some c)], by simp [wordCharT, hc, after, isAlnum], fun p => ?_⟩
    exact staysInside_cons_charclass.mpr (staysInside_nil p)
  · refine ⟨[.charclass (some c), .charclass (some c)], ?_, fun p => ?_⟩
    · have hnum : (CHARCLASS H (some c) == NUMERIC) = isNumeric c := by
        rw [Bool.eq_iff_iff]
        simp
      simp [wordCharT, hc, after, isAlnum, hnum]
    · exact staysInside_cons_charclass.mpr (staysInside_cons_charclass.mpr (staysInside_nil p))

/-- At the end of the input a round of the first loop looks up the class of `EOF`. -/
theorem identifierBodyT_end (H : Host D) (st : List UInt8 × Bool) (ch : UInt8) :
    (identifierBodyT H st).run n ⟨[ch], e, o⟩
      = some ((.inr (st.1 ++ [ch], st.2 || CHARCLASS H none == NUMERIC, none), [.charclass none]), ⟨[], e, o⟩) := rfl

/-- Otherwise it looks up that of the next character. -/
theorem identifierBodyT_next (H : Host D) (st : List UInt8 × Bool) (ch d : UInt8) (t : List UInt8) :
    ∃ l fl, (∀ p, StaysInside p l) ∧ (identifierBodyT H st).run n ⟨ch :: d :: t, e, o⟩ =
      if st.1.length + 1 < 15 ∧ isAlnum d = true then some ((.inl (st.1 ++ [ch], fl), l), ⟨d :: t, e, o⟩)
      else some ((.inr (st.1 ++ [ch], fl, some d), l), ⟨d :: t, e, o⟩) := by
  obtain ⟨l, hword, hl⟩ := wordCharT_run (n := n) H d ⟨d :: t, e, o⟩
  by_cases hlen : st.1.length + 1 < 15
  · refine ⟨.charclass (some d) :: l, st.2 || CHARCLASS H (some d) == NUMERIC,
      fun p => staysInside_cons_charclass.mpr (hl p), ?_⟩
    have hlen' : (st.1 ++ [ch]).length < 15 := by simpa using hlen
    simp only [identifierBodyT, run_getchar_bind, run_peekchar_bind, run_charclassT_bind]
    refine (congrArg (fun m => Option.map _ (Traced.run m n ⟨d :: t, e, o⟩)) (if_pos ⟨by simp, hlen'⟩)).trans ?_
    refine (congrArg (Option.map _) (run_bind hword _)).trans ?_
    by_cases hd : isAlnum d = true
    · simp [hd, hlen, after]
    · simp [hd, after]
  · refine ⟨[.charclass (some d)], st.2 || CHARCLASS H (some d) == NUMERIC,
      fun p => staysInside_cons_charclass.mpr (staysInside_nil p), ?_⟩
    simp [identifierBodyT, after, hlen]

variable {ch : UInt8} {s' : LexState}

/-- The first loop of `identifier` looks past the end of the input if the word reaches it within 15 characters. -/
theorem identifierLoop_reads {st : List UInt8 × Bool} {r : List UInt8 × Bool × Option UInt8} (hst : st.1.length < 15)
    (h : (loop (identifierBodyT H) st).run n ⟨ch :: t, e, o⟩ = some ((r, l), s')) :
    StaysInside false l ↔ ¬ ((∀ c ∈ t, isAlnum c = true) ∧ st.1.length + 1 + t.length ≤ 15) := by
  refine loop_reads (fun st s l => ∀ ch t, s.stdin = ch :: t → st.1.length < 15 →
    (StaysInside false l ↔ ¬ ((∀ c ∈ t, isAlnum c = true) ∧ st.1.length + 1 + t.length ≤ 15))) ?_ h ch t rfl hst
  rintro st ⟨_ | ⟨ch, _ | ⟨d, t⟩⟩, e, o⟩ z l s' hbody
  · cases z
    · intro l' hQ ch t hnil
      cases hnil
    · intro ch t hnil
      cases hnil
  · cases hbody
    rintro _ _ ⟨⟩ hst
    refine ⟨fun hl => absurd ((staysInside_cons.mp hl).1 rfl) not_inside_eof, fun hno => ?_⟩
    exact absurd ⟨fun c hc => absurd hc List.not_mem_nil, by simpa using hst⟩ hno
  · obtain ⟨lw, fl, hlw, hrun⟩ := identifierBodyT_next (n := n) (e := e) (o := o) H st ch d t
    rw [hrun] at hbody
    split at hbody <;> rename_i hmore <;> cases hbody
    · rintro l' hQ _ _ ⟨⟩ hst
      have hQ := hQ d t rfl (by simpa using hmore.1)
      have hlen : (st.1 ++ [ch]).length + 1 + t.length = st.1.length + 1 + (d :: t).length := by
        simp only [List.length_append, List.length_cons, List.length_nil]
        omega
      rw [staysInside_append, hQ, hlen]
      simp only [hlw, true_and, List.mem_cons, forall_eq_or_imp, hmore.2]
    · rintro _ _ ⟨⟩ hst
      refine ⟨fun _ hall => hmore ⟨?_, hall.1 d List.mem_cons_self⟩, fun _ => hlw false⟩
      have := hall.2
      simp only [List.length_cons] at this
      omega

theorem identifierRestBodyT_next (H : Host D) (d : UInt8) (t : List UInt8) :
    ∃ l, (∀ p, StaysInside p l) ∧ (identifierRestBodyT H (some d)).run n ⟨d :: t, e, o⟩ =
      if isAlnum d = true then some ((.inl t.head?, l), ⟨t, e, o⟩) else some ((.inr (), l), ⟨d :: t, e, o⟩) := by
  obtain ⟨l, hword, hl⟩ := wordCharT_run (n := n) H d ⟨d :: t, e, o⟩
  refine ⟨l, hl, ?_⟩
  simp only [identifierRestBodyT]
  refine (congrArg (fun m => Traced.run m n ⟨d :: t, e, o⟩) (if_pos (by simp))).trans ?_
  refine (run_bind hword _).trans ?_
  by_cases hd : isAlnum d = true
  · simp [hd, after]
  · simp [hd, after]

/-- The second loop tests for `EOF` first. -/
theorem identifierRest_inside {c : Option UInt8} {u : Unit} (hc : c = s.stdin.head?)
    (h : (loop (identifierRestBodyT H) c).run n s = some ((u, l), s')) (p : Bool) : StaysInside p l := by
  refine loop_reads (fun c s l => c = s.stdin.head? → StaysInside p l) ?_ h hc
  intro c s z l s' hbody
  by_cases hc : c = s.stdin.head?
  case neg => cases z <;> simp [hc]
  subst hc
  obtain ⟨_ | ⟨d, t⟩, e, o⟩ := s
  · cases hbody
    exact fun _ => staysInside_nil p
  · obtain ⟨lw, hlw, hrun⟩ := identifierRestBodyT_next (n := n) (e := e) (o := o) H d t
    have hbody := hrun.symm.trans hbody
    split at hbody
    · cases hbody
      exact fun l' hQ _ => staysInside_append.mpr ⟨hlw p, hQ rfl⟩
    · cases hbody
      exact fun _ => hlw p

/-- The reads of `identifier`. -/
theorem identifierT_reads
    (hn : t.length + 1 < n) (h : (identifierT src H tok).run n ⟨ch :: t, e, o⟩ = some ((tok', l), s')) :
    StaysInside false l ↔ ¬ ((∀ c ∈ t, isAlnum c = true) ∧ 1 + t.length ≤ 15) := by
  obtain ⟨w, s₁, l₁, l₂, hword, hrest, rfl⟩ := run_bind_eq_some h
  obtain ⟨u, s₂, l₃, l₄, hmore, hpure, rfl⟩ := run_bind_eq_some hrest
  cases hpure
  have hstop : w.2.2 = s₁.stdin.head? := by
    have herase : erase (loop (identifierBodyT H) ([], false)) = identifierWord H := by
      simp only [erase_loop, erase_identifierBodyT, identifierWord]
    have hrun := (identifierWord_run H (s := ⟨ch :: t, e, o⟩) (by simpa using hn)).symm.trans (run_erase herase hword)
    cases hrun
    rfl
  rw [staysInside_append, List.append_nil, identifierLoop_reads (by simp) hword]
  simp only [identifierRest_inside hstop hmore false, and_true, List.length_nil, Nat.zero_add]

end Words

/-! ## `gettoken` -/

/-- A word of at most 15 characters that ends with the input. -/
def WordAtEnd (l : List UInt8) : Prop :=
  ∃ c t, l = c :: t ∧ isAlpha c = true ∧ (∀ d ∈ t, isAlnum d = true) ∧ 1 + t.length ≤ 15

/-- Digits and a point that ends with the input. -/
def PointAtEnd (l : List UInt8) : Prop :=
  ∃ ds, ds ≠ [] ∧ (∀ d ∈ ds, isNumeric d = true) ∧ l = ds ++ ['.'.toUInt8]

theorem wordAtEnd_cons : WordAtEnd (c :: t) ↔
    isAlpha c = true ∧ (∀ d ∈ t, isAlnum d = true) ∧ 1 + t.length ≤ 15 := by
  constructor
  · rintro ⟨_, _, heq, h⟩
    cases heq
    exact h
  · exact fun h => ⟨c, t, rfl, h⟩

theorem PointAtEnd.numeric (h : PointAtEnd (c :: t)) : isNumeric c = true := by
  obtain ⟨ds, hne, hall, heq⟩ := h
  cases ds with
  | nil => exact absurd rfl hne
  | cons d ds =>
    cases heq
    exact hall c List.mem_cons_self

theorem pointAtEnd_iff (hc : isNumeric c = true) :
    PointAtEnd (c :: t) ↔ (c :: t).dropWhile isNumeric = ['.'.toUInt8] := by
  constructor
  · rintro ⟨ds, _, hall, heq⟩
    rw [heq, List.dropWhile_append_of_pos hall]
    rfl
  · intro h
    refine ⟨(c :: t).takeWhile isNumeric, by simp [hc], fun d hd => List.mem_takeWhile_imp hd, ?_⟩
    rw [← h, List.takeWhile_append_dropWhile]

/-- The reads of the character classes in a call of `gettoken`. -/
theorem gettokenT_reads {tok : Token D}
    (hn : s.stdin.length < n) (h : (gettokenT src H).run n s = some ((tok, l), s')) :
    StaysInside false l ↔ ¬ WordAtEnd (dropBlanks s.stdin) ∧ ¬ PointAtEnd (dropBlanks s.stdin) := by
  have hlen := (dropBlanks_suffix s.stdin).length_le
  simp only [gettokenT, run_lift_bind (skipblanks_run hn), run_peekchar_bind] at h
  cases hb : dropBlanks s.stdin with
  | nil =>
    rw [hb] at h
    cases h
    refine ⟨fun _ => ⟨?_, ?_⟩, fun _ => staysInside_nil _⟩
    · rintro ⟨c, t, heq, _⟩
      cases heq
    · rintro ⟨ds, hne, _, heq⟩
      simp at heq
  | cons c t =>
    rw [hb] at hlen
    rw [hb, List.head?_cons] at h
    have hn' : t.length + 1 < n := by simp only [List.length_cons] at hlen; omega
    -- the first character is there, so its class is looked up inside the table
    rw [run_ite, if_pos (by simp), run_charclassT_bind] at h
    obtain ⟨⟨⟨tok', l'⟩, s₁⟩, hscan, heq⟩ := Option.map_eq_some_iff.mp h
    cases heq
    rw [List.singleton_append, staysInside_cons_charclass, wordAtEnd_cons]
    by_cases ha : CHARCLASS H (some c) = ALPHA
    · rw [run_ite, if_pos ha] at hscan
      have hc := (CHARCLASS_some_alpha H c).mp ha
      rw [identifierT_reads hn' hscan]
      refine ⟨fun h => ⟨fun hw => h hw.2, fun hp => ?_⟩, fun h hw => h.1 ⟨hc, hw⟩⟩
      exact absurd hp.numeric (by simp [not_numeric_of_alpha hc])
    · have hc : ¬ isAlpha c = true := fun h => ha ((CHARCLASS_some_alpha H c).mpr h)
      rw [run_ite, if_neg ha, run_ite] at hscan
      by_cases hd : CHARCLASS H (some c) = NUMERIC
      · rw [if_pos hd] at hscan
        rw [(numberT_reads hscan (by simpa using hn')).1, pointAtEnd_iff ((CHARCLASS_some_numeric H c).mp hd)]
        exact ⟨fun h => ⟨fun hw => hc hw.1, h⟩, fun h => h.2⟩
      · -- strings and special characters look at no class
        rw [if_neg hd, run_ite] at hscan
        have hnil : l' = [] := by
          split at hscan
          · exact (run_lift_eq_some hscan).2
          · exact (run_lift_eq_some hscan).2
        rw [hnil]
        refine ⟨fun _ => ⟨fun hw => hc hw.1, fun hp => ?_⟩, fun _ => staysInside_nil _⟩
        exact hd ((CHARCLASS_some_numeric H c).mpr hp.numeric)

/-- **Reads of the character classes.** A call of `gettoken` never uses `EOF` as an index if and only if what is left
    behind the blanks is neither a word of at most 15 characters nor digits with a point, with nothing behind it. -/
theorem gettoken_charclass_inside_iff (H : Host D) (l : List UInt8) (e : Int) (o : List String) :
    (∀ n, l.length < n → ∃ tok reads s', (gettokenT .lexanc H).run n ⟨l, e, o⟩ = some ((tok, reads), s') ∧
      StaysInside false reads) ↔ ¬ WordAtEnd (dropBlanks l) ∧ ¬ PointAtEnd (dropBlanks l) := by
  constructor
  · intro h
    obtain ⟨tok, reads, s', hrun, hinside⟩ := h (l.length + 1) (Nat.lt_succ_self _)
    exact (gettokenT_reads (Nat.lt_succ_self _) hrun).mp hinside
  · intro h n hn
    obtain ⟨tok, s', hrun, _⟩ := gettoken_step .lexanc H (s := ⟨l, e, o⟩) hn
    obtain ⟨reads, hrun⟩ := exists_reads (erase_gettokenT .lexanc H) hrun
    exact ⟨tok, reads, s', hrun, (gettokenT_reads hn hrun).mpr h⟩

/-- A file that ends with a letter: the class of `EOF` is looked up. -/
theorem word_at_end_reads_outside :
    ∃ tok s', (gettokenT .lexanc plainHost).run 5 (initscanner (bytes "x"))
      = some ((tok, [.charclass (some 'x'.toUInt8), .charclass none]), s') ∧ ¬ (Read.charclass none).Inside := by
  refine ⟨_, _, rfl, ?_⟩
  unfold Read.Inside
  decide

end Lexer
end Asg1
