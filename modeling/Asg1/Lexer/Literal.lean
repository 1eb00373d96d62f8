import Asg1.Lib.Decimal
import Asg1.Lexer.Closed

/-!
# `Lexer.Literal` — number literals, and `number` on each of them

A literal is digits, possibly a point with more digits, and possibly an exponent. `number_run` says what `number`
does on a literal that the text behind it does not continue: it eats the literal and no more, and the token is
computed from the variables that its three loops leave. Those are folds over the digits, so what a later module
proves about `number` is about folds and never about the input.
-/

namespace Asg1
namespace Lexer

open Decimal List

variable {D : Type}

/-! ## Literals -/

/-- The character of a digit. -/
def digitByte (d : Fin 10) : UInt8 := UInt8.ofNat (48 + d.val)

@[simp] theorem isNumeric_digitByte (d : Fin 10) : isNumeric (digitByte d) = true := by
  revert d; decide

@[simp] theorem charval_digitByte (d : Fin 10) : charval (digitByte d) = d.val := by
  revert d; decide

/-- The characters of a string of digits. -/
def digitBytes (ds : List (Fin 10)) : List UInt8 := ds.map digitByte

@[simp] theorem length_digitBytes (ds : List (Fin 10)) : (digitBytes ds).length = ds.length := length_map _

/-- A byte as a digit. -/
def digitOf (c : UInt8) : Fin 10 := ⟨(c.toNat - 48) % 10, Nat.mod_lt _ (by decide)⟩

variable {c : UInt8}

theorem charval_digitOf (hc : isNumeric c = true) : charval c = (digitOf c).val := by
  have hc' : 48 ≤ c.toNat ∧ c.toNat ≤ 57 := by simpa [isNumeric] using hc
  simp only [charval, digitOf]
  omega

/-- How the sign of an exponent is written. -/
inductive ExpSign where
  | absent
  | plus
  | minus
deriving DecidableEq, Repr

def ExpSign.text : ExpSign → List UInt8
  | .absent => []
  | .plus => ['+'.toUInt8]
  | .minus => ['-'.toUInt8]

/-- An exponent: the letter, the sign and any number of digits. -/
structure Exponent where
  capital : Bool
  sign : ExpSign
  digits : List (Fin 10)
deriving DecidableEq, Repr

/-- The letter of an exponent. -/
def Exponent.mark (x : Exponent) : UInt8 := if x.capital then 'E'.toUInt8 else 'e'.toUInt8

def Exponent.text (x : Exponent) : List UInt8 := x.mark :: (x.sign.text ++ digitBytes x.digits)

/-- The written exponent. -/
def Exponent.value (x : Exponent) : Int :=
  if x.sign = .minus then -(Decimal.value x.digits : Int) else Decimal.value x.digits

/-- A number literal. -/
structure Literal where
  whole : List (Fin 10)
  frac : Option (List (Fin 10))
  exponent : Option Exponent
  whole_ne : whole ≠ []
  frac_ne : frac ≠ some []

namespace Literal

/-- The digits after the point. -/
def fracDigits (L : Literal) : List (Fin 10) := L.frac.getD []

/-- All digits of the mantissa. -/
def mantissa (L : Literal) : List (Fin 10) := L.whole ++ L.fracDigits

/-- The digits of the exponent. -/
def expDigits (L : Literal) : List (Fin 10) := (L.exponent.map Exponent.digits).getD []

/-- The exponent has a minus sign. -/
def expMinus (L : Literal) : Bool := L.exponent.any (fun x => decide (x.sign = .minus))

/-- The written exponent, 0 if there is none. -/
def expValue (L : Literal) : Int := (L.exponent.map Exponent.value).getD 0

/-- A point or an exponent makes the number a real one. -/
def real (L : Literal) : Bool := L.frac.isSome || L.exponent.isSome

def fracText (L : Literal) : List UInt8 := (L.frac.map fun ds => '.'.toUInt8 :: digitBytes ds).getD []

def expText (L : Literal) : List UInt8 := (L.exponent.map Exponent.text).getD []

def text (L : Literal) : List UInt8 := digitBytes L.whole ++ (L.fracText ++ L.expText)

/-- `L.Before r`: the text `r` behind the literal does not continue it. -/
structure Before (L : Literal) (r : List UInt8) : Prop where
  digit : ∀ c, r.head? = some c → isNumeric c = false
  mark : L.exponent = none → r.head? ≠ some 'e'.toUInt8 ∧ r.head? ≠ some 'E'.toUInt8
  /-- A point behind an integer must be followed by a character, which is no digit. -/
  point : L.frac = none → L.exponent = none → r.head? = some '.'.toUInt8 →
    ∃ c t, r.tail = c :: t ∧ isNumeric c = false
  sign : ∀ x, L.exponent = some x → x.sign = .absent → x.digits = [] →
    r.head? ≠ some '+'.toUInt8 ∧ r.head? ≠ some '-'.toUInt8

theorem expValue_eq (L : Literal) :
    L.expValue = if L.expMinus then -(value L.expDigits : Int) else value L.expDigits := by
  unfold expValue expMinus expDigits
  cases L.exponent with
  | none => rfl
  | some x => simp [Exponent.value]

end Literal

/-! ## The loops on digits -/

/-- No digit comes next. -/
def NoDigit (r : List UInt8) : Prop := ∀ c, r.head? = some c → isNumeric c = false

theorem NoDigit.cons (t : List UInt8) (h : isNumeric c = false) : NoDigit (c :: t) := by
  intro c' hc'
  cases hc'
  exact h

/-- A loop over digits folds over the digits in front of it. -/
theorem digitLoop_digits {σ : Type} (H : Host D) (push : σ → Int → σ) (x : σ) (ds : List (Fin 10)) {n : Nat}
    {r : List UInt8} {e : Int} {o : List String} (hr : NoDigit r) (hn : ds.length + r.length < n) :
    (digitLoop H push x).run n ⟨digitBytes ds ++ r, e, o⟩
      = some (ds.foldl (fun y d => push y d.val) x, ⟨r, e, o⟩) := by
  have hall : ∀ c ∈ digitBytes ds, isNumeric c = true := by
    intro c hc
    obtain ⟨d, _, rfl⟩ := List.mem_map.mp hc
    exact isNumeric_digitByte d
  have hstop : r.takeWhile isNumeric = [] ∧ r.dropWhile isNumeric = r := by
    cases r with
    | nil => exact ⟨rfl, rfl⟩
    | cons c t => simp [hr c rfl]
  have hrun := digitLoop_run H push x (n := n) (s := ⟨digitBytes ds ++ r, e, o⟩) (by simpa using hn)
  simp only [takeWhile_append_of_pos hall, dropWhile_append_of_pos hall, hstop, append_nil] at hrun
  rw [hrun, digitBytes, List.map_map, foldl_map]
  simp only [Function.comp, charval_digitByte]

namespace Literal

/-- The variables after the digits in front of the point. -/
def intPart (H : Host D) (L : Literal) : IntPart D :=
  L.whole.foldl (fun v d => IntPart.push H v d.val) ⟨0, H.ofInt 0, false, 0⟩

/-- The variables after the digits behind the point. -/
def fracPart (H : Host D) (L : Literal) : FracPart D :=
  L.fracDigits.foldl (fun v d => FracPart.push H v d.val) (L.intPart H).toFrac

/-- The variables after the digits of the exponent. -/
def expPart (L : Literal) : ExpPart := L.expDigits.foldl (fun v d => v.push d.val) ⟨0, false⟩

/-- What `numberExp` computes. -/
def expVal (L : Literal) : Int := if L.expMinus then wrap32 (-L.expPart.expVal) else L.expPart.expVal

variable {L : Literal} {r : List UInt8} {n : Nat} {e : Int} {o : List String} (H : Host D)

theorem noDigit_expText (h : L.Before r) : NoDigit (L.expText ++ r) := by
  unfold expText
  cases hx : L.exponent with
  | none => exact h.digit
  | some x =>
    refine NoDigit.cons _ ?_
    unfold Exponent.mark
    split <;> rfl

theorem noDigit_fracText (h : L.Before r) : NoDigit (L.fracText ++ (L.expText ++ r)) := by
  unfold fracText
  cases L.frac with
  | none => exact noDigit_expText h
  | some ds => exact NoDigit.cons _ rfl

theorem numberInt_literal (h : L.Before r) (hn : (L.text ++ r).length < n) :
    (numberInt H).run n ⟨L.text ++ r, e, o⟩ = some (L.intPart H, ⟨L.fracText ++ (L.expText ++ r), e, o⟩) := by
  have htext : L.text ++ r = digitBytes L.whole ++ (L.fracText ++ (L.expText ++ r)) := by
    simp only [text, List.append_assoc]
  rw [htext] at hn ⊢
  exact digitLoop_digits H _ _ _ (noDigit_fracText h) (by simpa using hn)

variable {s : LexState} {t : List UInt8}

/-- Without a point, or with one that no digit follows, `numberFrac` does nothing. -/
theorem numberFrac_absent (v : FracPart D)
    (h : s.stdin.head? = some '.'.toUInt8 → ∃ c t, s.stdin.tail = c :: t ∧ isNumeric c = false) :
    (numberFrac H v).run n s = some ((v, false), s) := by
  simp only [numberFrac, peekchar_bind, peek2charIf_bind]
  by_cases hp : s.stdin.head? = some '.'.toUInt8
  · obtain ⟨c, t, ht, hc⟩ := h hp
    simp [hp, ht, hc]
  · simp [hp]

/-- With a point and a digit behind it, `numberFrac` eats the point and the digits. -/
theorem numberFrac_present (v : FracPart D) (hc : isNumeric c = true) :
    (numberFrac H v).run n ⟨'.'.toUInt8 :: c :: t, e, o⟩
      = (digitLoop H (FracPart.push H) v >>= fun v => pure (v, true)).run n ⟨c :: t, e, o⟩ := by
  have hnum : CHARCLASS H (some c) = NUMERIC := (CHARCLASS_some_numeric H c).mpr hc
  exact congrArg (fun m => Scan.run m n ⟨'.'.toUInt8 :: c :: t, e, o⟩) (if_pos ⟨rfl, hnum⟩)

theorem numberFrac_literal (h : L.Before r) (v : FracPart D) (hn : (L.fracText ++ (L.expText ++ r)).length < n) :
    (numberFrac H v).run n ⟨L.fracText ++ (L.expText ++ r), e, o⟩
      = some ((L.fracDigits.foldl (fun v d => FracPart.push H v d.val) v, L.frac.isSome), ⟨L.expText ++ r, e, o⟩) := by
  unfold fracText fracDigits at *
  cases hf : L.frac with
  | none =>
    refine numberFrac_absent H v fun hp => ?_
    -- the point is not the letter of an exponent, so it stands behind the literal
    cases hx : L.exponent with
    | none =>
      simp only [expText, hx, Option.map_none, Option.getD_none, nil_append] at hp ⊢
      exact h.point hf hx hp
    | some x =>
      simp only [expText, hx, Option.map_some, Option.getD_some, Exponent.text, Exponent.mark,
        Option.map_none, Option.getD_none, nil_append, List.cons_append, head?_cons,
        Option.some.injEq] at hp
      cases hc : x.capital
      · simp only [hc, Bool.false_eq_true, if_false] at hp
        exact absurd hp (by decide)
      · simp only [hc, if_true] at hp
        exact absurd hp (by decide)
  | some ds =>
    rw [hf] at hn
    obtain ⟨d, ds, rfl⟩ : ∃ d ds', ds = d :: ds' := exists_cons_of_ne_nil fun hnil => L.frac_ne (hnil ▸ hf)
    have hloop := digitLoop_digits H (FracPart.push H) v (d :: ds) (n := n) (e := e) (o := o)
      (noDigit_expText h) (by simp at hn ⊢; omega)
    exact (numberFrac_present H v (isNumeric_digitByte d)).trans (Scan.run_bind hloop)

/-- Without the letter, `numberExp` does nothing. -/
theorem numberExp_absent (h : s.stdin.head? ≠ some 'e'.toUInt8 ∧ s.stdin.head? ≠ some 'E'.toUInt8) :
    (numberExp H).run n s = some ((0, false, false), s) := by
  simp only [numberExp, peekchar_bind]
  exact congrArg (fun m => Scan.run m n s) (if_neg (not_or.mpr h))

/-- With the letter it eats it, and the sign behind it. -/
theorem numberExp_present (hc : c = 'e'.toUInt8 ∨ c = 'E'.toUInt8) :
    (numberExp H).run n ⟨c :: t, e, o⟩
      = (getcharIf (t.head? == some '+'.toUInt8 || t.head? == some '-'.toUInt8) >>= fun _ =>
          digitLoop H ExpPart.push ⟨0, false⟩ >>= fun v =>
          pure (if t.head? = some '-'.toUInt8 then wrap32 (-v.expVal) else v.expVal, decide (v.expVal < 0), true)).run n
        ⟨t, e, o⟩ := by
  have hcond : some c = some 'e'.toUInt8 ∨ some c = some 'E'.toUInt8 := by simpa using hc
  refine (congrArg (fun m => Scan.run m n ⟨c :: t, e, o⟩) (if_pos hcond)).trans ?_
  simp only [getchar_bind, peekchar_bind, tail_cons]

/-- Behind the letter the sign is seen and eaten, if there is one. -/
theorem sign_run (s : ExpSign) {u : List UInt8}
    (h : s = .absent → u.head? ≠ some '+'.toUInt8 ∧ u.head? ≠ some '-'.toUInt8) :
    (∃ c, (getcharIf ((s.text ++ u).head? == some '+'.toUInt8 || (s.text ++ u).head? == some '-'.toUInt8)).run n
        ⟨s.text ++ u, e, o⟩ = some (c, ⟨u, e, o⟩)) ∧
      ((s.text ++ u).head? = some '-'.toUInt8 ↔ s = .minus) := by
  cases s with
  | absent =>
    obtain ⟨hp, hm⟩ := h rfl
    have hb : (u.head? == some '+'.toUInt8 || u.head? == some '-'.toUInt8) = false := by simp [hp, hm]
    refine ⟨⟨none, ?_⟩, ?_⟩
    · simp only [ExpSign.text, nil_append, hb]
      rfl
    · simp [ExpSign.text, hm]
  | plus =>
    refine ⟨⟨_, rfl⟩, fun hm => ?_, fun hm => by cases hm⟩
    exact absurd (Option.some.inj hm) (by decide)
  | minus => exact ⟨⟨_, rfl⟩, by simp [ExpSign.text]⟩

theorem numberExp_literal (h : L.Before r) (hn : (L.expText ++ r).length < n) :
    (numberExp H).run n ⟨L.expText ++ r, e, o⟩
      = some ((L.expVal, decide (L.expPart.expVal < 0), L.exponent.isSome), ⟨r, e, o⟩) := by
  unfold expText expVal expPart expMinus expDigits at *
  cases hx : L.exponent with
  | none => exact numberExp_absent H (h.mark hx)
  | some x =>
    rw [hx] at hn
    have hmark : x.mark = 'e'.toUInt8 ∨ x.mark = 'E'.toUInt8 := by
      unfold Exponent.mark
      split
      · exact .inr rfl
      · exact .inl rfl
    have hhead : x.sign = .absent → (digitBytes x.digits ++ r).head? ≠ some '+'.toUInt8 ∧
        (digitBytes x.digits ++ r).head? ≠ some '-'.toUInt8 := by
      intro hs
      cases hd : x.digits with
      | nil => exact h.sign x hx hs hd
      | cons d ds =>
        have hd := isNumeric_digitByte d
        simp only [digitBytes, map_cons, List.cons_append, head?_cons, ne_eq, Option.some.injEq]
        constructor <;> (intro heq; rw [heq] at hd; exact absurd hd (by decide))
    obtain ⟨⟨c, heat⟩, hminus⟩ := sign_run (n := n) (e := e) (o := o) x.sign hhead
    have hloop := digitLoop_digits H ExpPart.push ⟨0, false⟩ x.digits (n := n) (e := e) (o := o)
      h.digit (by simp [Exponent.text] at hn ⊢; omega)
    have htext : (Option.map Exponent.text (some x)).getD [] ++ r
        = x.mark :: (x.sign.text ++ (digitBytes x.digits ++ r)) := by simp [Exponent.text]
    rw [htext, numberExp_present H hmark, Scan.run_bind heat, Scan.run_bind hloop]
    simp only [Scan.run_pure, hminus, Option.any_some, decide_eq_true_eq]
    rfl

/-- **`number` on a literal.** -/
theorem number_run (src : Source) (tok : Token D) (h : L.Before r) (hn : (L.text ++ r).length < n) :
    (number src H tok).run n ⟨L.text ++ r, e, o⟩
      = (if L.real then
          realToken src H (normalize H (L.fracPart H).dnum (L.fracPart H).firstSigDigLoc)
            (wrap32 (L.expVal + (L.fracPart H).firstSigDigLoc)) (decide (L.expPart.expVal < 0)) tok
        else intToken src (L.intPart H).lnum (intErrorFlag (L.intPart H)) tok).run n ⟨r, e, o⟩ := by
  have hn' : (L.fracText ++ (L.expText ++ r)).length < n := by
    simp only [text, length_append] at hn ⊢; omega
  have hn'' : (L.expText ++ r).length < n := by
    simp only [length_append] at hn' ⊢; omega
  unfold number
  rw [Scan.run_bind (numberInt_literal H h hn), Scan.run_bind (numberFrac_literal H h _ hn'),
    Scan.run_bind (numberExp_literal H h hn'')]
  rfl

end Literal

end Lexer
end Asg1
