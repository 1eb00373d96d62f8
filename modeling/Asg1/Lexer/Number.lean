import Asg1.Lexer.Agree
import Asg1.Lexer.Literal

/-!
# `Lexer.Number` — the counters of `number`, and its two range checks

Each loop of `number` keeps a few counters over the digits it has read. `IntCounts`, `FracCounts` and `expVal_eq`
say what they hold, in terms of the digits alone and up to the wrapping of the machine's integers; each is kept by
one more digit. From them follow the range check of the integers, which is right, and that of the reals, which is
right as long as no counter wraps into the allowed range.
-/

namespace Asg1
namespace Lexer

open Decimal List

variable {D : Type} {H : Host D}

/-! ## The counters -/

/-- The flag that a digit other than zero sets, after one more digit. -/
theorem nonZeroFlag_snoc (ds : List (Fin 10)) (d : Fin 10) :
    (decide (significant ds ≠ []) || ((d.val : Int) != 0)) = decide (significant (ds ++ [d]) ≠ []) := by
  have hd : ((d.val : Int) != 0) = decide (d ≠ 0) := by revert d; decide
  rw [hd, significant_snoc]
  by_cases hs : significant ds = [] <;> by_cases h0 : d = 0 <;> simp [hs, h0]

/-- The variables of the first loop, when it has read the digits `ds`. -/
structure IntCounts (v : IntPart D) (ds : List (Fin 10)) : Prop where
  flag : v.nonZeroFlag = decide (significant ds ≠ [])
  count : v.sigDigCounter = wrap32 (significant ds).length
  lnum : v.lnum = wrap64 (value ds)

variable {ds : List (Fin 10)} {v : IntPart D}

theorem IntCounts.push (h : IntCounts v ds) (d : Fin 10) : IntCounts (v.push H d.val) (ds ++ [d]) := by
  obtain ⟨hflag, hcount, hlnum⟩ := h
  have hval : wrap64 (v.lnum * 10 + d.val) = wrap64 (value (ds ++ [d])) := by
    rw [hlnum, wrap64_wrap64_mul_add, value_snoc]
    congr 1
    omega
  have hflag' : (v.nonZeroFlag || ((d.val : Int) != 0)) = decide (significant (ds ++ [d]) ≠ []) := by
    rw [hflag, nonZeroFlag_snoc]
  unfold IntPart.push
  simp only [hflag', hval]
  by_cases hs : significant (ds ++ [d]) = []
  · -- still only zeros: the counter stands at 0
    rw [if_neg (by simp [hs])]
    refine ⟨by simp [hs], ?_, by dsimp only⟩
    rw [hs, hcount, (significant_snoc_eq_nil_iff.mp hs).1]
  · rw [if_pos (by simp [hs])]
    have hlen : (significant (ds ++ [d])).length = (significant ds).length + 1 := by
      rw [significant_snoc] at hs ⊢
      split at hs
      · exact absurd rfl hs
      · rename_i hc
        rw [if_neg hc, length_append, length_singleton]
    refine ⟨by simp [hs], ?_, by dsimp only⟩
    rw [hcount, wrap32_wrap32_add, hlen, Nat.cast_add, Nat.cast_one]

theorem intCounts_foldl (ds : List (Fin 10)) :
    IntCounts (ds.foldl (fun v d => IntPart.push H v d.val) ⟨0, H.ofInt 0, false, 0⟩) ds := by
  induction ds using List.reverseRecOn with
  | nil => exact ⟨rfl, rfl, rfl⟩
  | append_singleton ds d ih =>
    rw [foldl_append]
    exact ih.push d

/-- The decimal exponent of the first significant digit, with `ds` the digits in front of the point and `fs` those
    behind it. -/
def leadExponent (ds fs : List (Fin 10)) : Int := (ds.length : Int) - 1 - leadingZeros (ds ++ fs)

/-- The variables of the second loop, when the digits `fs` behind the point have been read. -/
structure FracCounts (v : FracPart D) (ds fs : List (Fin 10)) : Prop where
  flag : v.nonZeroFlag = decide (significant (ds ++ fs) ≠ [])
  place : v.firstSigDigLoc = wrap32 (leadExponent ds fs)
  index : v.dclCounter = wrap32 (1 + fs.length)

theorem IntCounts.toFrac (h : IntCounts v ds) : FracCounts v.toFrac ds [] where
  flag := by rw [append_nil]; exact h.flag
  place := by
    have hlen := length_significant ds
    show wrap32 (v.sigDigCounter - 1) = _
    rw [h.count, wrap32_wrap32_sub, leadExponent, append_nil]
    congr 1
    omega
  index := rfl

theorem FracCounts.push {v : FracPart D} {fs : List (Fin 10)} (h : FracCounts v ds fs) (d : Fin 10) :
    FracCounts (v.push H d.val) ds (fs ++ [d]) := by
  obtain ⟨hflag, hplace, hindex⟩ := h
  have hflag' : (v.nonZeroFlag || ((d.val : Int) != 0)) = decide (significant (ds ++ (fs ++ [d])) ≠ []) := by
    rw [hflag, nonZeroFlag_snoc, List.append_assoc]
  have hzeros := leadingZeros_snoc (ds ++ fs) d
  rw [List.append_assoc] at hzeros
  have hplace' : (if decide (significant (ds ++ (fs ++ [d])) ≠ []) = true then v.firstSigDigLoc
      else wrap32 (v.firstSigDigLoc - 1)) = wrap32 (leadExponent ds (fs ++ [d])) := by
    have hsnoc := significant_snoc (ds ++ fs) d
    rw [List.append_assoc] at hsnoc
    by_cases hc : significant (ds ++ fs) = [] ∧ d = 0
    · rw [if_pos hc] at hsnoc hzeros
      rw [if_neg (by simp [hsnoc]), hplace, wrap32_wrap32_sub, leadExponent, leadExponent, hzeros]
      congr 1
      omega
    · rw [if_neg hc] at hsnoc hzeros
      rw [if_pos (by simp [hsnoc]), hplace, leadExponent, leadExponent, hzeros]
  have hindex' : wrap32 (v.dclCounter + 1) = wrap32 (1 + (fs ++ [d]).length) := by
    rw [hindex, wrap32_wrap32_add, length_append, length_singleton, Nat.cast_add, Nat.cast_one, add_assoc]
  unfold FracPart.push
  simp only [hflag', hplace', hindex']
  split <;> exact ⟨by dsimp only, by dsimp only, by dsimp only⟩

theorem FracCounts.foldl {v : FracPart D} (h : FracCounts v ds []) (fs : List (Fin 10)) :
    FracCounts (fs.foldl (fun v d => FracPart.push H v d.val) v) ds fs := by
  induction fs using List.reverseRecOn with
  | nil => exact h
  | append_singleton fs d ih =>
    rw [foldl_append]
    exact ih.push d

/-- The third loop computes the written exponent. -/
theorem expCounts_foldl (ds : List (Fin 10)) :
    (ds.foldl (fun v d => ExpPart.push v d.val) ⟨0, false⟩) = ⟨wrap32 (value ds), decide (significant ds ≠ [])⟩ := by
  induction ds using List.reverseRecOn with
  | nil => rfl
  | append_singleton ds d ih =>
    rw [foldl_append, ih]
    simp only [foldl_cons, foldl_nil, ExpPart.push, nonZeroFlag_snoc]
    by_cases hs : significant (ds ++ [d]) = []
    · rw [if_neg (by simp [hs]), value_eq_zero hs, value_eq_zero (significant_snoc_eq_nil_iff.mp hs).1]
    · rw [if_pos (by simp [hs]), wrap32_wrap32_mul_add, value_snoc]
      simp only [ExpPart.mk.injEq, and_true]
      congr 1
      omega

/-! ## Integers -/

/-- More than ten significant digits are too many for 32 bits; ten or fewer do not wrap in 64. -/
theorem IntCounts.errorFlag (h : IntCounts v ds) (hlen : ds.length < 2147483648) :
    intErrorFlag v = decide (2147483647 < value ds) := by
  have hsig := length_significant ds
  have hcount : v.sigDigCounter = (significant ds).length := by
    rw [h.count]
    exact wrap32_of_mem (by omega) (by omega)
  unfold intErrorFlag
  rw [hcount, h.lnum, decide_eq_decide]
  by_cases hten : 10 < (significant ds).length
  · have hne : significant ds ≠ [] := fun hnil => by simp [hnil] at hten
    have hlow : 10 ^ 11 ≤ 10 * value ds := (Nat.pow_le_pow_right (by decide) hten).trans (pow_le_value hne)
    have hbig : 2147483647 < value ds := by omega
    exact ⟨fun _ => hbig, fun _ => .inl (by omega)⟩
  · have hhigh : value ds < 10 ^ 10 := by
      rw [← value_significant]
      exact (value_lt _).trans_le (Nat.pow_le_pow_right (by decide) (by omega))
    rw [wrap64_of_mem (by omega) (by omega)]
    omega

/-- The literal of an integer. -/
def Literal.integer (ds : List (Fin 10)) (h : ds ≠ []) : Literal := ⟨ds, none, none, h, nofun⟩

/-- **Integers are read exactly or reported.** A run of digits that the text `r` does not continue gives its value
    when that fits into 32 bits, and otherwise the message and 0; no other character is eaten. -/
theorem number_integer (H : Host D) (tok : Token D) (ds : List (Fin 10)) (hne : ds ≠ []) (hlen : ds.length < 2147483648)
    {r : List UInt8} (hr : (Literal.integer ds hne).Before r) {n : Nat} (e : Int) (o : List String)
    (hn : ds.length + r.length < n) :
    (number .lexanc H tok).run n ⟨digitBytes ds ++ r, e, o⟩ = some (
      if value ds ≤ 2147483647 then
        ({ tok with tokentype := NUMBERTOK, datatype := INTEGER, tokenval := .intnum (value ds) }, ⟨r, e, o⟩)
      else
        ({ tok with tokentype := NUMBERTOK, datatype := INTEGER, tokenval := .intnum 0 },
          ⟨r, e, o ++ ["Integer number out of range\n"]⟩)) := by
  have htext : (Literal.integer ds hne).text = digitBytes ds := append_nil _
  have hrun := Literal.number_run H .lexanc tok hr (n := n) (e := e) (o := o) (by simpa [htext] using hn)
  have hcounts : IntCounts ((Literal.integer ds hne).intPart H) ds := intCounts_foldl ds
  rw [htext] at hrun
  refine hrun.trans ?_
  have hreal : (Literal.integer ds hne).real = false := rfl
  rw [if_neg (by rw [hreal]; decide), hcounts.errorFlag hlen, intToken]
  by_cases hv : value ds ≤ 2147483647
  · rw [if_pos hv, if_neg (by simpa using hv), hcounts.lnum, wrap64_of_mem (by omega) (by omega),
      wrap32_of_mem (by omega) (by omega)]
    rfl
  · rw [if_neg hv, if_pos (by simpa using hv)]
    rfl

/-- Leading zeros do not count, and a point with no digit behind it is left. -/
theorem number_integer_zeros :
    (number .lexanc plainHost talloc).run 9 ⟨bytes "0042.x", 0, []⟩
      = some (⟨NUMBERTOK, INTEGER, .intnum 42⟩, ⟨bytes ".x", 0, []⟩) := by
  have hbefore : (Literal.integer [0, 0, 4, 2] (by decide)).Before (bytes ".x") := by
    refine ⟨?_, ?_, ?_, ?_⟩
    · intro c hc
      cases hc
      rfl
    · exact fun _ => by decide
    · exact fun _ _ _ => ⟨_, _, rfl, rfl⟩
    · intro x hx
      cases hx
  have hrun := number_integer plainHost talloc [0, 0, 4, 2] (by decide) (by decide) hbefore (n := 9) 0 [] (by decide)
  have htext : digitBytes [0, 0, 4, 2] ++ bytes ".x" = bytes "0042.x" := by decide
  have hvalue : value [0, 0, 4, 2] = 42 := by decide
  rw [htext, hvalue, if_pos (by decide), Nat.cast_ofNat] at hrun
  exact hrun

/-! ## Reals -/

/-- The exponents of a float. -/
def InFloatRange (x : Int) : Prop := -38 ≤ x ∧ x ≤ 38

instance (x : Int) : Decidable (InFloatRange x) := inferInstanceAs (Decidable (-38 ≤ x ∧ x ≤ 38))

namespace Literal

/-- The decimal exponent of the first significant digit, plus the written exponent. -/
def netExponent (L : Literal) : Int := leadExponent L.whole L.fracDigits + L.expValue

theorem fracCounts (H : Host D) (L : Literal) : FracCounts (L.fracPart H) L.whole L.fracDigits :=
  (intCounts_foldl L.whole).toFrac.foldl L.fracDigits

theorem expPart_expVal (L : Literal) : L.expPart.expVal = wrap32 (value L.expDigits) := by
  rw [expPart, expCounts_foldl]

/-- The sum that the range check looks at. -/
theorem wrap32_netExponent (H : Host D) (L : Literal) :
    wrap32 (L.expVal + (L.fracPart H).firstSigDigLoc) = wrap32 L.netExponent := by
  have hexp : L.expVal = wrap32 L.expValue := by
    rw [expVal, expPart_expVal, expValue_eq]
    split
    · rw [wrap32_neg_wrap32]
    · rfl
  rw [hexp, (L.fracCounts H).place, wrap32_wrap32_add, wrap32_add_wrap32, netExponent, add_comm]

/-- `number` prints the message and stores 0. -/
def Reports (H : Host D) (tok : Token D) (L : Literal) (r : List UInt8) : Prop :=
  ∀ n e o, (L.text ++ r).length < n → (number .lexanc H tok).run n ⟨L.text ++ r, e, o⟩ =
    some ({ tok with tokentype := NUMBERTOK, datatype := REAL, tokenval := .realnum (H.ofInt 0) },
      ⟨r, e, o ++ ["Floating number out of range\n"]⟩)

variable {L : Literal}

/-- The check as the code makes it: on the wrapped sum, and on the sign of the wrapped exponent. -/
theorem reports_iff (H : Host D) (tok : Token D) (hreal : L.real = true) {r : List UInt8} (hr : L.Before r) :
    Reports H tok L r ↔ wrap32 (value L.expDigits) < 0 ∨ ¬ InFloatRange (wrap32 L.netExponent) := by
  have hrun : ∀ n e o, (L.text ++ r).length < n → (number .lexanc H tok).run n ⟨L.text ++ r, e, o⟩ =
      (realToken .lexanc H (normalize H (L.fracPart H).dnum (L.fracPart H).firstSigDigLoc)
        (wrap32 L.netExponent) (decide (wrap32 (value L.expDigits) < 0)) tok).run n ⟨r, e, o⟩ := by
    intro n e o hn
    rw [number_run H .lexanc tok hr hn, if_pos hreal, wrap32_netExponent, expPart_expVal]
  have hcond : (wrap32 L.netExponent > 38 ∨ wrap32 L.netExponent < -38 ∨
      decide (wrap32 (value L.expDigits) < 0) = true) ↔
      wrap32 (value L.expDigits) < 0 ∨ ¬ InFloatRange (wrap32 L.netExponent) := by
    rw [decide_eq_true_eq, InFloatRange]
    omega
  rw [← hcond]
  constructor
  · -- without the message the output does not grow
    intro h
    by_contra hno
    have hmsg := (hrun _ 0 [] (Nat.lt_succ_self _)).symm.trans (h _ 0 [] (Nat.lt_succ_self _))
    rw [realToken, if_neg hno] at hmsg
    have hout := congrArg (fun x => (Option.map (fun y => y.2.stdout.length) x)) hmsg
    simp at hout
  · intro h n e o hn
    rw [hrun n e o hn, realToken, if_pos h]
    rfl

/-- No counter wraps in a way that changes the outcome: an exponent that would be in range must not make `expVal`
    negative, and one that is out of range must either do that or stay out of range when the sum wraps. -/
def Fits (L : Literal) : Prop :=
  if InFloatRange L.netExponent then value L.expDigits % 4294967296 < 2147483648
  else 2147483648 ≤ value L.expDigits % 4294967296 ∨ ¬ InFloatRange (L.netExponent.bmod 4294967296)

theorem wrap32_neg_iff (x : Nat) : wrap32 x < 0 ↔ 2147483648 ≤ x % 4294967296 := by
  unfold wrap32
  rw [Int.bmod_def]
  omega

/-- A literal of ordinary size. -/
theorem fits_of_small (hexp : value L.expDigits < 2147483648)
    (hnet : -2147483648 ≤ L.netExponent ∧ L.netExponent < 2147483648) : L.Fits := by
  unfold Fits
  split
  · omega
  · rename_i hout
    refine .inr ?_
    rw [show L.netExponent.bmod 4294967296 = L.netExponent from wrap32_of_mem hnet.1 hnet.2]
    exact hout

/-- **The range check of reals.** A real literal is reported just when its net exponent is out of range, if and
    only if its counters do not wrap in a way that changes the outcome. -/
theorem reports_out_of_range_iff (H : Host D) (tok : Token D) {L : Literal} (hreal : L.real = true) {r : List UInt8}
    (hr : L.Before r) : (Reports H tok L r ↔ ¬ InFloatRange L.netExponent) ↔ L.Fits := by
  rw [reports_iff H tok hreal hr, wrap32_neg_iff, Fits]
  by_cases hin : InFloatRange L.netExponent
  · have hsame : wrap32 L.netExponent = L.netExponent := by
      obtain ⟨hlo, hhi⟩ := hin
      exact wrap32_of_mem (by omega) (by omega)
    rw [if_pos hin, hsame]
    simp only [hin, not_true_eq_false, or_false, iff_false, Nat.not_le]
  · simp only [hin, not_false_eq_true, iff_true]
    rfl

/-- The literal `2.5e-3`. -/
def twoAndAHalfMilli : Literal :=
  ⟨(bytes "2").map digitOf, some ((bytes "5").map digitOf), some ⟨false, .minus, (bytes "3").map digitOf⟩,
    by decide, by decide⟩

theorem twoAndAHalfMilli_before : twoAndAHalfMilli.Before (bytes " ") := by
  refine ⟨?_, fun _ => by decide, fun h => (by cases h), ?_⟩
  · intro c hc
    cases hc
    rfl
  · intro x hx hs
    cases hx
    cases hs

theorem reports_out_of_range_iff_milli :
    Reports plainHost talloc twoAndAHalfMilli (bytes " ") ↔ ¬ InFloatRange twoAndAHalfMilli.netExponent :=
  (reports_out_of_range_iff plainHost talloc (by decide) twoAndAHalfMilli_before).mpr
    (fits_of_small (by decide) (by decide))

/-- The literal `1e4294967296`. -/
def hugeExponent : Literal :=
  ⟨(bytes "1").map digitOf, none, some ⟨false, .absent, (bytes "4294967296").map digitOf⟩, by decide, by decide⟩

/-- A host whose reals are integers. -/
def integerHost : Host Int where
  ofInt := id
  add := (· + ·)
  mul := (· * ·)
  tenth := 0
  charclassBelow := 0
  dclOutside _ := 0
  pdclOutside _ := 0

/-- Its exponent wraps to 0: it is taken for 1 and nothing is reported. -/
theorem huge_exponent_unreported :
    hugeExponent.text = bytes "1e4294967296" ∧ hugeExponent.netExponent = 4294967296 ∧
      (number .lexanc integerHost talloc).run 20 (initscanner (bytes "1e4294967296 ")) = some
        (⟨NUMBERTOK, REAL, .realnum 1⟩, initscanner (bytes " ")) := by
  refine ⟨by decide, by decide, by decide +kernel⟩

end Literal

end Lexer
end Asg1
