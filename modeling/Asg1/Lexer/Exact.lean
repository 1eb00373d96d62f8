import Mathlib.Algebra.Order.Field.Rat
import Mathlib.Tactic.FieldSimp
import Mathlib.Tactic.Ring
import Asg1.Lexer.Number

/-!
# `Lexer.Exact` — the value of a real literal over exact rationals

With rationals in place of `double` each of the three rescalings of `number` is a power of ten: the digits are summed
up with the weights of their places, the sum is shifted to one digit in front of the point, and the net exponent is
put on top. The first shift is part of the net exponent, so that in the end the mantissa has the written exponent. Of
the mantissa eight significant digits are kept.
-/

namespace Asg1
namespace Lexer

open Decimal List

/-- The arithmetic of a host is that of the rationals. What lies outside the tables stays open. -/
structure ExactHost (H : Host ℚ) : Prop where
  ofInt : ∀ i : Int, H.ofInt i = i
  add : ∀ x y, H.add x y = x + y
  mul : ∀ x y, H.mul x y = x * y
  tenth : H.tenth = 1 / 10

section
variable {H : Host ℚ} (hH : ExactHost H)
include hH

/-! ## The tables -/

theorem createDCL_eq (i : Nat) : createDCL H i = (10 : ℚ) ^ (-(i : Int)) := by
  induction i with
  | zero => simp [createDCL, hH.ofInt]
  | succ i ih =>
    rw [createDCL, hH.mul, hH.tenth, ih, Nat.cast_succ, neg_add, zpow_add₀ (by decide)]
    norm_num

theorem createPDCL_eq (i : Nat) : createPDCL H i = (10 : ℚ) ^ (i : Int) := by
  induction i with
  | zero => simp [createPDCL, hH.ofInt]
  | succ i ih =>
    rw [createPDCL, hH.mul, hH.ofInt, ih, Nat.cast_succ, zpow_add₀ (by decide)]
    norm_num

variable {i : Int} {ds fs : List (Fin 10)} {v : FracPart ℚ}

theorem dcl_eq (h₀ : 0 ≤ i) (h₁ : i < 100) : dcl H i = (10 : ℚ) ^ (-i) := by
  rw [dcl, if_pos ⟨h₀, h₁⟩, createDCL_eq hH, Int.toNat_of_nonneg h₀]

theorem pdcl_eq (h₀ : 0 ≤ i) (h₁ : i < 100) : pdcl H i = (10 : ℚ) ^ i := by
  rw [pdcl, if_pos ⟨h₀, h₁⟩, createPDCL_eq hH, Int.toNat_of_nonneg h₀]

/-! ## The digits -/

/-- One more digit in front of the point. -/
theorem dnum_intPush {v : IntPart ℚ} (hc : IntCounts v ds) (hlen : ds.length ≤ 100)
    (hv : v.dnum = value (keep 8 ds)) (d : Fin 10) : (v.push H d.val).dnum = value (keep 8 (ds ++ [d])) := by
  have hsig := length_significant ds
  have hcount : v.sigDigCounter = (significant ds).length := by
    rw [hc.count]
    exact wrap32_of_mem (by omega) (by omega)
  unfold IntPart.push
  simp only [hc.flag, nonZeroFlag_snoc]
  by_cases hs : significant (ds ++ [d]) = []
  · rw [if_neg (by simp [hs])]
    rw [hv, value_keep_eq_zero 8 hs, value_keep_eq_zero 8 (significant_snoc_eq_nil_iff.mp hs).1]
  · rw [if_pos (by simp [hs])]
    rw [hH.add, hH.mul, hH.ofInt, hH.ofInt, hv, keep_snoc, value_snoc, hcount]
    by_cases h8 : (significant ds).length < 8
    · rw [if_neg (by omega), if_pos h8]
      push_cast
      ring
    · rw [if_pos (by omega), if_neg h8, Fin.val_zero]
      push_cast
      ring

theorem dnum_intFold (hlen : ds.length ≤ 100) :
    (ds.foldl (fun v d => IntPart.push H v d.val) ⟨0, H.ofInt 0, false, 0⟩).dnum = value (keep 8 ds) := by
  induction ds using List.reverseRecOn with
  | nil => simp [hH.ofInt]
  | append_singleton ds d ih =>
    rw [length_append, length_singleton] at hlen
    rw [foldl_append]
    exact dnum_intPush hH (intCounts_foldl ds) (by omega) (ih (by omega)) d

/-- The variables of the second loop, with the value of the digits read so far. Past eight significant digits the
    counter no longer moves. -/
structure FracValue (v : FracPart ℚ) (ds fs : List (Fin 10)) : Prop where
  dnum : v.dnum = value (keep 8 (ds ++ fs)) / 10 ^ fs.length
  few : v.sigDigCounter < 8 → v.sigDigCounter = (significant (ds ++ fs)).length
  many : 8 ≤ v.sigDigCounter → 8 ≤ (significant (ds ++ fs)).length

/-- One more digit behind the point. -/
theorem FracValue.push (hc : FracCounts v ds fs) (hv : FracValue v ds fs)
    (hlen : fs.length < 98) (d : Fin 10) : FracValue (v.push H d.val) ds (fs ++ [d]) := by
  have hindex : v.dclCounter = 1 + fs.length := by
    rw [hc.index]
    exact wrap32_of_mem (by omega) (by omega)
  have hdcl : dcl H v.dclCounter = 1 / 10 ^ (fs.length + 1) := by
    rw [hindex, dcl_eq hH (by omega) (by omega), zpow_neg, add_comm, ← Nat.cast_succ, zpow_natCast, one_div]
  unfold FracPart.push
  simp only [hc.flag, nonZeroFlag_snoc]
  by_cases hs : significant (ds ++ fs ++ [d]) = []
  · have hold := (significant_snoc_eq_nil_iff.mp hs).1
    rw [if_neg (fun h => absurd hs (of_decide_eq_true h.1))]
    refine ⟨?_, ?_, ?_⟩ <;> dsimp only
    · rw [hv.dnum, ← List.append_assoc, value_keep_eq_zero 8 hs, value_keep_eq_zero 8 hold]
      simp
    · intro h
      rw [hv.few h, ← List.append_assoc, hs, hold]
    · intro h
      have := hv.many h
      rw [hold] at this
      simp at this
  · have hsig : (significant (ds ++ (fs ++ [d]))).length = (significant (ds ++ fs)).length + 1 := by
      rw [← List.append_assoc, significant_snoc, if_neg (fun h => hs (significant_snoc_eq_nil_iff.mpr h)),
        length_append, length_singleton]
    by_cases h8 : v.sigDigCounter < 8
    · have hcount := hv.few h8
      rw [if_pos ⟨by simpa using hs, h8⟩]
      have hwrap : wrap32 (v.sigDigCounter + 1) = v.sigDigCounter + 1 := wrap32_of_mem (by omega) (by omega)
      refine ⟨?_, ?_, ?_⟩ <;> dsimp only
      · rw [hH.add, hH.mul, hH.ofInt, hdcl, hv.dnum, ← List.append_assoc, keep_snoc, value_snoc, if_pos (by omega),
          length_append, length_singleton]
        push_cast
        field_simp
        ring
      · intro _
        rw [hwrap, hsig, hcount]
        rfl
      · omega
    · have hmany := hv.many (by omega)
      rw [if_neg (fun h => h8 h.2)]
      refine ⟨?_, ?_, ?_⟩ <;> dsimp only
      · rw [hv.dnum, ← List.append_assoc, keep_snoc, value_snoc, if_neg (by omega), Fin.val_zero, length_append,
          length_singleton]
        push_cast
        field_simp
        ring
      · exact fun h => absurd h h8
      · omega

theorem FracValue.foldl (hc : FracCounts v ds []) (hv : FracValue v ds []) (hlen : fs.length ≤ 98) :
    FracValue (fs.foldl (fun v d => FracPart.push H v d.val) v) ds fs := by
  induction fs using List.reverseRecOn with
  | nil => exact hv
  | append_singleton fs d ih =>
    rw [length_append, length_singleton] at hlen
    rw [foldl_append]
    exact FracValue.push hH (hc.foldl fs) (ih (by omega)) (by omega) d

/-! ## The rescalings -/

/-- The first significant digit is moved to the ones place. -/
theorem normalize_eq (x : ℚ) (h₀ : -100 < i) (h₁ : i < 100) : normalize H x i = x * 10 ^ (-i) := by
  unfold normalize
  split
  · rw [hH.mul, dcl_eq hH (by omega) h₁]
  · split
    · rw [hH.mul, wrap32_of_mem (by omega) (by omega), pdcl_eq hH (by omega) (by omega)]
    · have hi : i = 0 := by omega
      rw [hi]
      simp

theorem scaleDown_eq (x : ℚ) (h : i ≤ 0) : scaleDown H x i = x * 10 ^ i := by
  have hiter : ∀ k : Nat, (fun y => H.mul y H.tenth)^[k] x = x * 10 ^ (-(k : Int)) := by
    intro k
    induction k with
    | zero => simp
    | succ k ih =>
      rw [Function.iterate_succ_apply', ih, hH.mul, hH.tenth, Nat.cast_succ, neg_add, zpow_add₀ (by norm_num)]
      ring
  rw [scaleDown, hiter, Int.toNat_of_nonneg (by omega), neg_neg]

/-- The net exponent is put on top. -/
theorem realToken_eq (src : Source) (x : ℚ) (h : InFloatRange i) (tok : Token ℚ) :
    realToken src H x i false tok
      = pure { tok with tokentype := NUMBERTOK, datatype := REAL, tokenval := .realnum (x * 10 ^ i) } := by
  obtain ⟨hlo, hhi⟩ := h
  unfold realToken
  rw [if_neg (by simp only [Bool.false_eq_true, or_false]; omega)]
  by_cases hpos : i > 0
  · simp only [if_pos hpos, hH.mul, pdcl_eq hH (show 0 ≤ i by omega) (show i < 100 by omega)]
  · by_cases hneg : i < 0
    · simp only [if_neg hpos, if_pos hneg, scaleDown_eq hH x (show i ≤ 0 by omega)]
    · have hi : i = 0 := by omega
      simp [hi]

/-! ## The value -/

/-- The mantissa of a literal, truncated to its first eight significant digits. -/
def Literal.truncated (L : Literal) : ℚ := value (keep 8 L.mantissa) / 10 ^ L.fracDigits.length

/-- **The value of a real literal**: the mantissa, truncated to eight significant digits, times ten to the written
    exponent. -/
theorem number_real_value (tok : Token ℚ) {L : Literal} (hreal : L.real = true) (hwhole : L.whole.length ≤ 100)
    (hfrac : L.fracDigits.length ≤ 98) (hexp : value L.expDigits < 10 ^ 9) (hnet : InFloatRange L.netExponent)
    {r : List UInt8} (hr : L.Before r) {n : Nat} (e : Int) (o : List String) (hn : (L.text ++ r).length < n) :
    (number .lexanc H tok).run n ⟨L.text ++ r, e, o⟩ =
      some ({ tok with tokentype := NUMBERTOK, datatype := REAL, tokenval := .realnum (L.truncated * 10 ^ L.expValue) },
        ⟨r, e, o⟩) := by
  have hint : IntCounts (L.intPart H) L.whole := intCounts_foldl L.whole
  have hsig := length_significant L.whole
  have hcount : (L.intPart H).sigDigCounter = (significant L.whole).length := by
    rw [hint.count]
    exact wrap32_of_mem (by omega) (by omega)
  have hbase : FracValue (L.intPart H).toFrac L.whole [] := by
    refine ⟨?_, ?_, ?_⟩
    · rw [append_nil, length_nil, pow_zero, div_one]
      exact dnum_intFold hH hwhole
    · exact fun _ => by rw [append_nil]; exact hcount
    · intro h
      have h8 : 8 ≤ (L.intPart H).sigDigCounter := h
      rw [append_nil]
      omega
  have hvalue : (L.fracPart H).dnum = L.truncated := (FracValue.foldl hH hint.toFrac hbase hfrac).dnum
  -- the place of the first significant digit is within the tables
  have hplace : -100 < leadExponent L.whole L.fracDigits ∧ leadExponent L.whole L.fracDigits < 100 := by
    have hzeros := length_significant (L.whole ++ L.fracDigits)
    rw [length_append] at hzeros
    unfold leadExponent
    omega
  have hloc : (L.fracPart H).firstSigDigLoc = leadExponent L.whole L.fracDigits := by
    rw [(L.fracCounts H).place]
    exact wrap32_of_mem (by omega) (by omega)
  have hflag : decide (L.expPart.expVal < 0) = false := by
    rw [L.expPart_expVal, wrap32_of_mem (by omega) (by omega)]
    simp
  have hnet' : wrap32 (L.expVal + (L.fracPart H).firstSigDigLoc) = L.netExponent := by
    rw [L.wrap32_netExponent H]
    exact wrap32_of_mem (by have := hnet.1; omega) (by have := hnet.2; omega)
  rw [Literal.number_run H .lexanc tok hr hn, if_pos hreal, hflag, hnet', realToken_eq hH _ _ hnet, hvalue, hloc,
    normalize_eq hH _ hplace.1 hplace.2, Scan.run_pure, mul_assoc, ← zpow_add₀ (by norm_num), Literal.netExponent,
    neg_add_cancel_left]

end

/-- The rationals as a host. -/
def rationalHost : Host ℚ where
  ofInt i := i
  add := (· + ·)
  mul := (· * ·)
  tenth := 1 / 10
  charclassBelow := 0
  dclOutside _ := 0
  pdclOutside _ := 0

theorem number_real_value_milli :
    (number .lexanc rationalHost talloc).run 9 ⟨bytes "2.5e-3 ", 0, []⟩
      = some (⟨NUMBERTOK, REAL, .realnum (1 / 400)⟩, ⟨bytes " ", 0, []⟩) := by
  have hH : ExactHost rationalHost := ⟨fun _ => rfl, fun _ _ => rfl, fun _ _ => rfl, rfl⟩
  have hrun := number_real_value hH talloc (L := .twoAndAHalfMilli) (n := 9) (by decide) (by decide) (by decide)
    (by decide) (by decide) Literal.twoAndAHalfMilli_before 0 [] (by decide)
  have htext : Literal.twoAndAHalfMilli.text ++ bytes " " = bytes "2.5e-3 " := by decide
  have hvalue : Literal.twoAndAHalfMilli.truncated * 10 ^ Literal.twoAndAHalfMilli.expValue = 1 / 400 := by
    have hdigits : value (keep 8 Literal.twoAndAHalfMilli.mantissa) = 25 := by decide
    have hexp : Literal.twoAndAHalfMilli.expValue = -3 := by decide
    rw [Literal.truncated, hdigits, hexp, show Literal.twoAndAHalfMilli.fracDigits.length = 1 from rfl]
    norm_num
  rw [htext, hvalue] at hrun
  exact hrun

end Lexer
end Asg1
