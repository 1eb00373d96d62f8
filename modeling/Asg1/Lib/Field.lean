import Mathlib.Algebra.Order.Ring.Int
import Mathlib.Data.List.Basic

/-!
# `Lib.Field` — fixed-width fields of a record

A packed record is the concatenation of its fields, each a fixed number of bytes. `Field n` carries its width, so a
record built from fields has the right length and is taken apart again without looking at what is in it. `Field.text`
is a string in a field that was zero before; `numeral` are digits of a fixed count.
-/

namespace Asg1

open List

/-- `n` bytes. -/
def Field (n : Nat) : Type := { l : List UInt8 // l.length = n }

namespace Field

variable {n : Nat}

instance decideEq : DecidableEq (Field n) := inferInstanceAs (DecidableEq { l : List UInt8 // l.length = n })

theorem length_val (f : Field n) : f.1.length = n := f.2

/-- The first `n` bytes of a list. -/
def take (n : Nat) (l : List UInt8) : Field n :=
  ⟨l.take n ++ List.replicate (n - l.length) 0, by rw [length_append, length_take, length_replicate]; omega⟩

/-- What was put in front is what is taken. -/
theorem take_append (f : Field n) (l : List UInt8) : take n (f.1 ++ l) = f := by
  apply Subtype.ext
  show (f.1 ++ l).take n ++ List.replicate (n - (f.1 ++ l).length) 0 = f.1
  have hlen := f.2
  have hnone : n - (f.1 ++ l).length = 0 := by
    rw [length_append]
    omega
  rw [hnone, List.replicate_zero, append_nil]
  exact take_left' hlen

theorem take_val (f : Field n) : take n f.1 = f := by
  have h := take_append f []
  rwa [append_nil] at h

/-- To go past a field is to leave it out. -/
theorem drop_append (f : Field n) (l : List UInt8) {k : Nat} (h : n ≤ k) : (f.1 ++ l).drop k = l.drop (k - n) := by
  rw [List.drop_append, f.2, drop_eq_nil_of_le (by rw [f.2]; exact h), nil_append]

/-- All zeros. -/
def zero (n : Nat) : Field n := ⟨List.replicate n 0, length_replicate⟩

/-- A string in a field that was zero before. It is cut so that a final zero byte has room. -/
def text (n : Nat) (s : List UInt8) : Field n := take n (s.take (n - 1))

/-- The string in a field, up to the first zero byte. -/
def cstring (f : Field n) : List UInt8 := f.1.takeWhile (fun b => b ≠ 0)

variable {s : List UInt8}

theorem val_text (h : s.length < n) : (text n s).1 = s ++ List.replicate (n - s.length) 0 := by
  show (s.take (n - 1)).take n ++ List.replicate (n - (s.take (n - 1)).length) 0 = _
  have hs : s.take (n - 1) = s := take_of_length_le (by omega)
  rw [hs, take_of_length_le (by omega)]

/-- A string that fits is read back. -/
theorem cstring_text (h : s.length < n) (hzero : 0 ∉ s) : (text n s).cstring = s := by
  unfold cstring
  rw [val_text h, takeWhile_append_of_pos]
  · have hpos : 0 < n - s.length := by omega
    obtain ⟨k, hk⟩ := Nat.exists_eq_add_of_lt hpos
    rw [hk, Nat.zero_add, List.replicate_succ, takeWhile_cons_of_neg (by simp), append_nil]
  · intro b hb
    have hne : b ≠ 0 := by
      rintro rfl
      exact hzero hb
    simpa using hne

end Field

/-! ## Numerals -/

/-- The `k` low digits of `n` in base 8, as characters, the highest first. -/
def numeral : Nat → Nat → List UInt8
  | 0, _ => []
  | k + 1, n => numeral k (n / 8) ++ [UInt8.ofNat (48 + n % 8)]

theorem length_numeral (k n : Nat) : (numeral k n).length = k := by
  induction k generalizing n with
  | zero => rfl
  | succ k ih => rw [numeral, length_append, ih, length_singleton]

theorem numeral_zero (k : Nat) : numeral k 0 = List.replicate k 48 := by
  induction k with
  | zero => rfl
  | succ k ih => rw [numeral, Nat.zero_div, ih, List.replicate_succ']; rfl

/-- More digits than a number needs are zeros in front. -/
theorem numeral_add (j k : Nat) {n : Nat} (h : n < 8 ^ k) : numeral (j + k) n = List.replicate j 48 ++ numeral k n := by
  induction k generalizing n with
  | zero =>
    obtain rfl : n = 0 := by
      omega
    rw [Nat.add_zero, numeral_zero, numeral, append_nil]
  | succ k ih =>
    have hdiv : n / 8 < 8 ^ k := by
      omega
    rw [← Nat.add_assoc, numeral, ih hdiv, numeral, List.append_assoc]

/-- `n` in base 8 with zeros in front of it, up to `w` digits: `%0wo` for a number of 32 bits, which has at most eleven
    digits. -/
def octal (w n : Nat) : List UInt8 :=
  let digits := (numeral 11 n).dropWhile (fun c => c = 48)
  List.replicate (w - digits.length) 48 ++ digits

/-- Leading zeros can be taken away and put back. -/
theorem replicate_append_dropWhile (l : List UInt8) :
    List.replicate (l.length - (l.dropWhile (fun c => c = 48)).length) 48 ++ l.dropWhile (fun c => c = 48) = l := by
  induction l with
  | nil => rfl
  | cons c cs ih =>
    by_cases hc : c = 48
    · have hle : (cs.dropWhile (fun c => c = 48)).length ≤ cs.length := (dropWhile_sublist _).length_le
      rw [dropWhile_cons_of_pos (by simpa using hc), length_cons, Nat.succ_sub hle, List.replicate_succ,
        List.cons_append, ih, hc]
    · rw [dropWhile_cons_of_neg (by simpa using hc), Nat.sub_self, List.replicate_zero, nil_append]

theorem octal_eq {w n : Nat} (hw : w ≤ 11) (h : n < 8 ^ w) : octal w n = numeral w n := by
  obtain ⟨j, hj⟩ := Nat.exists_eq_add_of_le' hw
  have hdrop : (numeral 11 n).dropWhile (fun c => c = 48) = (numeral w n).dropWhile (fun c => c = 48) := by
    rw [hj, numeral_add j w h]
    clear hj
    induction j with
    | zero => rfl
    | succ j ih => rw [List.replicate_succ, List.cons_append, dropWhile_cons_of_pos (by decide), ih]
  have hback := replicate_append_dropWhile (numeral w n)
  rw [length_numeral] at hback
  unfold octal
  rw [hdrop]
  exact hback

end Asg1
