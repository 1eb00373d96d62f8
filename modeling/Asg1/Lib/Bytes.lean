import Mathlib.Algebra.Order.Ring.Int
import Mathlib.Data.List.Basic

/-!
# `Lib.Bytes` — 32-bit words as four bytes, the lowest first
-/

namespace Asg1
namespace Bytes

/-- Byte `r` of a word. -/
def byteOf (w : BitVec 32) (r : Nat) : UInt8 := ⟨w.extractLsb' (8 * r) 8⟩

def le32 (w : BitVec 32) : List UInt8 := [byteOf w 0, byteOf w 1, byteOf w 2, byteOf w 3]

/-- The word in the first four bytes. -/
def word32 (l : List UInt8) : BitVec 32 :=
  (l.getD 3 0).toBitVec ++ (l.getD 2 0).toBitVec ++ (l.getD 1 0).toBitVec ++ (l.getD 0 0).toBitVec

@[simp] theorem length_le32 (w : BitVec 32) : (le32 w).length = 4 := rfl

theorem getLsbD_byteOf (w : BitVec 32) (r t : Nat) :
    (byteOf w r).toBitVec.getLsbD t = (decide (t < 8) && w.getLsbD (8 * r + t)) := by
  simp [byteOf]

/-- Bit `t` of byte `r`, for each of the four bytes. -/
theorem getLsbD_word32 (l : List UInt8) {r t : Nat} (hr : r < 4) (ht : t < 8) :
    (word32 l).getLsbD (8 * r + t) = (l.getD r 0).toBitVec.getLsbD t := by
  unfold word32
  simp only [BitVec.getLsbD_append]
  have hcases : r = 0 ∨ r = 1 ∨ r = 2 ∨ r = 3 := by omega
  rcases hcases with rfl | rfl | rfl | rfl
  · rw [if_pos (by omega)]
    simp
  · rw [if_neg (by omega), if_pos (by omega)]
    congr 1
    omega
  · rw [if_neg (by omega), if_neg (by omega), if_pos (by omega)]
    congr 1
    omega
  · rw [if_neg (by omega), if_neg (by omega), if_neg (by omega)]
    congr 1
    omega

@[simp] theorem word32_le32 (w : BitVec 32) : word32 (le32 w) = w := by
  apply BitVec.eq_of_getLsbD_eq
  intro i hi
  have hsplit : i = 8 * (i / 8) + i % 8 := by omega
  have hr : i / 8 < 4 := by omega
  have ht : i % 8 < 8 := by omega
  rw [hsplit, getLsbD_word32 _ hr ht]
  have hbyte : (le32 w).getD (i / 8) 0 = byteOf w (i / 8) := by
    have hcases : i / 8 = 0 ∨ i / 8 = 1 ∨ i / 8 = 2 ∨ i / 8 = 3 := by omega
    rcases hcases with h | h | h | h <;> rw [h] <;> rfl
  rw [hbyte, getLsbD_byteOf, decide_eq_true ht, Bool.true_and]

/-- Only the first four bytes matter. -/
theorem word32_append (l l' : List UInt8) (h : l.length = 4) : word32 (l ++ l') = word32 l := by
  have hget : ∀ i < 4, (l ++ l').getD i 0 = l.getD i 0 := by
    intro i hi
    rw [List.getD_eq_getElem?_getD, List.getD_eq_getElem?_getD, List.getElem?_append_left (by omega)]
  unfold word32
  rw [hget 0 (by omega), hget 1 (by omega), hget 2 (by omega), hget 3 (by omega)]

end Bytes
end Asg1
