import Asg1.Lib.Bytes
import Asg1.Lib.Flat

/-!
# `Lib.Word` — 32-bit words in a memory of bytes

`ld m a` is the word at address `a`, as a number, and `st m a w` is the memory after the word `w` has been written there.
`SameAt m m' a n` says that two memories have the same `n` bytes from `a` on.
-/

namespace Asg1
namespace Word

open Flat Bytes

abbrev Mem := Nat → UInt8

variable {m m' m'' : Mem} {a b n k w : Nat}

def ld (m : Mem) (a : Nat) : Nat := (word32 (slice m a 4)).toNat

def st (m : Mem) (a w : Nat) : Mem := patch m a (le32 (BitVec.ofNat 32 w))

/-- The two memories have the same bytes from `a` on. -/
def SameAt (m m' : Mem) (a n : Nat) : Prop := ∀ x, a ≤ x → x < a + n → m' x = m x

theorem ld_lt (m : Mem) (a : Nat) : ld m a < 4294967296 := (word32 (slice m a 4)).isLt

theorem ld_st_self (hw : w < 4294967296) : ld (st m a w) a = w := by
  have hslice : slice (st m a w) a 4 = le32 (BitVec.ofNat 32 w) := by
    have hself := @slice_patch_self UInt8 m a (le32 (BitVec.ofNat 32 w))
    rwa [length_le32] at hself
  unfold ld
  rw [hslice, word32_le32, BitVec.toNat_ofNat]
  omega

theorem SameAt.ld_eq (h : SameAt m m' a 4) : ld m' a = ld m a := by
  unfold ld
  rw [slice_congr (fun x hx hx' => h x hx hx')]

theorem SameAt.slice_eq (h : SameAt m m' a n) : slice m' a n = slice m a n := slice_congr (fun x hx hx' => h x hx hx')

theorem SameAt.sub (h : SameAt m m' a n) (hlow : a ≤ b) (hhigh : b + k ≤ a + n) : SameAt m m' b k :=
  fun x hx hx' => h x (by omega) (by omega)

theorem SameAt.trans (h : SameAt m m' a n) (h' : SameAt m' m'' a n) : SameAt m m'' a n :=
  fun x hx hx' => (h' x hx hx').trans (h x hx hx')

theorem sameAt_patch {cells : List UInt8} (h : a + n ≤ b ∨ b + cells.length ≤ a) : SameAt m (patch m b cells) a n :=
  fun x hx hx' => patch_outside (by omega)

theorem sameAt_st (h : a + n ≤ b ∨ b + 4 ≤ a) : SameAt m (st m b w) a n :=
  sameAt_patch (by rw [length_le32]; exact h)

theorem ld_st_other (h : a + 4 ≤ b ∨ b + 4 ≤ a) : ld (st m b w) a = ld m a := (sameAt_st h).ld_eq

attribute [irreducible] ld st

end Word
end Asg1
