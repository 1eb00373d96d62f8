import Mathlib.Data.Nat.Basic
import Mathlib.Logic.Function.Basic

/-!
# `Kernel.Memmove` — `memmove` of `lib/string.c`

Addresses are numbers: neither range runs over the end of the address space. `none` is an assertion that fails. The bytes
are copied whatever the overlap, but `memmove` returns the pointer that its loop has moved.
-/

namespace Asg1
namespace Memmove

/-- The bytes in memory. -/
abbrev Memory := Nat → UInt8

/-- `while (size-- > 0) *dst++ = *src++;` -/
def forward : Nat → Memory → Nat → Nat → Memory × Nat
  | 0, m, dst, _ => (m, dst)
  | size + 1, m, dst, src => forward size (Function.update m dst (m src)) (dst + 1) (src + 1)

/-- `while (size-- > 0) *--dst = *--src;` -/
def backward : Nat → Memory → Nat → Nat → Memory × Nat
  | 0, m, dst, _ => (m, dst)
  | size + 1, m, dst, src => backward size (Function.update m (dst - 1) (m (src - 1))) (dst - 1) (src - 1)

/-- `memmove`, with the memory after the call and the pointer that is returned. -/
def memmove (m : Memory) (dst src size : Nat) : Option (Memory × Nat) :=
  if (dst ≠ 0 ∨ size = 0) ∧ (src ≠ 0 ∨ size = 0) then
    if dst < src then some (forward size m dst src)
    else some (backward size m (dst + size) (src + size))
  else none

/-- The bytes that were at `src` are at `dst`, and nothing else has changed. -/
structure Moved (m m' : Memory) (dst src size : Nat) : Prop where
  inside : ∀ i < size, m' (dst + i) = m (src + i)
  outside : ∀ a, a < dst ∨ dst + size ≤ a → m' a = m a

variable {dst src : Nat}

/-- Upwards, the bytes still to be read lie above the one that is written. -/
theorem forward_moved : ∀ (size : Nat) (m : Memory) (dst src : Nat), dst < src →
    Moved m (forward size m dst src).1 dst src size ∧ (forward size m dst src).2 = dst + size := by
  intro size
  induction size with
  | zero =>
    intro m dst src _
    exact ⟨⟨fun i hi => absurd hi (Nat.not_lt_zero i), fun _ _ => rfl⟩, rfl⟩
  | succ size ih =>
    intro m dst src hlt
    obtain ⟨hmoved, hdst⟩ := ih (Function.update m dst (m src)) (dst + 1) (src + 1) (by omega)
    refine ⟨⟨?_, ?_⟩, by rw [forward, hdst]; omega⟩
    · intro i hi
      cases i with
      | zero => simp [forward, hmoved.outside dst (.inl (Nat.lt_succ_self dst))]
      | succ i =>
        have hcopy := hmoved.inside i (by omega)
        rw [Function.update_of_ne (by omega)] at hcopy
        simpa only [forward, Nat.add_assoc, Nat.add_comm 1 i] using hcopy
    · intro a ha
      rw [forward, hmoved.outside a (by omega), Function.update_of_ne (by omega)]

/-- Downwards, they lie below it. -/
theorem backward_moved (hle : src ≤ dst) : ∀ (size : Nat) (m : Memory),
    Moved m (backward size m (dst + size) (src + size)).1 dst src size ∧
      (backward size m (dst + size) (src + size)).2 = dst := by
  intro size
  induction size with
  | zero =>
    intro m
    exact ⟨⟨fun i hi => absurd hi (Nat.not_lt_zero i), fun _ _ => rfl⟩, rfl⟩
  | succ size ih =>
    intro m
    obtain ⟨hmoved, hdst⟩ := ih (Function.update m (dst + size) (m (src + size)))
    refine ⟨⟨?_, ?_⟩, hdst⟩
    · intro i hi
      by_cases hlast : i = size
      · subst hlast
        have hkept := hmoved.outside (dst + i) (.inr (Nat.le_refl _))
        rwa [Function.update_self] at hkept
      · have hcopy := hmoved.inside i (by omega)
        rwa [Function.update_of_ne (by omega)] at hcopy
    · intro a ha
      have hkept := hmoved.outside a (by omega)
      rwa [Function.update_of_ne (by omega)] at hkept

/-- **`memmove` copies under every overlap**, and returns the destination unless it has copied upwards. -/
theorem memmove_moves (m : Memory) {size : Nat} (hdst : dst ≠ 0 ∨ size = 0) (hsrc : src ≠ 0 ∨ size = 0) :
    ∃ m' p, memmove m dst src size = some (m', p) ∧ Moved m m' dst src size ∧
      (p = dst ↔ ¬ (dst < src ∧ 0 < size)) := by
  unfold memmove
  rw [if_pos ⟨hdst, hsrc⟩]
  by_cases hlt : dst < src
  · obtain ⟨hmoved, hp⟩ := forward_moved size m dst src hlt
    rw [if_pos hlt]
    exact ⟨_, _, rfl, hmoved, by omega⟩
  · obtain ⟨hmoved, hp⟩ := backward_moved (Nat.le_of_not_lt hlt) size m
    rw [if_neg hlt]
    exact ⟨_, _, rfl, hmoved, by omega⟩

/-- Three bytes moved up by one. -/
theorem memmove_moves_up : ∃ m', memmove UInt8.ofNat 5 4 3 = some (m', 5) ∧ Moved UInt8.ofNat m' 5 4 3 := by
  obtain ⟨m', p, hrun, hmoved, hp⟩ := @memmove_moves 5 4 UInt8.ofNat 3 (by decide) (by decide)
  rw [hp.mpr (by decide)] at hrun
  exact ⟨m', hrun, hmoved⟩

/-- Three bytes moved down by one: the pointer behind them is returned. -/
theorem moved_down_returns_end : (memmove UInt8.ofNat 4 5 3).map Prod.snd = some 7 := rfl

end Memmove
end Asg1
