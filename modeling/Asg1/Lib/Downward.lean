import Asg1.Lib.Flat

/-!
# `Lib.Downward` — a stack that grows towards lower addresses

A stack is a flat memory, a pointer to its last cell, and a log of what was written. `Holds s top cells` says what lies
between the pointer and `top`; `Grows s s'` says that the code from `s` to `s'` only lowered the pointer and only wrote
between the new pointer and the old one.
-/

namespace Asg1

/-- A memory with a stack pointer and the writes made so far, the last one first. -/
structure Downward (β : Type) where
  mem : Nat → β
  sp : Nat
  writes : List (Nat × List β)

namespace Downward

open Flat

variable {β : Type} {s s' s'' : Downward β} {top n : Nat} {cells more : List β}

/-- Writes `cells` from address `a` on. -/
def write (s : Downward β) (a : Nat) (cells : List β) : Downward β :=
  { s with mem := patch s.mem a cells, writes := (a, cells) :: s.writes }

/-- Moves the pointer down by `n` cells. -/
def lower (s : Downward β) (n : Nat) : Downward β := { s with sp := s.sp - n }

/-- Makes room for `cells` and writes them there. -/
def push (s : Downward β) (cells : List β) : Downward β :=
  (s.lower cells.length).write (s.sp - cells.length) cells

@[simp] theorem push_sp : (s.push cells).sp = s.sp - cells.length := rfl

/-- What lies between the pointer and `top`. -/
structure Holds (s : Downward β) (top : Nat) (cells : List β) : Prop where
  top : s.sp + cells.length = top
  cells : slice s.mem s.sp cells.length = cells

theorem Holds.nil (hsp : s.sp = top) : Holds s top [] where
  top := hsp
  cells := rfl

/-- Cells below the pointer become part of the stack when the pointer is moved over them. -/
theorem Holds.lower (h : Holds s top cells) (hn : more.length ≤ s.sp)
    (hbelow : slice s.mem (s.sp - more.length) more.length = more) :
    Holds (s.lower more.length) top (more ++ cells) where
  top := by
    have htop := h.top
    rw [List.length_append]
    show s.sp - more.length + (more.length + cells.length) = top
    omega
  cells := by
    have hsp : s.sp - more.length + more.length = s.sp := by omega
    show slice s.mem (s.sp - more.length) (more ++ cells).length = more ++ cells
    rw [List.length_append, slice_add, hbelow, hsp, h.cells]

theorem Holds.push (h : Holds s top cells) (hn : more.length ≤ s.sp) : Holds (s.push more) top (more ++ cells) := by
  have hkept : Holds { s with mem := patch s.mem (s.sp - more.length) more } top cells := by
    refine ⟨h.top, ?_⟩
    show slice (patch s.mem (s.sp - more.length) more) s.sp cells.length = cells
    rw [slice_patch_other (.inr (by omega)), h.cells]
  have hlow := hkept.lower hn slice_patch_self
  exact ⟨hlow.top, hlow.cells⟩

/-- A piece of the stack, by its distance from the pointer. -/
theorem Holds.slice_eq {first middle last : List β} (h : Holds s top (first ++ middle ++ last)) :
    slice s.mem (s.sp + first.length) middle.length = middle := by
  have hcells := congrArg (fun l => (l.drop first.length).take middle.length) h.cells
  simp only [List.append_assoc, List.drop_left, List.take_left] at hcells
  rw [drop_slice, take_slice] at hcells
  have hmin : min middle.length ((first ++ (middle ++ last)).length - first.length) = middle.length := by
    simp only [List.length_append]
    omega
  rwa [hmin] at hcells

/-- Only the cells between the new pointer and the old one were written. -/
structure Grows (s s' : Downward β) : Prop where
  sp : s'.sp ≤ s.sp
  mem : ∀ x, x < s'.sp ∨ s.sp ≤ x → s'.mem x = s.mem x
  writes : ∀ w ∈ s'.writes, w ∈ s.writes ∨ (s'.sp ≤ w.1 ∧ w.1 + w.2.length ≤ s.sp)

namespace Grows

theorem refl (s : Downward β) : Grows s s := ⟨Nat.le_refl _, fun _ _ => rfl, fun _ h => .inl h⟩

theorem trans (h : Grows s s') (h' : Grows s' s'') : Grows s s'' where
  sp := Nat.le_trans h'.sp h.sp
  mem := by
    intro x hx
    have hsp := h.sp
    have hsp' := h'.sp
    rw [h'.mem x (by omega), h.mem x (by omega)]
  writes := by
    intro w hw
    have hsp := h.sp
    have hsp' := h'.sp
    rcases h'.writes w hw with hold | hnew
    · rcases h.writes w hold with hold | hnew
      · exact .inl hold
      · exact .inr (by omega)
    · exact .inr (by omega)

theorem lower (s : Downward β) (n : Nat) : Grows s (s.lower n) := ⟨Nat.sub_le _ _, fun _ _ => rfl, fun _ h => .inl h⟩

/-- A write between the pointer and where it was before. -/
theorem write {a : Nat} (h : Grows s s') (hlow : s'.sp ≤ a) (hhigh : a + cells.length ≤ s.sp) :
    Grows s (s'.write a cells) where
  sp := h.sp
  mem := by
    intro x hx
    have hx' : x < s'.sp ∨ s.sp ≤ x := hx
    show patch s'.mem a cells x = s.mem x
    rw [patch_outside (by omega), h.mem x hx]
  writes := by
    intro w hw
    rcases List.mem_cons.mp hw with rfl | hold
    · exact .inr ⟨hlow, hhigh⟩
    · exact h.writes w hold

theorem push (hn : cells.length ≤ s.sp) : Grows s (s.push cells) :=
  (Grows.lower s cells.length).write (Nat.le_refl _) (by omega)

end Grows

end Downward
end Asg1
