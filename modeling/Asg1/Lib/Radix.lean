import Mathlib.Algebra.Order.Ring.Int
import Mathlib.Logic.Basic

/-!
# `Lib.Radix` — two-level tables in one paged store

A store `m : π → ι → β` holds in each page `p` and at each index `i` an entry. Some pages are directories: an entry
of a directory either names no table or names the page of a table, and `look m d i j` reads entry `j` of the table
that entry `i` of directory `d` names. Tables and directories lie in the same store, so a write may hit either.

`Separate` is what keeps them apart: no directory is used as a table, and no table hangs under two directory
entries. Under it the lookups form a function of the key `(d, i, j)` that the store's operations change one key at
a time: writing an entry of a table (`look_setTable`), hanging a new blank table under an empty entry (`NewTable.look`)
and anything that happens to pages not in use (`look_frame`).

Only the indices in `live` are looked at in a directory; what the others hold is free.
-/

namespace Asg1
namespace Radix

set_option linter.unusedSectionVars false

variable {π ι β : Type} [DecidableEq π] [DecidableEq ι]

/-- How an entry names a table; `zero` names none. -/
structure Scheme (π β : Type) where
  zero : β
  table : β → Option π
  table_zero : table zero = none

/-- The store with entry `i` of page `p` set to `b`. -/
def set (m : π → ι → β) (p : π) (i : ι) (b : β) : π → ι → β := fun q j => if q = p ∧ j = i then b else m q j

/-- The store with page `p` filled with `b`. -/
def fill (m : π → ι → β) (p : π) (b : β) : π → ι → β := fun q j => if q = p then b else m q j

/-- The store with page `src` copied to page `dst`. -/
def copy (m : π → ι → β) (dst src : π) : π → ι → β := fun q j => if q = dst then m src j else m q j

theorem set_apply (m : π → ι → β) (p q : π) (i j : ι) (b : β) :
    set m p i b q j = if q = p ∧ j = i then b else m q j := rfl

variable {q p : π}

theorem set_ne (m : π → ι → β) (i j : ι) (b : β) (h : q ≠ p) : set m p i b q j = m q j :=
  if_neg (fun hsame => h hsame.1)

@[simp] theorem set_self (m : π → ι → β) (p : π) (i : ι) (b : β) : set m p i b p i = b := if_pos ⟨rfl, rfl⟩

@[simp] theorem fill_self (m : π → ι → β) (p : π) (i : ι) (b : β) : fill m p b p i = b := if_pos rfl

@[simp] theorem fill_ne (m : π → ι → β) (i : ι) (b : β) (h : q ≠ p) : fill m p b q i = m q i := if_neg h

@[simp] theorem copy_self (m : π → ι → β) (dst src : π) (i : ι) : copy m dst src dst i = m src i := if_pos rfl

@[simp] theorem copy_ne (m : π → ι → β) {dst : π} (src : π) (i : ι) (h : q ≠ dst) : copy m dst src q i = m q i :=
  if_neg h

variable (S : Scheme π β)

/-- The entry under a key. -/
def look (m : π → ι → β) (d : π) (i j : ι) : β :=
  match S.table (m d i) with
  | none => S.zero
  | some t => m t j

variable {S} {live : ι → Prop} {dirs dirs' : π → Prop} {m m' : π → ι → β} {d d' p t t' : π} {i i' j j' : ι} {b : β}

theorem look_of_table (h : S.table (m d i) = some t) : look S m d i j = m t j := by simp [look, h]

theorem look_of_none (h : S.table (m d i) = none) : look S m d i j = S.zero := by simp [look, h]

variable (S live dirs) in
/-- Page `t` is the table under entry `i` of directory `d`. -/
structure Hangs (m : π → ι → β) (d : π) (i : ι) (t : π) : Prop where
  dir : dirs d
  index : live i
  named : S.table (m d i) = some t

variable (S live dirs) in
/-- Page `p` is a directory or a table. -/
def Uses (m : π → ι → β) (p : π) : Prop := dirs p ∨ ∃ d i, Hangs S live dirs m d i p

variable (S live dirs) in
/-- Directories are no tables, and a table hangs in one place. -/
structure Separate (m : π → ι → β) : Prop where
  apart : ∀ {d i t}, Hangs S live dirs m d i t → ¬ dirs t
  once : ∀ {d d' i i' t}, Hangs S live dirs m d i t → Hangs S live dirs m d' i' t → d = d' ∧ i = i'

theorem Separate.shrink (sep : Separate S live dirs m) (hsub : ∀ d, dirs' d → dirs d) :
    Separate S live dirs' m where
  apart h := fun ht => sep.apart ⟨hsub _ h.dir, h.index, h.named⟩ (hsub _ ht)
  once h h' := sep.once ⟨hsub _ h.dir, h.index, h.named⟩ ⟨hsub _ h'.dir, h'.index, h'.named⟩

/-! ## Changes outside the tables -/

section
variable (agree : ∀ p, Uses S live dirs m p → ∀ i, m' p i = m p i)
include agree

theorem hangs_frame : Hangs S live dirs m' d i t ↔ Hangs S live dirs m d i t := by
  constructor
  · rintro ⟨hd, hi, ht⟩
    rw [agree d (.inl hd)] at ht
    exact ⟨hd, hi, ht⟩
  · rintro ⟨hd, hi, ht⟩
    refine ⟨hd, hi, ?_⟩
    rw [agree d (.inl hd)]
    exact ht

/-- **What happens to pages not in use is not seen.** -/
theorem look_frame (hd : dirs d) (hi : live i) : look S m' d i j = look S m d i j := by
  have hentry : m' d i = m d i := agree d (.inl hd) i
  cases ht : S.table (m d i) with
  | none => rw [look_of_none ht, look_of_none (hentry ▸ ht)]
  | some t =>
    rw [look_of_table ht, look_of_table (hentry ▸ ht)]
    exact agree t (.inr ⟨d, i, hd, hi, ht⟩) j

theorem Separate.frame (sep : Separate S live dirs m) : Separate S live dirs m' where
  apart h := sep.apart ((hangs_frame agree).mp h)
  once h h' := sep.once ((hangs_frame agree).mp h) ((hangs_frame agree).mp h')

end

/-! ## Writing an entry of a table -/

section
variable (sep : Separate S live dirs m)
include sep

/-- A write into a table leaves every directory as it was. -/
theorem Separate.hangs_setTable (ht : Hangs S live dirs m d i t) :
    Hangs S live dirs (set m t j b) d' i' t' ↔ Hangs S live dirs m d' i' t' := by
  have hentry : dirs d' → set m t j b d' i' = m d' i' := fun hd' =>
    set_ne m _ _ _ (fun heq => sep.apart ht (heq ▸ hd'))
  constructor
  · rintro ⟨hd', hi', h⟩
    exact ⟨hd', hi', hentry hd' ▸ h⟩
  · rintro ⟨hd', hi', h⟩
    exact ⟨hd', hi', (hentry hd').symm ▸ h⟩

theorem Separate.setTable (ht : Hangs S live dirs m d i t) :
    Separate S live dirs (set m t j b) where
  apart h := sep.apart ((sep.hangs_setTable ht).mp h)
  once h h' := sep.once ((sep.hangs_setTable ht).mp h) ((sep.hangs_setTable ht).mp h')

/-- **A write into a table changes the lookup of its own key only.** -/
theorem Separate.look_setTable (ht : Hangs S live dirs m d i t) (hd' : dirs d') (hi' : live i') :
    look S (set m t j b) d' i' j' = if d' = d ∧ i' = i ∧ j' = j then b else look S m d' i' j' := by
  have hentry : set m t j b d' i' = m d' i' := set_ne m _ _ _ (fun heq => sep.apart ht (heq ▸ hd'))
  cases h : S.table (m d' i') with
  | none =>
    have hne : ¬ (d' = d ∧ i' = i ∧ j' = j) := by
      rintro ⟨rfl, rfl, -⟩
      rw [ht.named] at h
      cases h
    rw [if_neg hne, look_of_none h, look_of_none (hentry ▸ h)]
  | some t' =>
    rw [look_of_table h, look_of_table (hentry ▸ h), set_apply]
    -- the tables are the same just when the places are
    have hsame : t' = t ↔ d' = d ∧ i' = i := by
      constructor
      · rintro rfl
        exact sep.once ⟨hd', hi', h⟩ ht
      · rintro ⟨rfl, rfl⟩
        exact Option.some.inj (h.symm.trans ht.named)
    simp only [hsame, and_assoc]

end

/-! ## Hanging a new table -/

variable (S live dirs) in
/-- Page `t`, so far not in use, is to hang under the empty entry `i` of directory `d`, by the entry `b`. -/
structure NewTable (m : π → ι → β) (d : π) (i : ι) (t : π) (b : β) : Prop where
  dir : dirs d
  index : live i
  empty : S.table (m d i) = none
  new : ¬ Uses S live dirs m t
  names : S.table b = some t

variable (S) in
/-- The store with the new table in place, blank. -/
def grow (m : π → ι → β) (d : π) (i : ι) (t : π) (b : β) : π → ι → β := set (fill m t S.zero) d i b

section
variable (new : NewTable S live dirs m d i t b)
include new

theorem NewTable.entry (hd' : dirs d') : grow S m d i t b d' i' = if d' = d ∧ i' = i then b else m d' i' := by
  have hne : d' ≠ t := by
    rintro rfl
    exact new.new (.inl hd')
  rw [grow, set_apply, fill_ne m _ _ hne]

theorem NewTable.hangs : Hangs S live dirs (grow S m d i t b) d' i' t' ↔
    Hangs S live dirs m d' i' t' ∨ (d' = d ∧ i' = i ∧ t' = t) := by
  constructor
  · rintro ⟨hd', hi', h⟩
    rw [new.entry hd'] at h
    split at h
    · rename_i hsame
      exact .inr ⟨hsame.1, hsame.2, Option.some.inj (h.symm.trans new.names)⟩
    · exact .inl ⟨hd', hi', h⟩
  · rintro (⟨hd', hi', h⟩ | ⟨rfl, rfl, rfl⟩)
    · refine ⟨hd', hi', ?_⟩
      rw [new.entry hd', if_neg]
      · exact h
      · rintro ⟨rfl, rfl⟩
        rw [new.empty] at h
        cases h
    · refine ⟨new.dir, new.index, ?_⟩
      rw [new.entry new.dir, if_pos ⟨rfl, rfl⟩]
      exact new.names

theorem NewTable.separate (sep : Separate S live dirs m) :
    Separate S live dirs (grow S m d i t b) where
  apart h := by
    rcases new.hangs.mp h with hold | ⟨-, -, rfl⟩
    · exact sep.apart hold
    · exact fun hdir => new.new (.inl hdir)
  once h h' := by
    rcases new.hangs.mp h with hold | ⟨rfl, rfl, rfl⟩ <;>
      rcases new.hangs.mp h' with hold' | ⟨rfl, rfl, heq⟩
    · exact sep.once hold hold'
    · exact absurd (.inr ⟨_, _, heq ▸ hold⟩) new.new
    · exact absurd (.inr ⟨_, _, hold'⟩) new.new
    · exact ⟨rfl, rfl⟩

/-- **A new blank table changes no lookup.** -/
theorem NewTable.look (sep : Separate S live dirs m) (hd' : dirs d')
    (hi' : live i') : look S (grow S m d i t b) d' i' j' = look S m d' i' j' := by
  have hentry : grow S m d i t b d' i' = if d' = d ∧ i' = i then b else m d' i' := new.entry hd'
  by_cases hsame : d' = d ∧ i' = i
  · obtain ⟨rfl, rfl⟩ := hsame
    have hne : t ≠ d' := by
      rintro rfl
      exact new.new (.inl hd')
    have htable : S.table (grow S m d' i' t b d' i') = some t := by
      rw [hentry, if_pos ⟨rfl, rfl⟩]
      exact new.names
    rw [look_of_none new.empty, look_of_table htable, grow, set_ne _ _ _ _ hne, fill_self]
  · rw [if_neg hsame] at hentry
    cases h : S.table (m d' i') with
    | none => rw [look_of_none h, look_of_none (hentry ▸ h)]
    | some t' =>
      have hold : Hangs S live dirs m d' i' t' := ⟨hd', hi', h⟩
      have hnt : t' ≠ t := by
        rintro rfl
        exact new.new (.inr ⟨d', i', hold⟩)
      have hnd : t' ≠ d := by
        rintro rfl
        exact sep.apart hold new.dir
      rw [look_of_table h, look_of_table (hentry ▸ h), grow, set_ne _ _ _ _ hnd, fill_ne m _ _ hnt]

end

end Radix
end Asg1
