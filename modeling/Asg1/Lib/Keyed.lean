import Mathlib.Algebra.Order.Ring.Int
import Mathlib.Data.List.Basic
import Mathlib.Data.List.Nodup
import Mathlib.Data.List.Perm.Basic

/-!
# `Lib.Keyed` — lists searched by a key

`find key l k` is the first element of `l` with key `k`. While no two elements have the same key, such a list is a
finite map: appending an element with a new key adds one entry, and erasing an element removes one.
-/

namespace Asg1
namespace Keyed

variable {α κ : Type} [DecidableEq α] [DecidableEq κ]

def find (key : α → κ) (l : List α) (k : κ) : Option α := l.find? (fun e => key e = k)

/-- No two elements have the same key. -/
def Distinct (key : α → κ) (l : List α) : Prop := (l.map key).Nodup

variable {key : α → κ} {l : List α} {e : α} {k : κ}

omit [DecidableEq α] [DecidableEq κ] in
theorem Distinct.inj (h : Distinct key l) {e' : α} (he : e ∈ l) (he' : e' ∈ l) (hkey : key e = key e') : e = e' :=
  List.inj_on_of_nodup_map h he he' hkey

omit [DecidableEq α] in
theorem find_eq_none : find key l k = none ↔ ∀ e ∈ l, key e ≠ k := by
  simp [find]

omit [DecidableEq α] in
theorem mem_of_find (h : find key l k = some e) : e ∈ l ∧ key e = k :=
  ⟨List.mem_of_find?_eq_some h, by simpa using List.find?_some h⟩

omit [DecidableEq α] in
/-- The element that is found is the one with the key. -/
theorem find_eq_some (h : Distinct key l) : find key l k = some e ↔ e ∈ l ∧ key e = k := by
  constructor
  · exact mem_of_find
  · rintro ⟨he, hk⟩
    cases hfind : find key l k with
    | none => exact absurd hk (find_eq_none.mp hfind e he)
    | some e' =>
      obtain ⟨he', hk'⟩ := mem_of_find hfind
      rw [h.inj he' he (hk'.trans hk.symm)]

omit [DecidableEq α] [DecidableEq κ] in
theorem Distinct.append (h : Distinct key l) (hnew : ∀ x ∈ l, key x ≠ key e) : Distinct key (l ++ [e]) := by
  unfold Distinct
  rw [List.map_append, List.nodup_append]
  refine ⟨h, List.nodup_singleton _, ?_⟩
  intro x hx y hy hxy
  obtain ⟨x', hx', rfl⟩ := List.mem_map.mp hx
  rw [List.mem_singleton.mp hy] at hxy
  exact hnew x' hx' hxy

omit [DecidableEq α] in
/-- Appending an element with a new key adds one entry. -/
theorem find_append (hnew : ∀ x ∈ l, key x ≠ key e) :
    find key (l ++ [e]) k = if k = key e then some e else find key l k := by
  unfold find
  rw [List.find?_append]
  split
  · rename_i hk
    have hnone : l.find? (fun x => key x = k) = none := by
      rw [List.find?_eq_none]
      intro x hx
      simpa [hk] using hnew x hx
    rw [hnone]
    simp [hk]
  · rename_i hk
    have hk' : ¬ key e = k := fun heq => hk heq.symm
    simp [hk']

omit [DecidableEq κ] in
theorem Distinct.erase (h : Distinct key l) (e : α) : Distinct key (l.erase e) :=
  List.Nodup.sublist (List.Sublist.map key List.erase_sublist) h

/-- Erasing an element removes one entry. -/
theorem find_erase (h : Distinct key l) (he : e ∈ l) :
    find key (l.erase e) k = if k = key e then none else find key l k := by
  have hnodup : l.Nodup := List.Nodup.of_map key h
  split
  · rename_i hk
    rw [find_eq_none]
    intro x hx hxk
    obtain ⟨hne, hx⟩ := hnodup.mem_erase_iff.mp hx
    exact hne (h.inj hx he (hxk.trans hk))
  · rename_i hk
    cases hfind : find key l k with
    | none =>
      rw [find_eq_none] at hfind ⊢
      exact fun x hx => hfind x (List.mem_of_mem_erase hx)
    | some x =>
      obtain ⟨hx, hxk⟩ := mem_of_find hfind
      rw [find_eq_some (h.erase e)]
      refine ⟨hnodup.mem_erase_iff.mpr ⟨?_, hx⟩, hxk⟩
      rintro rfl
      exact hk hxk.symm

end Keyed
end Asg1
