import Asg1.Lib.Proc
import Asg1.Lib.Word

/-!
# `Kernel.List` — lists threaded through memory

The doubly linked lists of `lib/kernel/list.c`, in a memory of bytes: a list element is two words, `prev` and `next`, and
a list is two elements, its head and its tail. The functions follow pointers and overwrite words; an assertion that fails
is stuck.

`IsList m l es` says that the list at `l` has the elements `es`. Its links are stated on all cells from the head to the
tail, so that every element stands between two cells and an edit is the same everywhere.
-/

namespace Asg1
namespace Kernel

open Word List

/-! ## `list.c` -/

/-- `elem->prev` -/
def prev (m : Mem) (elem : Nat) : Nat := ld m elem

/-- `elem->next` -/
def next (m : Mem) (elem : Nat) : Nat := ld m (elem + 4)

def setPrev (m : Mem) (elem w : Nat) : Mem := st m elem w

def setNext (m : Mem) (elem w : Nat) : Mem := st m (elem + 4) w

/-- `&list->tail` -/
def tailOf (list : Nat) : Nat := list + 8

def isInterior (m : Mem) (elem : Nat) : Prop := elem ≠ 0 ∧ prev m elem ≠ 0 ∧ next m elem ≠ 0

def isTail (m : Mem) (elem : Nat) : Prop := elem ≠ 0 ∧ prev m elem ≠ 0 ∧ next m elem = 0

instance decideInterior (m : Mem) (elem : Nat) : Decidable (isInterior m elem) :=
  inferInstanceAs (Decidable (elem ≠ 0 ∧ prev m elem ≠ 0 ∧ next m elem ≠ 0))

instance decideTail (m : Mem) (elem : Nat) : Decidable (isTail m elem) :=
  inferInstanceAs (Decidable (elem ≠ 0 ∧ prev m elem ≠ 0 ∧ next m elem = 0))

/-- `list_init` -/
def listInit (list : Nat) : Proc Mem Unit :=
  modify fun m => setNext (setPrev (setNext (setPrev m list 0) list (tailOf list)) (tailOf list) list) (tailOf list) 0

/-- `list_begin` -/
def listBegin (list : Nat) : Proc Mem Nat := do return next (← get) list

/-- `list_end` -/
def listEnd (list : Nat) : Nat := tailOf list

/-- `list_empty` -/
def listEmpty (list : Nat) : Proc Mem Bool := do return (← listBegin list) == listEnd list

/-- `list_front` -/
def listFront (list : Nat) : Proc Mem Nat := do
  let empty ← listEmpty list
  Proc.assert (empty = false)
  listBegin list

/-- `list_insert` -/
def listInsert (before elem : Nat) : Proc Mem Unit := do
  let m ← get
  Proc.assert (isInterior m before ∨ isTail m before)
  Proc.assert (elem ≠ 0)
  let m := setPrev m elem (prev m before)
  let m := setNext m elem before
  let m := setNext m (prev m before) elem
  set (setPrev m before elem)

/-- `list_push_front` -/
def listPushFront (list elem : Nat) : Proc Mem Unit := do
  let first ← listBegin list
  listInsert first elem

/-- `list_push_back` -/
def listPushBack (list elem : Nat) : Proc Mem Unit := listInsert (listEnd list) elem

/-- `list_remove` -/
def listRemove (elem : Nat) : Proc Mem Nat := do
  let m ← get
  Proc.assert (isInterior m elem)
  let m := setNext m (prev m elem) (next m elem)
  let m := setPrev m (next m elem) (prev m elem)
  set m
  return next m elem

/-- `list_pop_front` -/
def listPopFront (list : Nat) : Proc Mem Nat := do
  let front ← listFront list
  let _ ← listRemove front
  return front

/-! ## Links -/

/-- `y` comes after `x`. -/
def Linked (m : Mem) (x y : Nat) : Prop := next m x = y ∧ prev m y = x

/-- Each cell is followed by the next one. -/
def Links (m : Mem) : List Nat → Prop
  | x :: y :: rest => Linked m x y ∧ Links m (y :: rest)
  | _ => True

/-- Two cells of eight bytes that do not overlap. -/
def Apart (x y : Nat) : Prop := x + 8 ≤ y ∨ y + 8 ≤ x

variable {x y c : Nat} {cs : List Nat}

theorem Apart.symm (h : Apart x y) : Apart y x := Or.symm h

theorem Apart.ne (h : Apart x y) : x ≠ y := by
  unfold Apart at h
  omega

variable {m m' : Mem} {l e x y : Nat} {es es₁ es₂ pre post : List Nat}

theorem links_append : Links m (pre ++ x :: post) ↔ Links m (pre ++ [x]) ∧ Links m (x :: post) := by
  induction pre with
  | nil => exact ⟨fun h => ⟨trivial, h⟩, fun h => h.2⟩
  | cons a pre ih =>
    cases pre with
    | nil => exact ⟨fun h => ⟨⟨h.1, trivial⟩, h.2⟩, fun h => ⟨h.1.1, h.2⟩⟩
    | cons b pre =>
      constructor
      · rintro ⟨hab, hrest⟩
        obtain ⟨hleft, hright⟩ := ih.mp hrest
        exact ⟨⟨hab, hleft⟩, hright⟩
      · rintro ⟨⟨hab, hleft⟩, hright⟩
        exact ⟨hab, ih.mpr ⟨hleft, hright⟩⟩

/-- The links up to a cell depend on the words of the cells before it and on its own `prev`. -/
theorem Links.frame_left (h : Links m (pre ++ [x])) (hpre : ∀ c ∈ pre, next m' c = next m c ∧ prev m' c = prev m c)
    (hx : prev m' x = prev m x) : Links m' (pre ++ [x]) := by
  induction pre with
  | nil => trivial
  | cons a pre ih =>
    have hrest : ∀ c ∈ pre, next m' c = next m c ∧ prev m' c = prev m c := fun c hc => hpre c (mem_cons_of_mem _ hc)
    have ha := (hpre a mem_cons_self).1
    cases pre with
    | nil => exact ⟨⟨ha.trans h.1.1, hx.trans h.1.2⟩, trivial⟩
    | cons b pre =>
      have hb := (hrest b mem_cons_self).2
      exact ⟨⟨ha.trans h.1.1, hb.trans h.1.2⟩, ih h.2 hrest⟩

/-- The links from a cell on depend on its own `next` and on the words of the cells after it. -/
theorem Links.frame_right (h : Links m (y :: post)) (hy : next m' y = next m y)
    (hpost : ∀ c ∈ post, next m' c = next m c ∧ prev m' c = prev m c) : Links m' (y :: post) := by
  induction post generalizing y with
  | nil => trivial
  | cons b post ih =>
    obtain ⟨hnext, hprev⟩ := hpost b mem_cons_self
    exact ⟨⟨hy.trans h.1.1, hprev.trans h.1.2⟩, ih h.2 hnext (fun c hc => hpost c (mem_cons_of_mem _ hc))⟩

/-- A cell whose eight bytes are the same has the same words. -/
theorem same_words (h : SameAt m m' x 8) : next m' x = next m x ∧ prev m' x = prev m x :=
  ⟨(h.sub (by omega) (by omega)).ld_eq, (h.sub (by omega) (by omega)).ld_eq⟩

/-! ## The two edits -/

/-- Only the new cell, the `next` of the cell before it and the `prev` of the cell after it are different. -/
def Edited (m m' : Mem) (x e y : Nat) : Prop :=
  ∀ a n, (a + n ≤ e ∨ e + 8 ≤ a) → (a + n ≤ x + 4 ∨ x + 8 ≤ a) → (a + n ≤ y ∨ y + 4 ≤ a) → SameAt m m' a n

theorem apart_three (h : (pre ++ x :: e :: y :: post).Pairwise Apart) : Apart x e ∧ Apart x y ∧ Apart e y := by
  obtain ⟨hx, htail⟩ := List.pairwise_cons.mp (List.pairwise_append.mp h).2.1
  exact ⟨hx e (by simp), hx y (by simp), (List.pairwise_cons.mp htail).1 y (by simp)⟩

/-- An edit between two cells leaves the links on both sides of it. -/
theorem Edited.sides (hedit : Edited m m' x e y) (hapart : (pre ++ x :: e :: y :: post).Pairwise Apart)
    (hleft : Links m (pre ++ [x])) (hright : Links m (y :: post)) : Links m' (pre ++ [x]) ∧ Links m' (y :: post) := by
  obtain ⟨-, htail, hpre⟩ := List.pairwise_append.mp hapart
  obtain ⟨hx, htail⟩ := List.pairwise_cons.mp htail
  obtain ⟨he, htail⟩ := List.pairwise_cons.mp htail
  obtain ⟨hy, -⟩ := List.pairwise_cons.mp htail
  obtain ⟨hxe, hxy, hey⟩ := apart_three hapart
  unfold Apart at hxy hxe hey
  constructor
  · refine hleft.frame_left ?_ (hedit x 4 (by omega) (by omega) (by omega)).ld_eq
    intro c hc
    have hcx : Apart c x := hpre c hc x (by simp)
    have hce : Apart c e := hpre c hc e (by simp)
    have hcy : Apart c y := hpre c hc y (by simp)
    unfold Apart at hcx hce hcy
    exact same_words (hedit c 8 (by omega) (by omega) (by omega))
  · refine hright.frame_right (hedit (y + 4) 4 (by omega) (by omega) (by omega)).ld_eq ?_
    intro c hc
    have hcx : Apart x c := hx c (by simp [hc])
    have hce : Apart e c := he c (by simp [hc])
    have hcy : Apart y c := hy c hc
    unfold Apart at hcx hce hcy
    exact same_words (hedit c 8 (by omega) (by omega) (by omega))

/-- The cell can be used: it is not null, and it lies in the address space. -/
def IsCell (c : Nat) : Prop := c ≠ 0 ∧ c + 8 ≤ 4294967296

/-- **`list_insert`** puts a cell between two others. -/
theorem listInsert_run (h : Links m (pre ++ x :: y :: post)) (hapart : (pre ++ x :: e :: y :: post).Pairwise Apart)
    (hplaced : ∀ c ∈ pre ++ x :: e :: y :: post, IsCell c) :
    ∃ m', listInsert y e m = some ((), m') ∧ Edited m m' x e y ∧ Links m' (pre ++ x :: e :: y :: post) := by
  obtain ⟨hleft, ⟨hnext, hprev⟩, hright⟩ := links_append.mp h
  obtain ⟨hxe, hxy, hey⟩ := apart_three hapart
  obtain ⟨hx0, hxmax⟩ := hplaced x (by simp)
  obtain ⟨he0, hemax⟩ := hplaced e (by simp)
  obtain ⟨hy0, hymax⟩ := hplaced y (by simp)
  unfold Apart at hxy hxe hey
  have hback : prev (setNext (setPrev m e x) e y) y = x := by
    unfold prev setNext setPrev
    rw [ld_st_other (by omega), ld_st_other (by omega)]
    exact hprev
  have hedit : Edited m (setPrev (setNext (setNext (setPrev m e x) e y) x e) y e) x e y := by
    intro a n h₁ h₂ h₃
    exact (((sameAt_st (by omega)).trans (sameAt_st (by omega))).trans (sameAt_st (by omega))).trans (sameAt_st (by omega))
  have hin : Linked (setPrev (setNext (setNext (setPrev m e x) e y) x e) y e) x e := by
    unfold Linked next prev setPrev setNext
    rw [ld_st_other (by omega), ld_st_self (by omega), ld_st_other (by omega), ld_st_other (by omega),
      ld_st_other (by omega), ld_st_self (by omega)]
    exact ⟨rfl, rfl⟩
  have hout : Linked (setPrev (setNext (setNext (setPrev m e x) e y) x e) y e) e y := by
    unfold Linked next prev setPrev setNext
    rw [ld_st_other (by omega), ld_st_other (by omega), ld_st_self (by omega), ld_st_self (by omega)]
    exact ⟨rfl, rfl⟩
  obtain ⟨hleft', hright'⟩ := hedit.sides hapart hleft hright
  refine ⟨_, ?_, hedit, links_append.mpr ⟨hleft', hin, hout, hright'⟩⟩
  have hbefore : isInterior m y ∨ isTail m y := by
    unfold isInterior isTail
    rw [hprev]
    by_cases hend : next m y = 0
    · exact .inr ⟨hy0, hx0, hend⟩
    · exact .inl ⟨hy0, hx0, hend⟩
  refine (Proc.bind_run rfl).trans ((Proc.bind_run (Proc.assert_run hbefore m)).trans
    ((Proc.bind_run (Proc.assert_run he0 m)).trans ?_))
  rw [hprev, hback]
  rfl

/-- **`list_remove`** takes a cell out from between two others. -/
theorem listRemove_run (h : Links m (pre ++ x :: e :: y :: post)) (hapart : (pre ++ x :: e :: y :: post).Pairwise Apart)
    (hplaced : ∀ c ∈ pre ++ x :: e :: y :: post, IsCell c) :
    ∃ m', listRemove e m = some (y, m') ∧ Edited m m' x e y ∧ Links m' (pre ++ x :: y :: post) := by
  obtain ⟨hleft, ⟨hnext, hprev⟩, ⟨hnext', hprev'⟩, hright⟩ := links_append.mp h
  obtain ⟨hxe, hxy, hey⟩ := apart_three hapart
  obtain ⟨hx0, hxmax⟩ := hplaced x (by simp)
  obtain ⟨he0, hemax⟩ := hplaced e (by simp)
  obtain ⟨hy0, hymax⟩ := hplaced y (by simp)
  unfold Apart at hxy hxe hey
  have hwords : next (setNext m x y) e = y ∧ prev (setNext m x y) e = x := by
    obtain ⟨hsame, hsame'⟩ := same_words (show SameAt m (setNext m x y) e 8 from sameAt_st (by omega))
    exact ⟨hsame.trans hnext', hsame'.trans hprev⟩
  have hlast : next (setPrev (setNext m x y) y x) e = y := by
    obtain ⟨hsame, -⟩ := same_words (show SameAt (setNext m x y) (setPrev (setNext m x y) y x) e 8 from sameAt_st (by omega))
    exact hsame.trans hwords.1
  have hedit : Edited m (setPrev (setNext m x y) y x) x e y := by
    intro a n _ h₂ h₃
    exact (sameAt_st (by omega)).trans (sameAt_st (by omega))
  have hlink : Linked (setPrev (setNext m x y) y x) x y := by
    unfold Linked next prev setPrev setNext
    rw [ld_st_other (by omega), ld_st_self (by omega), ld_st_self (by omega)]
    exact ⟨rfl, rfl⟩
  obtain ⟨hleft', hright'⟩ := hedit.sides hapart hleft hright
  refine ⟨_, ?_, hedit, links_append.mpr ⟨hleft', hlink, hright'⟩⟩
  have hinterior : isInterior m e := by
    unfold isInterior
    rw [hprev, hnext']
    exact ⟨he0, hx0, hy0⟩
  refine (Proc.bind_run rfl).trans ((Proc.bind_run (Proc.assert_run hinterior m)).trans ?_)
  rw [hprev, hnext', hwords.1, hwords.2, hlast]
  rfl

/-! ## Lists as sequences -/

/-- The head, the elements and the tail. -/
def cells (l : Nat) (es : List Nat) : List Nat := l :: (es ++ [tailOf l])

/-- The list at `l` has the elements `es`, in this order. -/
structure IsList (m : Mem) (l : Nat) (es : List Nat) : Prop where
  links : Links m (cells l es)
  front : prev m l = 0
  back : next m (tailOf l) = 0
  apart : (cells l es).Pairwise Apart
  placed : ∀ c ∈ cells l es, IsCell c

/-- The memories are the same off the given cells. -/
def SameOff (cs : List Nat) (m m' : Mem) : Prop := ∀ a n, (∀ c ∈ cs, a + n ≤ c ∨ c + 8 ≤ a) → SameAt m m' a n

theorem SameOff.mono {ds : List Nat} (h : SameOff cs m m') (hsub : ∀ c ∈ cs, c ∈ ds) : SameOff ds m m' :=
  fun a n hoff => h a n (fun c hc => hoff c (hsub c hc))

theorem SameOff.trans {m'' : Mem} (h : SameOff cs m m') (h' : SameOff cs m' m'') : SameOff cs m m'' :=
  fun a n hoff => (h a n hoff).trans (h' a n hoff)

theorem cells_middle : cells l (es₁ ++ e :: es₂) = (l :: es₁) ++ e :: (es₂ ++ [tailOf l]) := by
  unfold cells
  rw [List.append_assoc]
  rfl

theorem cells_append : cells l (es₁ ++ es₂) = (l :: es₁) ++ (es₂ ++ [tailOf l]) := by
  unfold cells
  rw [List.append_assoc]
  rfl

theorem mem_cells_append : x ∈ cells l (es₁ ++ es₂) ↔ x ∈ cells l es₁ ∨ x ∈ es₂ := by
  unfold cells
  grind

/-- A new element is one more cell. -/
theorem cells_perm : (cells l (es₁ ++ e :: es₂)).Perm (e :: cells l (es₁ ++ es₂)) := by
  rw [cells_middle, cells_append]
  exact perm_middle

/-- A list depends on the bytes of its cells only. -/
theorem IsList.frame (h : IsList m l es) (hsame : ∀ c ∈ cells l es, SameAt m m' c 8) : IsList m' l es where
  links := h.links.frame_right (same_words (hsame l mem_cons_self)).1
    (fun c hc => same_words (hsame c (mem_cons_of_mem _ hc)))
  front := (same_words (hsame l mem_cons_self)).2.trans h.front
  back := (same_words (hsame _ (mem_cons_of_mem _ (mem_append_right _ (mem_singleton_self _))))).1.trans h.back
  apart := h.apart
  placed := h.placed

/-- The cell after the head is not the head. -/
theorem IsList.apart_head (h : IsList m l es) (hc : c ∈ es ++ [tailOf l]) : Apart l c :=
  (List.pairwise_cons.mp h.apart).1 c hc

/-- The cell before the tail is not the tail. -/
theorem IsList.apart_tail (h : IsList m l es) (hc : c ∈ l :: es) : Apart c (tailOf l) := by
  have hall : ((l :: es) ++ [tailOf l]).Pairwise Apart := h.apart
  exact (List.pairwise_append.mp hall).2.2 c hc _ (mem_singleton_self _)

theorem exists_concat (l : Nat) (es : List Nat) : ∃ pre x, l :: es = pre ++ [x] :=
  ⟨(l :: es).dropLast, (l :: es).getLast (cons_ne_nil _ _), (dropLast_append_getLast _).symm⟩

/-- The cells with and without an element between `x` and `y`. -/
theorem cells_split (es₁ : List Nat) (hy : es₂ ++ [tailOf l] = y :: post) :
    ∃ pre x, cells l (es₁ ++ es₂) = pre ++ x :: y :: post ∧ cells l (es₁ ++ e :: es₂) = pre ++ x :: e :: y :: post ∧
      x ∈ l :: es₁ ∧ y ∈ es₂ ++ [tailOf l] := by
  obtain ⟨pre, x, hx⟩ := exists_concat l es₁
  refine ⟨pre, x, ?_, ?_, ?_, ?_⟩
  · rw [cells_append, hx, hy, List.append_assoc]
    rfl
  · rw [cells_middle, hx, hy, List.append_assoc]
    rfl
  · rw [hx]
    exact mem_append_right _ (mem_singleton_self _)
  · rw [hy]
    exact mem_cons_self

/-- An edit at the cells `x` and `y` leaves the ends of the list as they are. -/
theorem IsList.ends (h : IsList m l es) (hedit : Edited m m' x e y) (hx : x ∈ l :: es) (hy : y ∈ es ++ [tailOf l])
    (hl : Apart l e) (ht : Apart e (tailOf l)) : prev m' l = 0 ∧ next m' (tailOf l) = 0 := by
  have hly := h.apart_head hy
  have hxt := h.apart_tail hx
  have hxl : x = l ∨ Apart l x := by
    rcases List.mem_cons.mp hx with hx | hx
    · exact .inl hx
    · exact .inr (h.apart_head (mem_append_left _ hx))
  have hyt : y = tailOf l ∨ Apart y (tailOf l) := by
    rcases List.mem_append.mp hy with hy | hy
    · exact .inr (h.apart_tail (mem_cons_of_mem _ hy))
    · exact .inl (List.mem_singleton.mp hy)
  unfold Apart at *
  constructor
  · exact (hedit l 4 (by omega) (by omega) (by omega)).ld_eq.trans h.front
  · exact (hedit (tailOf l + 4) 4 (by omega) (by omega) (by omega)).ld_eq.trans h.back

/-- **`list_insert`** before the first of the elements `es₂`, or at the end if there are none. -/
theorem IsList.insert (h : IsList m l (es₁ ++ es₂)) (hy : es₂ ++ [tailOf l] = y :: post) (hplaced : IsCell e)
    (hapart : ∀ c ∈ cells l (es₁ ++ es₂), Apart e c) :
    ∃ m', listInsert y e m = some ((), m') ∧ IsList m' l (es₁ ++ e :: es₂) ∧
      SameOff (e :: cells l (es₁ ++ es₂)) m m' := by
  obtain ⟨pre, x, hold, hnew, hxm, hym⟩ := cells_split (l := l) (e := e) es₁ hy
  have hpair : (cells l (es₁ ++ e :: es₂)).Pairwise Apart :=
    (cells_perm.pairwise_iff (fun h => h.symm)).mpr (List.pairwise_cons.mpr ⟨hapart, h.apart⟩)
  have hall : ∀ c ∈ cells l (es₁ ++ e :: es₂), IsCell c := by
    intro c hc
    rcases List.mem_cons.mp (cells_perm.mem_iff.mp hc) with rfl | hc
    · exact hplaced
    · exact h.placed c hc
  have hlinks := h.links
  rw [hold] at hlinks
  obtain ⟨m', hrun, hedit, hlinks'⟩ := listInsert_run hlinks (hnew ▸ hpair) (hnew ▸ hall)
  have hends := h.ends hedit (show x ∈ l :: (es₁ ++ es₂) from mem_append_left es₂ hxm)
    (by rw [List.append_assoc]; exact mem_append_right _ hym)
    (hapart l mem_cons_self).symm
    (hapart _ (mem_cons_of_mem _ (mem_append_right _ (mem_singleton_self _))))
  refine ⟨m', hrun, ⟨hnew ▸ hlinks', hends.1, hends.2, hpair, hall⟩, ?_⟩
  intro a n hoff
  have he := hoff e mem_cons_self
  have hxo := hoff x (mem_cons_of_mem _ (by rw [hold]; simp))
  have hyo := hoff y (mem_cons_of_mem _ (by rw [hold]; simp))
  exact hedit a n he (by omega) (by omega)

/-- **`list_remove`** -/
theorem IsList.remove (h : IsList m l (es₁ ++ e :: es₂)) :
    ∃ y m', listRemove e m = some (y, m') ∧ IsList m' l (es₁ ++ es₂) ∧ SameOff (cells l (es₁ ++ e :: es₂)) m m' := by
  obtain ⟨y, post, hy⟩ : ∃ y post, es₂ ++ [tailOf l] = y :: post := exists_cons_of_ne_nil (by simp)
  obtain ⟨pre, x, hnew, hold, hxm, hym⟩ := cells_split (l := l) (e := e) es₁ hy
  have hpair : (e :: cells l (es₁ ++ es₂)).Pairwise Apart := (cells_perm.pairwise_iff (fun h => h.symm)).mp h.apart
  have hall : ∀ c ∈ cells l (es₁ ++ es₂), IsCell c :=
    fun c hc => h.placed c (cells_perm.mem_iff.mpr (mem_cons_of_mem _ hc))
  have hlinks := h.links
  rw [hold] at hlinks
  obtain ⟨m', hrun, hedit, hlinks'⟩ := listRemove_run hlinks (hold ▸ h.apart) (hold ▸ h.placed)
  have hends := h.ends hedit (show x ∈ l :: (es₁ ++ e :: es₂) from mem_append_left (e :: es₂) hxm)
    (by rw [List.append_assoc]; exact mem_append_right _ (mem_cons_of_mem _ hym))
    (h.apart_head (by simp)) (h.apart_tail (by simp))
  refine ⟨y, m', hrun, ⟨hnew ▸ hlinks', hends.1, hends.2, (List.pairwise_cons.mp hpair).2, hall⟩, ?_⟩
  intro a n hoff
  have he := hoff e (by rw [hold]; simp)
  have hxo := hoff x (by rw [hold]; simp)
  have hyo := hoff y (by rw [hold]; simp)
  exact hedit a n he (by omega) (by omega)

/-! ## The operations on whole lists -/

theorem IsList.erase (h : IsList m l es) (he : e ∈ es) :
    ∃ y m', listRemove e m = some (y, m') ∧ IsList m' l (es.erase e) ∧ SameOff (cells l es) m m' := by
  obtain ⟨es₁, es₂, -, heq, herase⟩ := exists_erase_eq he
  rw [heq] at h
  obtain ⟨y, m', hrun, hlist, hoff⟩ := h.remove
  rw [herase]
  rw [← heq] at hoff
  exact ⟨y, m', hrun, hlist, hoff⟩

theorem IsList.begin (h : IsList m l es) : listBegin l m = some ((es ++ [tailOf l]).headD 0, m) := by
  have hnext : next m l = (es ++ [tailOf l]).headD 0 := by
    have hlinks := h.links
    cases es with
    | nil => exact hlinks.1.1
    | cons c es => exact hlinks.1.1
  rw [← hnext]
  rfl

/-- **`list_empty`** -/
theorem IsList.empty (h : IsList m l es) : listEmpty l m = some (es.isEmpty, m) := by
  refine (Proc.bind_run h.begin).trans ?_
  cases es with
  | nil =>
    show some (tailOf l == tailOf l, m) = some (true, m)
    rw [beq_self_eq_true]
  | cons c es =>
    have hne : c ≠ tailOf l := (h.apart_tail (mem_cons_of_mem _ mem_cons_self)).ne
    show some (c == tailOf l, m) = some (false, m)
    rw [beq_eq_false_iff_ne.mpr hne]

/-- **`list_push_back`** -/
theorem IsList.pushBack (h : IsList m l es) (hplaced : IsCell e) (hapart : ∀ c ∈ cells l es, Apart e c) :
    ∃ m', listPushBack l e m = some ((), m') ∧ IsList m' l (es ++ [e]) ∧ SameOff (e :: cells l es) m m' := by
  have hnil : IsList m l (es ++ []) := by rwa [append_nil]
  obtain ⟨m', hrun, hlist, hoff⟩ := hnil.insert rfl hplaced (by rwa [append_nil])
  rw [append_nil] at hoff
  exact ⟨m', hrun, hlist, hoff⟩

/-- **`list_push_front`** -/
theorem IsList.pushFront (h : IsList m l es) (hplaced : IsCell e) (hapart : ∀ c ∈ cells l es, Apart e c) :
    ∃ m', listPushFront l e m = some ((), m') ∧ IsList m' l (e :: es) ∧ SameOff (e :: cells l es) m m' := by
  obtain ⟨y, post, hy⟩ : ∃ y post, es ++ [tailOf l] = y :: post := exists_cons_of_ne_nil (by simp)
  have hnil : IsList m l ([] ++ es) := h
  obtain ⟨m', hrun, hlist, hoff⟩ := hnil.insert hy hplaced hapart
  have hbegin := h.begin
  rw [hy] at hbegin
  exact ⟨m', (Proc.bind_run hbegin).trans hrun, hlist, hoff⟩

/-- **`list_pop_front`** -/
theorem IsList.popFront (h : IsList m l (e :: es)) :
    ∃ m', listPopFront l m = some (e, m') ∧ IsList m' l es ∧ SameOff (cells l (e :: es)) m m' := by
  have hnil : IsList m l ([] ++ e :: es) := h
  obtain ⟨y, m', hrun, hlist, hoff⟩ := hnil.remove
  have hfront : listFront l m = some (e, m) := by
    refine (Proc.bind_run h.empty).trans ?_
    exact (Proc.bind_run (Proc.assert_run rfl m)).trans h.begin
  exact ⟨m', (Proc.bind_run hfront).trans ((Proc.bind_run hrun).trans rfl), hlist, hoff⟩

/-- **`list_init`** -/
theorem listInit_run (hplaced : IsCell l) (hplaced' : IsCell (tailOf l)) :
    ∃ m', listInit l m = some ((), m') ∧ IsList m' l [] ∧ SameOff [l, tailOf l] m m' := by
  obtain ⟨hl, hmax⟩ := hplaced
  obtain ⟨hl', hmax'⟩ := hplaced'
  have htail : tailOf l = l + 8 := rfl
  refine ⟨_, rfl, ⟨⟨⟨?_, ?_⟩, trivial⟩, ?_, ?_, ?_, ?_⟩, ?_⟩
  · unfold next setNext setPrev
    rw [ld_st_other (by omega), ld_st_other (by omega), ld_st_self (by omega)]
  · unfold prev setNext setPrev
    rw [ld_st_other (by omega), ld_st_self (by omega)]
  · unfold prev setNext setPrev
    rw [ld_st_other (by omega), ld_st_other (by omega), ld_st_other (by omega), ld_st_self (by omega)]
  · unfold next setNext setPrev
    rw [ld_st_self (by omega)]
  · exact List.pairwise_pair.mpr (.inl (Nat.le_refl _))
  · intro c hc
    have hcases : c = l ∨ c = tailOf l := by simpa [cells] using hc
    unfold IsCell
    omega
  · intro a n hoff
    have h₁ := hoff l (by simp)
    have h₂ := hoff (tailOf l) (by simp)
    exact (((sameAt_st (by omega)).trans (sameAt_st (by omega))).trans (sameAt_st (by omega))).trans (sameAt_st (by omega))

end Kernel
end Asg1
