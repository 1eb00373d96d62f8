import Asg1.Vm.Frame

/-!
# `Vm.Palloc` — groups of user pages: allocation that fails, and freeing

`palloc_page` marks a frame and writes its entry before it knows whether the frame can be mapped, and it does not look
whether there was a frame at all: `bitmap_scan_and_flip` returns `BITMAP_ERROR`, and this is the index that is used.
`palloc_multiple` stops at the first page that fails and gives nothing back. So each of them is atomic just when it does
not fail.

`palloc_free_umultiple` hands the address of a page table entry to `palloc_free_page`, which is about pages of the kernel,
and nothing clears the bit of a frame. So it undoes nothing.

The calls are those without `PAL_ASSERT`, with which the kernel stops where `palloc_page` returns a null pointer here.
-/

namespace Asg1
namespace Frame

open Pte Pagedir

/-! ## The functions -/

/-- `BITMAP_ERROR`, which is `SIZE_MAX`. -/
def BITMAP_ERROR : Nat := 2 ^ 32 - 1

/-- `page_idx` in `palloc_page`. -/
def pageIdx (t : FrameTable) : Nat := (scan t.usedMap).getD BITMAP_ERROR

/-- What the world answers while `palloc_page` runs: a page for a page table, and the word before the array of frames. -/
structure Answer where
  page : Option Word
  stray : Word

/-- The loop of `palloc_multiple`, with an answer for each page. -/
def pallocLoop (m : Machine) (pid : Nat) (pd : Word) (writable : Bool) :
    State → Word → List Answer → Option (State × Bool)
  | s, _, [] => some (s, true)
  | s, upage, a :: rest =>
    (pallocPage m s pid pd upage writable a.page a.stray).bind fun x =>
      if x.2.isSome then pallocLoop m pid pd writable x.1 (upage + PGSIZE) rest else some (x.1, false)

/-- `palloc_multiple` for `answers.length` pages. -/
def pallocMultiple (m : Machine) (pid : Nat) (pd : Word) (writable : Bool) (s : State) (upage : Word)
    (answers : List Answer) : Option (State × Bool) :=
  if answers.length = 0 then some (s, false) else pallocLoop m pid pd writable s upage answers

/-- `palloc_free_umultiple`; `palloc_free_upage` is one round of its loop. -/
def pallocFreeUmultiple (pd : Word) : Ram → Word → Nat → Option Ram
  | r, _, 0 => some r
  | r, pages, cnt + 1 => (pallocFreeUpage r pd pages).bind fun r => pallocFreeUmultiple pd r (pages + PGSIZE) cnt

/-! ## What is expected of them -/

/-- **`palloc_page` is atomic**: it uses a frame that exists, returns, and changes nothing if it returns a null pointer. -/
structure PageAtomic (m : Machine) (s : State) (pid : Nat) (pd upage : Word) (writable : Bool) (a : Answer) : Prop where
  index : pageIdx s.table < m.poolSize
  returns : (pallocPage m s pid pd upage writable a.page a.stray).isSome
  failed : ∀ s', pallocPage m s pid pd upage writable a.page a.stray = some (s', none) → s' = s

/-- Every index that is used for a group is that of a frame. -/
def IndicesLt (m : Machine) (pid : Nat) (pd : Word) (writable : Bool) : State → Word → List Answer → Prop
  | _, _, [] => True
  | s, upage, a :: rest => pageIdx s.table < m.poolSize ∧
      ∀ s' kpage, pallocPage m s pid pd upage writable a.page a.stray = some (s', some kpage) →
        IndicesLt m pid pd writable s' (upage + PGSIZE) rest

/-- **`palloc_multiple` is atomic**: if it fails, no frame is taken and no page is mapped that was not before. -/
structure GroupAtomic (m : Machine) (s : State) (pid : Nat) (pd upage : Word) (writable : Bool) (answers : List Answer) :
    Prop where
  indices : IndicesLt m pid pd writable s upage answers
  returns : (pallocMultiple m pid pd writable s upage answers).isSome
  failed : ∀ s', pallocMultiple m pid pd writable s upage answers = some (s', false) →
    s'.table.usedMap = s.table.usedMap ∧ Unchanged s.dirs s.ram s'.ram

/-- **The condition.** A frame is free, the page is not mapped, and there is a page table or a page for one. -/
structure Provides (s : State) (pd upage : Word) (page : Option Word) : Prop where
  frame : (scan s.table.usedMap).isSome
  unmapped : pagedirGetPage s.ram pd upage = some none
  table : page.isSome ∨ ¬ NoTable s.ram pd upage

/-- The condition for each page of a group, in the state that the pages before it have left. -/
def ProvidesAll (m : Machine) (pid : Nat) (pd : Word) (writable : Bool) : State → Word → List Answer → Prop
  | _, _, [] => True
  | s, upage, a :: rest => Provides s pd upage a.page ∧
      ∀ s' kpage, pallocPage m s pid pd upage writable a.page a.stray = some (s', some kpage) →
        ProvidesAll m pid pd writable s' (upage + PGSIZE) rest

/-- The pages for page tables are new, and no page comes twice. -/
structure Supply (r : Ram) (answers : List Answer) : Prop where
  fresh : ∀ p ∈ answers.filterMap Answer.page, Fresh r p
  nodup : (answers.filterMap Answer.page).Nodup

/-! ## One page -/

section
variable {m : Machine} {s s' : State} {pid i : Nat} {pd upage kpage : Word} {writable : Bool} {a : Answer}
variable {page : Option Word} {r r' : Ram} {t : FrameTable}

theorem TableOk.pageIdx_lt (h : TableOk m t) : pageIdx t < m.poolSize ↔ (scan t.usedMap).isSome := by
  have hram := m.in_ram
  have hle := m.ram_le
  cases hscan : scan t.usedMap with
  | none =>
    simp only [pageIdx, hscan, Option.getD_none, Option.isSome_none, BITMAP_ERROR]
    constructor
    · intro hlt
      omega
    · intro hfalse
      cases hfalse
  | some i =>
    simp only [pageIdx, hscan, Option.getD_some, Option.isSome_some, iff_true]
    exact h.lt_poolSize (scan_eq_some hscan)

/-- The frame's bit is clear before and set after. -/
theorem TableOk.take_bit (h : TableOk m t) (hscan : scan t.usedMap = some i) (pid : Nat) (upage stray : Word) :
    t.usedMap[i]? = some false ∧ (t.take pid upage stray).1.usedMap[i]? = some true := by
  have hfree := scan_eq_some hscan
  obtain ⟨-, hused, -⟩ := h.take hscan pid upage stray
  refine ⟨hfree, ?_⟩
  rw [hused, List.getElem?_set_self (List.getElem?_eq_some_iff.mp hfree).1]

theorem take_none (hscan : scan t.usedMap = none) (pid : Nat) (upage stray : Word) :
    t.take pid upage stray = (t, stray) := by
  simp only [FrameTable.take, hscan]

/-- The table stays one of the machine's pool. -/
theorem TableOk.take_ok (h : TableOk m t) (pid : Nat) (upage stray : Word) : TableOk m (t.take pid upage stray).1 := by
  cases hscan : scan t.usedMap with
  | none =>
    rw [take_none hscan]
    exact h
  | some i =>
    obtain ⟨-, hused, hkpages⟩ := h.take hscan pid upage stray
    refine ⟨?_, hkpages⟩
    rw [hused, List.length_set]
    exact h.size

variable {j : Nat}

/-- Bits are only set. -/
theorem TableOk.take_keeps (h : TableOk m t) (pid : Nat) (upage stray : Word) :
    ((t.take pid upage stray).1.usedMap[j]? = some false → t.usedMap[j]? = some false) ∧
      (t.usedMap[j]? = some true → (t.take pid upage stray).1.usedMap[j]? = some true) := by
  cases hscan : scan t.usedMap with
  | none =>
    rw [take_none hscan]
    exact ⟨id, id⟩
  | some i =>
    obtain ⟨hfree, hset⟩ := h.take_bit hscan pid upage stray
    obtain ⟨-, hused, -⟩ := h.take hscan pid upage stray
    by_cases hij : i = j
    · subst hij
      rw [hfree, hset]
      simp
    · rw [hused, List.getElem?_set_ne hij]
      exact ⟨id, id⟩

/-- A frame can be mapped. -/
theorem Machine.setArgs_frame (haligned : pgOfs upage = 0#32) (huser : isUserVaddr upage) (hi : i < m.poolSize) :
    SetArgs m.toBoot upage (m.frame i) := by
  refine ⟨haligned, huser, m.frame_page hi, ?_⟩
  have hram := m.in_ram
  have hkernel := (m.frame_page hi).kernel
  have hnat := m.frame_toNat hi
  rw [isUserVaddr_iff, hnat] at hkernel
  have hbase : PHYS_BASE.toNat = 0xc0000000 := rfl
  have hle : PHYS_BASE ≤ m.frame i := by
    rw [BitVec.le_def, hbase]
    omega
  rw [frameNo, BitVec.toNat_ushiftRight, BitVec.toNat_sub_of_le hle, hnat, hbase, PTSHIFT, Nat.shiftRight_eq_div_pow]
  omega

/-- Pages are only handed out for page tables. -/
theorem lookupPage_taken {va : Word} {create : Bool} {pte : Option Word}
    (h : lookupPage r pd va create page = some (r', pte)) : ∀ q ∈ r'.taken, q ∈ r.taken ∨ page = some q := by
  obtain ⟨-, h⟩ := of_assert h
  obtain ⟨-, h⟩ := of_assert h
  simp only at h
  split at h
  · obtain ⟨_, -, h⟩ := Option.bind_eq_some_iff.mp h
    cases h
    exact fun q hq => .inl hq
  · split at h
    · cases page with
      | none =>
        cases h
        exact fun q hq => .inl hq
      | some pt =>
        obtain ⟨_, -, h⟩ := Option.bind_eq_some_iff.mp h
        obtain ⟨_, -, h⟩ := Option.bind_eq_some_iff.mp h
        cases h
        intro q hq
        rcases List.mem_cons.mp hq with rfl | hq
        · exact .inr rfl
        · exact .inl hq
    · cases h
      exact fun q hq => .inl hq

variable {k : Boot} {result : Option Word} {rest : List Answer}

theorem setPage_taken {b : Bool} (h : pagedirSetPage k r pd upage kpage writable page = some (r', b)) :
    ∀ q ∈ r'.taken, q ∈ r.taken ∨ page = some q := by
  obtain ⟨-, h⟩ := of_assert h
  obtain ⟨-, h⟩ := of_assert h
  obtain ⟨-, h⟩ := of_assert h
  obtain ⟨_, -, h⟩ := Option.bind_eq_some_iff.mp h
  obtain ⟨-, h⟩ := of_assert h
  obtain ⟨-, h⟩ := of_assert h
  obtain ⟨⟨r₁, pte⟩, hlook, hset⟩ := Option.bind_eq_some_iff.mp h
  have htaken := lookupPage_taken hlook
  cases pte with
  | none =>
    cases hset
    exact htaken
  | some pte =>
    obtain ⟨-, hset⟩ := of_assert hset
    obtain ⟨_, -, hset⟩ := Option.bind_eq_some_iff.mp hset
    cases hset
    exact htaken

/-- A page is only mapped with a table for it. -/
theorem Ok.table_of_set {dirs : List Word} (ok : Ok k dirs r) (hpd : pd ∈ dirs)
    (hset : pagedirSetPage k r pd upage kpage writable page = some (r', true)) :
    page.isSome ∨ ¬ NoTable r pd upage := by
  cases page with
  | some p => exact .inl rfl
  | none =>
    refine .inr fun hno => ?_
    have args := setArgs_of_some hset
    have hne := ok.ne_zero hpd
    rcases ok.table_cases hpd args.user with ⟨hzero, -⟩ | ⟨pt, hpage, hpde, -⟩
    · rw [args.pagedirSetPage (ok.ne_init hpd)] at hset
      simp [lookupPage, guard, hne, args.user, hzero, setEntry] at hset
    · simp [NoTable, lookupPage, guard, hne, entryAddr, hpde, pdeOf_ne_zero, pdeGetPt_pdeOf hpage] at hno

/-- What `palloc_page` has done when it returns. -/
structure Palloced (m : Machine) (s s' : State) (pid : Nat) (pd upage : Word) (writable : Bool) (a : Answer)
    (result : Option Word) : Prop where
  sound : Sound m s'
  table : s'.table = (s.table.take pid upage a.stray).1
  procs : s'.procs = s.procs
  taken : ∀ q ∈ s'.ram.taken, q ∈ s.ram.taken ∨ a.page = some q
  failed : result = none → s'.ram = s.ram ∧ ¬ (pagedirGetPage s.ram pd upage = some none ∧
    (a.page.isSome ∨ ¬ NoTable s.ram pd upage))
  mapped : ∀ kpage, result = some kpage → kpage = (s.table.take pid upage a.stray).2 ∧
    pagedirGetPage s.ram pd upage = some none ∧ (a.page.isSome ∨ ¬ NoTable s.ram pd upage) ∧ isUserVaddr upage ∧
    pgOfs upage = 0#32 ∧ KernelPage kpage ∧ Changes s.dirs s.ram s'.ram pd upage (pteOf kpage writable)

section
variable (h : Sound m s) (hpd : pd ∈ s.dirs) (fresh : ∀ p ∈ a.page, Fresh s.ram p)
include h hpd fresh

/-- **`palloc_page`** -/
theorem Sound.palloced
    (hrun : pallocPage m s pid pd upage writable a.page a.stray = some (s', result)) :
    Palloced m s s' pid pd upage writable a result := by
  have htable := h.table.take_ok pid upage a.stray
  obtain ⟨⟨ram, success⟩, hinstall, hret⟩ := Option.bind_eq_some_iff.mp hrun
  obtain ⟨found, hget, hinstall⟩ := Option.bind_eq_some_iff.mp hinstall
  cases found with
  | some p =>
    -- the page is mapped already
    cases hinstall
    cases hret
    refine ⟨⟨h.ok, htable⟩, rfl, rfl, fun q hq => .inl hq, fun _ => ⟨rfl, ?_⟩, ?_⟩
    · rintro ⟨hnone, -⟩
      rw [hget] at hnone
      cases hnone
    · intro kpage hk
      cases hk
  | none =>
    have hset : pagedirSetPage m.toBoot s.ram pd upage (s.table.take pid upage a.stray).2 writable a.page =
        some (ram, success) := hinstall
    have args := setArgs_of_some hset
    have htaken := setPage_taken hset
    rcases h.ok.setPage hpd fresh hset with ⟨rfl, rfl, hnone, hlook, -⟩ | ⟨rfl, ok, changes⟩
    · cases hret
      refine ⟨⟨h.ok, htable⟩, rfl, rfl, htaken, fun _ => ⟨rfl, ?_⟩, ?_⟩
      · rintro ⟨-, hsome | hyes⟩
        · rw [hnone] at hsome
          cases hsome
        · exact hyes (by rw [NoTable, hlook]; rfl)
      · intro kpage hk
        cases hk
    · cases hret
      refine ⟨⟨ok, htable⟩, rfl, rfl, htaken, ?_, ?_⟩
      · intro hnone
        cases hnone
      · intro kpage hk
        cases hk
        exact ⟨rfl, hget, Ok.table_of_set h.ok hpd hset, args.user, args.aligned, args.kernel, changes⟩

/-- It returns if a frame is free and the address is one of the user's that can be looked up. -/
theorem Sound.palloc_returns (haligned : pgOfs upage = 0#32) (hscan : scan s.table.usedMap = some i)
    (hget : pagedirGetPage s.ram pd upage = some none) :
    (pallocPage m s pid pd upage writable a.page a.stray).isSome := by
  have huser : isUserVaddr upage := (of_assert hget).1
  have hi := h.table.lt_poolSize (scan_eq_some hscan)
  obtain ⟨hkpage, -⟩ := h.table.take hscan pid upage a.stray
  have hreturns : (pagedirSetPage m.toBoot s.ram pd upage (m.frame i) writable a.page).isSome :=
    h.ok.setPage_returns hpd (m.setArgs_frame haligned huser hi) (h.unmapped hpd huser hget) fresh
  obtain ⟨⟨ram, success⟩, hset⟩ := Option.isSome_iff_exists.mp hreturns
  have hinstall : installPage m.toBoot s.ram pd upage (s.table.take pid upage a.stray).2 writable a.page =
      some (ram, success) := by
    rw [installPage, hget, hkpage]
    exact hset
  show ((installPage m.toBoot s.ram pd upage (s.table.take pid upage a.stray).2 writable a.page).bind _).isSome
  rw [hinstall]
  rfl

/-- **`palloc_page` is atomic just when it does not fail.** -/
theorem Sound.pageAtomic_iff (haligned : pgOfs upage = 0#32) :
    PageAtomic m s pid pd upage writable a ↔ Provides s pd upage a.page := by
  constructor
  · intro hatomic
    have hframe := h.table.pageIdx_lt.mp hatomic.index
    obtain ⟨i, hscan⟩ := Option.isSome_iff_exists.mp hframe
    obtain ⟨⟨s', result⟩, hrun⟩ := Option.isSome_iff_exists.mp hatomic.returns
    have hdone := h.palloced hpd fresh hrun
    cases result with
    | some kpage =>
      obtain ⟨-, hget, htable, -⟩ := hdone.mapped kpage rfl
      exact ⟨hframe, hget, htable⟩
    | none =>
      -- the bit of the frame is set, although nothing should have changed
      obtain ⟨hfree, hset⟩ := h.table.take_bit hscan pid upage a.stray
      rw [← hdone.table, hatomic.failed s' hrun, hfree] at hset
      cases hset
  · intro hprovides
    obtain ⟨i, hscan⟩ := Option.isSome_iff_exists.mp hprovides.frame
    refine ⟨h.table.pageIdx_lt.mpr hprovides.frame, h.palloc_returns hpd fresh haligned hscan hprovides.unmapped, ?_⟩
    intro s' hrun
    exact absurd ⟨hprovides.unmapped, hprovides.table⟩ ((h.palloced hpd fresh hrun).failed rfl).2

/-- A page that can be provided is provided. -/
theorem Sound.provided (haligned : pgOfs upage = 0#32) (hprovides : Provides s pd upage a.page) :
    ∃ s' kpage, pallocPage m s pid pd upage writable a.page a.stray = some (s', some kpage) := by
  obtain ⟨i, hscan⟩ := Option.isSome_iff_exists.mp hprovides.frame
  have hreturns : (pallocPage m s pid pd upage writable a.page a.stray).isSome :=
    h.palloc_returns hpd fresh haligned hscan hprovides.unmapped
  obtain ⟨⟨s', result⟩, hrun⟩ := Option.isSome_iff_exists.mp hreturns
  cases result with
  | some kpage => exact ⟨s', kpage, hrun⟩
  | none => exact absurd ⟨hprovides.unmapped, hprovides.table⟩ ((h.palloced hpd fresh hrun).failed rfl).2

end

/-! ## Groups -/

/-- A frame has been taken. -/
def TookFrame (s s' : State) : Prop := ∃ i : Nat, s.table.usedMap[i]? = some false ∧ s'.table.usedMap[i]? = some true

theorem Supply.head (h : Supply r (a :: rest)) : ∀ p ∈ a.page, Fresh r p := by
  intro p hp
  apply h.fresh
  have hpage : a.page = some p := hp
  simp [hpage]

/-- What has not been used up is still new. -/
theorem Supply.tail (h : Supply r (a :: rest))
    (htaken : ∀ q ∈ r'.taken, q ∈ r.taken ∨ a.page = some q) : Supply r' rest := by
  have hsub : rest.filterMap Answer.page ⊆ (a :: rest).filterMap Answer.page := by
    intro p hp
    rw [List.filterMap_cons]
    split
    · exact hp
    · exact List.mem_cons_of_mem _ hp
  refine ⟨?_, ?_⟩
  · intro p hp
    refine ⟨(h.fresh p (hsub hp)).kernel, ?_⟩
    intro hold
    rcases htaken p hold with htaken | hpage
    · exact (h.fresh p (hsub hp)).new htaken
    · have hnodup := h.nodup
      rw [List.filterMap_cons, hpage] at hnodup
      exact (List.nodup_cons.mp hnodup).1 hp
  · have hnodup := h.nodup
    rw [List.filterMap_cons] at hnodup
    split at hnodup
    · exact hnodup
    · exact (List.nodup_cons.mp hnodup).2

theorem pgOfs_next (h : pgOfs upage = 0#32) : pgOfs (upage + PGSIZE) = 0#32 := by
  have hsize : PGSIZE.toNat = 4096 := rfl
  rw [pgOfs_eq_zero] at h ⊢
  rw [BitVec.toNat_add, hsize]
  omega

theorem Palloced.dirs (h : Palloced m s s' pid pd upage writable a result) : s'.dirs = s.dirs := by
  rw [State.dirs, h.procs]
  rfl

/-- **The loop of `palloc_multiple`.** It goes through if every page can be provided. If not, and every index was that of
    a frame, then it fails with a frame taken. -/
theorem loop_cases (m : Machine) (pid : Nat) (pd : Word) (writable : Bool) : ∀ (answers : List Answer) {s : State} {upage : Word}, Sound m s → pd ∈ s.dirs →
    Supply s.ram answers → pgOfs upage = 0#32 →
    (ProvidesAll m pid pd writable s upage answers → IndicesLt m pid pd writable s upage answers ∧
      ∃ s', pallocLoop m pid pd writable s upage answers = some (s', true)) ∧
    (¬ ProvidesAll m pid pd writable s upage answers → IndicesLt m pid pd writable s upage answers →
      ∀ s' b, pallocLoop m pid pd writable s upage answers = some (s', b) → b = false ∧ TookFrame s s') := by
  intro answers
  induction answers with
  | nil => exact fun {s} _ _ _ _ _ => ⟨fun _ => ⟨trivial, s, rfl⟩, fun hno => absurd trivial hno⟩
  | cons a rest ih =>
    intro s upage h hpd hsupply haligned
    have fresh := hsupply.head
    have htail : ∀ {s₁ kpage}, pallocPage m s pid pd upage writable a.page a.stray = some (s₁, some kpage) →
        Sound m s₁ ∧ pd ∈ s₁.dirs ∧ Supply s₁.ram rest ∧
        pallocLoop m pid pd writable s upage (a :: rest) = pallocLoop m pid pd writable s₁ (upage + PGSIZE) rest := by
      intro s₁ kpage hrun
      have hdone := h.palloced hpd fresh hrun
      refine ⟨hdone.sound, hdone.dirs.symm ▸ hpd, hsupply.tail hdone.taken, ?_⟩
      rw [pallocLoop, hrun]
      rfl
    constructor
    · rintro ⟨hprovides, hnext⟩
      obtain ⟨s₁, kpage, hrun⟩ : ∃ s₁ kpage, pallocPage m s pid pd upage writable a.page a.stray = some (s₁, some kpage) :=
        h.provided hpd fresh haligned hprovides
      obtain ⟨h₁, hpd₁, hsupply₁, hloop⟩ := htail hrun
      obtain ⟨hindices, s', hloop'⟩ := (ih h₁ hpd₁ hsupply₁ (pgOfs_next haligned)).1 (hnext s₁ kpage hrun)
      refine ⟨⟨h.table.pageIdx_lt.mpr hprovides.frame, ?_⟩, s', hloop.trans hloop'⟩
      intro s₂ kpage₂ hrun₂
      rw [hrun] at hrun₂
      cases hrun₂
      exact hindices
    · rintro hno ⟨hidx, hindices⟩ s' b hloop
      have hframe := h.table.pageIdx_lt.mp hidx
      obtain ⟨i, hscan⟩ := Option.isSome_iff_exists.mp hframe
      obtain ⟨⟨s₁, result⟩, hrun, hrest⟩ := Option.bind_eq_some_iff.mp hloop
      have hdone := h.palloced hpd fresh hrun
      cases result with
      | none =>
        cases hrest
        obtain ⟨hfree, hset⟩ := h.table.take_bit hscan pid upage a.stray
        exact ⟨rfl, i, hfree, hdone.table ▸ hset⟩
      | some kpage =>
        obtain ⟨-, hget, htable, -⟩ := hdone.mapped kpage rfl
        obtain ⟨h₁, hpd₁, hsupply₁, -⟩ := htail hrun
        have hno₁ : ¬ ProvidesAll m pid pd writable s₁ (upage + PGSIZE) rest := by
          intro hall
          refine hno ⟨⟨hframe, hget, htable⟩, ?_⟩
          intro s₂ kpage₂ hrun₂
          rw [hrun] at hrun₂
          cases hrun₂
          exact hall
        obtain ⟨hb, j, hfree, hset⟩ := (ih h₁ hpd₁ hsupply₁ (pgOfs_next haligned)).2 hno₁ (hindices s₁ kpage hrun) s' b
          hrest
        exact ⟨hb, j, (h.table.take_keeps pid upage a.stray).1 (hdone.table ▸ hfree), hset⟩

/-- **`palloc_multiple` is atomic just when it does not fail**, or has nothing to do. -/
theorem Sound.groupAtomic_iff {answers : List Answer} (h : Sound m s) (hpd : pd ∈ s.dirs)
    (hsupply : Supply s.ram answers) (haligned : pgOfs upage = 0#32) :
    GroupAtomic m s pid pd upage writable answers ↔ ProvidesAll m pid pd writable s upage answers := by
  by_cases hempty : answers = []
  · subst hempty
    refine ⟨fun _ => trivial, fun _ => ⟨trivial, rfl, ?_⟩⟩
    intro s' hrun
    cases hrun
    exact ⟨rfl, fun _ _ _ _ => rfl⟩
  have hlength : ¬ answers.length = 0 := fun hzero => hempty (List.length_eq_zero_iff.mp hzero)
  have hmultiple : pallocMultiple m pid pd writable s upage answers = pallocLoop m pid pd writable s upage answers :=
    if_neg hlength
  obtain ⟨hall, hnot⟩ := loop_cases m pid pd writable answers h hpd hsupply haligned
  constructor
  · intro hatomic
    by_contra hno
    obtain ⟨⟨s', b⟩, hrun⟩ := Option.isSome_iff_exists.mp hatomic.returns
    have hloop : pallocLoop m pid pd writable s upage answers = some (s', b) := hmultiple.symm.trans hrun
    obtain ⟨rfl, i, hfree, hset⟩ := hnot hno hatomic.indices s' b hloop
    rw [(hatomic.failed s' hrun).1, hfree] at hset
    cases hset
  · intro hprovides
    obtain ⟨hindices, s', hloop⟩ := hall hprovides
    have hrun := hmultiple.trans hloop
    refine ⟨hindices, by rw [hrun]; rfl, ?_⟩
    intro s'' hfailed
    rw [hrun] at hfailed
    cases hfailed

end

/-- **Failure atomicity of user page allocation.** Whatever bits are set, whatever is mapped: `palloc_page` and
    `palloc_multiple` are atomic just when they do not fail. -/
theorem palloc_atomic_iff {m : Machine} {s : State} {pd : Word} (h : Sound m s) (hpd : pd ∈ s.dirs) (pid : Nat)
    {upage : Word} (haligned : pgOfs upage = 0#32) (writable : Bool) :
    (∀ a : Answer, (∀ p ∈ a.page, Fresh s.ram p) →
      (PageAtomic m s pid pd upage writable a ↔ Provides s pd upage a.page)) ∧
    ∀ answers, Supply s.ram answers →
      (GroupAtomic m s pid pd upage writable answers ↔ ProvidesAll m pid pd writable s upage answers) :=
  ⟨fun _ fresh => h.pageAtomic_iff hpd fresh haligned, fun _ hsupply => h.groupAtomic_iff hpd hsupply haligned⟩

/-- A process gets its second page. -/
theorem palloc_atomic_iff_second :
    ∃ s, Sound sixteenPages s ∧ 0xc0003000#32 ∈ s.dirs ∧
      PageAtomic sixteenPages s 1 0xc0003000#32 0x08049000#32 true ⟨none, 0#32⟩ ∧
      GroupAtomic sixteenPages s 1 0xc0003000#32 0x08049000#32 true [⟨none, 0#32⟩] := by
  obtain ⟨s, hruns, hfacts⟩ := runs_growing (loads 1 0xc0003000#32 0xc0004000#32)
    (fun s => decide (0xc0003000#32 ∈ s.dirs ∧ (scan s.table.usedMap).isSome = true ∧
      pagedirGetPage s.ram 0xc0003000#32 0x08049000#32 = some none ∧ ¬ NoTable s.ram 0xc0003000#32 0x08049000#32))
    (by decide +kernel)
  obtain ⟨hpd, hframe, hget, htable⟩ := of_decide_eq_true hfacts
  have h := (inv_of_runs hruns).sound
  have hprovides : Provides s 0xc0003000#32 0x08049000#32 none := ⟨hframe, hget, .inr htable⟩
  have hatomic := @palloc_atomic_iff sixteenPages s 0xc0003000#32 h hpd 1 0x08049000#32 (by decide) true
  refine ⟨s, h, hpd, (hatomic.1 ⟨none, 0#32⟩ ?_).mpr hprovides, (hatomic.2 [⟨none, 0#32⟩] ?_).mpr ?_⟩
  · intro p hp
    cases hp
  · exact ⟨by simp, by simp⟩
  · exact ⟨hprovides, fun _ _ _ => trivial⟩

/-- **A frame is lost for each page that is mapped already**, and what a group has got before it fails is kept. -/
theorem mapped_page_loses_frame :
    ∃ s s' s'', Sound sixteenPages s ∧ 0xc0003000#32 ∈ s.dirs ∧ s.table.usedMap = [true, false, false, false] ∧
      pallocPage sixteenPages s 1 0xc0003000#32 0x08048000#32 true none 0#32 = some (s', none) ∧
      s'.table.usedMap = [true, true, false, false] ∧
      pallocMultiple sixteenPages 1 0xc0003000#32 true s 0x08047000#32 [⟨some 0xc0007000#32, 0#32⟩, ⟨none, 0#32⟩] =
        some (s'', false) ∧
      s''.table.usedMap = [true, true, true, false] ∧
      pagedirGetPage s''.ram 0xc0003000#32 0x08047000#32 = some (some 0xc000a000#32) := by
  obtain ⟨s, hruns, hfacts⟩ := runs_growing (loads 1 0xc0003000#32 0xc0004000#32)
    (fun s => decide (0xc0003000#32 ∈ s.dirs ∧ s.table.usedMap = [true, false, false, false]) &&
      (pallocPage sixteenPages s 1 0xc0003000#32 0x08048000#32 true none 0#32).any (fun x : State × Option Word =>
        decide (x.2 = none ∧ x.1.table.usedMap = [true, true, false, false])) &&
      (pallocMultiple sixteenPages 1 0xc0003000#32 true s 0x08047000#32 [⟨some 0xc0007000#32, 0#32⟩, ⟨none, 0#32⟩]).any
        (fun x : State × Bool => decide (x.2 = false ∧ x.1.table.usedMap = [true, true, true, false] ∧
          pagedirGetPage x.1.ram 0xc0003000#32 0x08047000#32 = some (some 0xc000a000#32))))
    (by decide +kernel)
  simp only [Bool.and_eq_true] at hfacts
  obtain ⟨⟨hs, hpage⟩, hgroup⟩ := hfacts
  obtain ⟨hpd, hbits⟩ := of_decide_eq_true hs
  obtain ⟨⟨s', result⟩, hpage, hx⟩ := (Option.any_eq_true _ _).mp hpage
  obtain ⟨rfl, hbits'⟩ := of_decide_eq_true hx
  obtain ⟨⟨s'', b⟩, hgroup, hx⟩ := (Option.any_eq_true _ _).mp hgroup
  obtain ⟨rfl, hbits'', hget⟩ := of_decide_eq_true hx
  exact ⟨s, s', s'', (inv_of_runs hruns).sound, hpd, hbits, hpage, hbits', hgroup, hbits'', hget⟩

/-! ## Freeing -/

/-- Page `i` of the group that starts at `upage`. -/
def pageAt (upage : Word) (i : Nat) : Word := upage + BitVec.ofNat 32 i * PGSIZE

/-- **What freeing should do** to the state `s` that the allocation has left: the frames of the group are free again, its
    pages are not mapped, and every other frame, entry and page of the kernel is as it was. -/
structure Undone (m : Machine) (s s' : State) (pd upage : Word) (cnt : Nat) : Prop where
  freed : ∀ i < cnt, ∃ j < m.poolSize, pagedirGetPage s.ram pd (pageAt upage i) = some (some (m.frame j)) ∧
    s'.table.usedMap[j]? = some false
  others : ∀ j < m.poolSize, (∀ i < cnt, pagedirGetPage s.ram pd (pageAt upage i) ≠ some (some (m.frame j))) →
    s'.table.usedMap[j]? = s.table.usedMap[j]?
  unmapped : ∀ i < cnt, pagedirGetPage s'.ram pd (pageAt upage i) = some none
  entries : ∀ pd' ∈ s.dirs, ∀ va, isUserVaddr va → ¬ (pd' = pd ∧ ∃ i < cnt, pgRoundDown va = pageAt upage i) →
    view s'.ram pd' va = view s.ram pd' va
  pages : s'.ram.taken = s.ram.taken

/-- `palloc_free_umultiple` completes, and does what it should. -/
def FreeUndoes (m : Machine) (s : State) (pd upage : Word) (cnt : Nat) : Prop :=
  ∃ r, pallocFreeUmultiple pd s.ram upage cnt = some r ∧ Undone m s { s with ram := r } pd upage cnt

section
variable {m : Machine} {s s' : State} {pid : Nat} {pd upage : Word} {writable : Bool} {a : Answer}

/-- With no bit clear, every bit is set. -/
theorem used_of_scan_none {usedMap : List Bool} (h : scan usedMap = none) (hj : j < usedMap.length) :
    usedMap[j]? = some true := by
  have hset := List.findIdx?_eq_none_iff.mp h usedMap[j] (List.getElem_mem hj)
  rw [List.getElem?_eq_getElem hj]
  simpa using hset

/-- The page that has been allocated is mapped, and if it is mapped to a frame then the frame's bit is set. -/
theorem Palloced.used {kpage : Word} (h : Sound m s) (hpd : pd ∈ s.dirs)
    (hdone : Palloced m s s' pid pd upage writable a (some kpage)) :
    view s'.ram pd upage = pteOf kpage writable ∧
      ∀ j < m.poolSize, pagedirGetPage s'.ram pd upage = some (some (m.frame j)) → s'.table.usedMap[j]? = some true := by
  obtain ⟨hkpage, -, -, huser, haligned, hkernel, changes⟩ := hdone.mapped kpage rfl
  have hview : view s'.ram pd upage = pteOf kpage writable := by
    rw [changes pd hpd upage huser, if_pos ⟨rfl, rfl⟩]
  refine ⟨hview, ?_⟩
  intro j hj hget
  rw [hdone.table]
  cases hscan : scan s.table.usedMap with
  | none =>
    apply (h.table.take_keeps pid upage a.stray).2
    exact used_of_scan_none hscan (by rw [h.table.size]; exact hj)
  | some i =>
    obtain ⟨hframe, -⟩ := h.table.take hscan pid upage a.stray
    have hi := h.table.lt_poolSize (scan_eq_some hscan)
    have hpage : pagedirGetPage s'.ram pd upage = some (some kpage) := by
      rw [hdone.sound.ok.getPage (hdone.dirs.symm ▸ hpd) huser, hview, if_neg (pteOf_present _ _), pteGetPage,
        pteOf_addr hkernel, hkernel.ptov, haligned, Option.map_some, BitVec.add_zero]
    rw [hget, hkpage, hframe] at hpage
    cases m.frame_inj hj hi (Option.some.inj (Option.some.inj hpage))
    exact (h.table.take_bit hscan pid upage a.stray).2

/-- What the rest of a group leaves alone: pages that are mapped, and bits that are set. -/
theorem loop_keeps (m : Machine) (pid : Nat) (pd : Word) (writable : Bool) : ∀ (answers : List Answer) {s s' : State}
    {upage : Word} {b : Bool}, Sound m s → pd ∈ s.dirs → Supply s.ram answers →
    pallocLoop m pid pd writable s upage answers = some (s', b) → Sound m s' ∧ s'.dirs = s.dirs ∧
      (∀ va, isUserVaddr va → view s.ram pd va &&& PTE_P ≠ 0#32 → view s'.ram pd va = view s.ram pd va) ∧
      ∀ j : Nat, s.table.usedMap[j]? = some true → s'.table.usedMap[j]? = some true := by
  intro answers
  induction answers with
  | nil =>
    intro s s' upage b h _ _ hloop
    cases hloop
    exact ⟨h, rfl, fun _ _ _ => rfl, fun _ hj => hj⟩
  | cons a rest ih =>
    intro s s' upage b h hpd hsupply hloop
    obtain ⟨⟨s₁, result⟩, hrun, hrest⟩ := Option.bind_eq_some_iff.mp hloop
    have hdone := h.palloced hpd hsupply.head hrun
    have hbits : ∀ j : Nat, s.table.usedMap[j]? = some true → s₁.table.usedMap[j]? = some true := by
      intro j hj
      rw [hdone.table]
      exact (h.table.take_keeps pid upage a.stray).2 hj
    cases result with
    | none =>
      cases hrest
      refine ⟨hdone.sound, hdone.dirs, ?_, hbits⟩
      intro va _ _
      rw [(hdone.failed rfl).1]
    | some kpage =>
      obtain ⟨-, hget, -, huser, -, -, changes⟩ := hdone.mapped kpage rfl
      obtain ⟨hsound, hdirs, hviews, hbits'⟩ :=
        ih hdone.sound (hdone.dirs.symm ▸ hpd) (hsupply.tail hdone.taken) hrest
      refine ⟨hsound, hdirs.trans hdone.dirs, ?_, fun j hj => hbits' j (hbits j hj)⟩
      intro va hva hpresent
      -- the page that is set was not mapped
      have hsame : view s₁.ram pd va = view s.ram pd va := by
        rw [changes pd hpd va hva, if_neg]
        rintro ⟨-, hpage⟩
        rw [view_congr hpage] at hpresent
        exact hpresent (h.unmapped hpd huser hget)
      rw [hviews va hva (by rw [hsame]; exact hpresent), hsame]

/-- No freeing clears the bit of the first page's frame. -/
theorem not_undone (hused : ∀ j < m.poolSize,
    pagedirGetPage s.ram pd upage = some (some (m.frame j)) → s.table.usedMap[j]? = some true) (cnt : Nat) :
    ¬ FreeUndoes m s pd upage (cnt + 1) := by
  rintro ⟨r, -, hundone⟩
  obtain ⟨j, hj, hget, hfree⟩ := hundone.freed 0 (Nat.succ_pos cnt)
  have hfirst : pageAt upage 0 = upage := by simp [pageAt]
  rw [hfirst] at hget
  have hset := hused j hj hget
  rw [show s.table.usedMap[j]? = some false from hfree] at hset
  cases hset

end

/-- **Freeing undoes allocating only where there is nothing to free.** After `palloc_page` has succeeded,
    `palloc_free_upage` never undoes it; after it has succeeded for each page of a group, `palloc_free_umultiple` undoes it
    just when the group is empty. -/
theorem free_undoes_iff {m : Machine} {s₀ : State} {pd : Word} (h : Sound m s₀) (hpd : pd ∈ s₀.dirs) (pid : Nat)
    (upage : Word) (writable : Bool) :
    (∀ (a : Answer) s kpage, (∀ p ∈ a.page, Fresh s₀.ram p) →
      pallocPage m s₀ pid pd upage writable a.page a.stray = some (s, some kpage) → ¬ FreeUndoes m s pd upage 1) ∧
    ∀ answers s, Supply s₀.ram answers → pallocLoop m pid pd writable s₀ upage answers = some (s, true) →
      (FreeUndoes m s pd upage answers.length ↔ answers.length = 0) := by
  refine ⟨?_, ?_⟩
  · intro a s kpage fresh hrun
    have hdone := h.palloced hpd fresh hrun
    exact not_undone (hdone.used h hpd).2 0
  · intro answers s hsupply hloop
    cases answers with
    | nil =>
      cases hloop
      refine ⟨fun _ => rfl, fun _ => ⟨s₀.ram, rfl, ?_⟩⟩
      exact ⟨by simp, fun _ _ _ => rfl, by simp, fun _ _ _ _ _ => rfl, rfl⟩
    | cons a rest =>
      refine ⟨fun hundoes => ?_, fun hzero => by cases hzero⟩
      obtain ⟨⟨s₁, result⟩, hrun, hrest⟩ := Option.bind_eq_some_iff.mp hloop
      have hdone := h.palloced hpd hsupply.head hrun
      cases result with
      | none => cases hrest
      | some kpage =>
        obtain ⟨-, -, -, huser, -, -, -⟩ := hdone.mapped kpage rfl
        obtain ⟨hview, hused⟩ := hdone.used h hpd
        have hpd₁ : pd ∈ s₁.dirs := hdone.dirs.symm ▸ hpd
        obtain ⟨hsound, hdirs, hviews, hbits⟩ :=
          loop_keeps m pid pd writable rest hdone.sound hpd₁ (hsupply.tail hdone.taken) hrest
        refine absurd hundoes (not_undone ?_ _)
        intro j hj hget
        apply hbits
        apply hused j hj
        -- the first page is still mapped as it was
        have hsame := hviews upage huser (by rw [hview]; exact pteOf_present _ _)
        rw [hdone.sound.ok.getPage hpd₁ huser, ← hsame, ← hsound.ok.getPage (hdirs.symm ▸ hpd₁) huser]
        exact hget

/-- A group of no pages. -/
theorem free_undoes_iff_empty :
    ∃ s, Sound sixteenPages s ∧ 0xc0003000#32 ∈ s.dirs ∧ FreeUndoes sixteenPages s 0xc0003000#32 0x08048000#32 0 := by
  obtain ⟨s, hruns, hfacts⟩ := runs_growing (loads 1 0xc0003000#32 0xc0004000#32)
    (fun s => decide (0xc0003000#32 ∈ s.dirs)) (by decide +kernel)
  have hpd : 0xc0003000#32 ∈ s.dirs := of_decide_eq_true hfacts
  have h := (inv_of_runs hruns).sound
  refine ⟨s, h, hpd, ((free_undoes_iff h hpd 1 0x08048000#32 true).2 [] s ?_ rfl).mpr rfl⟩
  exact ⟨by simp, by simp⟩

/-- **Freeing a page fails an assertion, or frees the page table.** For the page at index 72 of its table the address of the
    entry is not that of a page; for the page at index 0 it is that of the table, which is given back although it is
    in use, and the frame is not. -/
theorem free_upage_frees_other_pages :
    ∃ s s₁ s₂ s₃ k₁ k₂, Sound sixteenPages s ∧ 0xc0003000#32 ∈ s.dirs ∧
      pallocPage sixteenPages s 1 0xc0003000#32 0x08048000#32 true (some 0xc0004000#32) 0#32 = some (s₁, some k₁) ∧
      pallocFreeUmultiple 0xc0003000#32 s₁.ram 0x08048000#32 1 = none ∧
      pallocPage sixteenPages s 1 0xc0003000#32 0x08000000#32 true (some 0xc0004000#32) 0#32 = some (s₂, some k₂) ∧
      pallocFreeUmultiple 0xc0003000#32 s₂.ram 0x08000000#32 1 = some s₃ ∧
      s₂.table.usedMap = [true, false, false, false] ∧ 0xc0004000#32 ∈ s₂.ram.taken ∧ 0xc0004000#32 ∉ s₃.taken := by
  obtain ⟨s, hruns, hfacts⟩ := runs_growing [.load 1 (some 0xc0003000#32)]
    (fun s => decide (0xc0003000#32 ∈ s.dirs) &&
      (pallocPage sixteenPages s 1 0xc0003000#32 0x08048000#32 true (some 0xc0004000#32) 0#32).any
        (fun x : State × Option Word => x.2.isSome &&
          (pallocFreeUmultiple 0xc0003000#32 x.1.ram 0x08048000#32 1).isNone) &&
      (pallocPage sixteenPages s 1 0xc0003000#32 0x08000000#32 true (some 0xc0004000#32) 0#32).any
        (fun x : State × Option Word => x.2.isSome &&
          (pallocFreeUmultiple 0xc0003000#32 x.1.ram 0x08000000#32 1).any (fun r : Ram =>
            decide (x.1.table.usedMap = [true, false, false, false] ∧ 0xc0004000#32 ∈ x.1.ram.taken ∧
              0xc0004000#32 ∉ r.taken))))
    (by decide +kernel)
  simp only [Bool.and_eq_true] at hfacts
  obtain ⟨⟨hpd, hfirst⟩, hsecond⟩ := hfacts
  obtain ⟨⟨s₁, r₁⟩, hrun₁, hx⟩ := (Option.any_eq_true _ _).mp hfirst
  obtain ⟨⟨s₂, r₂⟩, hrun₂, hy⟩ := (Option.any_eq_true _ _).mp hsecond
  obtain ⟨hsome₁, hnone⟩ := Bool.and_eq_true_iff.mp hx
  obtain ⟨hsome₂, hany⟩ := Bool.and_eq_true_iff.mp hy
  obtain ⟨s₃, hfree, hfacts⟩ := (Option.any_eq_true _ _).mp hany
  obtain ⟨hbits, htaken, hgone⟩ := of_decide_eq_true hfacts
  obtain ⟨k₁, rfl⟩ := Option.isSome_iff_exists.mp hsome₁
  obtain ⟨k₂, rfl⟩ := Option.isSome_iff_exists.mp hsome₂
  exact ⟨s, s₁, s₂, s₃, k₁, k₂, (inv_of_runs hruns).sound, of_decide_eq_true hpd, hrun₁,
    Option.isNone_iff_eq_none.mp hnone, hrun₂, hfree, hbits, htaken, hgone⟩

end Frame
end Asg1
