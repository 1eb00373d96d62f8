import Asg1.Lib.Lts
import Asg1.Threads.Calls

/-!
# `Threads.HeapRuns` — the heap in every run of calls

`Sound` says what users of the heap rely on, in terms of memory alone: allocated blocks do not overlap and have the size
that was asked for, and the headers and free lists account for all other blocks. It holds after `malloc_init` and in every
state that calls lead to, as long as blocks are freed once and the page allocator hands out pages that are free.
-/

namespace Asg1
namespace Malloc

open Word Flat Kernel

variable {h h' : Heap} {live : List (Nat × Nat)} {g : Layout} {a : Nat × Nat} {b p i n cap : Nat} {pager : Pager}

/-! ## `malloc_init` -/

/-- The first `i` descriptors are initialised. -/
structure Booting (h : Heap) (descs i : Nat) : Prop where
  data : h.descs = descs
  cnt : h.descCnt = i
  taken : h.taken = []
  desc : ∀ j < i, ld h.mem (descAt descs j) = classSize j ∧ ld h.mem (descAt descs j + 4) = classCount j
  lists : ∀ j < i, IsList h.mem (freeList (descAt descs j)) []

theorem mallocInitLoop_run {descs : Nat} (hdata : descs ≠ 0 ∧ descs + 480 ≤ 4294967296) (k i : Nat) (hk : i + k = CLASSES)
    (hb : Booting h descs i) :
    ∃ h', mallocInitLoop (k + 3) (classSize i) h = some ((), h') ∧ Booting h' descs CLASSES := by
  have hclasses : CLASSES = 7 := rfl
  -- on the descriptors that are left
  induction k generalizing i h with
  | zero =>
    obtain rfl : i = CLASSES := by omega
    exact ⟨h, rfl, hb⟩
  | succ k ih =>
    have hi : i < CLASSES := by omega
    have hat := descAt_eq descs i
    have hle := classSize_le hi
    have hmany := classCount_le i
    have hplaced : IsCell (freeList (descAt descs i)) ∧ IsCell (tailOf (freeList (descAt descs i))) := by
      unfold IsCell tailOf freeList
      omega
    obtain ⟨m₁, hm₁⟩ : ∃ m₁, m₁ = st (st h.mem (descAt descs i) (classSize i)) (descAt descs i + 4) (classCount i) :=
      ⟨_, rfl⟩
    obtain ⟨m₂, hinit, hlist, hoff⟩ := @listInit_run m₁ _ hplaced.1 hplaced.2
    have hsame₁ : ∀ x n, x + n ≤ descAt descs i ∨ descAt descs i + 8 ≤ x → SameAt h.mem m₁ x n := by
      intro x n hxn
      rw [hm₁]
      exact (sameAt_st (by omega)).trans (sameAt_st (by omega))
    have hsame₂ : ∀ x n, x + n ≤ descAt descs i + 8 ∨ descAt descs i + 24 ≤ x → SameAt m₁ m₂ x n := by
      intro x n hxn
      refine hoff x n ?_
      intro c hc
      have hcases : c = descAt descs i + 8 ∨ c = descAt descs i + 16 := by simpa [freeList, tailOf] using hc
      omega
    -- the descriptors before this one are as they were
    have hold : ∀ j < i, SameAt h.mem m₂ (descAt descs j) 24 := by
      intro j hj
      have hat' := descAt_eq descs j
      exact (hsame₁ _ _ (by omega)).trans (hsame₂ _ _ (by omega))
    have hnext : Booting { h with mem := m₂, descCnt := i + 1 } descs (i + 1) := by
      refine ⟨hb.data, rfl, hb.taken, ?_, ?_⟩
      · intro j hj
        by_cases hji : j = i
        · subst hji
          refine ⟨(hsame₂ _ 4 (by omega)).ld_eq.trans ?_, (hsame₂ _ 4 (by omega)).ld_eq.trans ?_⟩
          · rw [hm₁, ld_st_other (by omega), ld_st_self (by omega)]
          · rw [hm₁, ld_st_self (by omega)]
        · have hsame := hold j (by omega)
          obtain ⟨hsize, hcount⟩ := hb.desc j (by omega)
          exact ⟨(hsame.sub (Nat.le_refl _) (by omega)).ld_eq.trans hsize,
            (hsame.sub (by omega) (by omega)).ld_eq.trans hcount⟩
      · intro j hj
        by_cases hji : j = i
        · subst hji
          exact hlist
        · refine (hb.lists j (by omega)).frame ?_
          intro c hc
          have hcases : c = descAt descs j + 8 ∨ c = descAt descs j + 16 := by simpa [cells, freeList, tailOf] using hc
          exact (hold j (by omega)).sub (by omega) (by omega)
    obtain ⟨h', hrun, hdone⟩ := ih (i + 1) (by omega) hnext
    refine ⟨h', ?_, hdone⟩
    have hdouble : classSize i * 2 = classSize (i + 1) := by
      unfold classSize
      rw [Nat.pow_succ, Nat.mul_assoc]
    have hsmall : classSize i < PGSIZE / 2 := Nat.lt_of_le_of_lt hle (by decide)
    have hcnt : h.descCnt + 1 ≤ 10 := by
      rw [hb.cnt]
      omega
    have hd : h.descs + DESC_SIZE * h.descCnt = descAt descs i := by
      rw [hb.data, hb.cnt]
      rfl
    unfold mallocInitLoop
    rw [if_pos hsmall]
    refine (Proc.bind_run rfl).trans ((Proc.bind_run rfl).trans ((Proc.bind_run (Proc.assert_run hcnt _)).trans
      ((Proc.bind_run rfl).trans ((Proc.bind_run rfl).trans ?_))))
    rw [hd, hb.cnt, hdouble]
    rw [hm₁] at hinit
    exact (Proc.bind_run (onMem_run hinit)).trans hrun

/-- The heap before `malloc_init`. -/
structure Unused (h : Heap) : Prop where
  data : h.descs ≠ 0 ∧ h.descs + 480 ≤ 4294967296
  cnt : h.descCnt = 0
  taken : h.taken = []

/-- **`malloc_init`** makes an empty heap. -/
theorem mallocInit_run (hu : Unused h) :
    ∃ h', mallocInit h = some ((), h') ∧ Inv h' [] ⟨fun _ => none, fun _ => []⟩ := by
  have hnone : Booting h h.descs 0 := ⟨rfl, hu.cnt, hu.taken, nofun, nofun⟩
  obtain ⟨h', hrun, hb⟩ := mallocInitLoop_run hu.data CLASSES 0 rfl hnone
  obtain ⟨m, descs, cnt, taken⟩ := h'
  obtain rfl : descs = h.descs := hb.data
  obtain rfl : taken = [] := hb.taken
  have hshape : Shape h.descs [] [] ⟨fun _ => none, fun _ => []⟩ :=
    ⟨⟨hu.data, nofun, List.Pairwise.nil, nofun, fun _ _ _ hb => nomatch hb⟩, fun _ _ => List.nodup_nil, nofun,
      List.nodup_nil, nofun, fun _ _ _ hb => nomatch hb.taken⟩
  exact ⟨_, hrun, ⟨hb.cnt, hshape, ⟨hb.desc, hb.lists, nofun, nofun⟩, nofun⟩, nofun⟩

/-! ## What users rely on -/

/-- What `block_size` says of a block. -/
def Capacity (h : Heap) (b cap : Nat) : Prop := blockSize b h = some (cap, h)

/-- The arena belongs to descriptor `i`. -/
def Small (h : Heap) (a : Nat × Nat) (i : Nat) : Prop := i < CLASSES ∧ ld h.mem (a.1 + 4) = descAt h.descs i

/-- The free lists, in memory, have these elements, and they account for the blocks of the small arenas. -/
structure Accounted (s : Sys) (free : Nat → List Nat) : Prop where
  lists : ∀ i < CLASSES, IsList s.heap.mem (freeList (descAt s.heap.descs i)) (free i)
  elems : ∀ i < CLASSES, ∀ b ∈ free i, ∃ a ∈ s.heap.taken, Small s.heap a i ∧ b ∈ blocksOf a.1 i
  counts : ∀ a ∈ s.heap.taken, ∀ i, Small s.heap a i →
    ld s.heap.mem (a.1 + 8) = (free i).countP (fun b => b ∈ blocksOf a.1 i)
  once : ∀ a ∈ s.heap.taken, ∀ i, Small s.heap a i → ∀ b ∈ blocksOf a.1 i, ∀ j < CLASSES,
    (free j).count b = if j = i ∧ b ∉ s.live.map Prod.fst then 1 else 0

/-- **What holds of the heap between calls.** -/
structure Sound (s : Sys) : Prop where
  sized : ∀ b ∈ s.live, ∃ cap, Capacity s.heap b.1 cap ∧ b.2 ≤ cap
  disjoint : s.live.Pairwise fun b b' => ∀ cap cap', Capacity s.heap b.1 cap → Capacity s.heap b'.1 cap' →
    b.1 + cap ≤ b'.1 ∨ b'.1 + cap' ≤ b.1
  headers : ∀ b ∈ s.live, ∀ cap, Capacity s.heap b.1 cap → ∀ a ∈ s.heap.taken, b.1 + cap ≤ a.1 ∨ a.1 + ARENA_SIZE ≤ b.1
  kinds : ∀ a ∈ s.heap.taken, ld s.heap.mem a.1 = ARENA_MAGIC ∧ (ld s.heap.mem (a.1 + 4) = 0 ∨ ∃ i, Small s.heap a i)
  accounted : ∃ free, Accounted s free
  used : ∀ a ∈ s.heap.taken, ∃ b ∈ s.live, pgRoundDown b.1 = a.1

/-- The descriptor of an arena says its class. -/
theorem Ready.small_iff (hr : Ready h live g) (ha : a ∈ h.taken) : Small h a i ↔ g.cls a.1 = some i := by
  have howner := hr.stored.owner a ha
  constructor
  · rintro ⟨hi, hdesc⟩
    rw [howner] at hdesc
    cases hcls : g.cls a.1 with
    | none =>
      rw [hcls] at hdesc
      exact absurd hdesc.symm (descAt_ne_zero hr.shape.toGround i)
    | some j =>
      rw [hcls] at hdesc
      have heq : descAt h.descs j = descAt h.descs i := hdesc
      rw [descAt_eq, descAt_eq] at heq
      obtain rfl : j = i := by omega
      rfl
  · intro hcls
    rw [hcls] at howner
    exact ⟨(hr.shape.small a ha i hcls).1, howner⟩

theorem Inv.accounted (hv : Inv h live g) : Accounted ⟨h, live⟩ g.free := by
  have hs := hv.shape
  have hblock : ∀ {a i b}, a ∈ h.taken → Small h a i → b ∈ blocksOf a.1 i → Block h.taken g b a.1 i := by
    intro a i b ha hsmall hb
    have hcls := (hv.small_iff ha).mp hsmall
    have hone : a = (a.1, 1) := Prod.ext rfl (hs.small a ha i hcls).2
    exact ⟨hone ▸ ha, hcls, hb⟩
  refine ⟨hv.stored.lists, ?_, ?_, ?_⟩
  · intro i hi b hb
    obtain ⟨p, hp⟩ := hs.freeBlock i hi b hb
    exact ⟨(p, 1), hp.taken, (hv.small_iff hp.taken).mpr hp.cls, hp.mem⟩
  · intro a ha i hsmall
    have hcls := (hv.small_iff ha).mp hsmall
    rw [hv.counted a ha]
    unfold freeCnt
    rw [hcls]
    refine List.countP_congr ?_
    intro b hb
    obtain ⟨q, hq⟩ := hs.freeBlock i hsmall.1 b hb
    rw [decide_eq_true_iff, decide_eq_true_iff]
    refine ⟨fun hpage => ?_, fun hin => block_page (hs.usable a ha).aligned hin⟩
    obtain rfl : q = a.1 := (hs.block_page hq).symm.trans hpage
    exact hq.mem
  · intro a ha i hsmall b hb j hj
    have hbl := hblock ha hsmall hb
    by_cases hfree : j = i ∧ b ∉ live.map Prod.fst
    · rw [if_pos hfree]
      obtain ⟨rfl, hnot⟩ := hfree
      refine List.count_eq_one_of_mem (hs.freeNodup j hj) ?_
      rcases hs.covered b a.1 j hbl with ⟨k, hk⟩ | hin
      · exact absurd (List.mem_map_of_mem hk) hnot
      · exact hin
    · rw [if_neg hfree]
      refine List.count_eq_zero.mpr ?_
      intro hin
      obtain ⟨q, hq⟩ := hs.freeBlock j hj b hin
      refine hfree ⟨(hs.block_unique hq hbl).2, ?_⟩
      intro hlive
      obtain ⟨d, hd, rfl⟩ := List.mem_map.mp hlive
      exact hs.exclusive d hd j hj hin

/-- **The invariant says what users rely on.** -/
theorem Inv.sound (hv : Inv h live g) : Sound ⟨h, live⟩ := by
  have hs := hv.shape
  have hcap : ∀ {b a cap cap'}, Room h.taken g a b cap → Capacity h b cap' → cap' = cap := by
    intro b a cap cap' hroom hcap'
    have hsame := (hv.blockSize hroom).symm.trans hcap'
    cases hsame
    rfl
  refine ⟨?_, ?_, ?_, ?_, ⟨g.free, hv.accounted⟩, hv.used⟩
  · intro b hb
    obtain ⟨a, cap, hroom, hle⟩ := hs.liveBlock b hb
    exact ⟨cap, hv.blockSize hroom, hle⟩
  · refine (List.pairwise_map.mp hs.liveNodup).imp_of_mem ?_
    intro b b' hb hb' hne cap cap' hc hc'
    obtain ⟨a, c, hroom, -⟩ := hs.liveBlock b hb
    obtain ⟨a', c', hroom', -⟩ := hs.liveBlock b' hb'
    rw [hcap hroom hc, hcap hroom' hc']
    exact hs.rooms_apart hroom hroom' hne
  · intro b hb cap hc a' ha'
    obtain ⟨a, c, hroom, -⟩ := hs.liveBlock b hb
    rw [hcap hroom hc]
    exact hs.room_off_header hroom ha'
  · intro a ha
    refine ⟨hv.stored.magic a ha, ?_⟩
    cases hcls : g.cls a.1 with
    | none =>
      have howner := hv.stored.owner a ha
      rw [hcls] at howner
      exact .inl howner
    | some i => exact .inr ⟨i, (hv.small_iff ha).mpr hcls⟩

/-! ## Calls -/

/-- A call that is in order: requests are below `2 ^ 31`, blocks that are freed or written to are allocated, and the page
    allocator hands out pages that are free. -/
def Allowed (s : Sys) (a : Call × Pager) : Prop :=
  PagerOk s.heap a.2 ∧
  match a.1 with
  | .malloc size => size < 2147483648
  | .calloc x y => x * y < 2147483648
  | .realloc p size => size < 2147483648 ∧ ∀ b, p = some b → b ∈ s.live.map Prod.fst
  | .free p => ∀ b, p = some b → b ∈ s.live.map Prod.fst
  | .write p ofs bytes => p ∈ s.live.map Prod.fst ∧ ∃ cap, Capacity s.heap p cap ∧ ofs + bytes.length ≤ cap

/-- The call is a request that failed. -/
def Fails : Call → Option Nat → Prop
  | .malloc _, none => True
  | .calloc _ _, none => True
  | .realloc _ size, none => size ≠ 0
  | _, _ => False

/-- **What a call does.** A request that fails changes nothing, an arena is given back when no allocated block is left in
    it, and `realloc` keeps the bytes that fit. -/
structure Effect (s : Sys) (c : Call) (r : Option Nat) (s' : Sys) : Prop where
  failed : Fails c r → s' = s
  returned : ∀ a ∈ s.heap.taken, a ∉ s'.heap.taken ↔ ∀ b ∈ s'.live, pgRoundDown b.1 ≠ a.1
  copied : ∀ old new size, c = .realloc (some old) size → r = some new → ∃ cap, Capacity s.heap old cap ∧
    slice s'.heap.mem new (min cap size) = slice s.heap.mem old (min cap size)

/-- An arena is gone if and only if it has no allocated block, when the pages that stay are the same. -/
theorem Inv.returned (hv : Inv h' live g) (hsame : ∀ a ∈ h.taken, ∀ a' ∈ h'.taken, a'.1 = a.1 → a' = a) :
    ∀ a ∈ h.taken, a ∉ h'.taken ↔ ∀ b ∈ live, pgRoundDown b.1 ≠ a.1 := by
  intro a ha
  constructor
  · intro hgone b hb hpage
    obtain ⟨a', cap, hroom, -⟩ := hv.shape.liveBlock b hb
    have heq := hsame a ha a' hroom.taken ((hv.shape.room_page hroom).symm.trans hpage)
    exact hgone (heq ▸ hroom.taken)
  · intro hnone hstill
    obtain ⟨b, hb, hpage⟩ := hv.used a hstill
    exact hnone b hb hpage

/-- What a call leads to. -/
def Leads (s : Sys) (c : Call) (pager : Pager) : Prop :=
  ∃ r s', call pager c s.heap = some (r, s'.heap) ∧ s'.live = liveAfter s.live c r ∧ Effect s c r s' ∧
    ∃ g, Inv s'.heap s'.live g

theorem not_fails_some (c : Call) (b : Nat) : ¬ Fails c (some b) := by
  cases c with
  | malloc => exact id
  | calloc => exact id
  | realloc => exact id
  | free => exact id
  | write => exact id

theorem without_none (live : List (Nat × Nat)) : without live none = live := List.filter_eq_self.mpr (by simp)

variable {c : Call}

/-- A request, other than `realloc` of a block. -/
theorem Answers.leads (ha : Answers (call pager c) h live n) (hv : Inv h live g)
    (hnone : liveAfter live c none = live) (hsome : ∀ b, liveAfter live c (some b) = (b, n) :: live)
    (hc : ∀ old size, c ≠ .realloc (some old) size) : Leads ⟨h, live⟩ c pager := by
  obtain ⟨r, h', hrun, hfail, hok⟩ := ha
  cases r with
  | none =>
    obtain rfl := hfail rfl
    refine ⟨none, ⟨h', live⟩, hrun, hnone.symm, ⟨fun _ => rfl, hv.returned ?_, nofun⟩, g, hv⟩
    exact fun a ha a' ha' heq => hv.shape.arena_unique ha' ha heq
  | some b =>
    obtain ⟨⟨g', hv'⟩, -, -, htaken⟩ := hok b rfl
    refine ⟨some b, ⟨h', (b, n) :: live⟩, hrun, (hsome b).symm, ⟨?_, hv'.returned ?_, ?_⟩, g', hv'⟩
    · exact fun hfails => absurd hfails (not_fails_some c b)
    · exact fun a ha a' ha' heq => hv'.shape.arena_unique ha' (htaken a ha) heq
    · exact fun old _ size heq => absurd heq (hc old size)

/-- A call that frees a block. -/
theorem Frees.leads (hf : Frees h h' live b) (hv : Inv h live g) (hrun : call pager c h = some (none, h'))
    (hlive : liveAfter live c none = without live (some b)) (hfails : ¬ Fails c none) : Leads ⟨h, live⟩ c pager := by
  obtain ⟨⟨g', hv'⟩, -, -, htaken⟩ := hf
  refine ⟨none, ⟨h', without live (some b)⟩, hrun, hlive.symm, ⟨?_, hv'.returned ?_, nofun⟩, g', hv'⟩
  · exact fun hx => absurd hx hfails
  · exact fun a ha a' ha' heq => hv.shape.arena_unique (htaken a' ha') ha heq

/-- A call that leaves the arenas as they are. -/
theorem Inv.leads {m' : Mem} (hv : Inv { h with mem := m' } live g)
    (hrun : call pager c h = some (none, { h with mem := m' })) (hlive : liveAfter live c none = live)
    (hfails : ¬ Fails c none) : Leads ⟨h, live⟩ c pager := by
  refine ⟨none, ⟨{ h with mem := m' }, live⟩, hrun, hlive.symm, ⟨?_, hv.returned ?_, nofun⟩, g, hv⟩
  · exact fun hx => absurd hx hfails
  · exact fun a ha a' ha' heq => hv.shape.arena_unique ha' ha heq

/-- `realloc` of a block. -/
theorem Inv.realloc_leads {old k : Nat} (hv : Inv h live g) (hpager : PagerOk h pager) (hn : n + 12 ≤ 4294967296) (hpos : n ≠ 0)
    (hlive : (old, k) ∈ live) : Leads ⟨h, live⟩ (.realloc (some old) n) pager := by
  obtain ⟨r, h', cap, hrun, hcap, -, hnone, hsome⟩ := hv.realloc hpager hn hpos hlive
  cases r with
  | none =>
    obtain rfl := hnone rfl
    refine ⟨none, ⟨h', live⟩, hrun, (if_neg hpos).symm, ⟨fun _ => rfl, hv.returned ?_, nofun⟩, g, hv⟩
    exact fun a ha a' ha' heq => hv.shape.arena_unique ha' ha heq
  | some new =>
    obtain ⟨⟨g', hv'⟩, ⟨h₁, live₁, g₁, hv₁, htaken, htaken'⟩, hcopied⟩ := hsome new rfl
    refine ⟨some new, ⟨h', (new, n) :: without live (some old)⟩, hrun, rfl, ⟨?_, hv'.returned ?_, ?_⟩, g', hv'⟩
    · exact fun hfails => absurd hfails (not_fails_some _ new)
    · exact fun a ha a' ha' heq => hv₁.shape.arena_unique (htaken' a' ha') (htaken a ha) heq
    · rintro _ _ _ ⟨⟩ ⟨⟩
      exact ⟨cap, hcap, hcopied⟩

/-- **Every call that is in order ends, and keeps the invariant.** -/
theorem Inv.call (hv : Inv h live g) (hc : Allowed ⟨h, live⟩ (c, pager)) : Leads ⟨h, live⟩ c pager := by
  obtain ⟨hpager, hc⟩ := hc
  have hmem : ∀ {b}, b ∈ live.map Prod.fst → ∃ k, (b, k) ∈ live := by
    intro b hb
    obtain ⟨⟨x, k⟩, hk, rfl⟩ := List.mem_map.mp hb
    exact ⟨k, hk⟩
  cases c with
  | malloc size =>
    have hanswers : Answers (Malloc.call pager (.malloc size)) h live size := hv.malloc hpager (by have hlt : size < 2147483648 := hc; omega)
    exact hanswers.leads hv rfl (fun _ => rfl) nofun
  | calloc x y =>
    have hanswers : Answers (Malloc.call pager (.calloc x y)) h live (x * y) := hv.calloc hpager (by have hlt : x * y < 2147483648 := hc; omega)
    exact hanswers.leads hv rfl (fun _ => rfl) nofun
  | realloc p size =>
    obtain ⟨hsize, hlive⟩ := hc
    by_cases hpos : size = 0
    · subst hpos
      cases p with
      | none => exact @Inv.leads h live g pager _ h.mem hv rfl (without_none live) (fun hf => hf rfl)
      | some b =>
        obtain ⟨k, hk⟩ := hmem (hlive b rfl)
        obtain ⟨h', hrun, hfrees⟩ := hv.free hk
        exact hfrees.leads hv ((Proc.bind_run hrun).trans rfl) rfl (fun hf => hf rfl)
    · cases p with
      | none =>
        have hanswers : Answers (Malloc.call pager (.realloc none size)) h live size :=
          hv.realloc_null hpager (by omega) hpos
        refine hanswers.leads hv (if_neg hpos) (fun b => ?_) nofun
        exact congrArg (List.cons _) (without_none live)
      | some b =>
        obtain ⟨k, hk⟩ := hmem (hlive b rfl)
        exact hv.realloc_leads hpager (by omega) hpos hk
  | free p =>
    cases p with
    | none => exact @Inv.leads h live g pager _ h.mem hv rfl (without_none live) id
    | some b =>
      obtain ⟨k, hk⟩ := hmem (hc b rfl)
      obtain ⟨h', hrun, hfrees⟩ := hv.free hk
      exact hfrees.leads hv ((Proc.bind_run hrun).trans rfl) rfl id
  | write p ofs bytes =>
    obtain ⟨hp, cap, hcap, hle⟩ := hc
    obtain ⟨k, hk⟩ := hmem hp
    obtain ⟨a, cap', hroom, -⟩ := hv.shape.liveBlock _ hk
    have hsame := (hv.blockSize hroom).symm.trans hcap
    cases hsame
    obtain ⟨hv', -⟩ := @Inv.write_live h _ _ _ _ _ _ (patch h.mem (p + ofs) bytes) hv hk hroom
      (fun x k hoff => sameAt_patch (by omega))
    exact hv'.leads rfl rfl id

theorem step_run {s s' : Sys} {r : Option Nat} (hcall : call pager c s.heap = some (r, s'.heap))
    (hlive : s'.live = liveAfter s.live c r) : step s (c, pager) = some s' := by
  unfold step
  rw [hcall]
  simp only [Option.map_some, ← hlive]

/-- **The kernel's heap, in every run.** From `malloc_init` on, calls that are in order never fail an assertion. In every
    state they lead to, allocated blocks are disjoint, off the headers and large enough, the counts and the free lists
    account for the other blocks, and every arena has an allocated block. -/
theorem heap_invariant {h₀ h₁ : Heap} {s : Sys} (hunused : Unused h₀) (hinit : mallocInit h₀ = some ((), h₁))
    (hreach : Lts.Reaches step Allowed ⟨h₁, []⟩ s) :
    Sound s ∧ ∀ c pager, Allowed s (c, pager) →
      ∃ r s', call pager c s.heap = some (r, s'.heap) ∧ step s (c, pager) = some s' ∧ Effect s c r s' := by
  obtain ⟨h, hrun, hv₀⟩ := mallocInit_run hunused
  have hsame := hinit.symm.trans hrun
  cases hsame
  have hinv : ∃ g, Inv s.heap s.live g := by
    refine Lts.Reaches.invariant (I := fun s => ∃ g, Inv s.heap s.live g) hreach ⟨_, hv₀⟩ ?_
    rintro t u ⟨c, pager⟩ ⟨g, hv⟩ hc hstep
    obtain ⟨r, t', hcall, hlive, -, hv'⟩ := hv.call hc
    cases (step_run hcall hlive).symm.trans hstep
    exact hv'
  obtain ⟨g, hv⟩ := hinv
  refine ⟨hv.sound, ?_⟩
  intro c pager hc
  obtain ⟨r, t', hcall, hlive, heffect, -⟩ := hv.call hc
  exact ⟨r, t', hcall, step_run hcall hlive, heffect⟩

/-- A heap before `malloc_init`, with memory full of zeros. -/
def blank : Heap := ⟨fun _ => 0, 4096, 0, []⟩

/-- A page allocator that has one page. -/
def onePage (k : Nat) : Option Nat := if k = 1 then some 8192 else none

theorem heap_invariant_one_block :
    ∃ h₁ s, mallocInit blank = some ((), h₁) ∧ step ⟨h₁, []⟩ (.malloc 1000, onePage) = some s ∧
      s.live = [(8204, 1000)] ∧ Sound s := by
  have hrun : (mallocInit blank).any (fun r => decide (r.2.descs = 4096 ∧ r.2.taken = []) &&
      (step ⟨r.2, []⟩ (.malloc 1000, onePage)).any (fun s => decide (s.live = [(8204, 1000)]))) = true := by decide +kernel
  obtain ⟨⟨⟨⟩, h₁⟩, hinit, hr⟩ := (Option.any_eq_true _ _).mp hrun
  obtain ⟨hstate, hr⟩ := (Bool.and_eq_true _ _).mp hr
  obtain ⟨hdescs, htaken⟩ := of_decide_eq_true hstate
  obtain ⟨s, hstep, hlive⟩ := (Option.any_eq_true _ _).mp hr
  have hunused : Unused blank := ⟨by decide, rfl, rfl⟩
  have hallowed : Allowed ⟨h₁, []⟩ (.malloc 1000, onePage) := by
    refine ⟨?_, show 1000 < 2147483648 by decide⟩
    intro k p _ hp
    simp only [onePage, Option.ite_none_right_eq_some, Option.some.injEq] at hp
    obtain ⟨rfl, rfl⟩ := hp
    rw [hdescs, htaken]
    exact ⟨⟨by decide, by decide, by decide, by decide, by decide⟩, nofun⟩
  have hsound := heap_invariant hunused hinit (Lts.Reaches.tail Lts.Reaches.refl hallowed hstep)
  exact ⟨h₁, s, hinit, hstep, of_decide_eq_true hlive, hsound.1⟩

end Malloc
end Asg1
