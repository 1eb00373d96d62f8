import Asg1.Threads.Arenas
import Mathlib.Data.List.Perm.Subperm

/-!
# `Threads.Heap` — blocks and arenas change hands

What the parts of `malloc` and `free` do to the invariant of `Threads.Arenas`: a block is taken from a free list or goes
back to it, and a page becomes an arena or is given back. Each function has one lemma that says how it ends.
-/

namespace Asg1
namespace Malloc

open Word Flat Kernel List

/-- The heap between two steps of a call. -/
structure Ready (h : Heap) (live : List (Nat × Nat)) (g : Layout) : Prop where
  cnt : h.descCnt = CLASSES
  shape : Shape h.descs h.taken live g
  stored : Stored h.mem h.descs h.taken g
  counted : Counted h.mem h.taken g

/-- **The invariant of the heap**: also, every arena has a block that is allocated. -/
structure Inv (h : Heap) (live : List (Nat × Nat)) (g : Layout) : Prop extends Ready h live g where
  used : ∀ a ∈ h.taken, ∃ b ∈ live, pgRoundDown b.1 = a.1

variable {h h' : Heap} {live : List (Nat × Nat)} {g : Layout} {a : Nat × Nat} {b p i n cap : Nat}

variable {taken : List (Nat × Nat)} {m' : Mem} {m : Mem}

/-- The counts stay where the headers do. -/
theorem Counted.frame (hcounted : Counted m taken g) (hheader : ∀ a ∈ taken, SameAt m m' a.1 12) : Counted m' taken g :=
  fun a ha => ((hheader a ha).sub (by omega) (by omega)).ld_eq.trans (hcounted a ha)

/-! ## Arenas and blocks -/

/-- The words that lead from an arena of a class to its blocks. -/
structure Header (m : Mem) (descs p i : Nat) : Prop where
  magic : ld m p = ARENA_MAGIC
  owner : ld m (p + 4) = descAt descs i
  size : ld m (descAt descs i) = classSize i
  count : ld m (descAt descs i + 4) = classCount i

variable {descs : Nat}

theorem Header.frame (hh : Header m descs p i) (hpage : SameAt m m' p 8)
    (hdesc : SameAt m m' (descAt descs i) 8) : Header m' descs p i where
  magic := (hpage.sub (Nat.le_refl _) (by omega)).ld_eq.trans hh.magic
  owner := (hpage.sub (by omega) (by omega)).ld_eq.trans hh.owner
  size := (hdesc.sub (Nat.le_refl _) (by omega)).ld_eq.trans hh.size
  count := (hdesc.sub (by omega) (by omega)).ld_eq.trans hh.count

/-- **`arena_to_block`** -/
theorem arenaToBlock_run {idx : Nat} (hh : Header h.mem h.descs p i) (hp : p ≠ 0) (hidx : idx < classCount i) :
    arenaToBlock p idx h = some (blockAt p i idx, h) := by
  have hcount : idx < ld h.mem (ld h.mem (p + 4) + 4) := by
    rw [hh.owner, hh.count]
    exact hidx
  refine (Proc.bind_run rfl).trans ((Proc.bind_run (Proc.assert_run hp h)).trans
    ((Proc.bind_run (Proc.assert_run hh.magic h)).trans ((Proc.bind_run (Proc.assert_run hcount h)).trans ?_)))
  rw [hh.owner, hh.size]
  rfl

theorem Ready.header (hr : Ready h live g) (ha : (p, 1) ∈ h.taken) (hcls : g.cls p = some i) :
    Header h.mem h.descs p i := by
  have hi := (hr.shape.small _ ha i hcls).1
  obtain ⟨hsize, hcount⟩ := hr.stored.desc i hi
  have hmagic : ld h.mem p = ARENA_MAGIC := hr.stored.magic (p, 1) ha
  have howner : ld h.mem (p + 4) = descPtr h.descs (g.cls p) := hr.stored.owner (p, 1) ha
  have hptr : descPtr h.descs (g.cls p) = descAt h.descs i := by
    rw [hcls]
    rfl
  exact ⟨hmagic, howner.trans hptr, hsize, hcount⟩

theorem descAt_ne_zero (hs : Ground h.descs h.taken g) (i : Nat) : descAt h.descs i ≠ 0 := by
  have hat := descAt_eq h.descs i
  have hdata := hs.data.1
  omega

/-- **`block_to_arena`** -/
theorem blockToArena_run (hs : Ground h.descs h.taken g) (hst : Stored h.mem h.descs h.taken g)
    (hroom : Room h.taken g a b cap) : blockToArena b h = some (a.1, h) := by
  have husable := hs.usable a hroom.taken
  have hpage := hs.room_page hroom
  have howner := hst.owner a hroom.taken
  have hmagic := hst.magic a hroom.taken
  have hasserts : (ld h.mem (a.1 + 4) = 0 ∨
        (pgOfs b + 4294967296 - ARENA_SIZE) % 4294967296 % ld h.mem (ld h.mem (a.1 + 4)) = 0) ∧
      (ld h.mem (a.1 + 4) ≠ 0 ∨ pgOfs b = ARENA_SIZE) := by
    rcases hroom.kind with ⟨i, hcls, hb, -⟩ | ⟨hcls, rfl, -⟩
    · rw [hcls] at howner
      have hi := (hs.small a hroom.taken i hcls).1
      have hdesc : ld h.mem (a.1 + 4) = descAt h.descs i := howner
      rw [hdesc, (hst.desc i hi).1]
      exact ⟨.inr (block_aligned husable.aligned hb), .inl (descAt_ne_zero hs i)⟩
    · rw [hcls] at howner
      refine ⟨.inl howner, .inr ?_⟩
      have halign := husable.aligned
      unfold pgOfs PGSIZE ARENA_SIZE
      omega
  refine (Proc.bind_run rfl).trans ?_
  rw [hpage]
  exact (Proc.bind_run (Proc.assert_run husable.nonnull h)).trans ((Proc.bind_run (Proc.assert_run hmagic h)).trans
    ((Proc.bind_run (Proc.assert_run hasserts.1 h)).trans (Proc.bind_run (Proc.assert_run hasserts.2 h))))

/-- The smallest class for a request, if there is one. -/
theorem findDesc_run {size : Nat} (hdesc : ∀ i < CLASSES, ld m (descAt descs i) = classSize i)
    (n i : Nat) (hn : i + n = CLASSES) :
    ∃ k ≤ CLASSES, findDesc m size n (descAt descs i) = descAt descs k ∧ (k < CLASSES → size ≤ classSize k) ∧
      (k = CLASSES → ∀ j, i ≤ j → j < CLASSES → classSize j < size) := by
  -- on the descriptors that are left
  induction n generalizing i with
  | zero =>
    refine ⟨i, by omega, rfl, fun hlt => ?_, fun _ j hj hlt => ?_⟩
    · omega
    · omega
  | succ n ih =>
    have hi : i < CLASSES := by omega
    by_cases hfit : size ≤ ld m (descAt descs i)
    · rw [hdesc i hi] at hfit
      refine ⟨i, by omega, if_pos ?_, fun _ => hfit, fun heq => ?_⟩
      · rw [hdesc i hi]
        exact hfit
      · omega
    · obtain ⟨k, hk, hrun, hsmall, hbig⟩ := ih (i + 1) (by omega)
      have hnext : descAt descs i + DESC_SIZE = descAt descs (i + 1) := by
        unfold descAt
        rw [Nat.mul_succ, Nat.add_assoc]
      refine ⟨k, hk, ?_, hsmall, ?_⟩
      · refine (if_neg hfit).trans ?_
        exact hrun
      · intro heq j hj hlt
        by_cases hji : j = i
        · subst hji
          rw [hdesc j hi] at hfit
          omega
        · exact hbig heq j (by omega) hlt

/-! ## Taking a block -/

theorem onMem_run {α : Type} {x : Proc Mem α} {r : α} (hx : x h.mem = some (r, m')) :
    onMem x h = some (r, { h with mem := m' }) := by
  unfold onMem
  rw [hx]
  rfl

section FreeCount

variable {descs : Nat} {taken : List (Nat × Nat)} (hs : Shape descs taken live g) (ha : (p, 1) ∈ taken)
  (hcls : g.cls p = some i)
include hs ha hcls

/-- The count of an arena is the length of a list without repetitions. -/
theorem Shape.freeCnt_eq : ∃ bs : List Nat, freeCnt g (p, 1) = bs.length ∧ bs.Nodup ∧
    ∀ b, b ∈ bs ↔ b ∈ blocksOf p i ∧ b ∈ g.free i := by
  have hi := (hs.small _ ha i hcls).1
  refine ⟨(g.free i).filter (fun b => pgRoundDown b = p), ?_, (hs.freeNodup i hi).filter _, ?_⟩
  · unfold freeCnt
    simp only [hcls]
    rw [countP_eq_length_filter]
  · intro b
    rw [mem_filter, decide_eq_true_iff, and_comm]
    refine and_congr_left (fun hin => ⟨?_, fun hb => block_page (hs.usable _ ha).aligned hb⟩)
    intro hpage
    obtain ⟨q, hq⟩ := hs.freeBlock i hi b hin
    have hpq : q = p := (hs.block_page hq).symm.trans hpage
    subst hpq
    exact hq.mem

theorem Shape.freeCnt_le : freeCnt g (p, 1) ≤ classCount i := by
  obtain ⟨bs, hlen, hnodup, hmem⟩ := hs.freeCnt_eq ha hcls
  rw [hlen, ← length_blocksOf p i]
  exact (hnodup.subperm (fun b hb => ((hmem b).mp hb).1)).length_le

/-- All blocks of an arena are free if the count says so. -/
theorem Shape.all_free (hfull : classCount i ≤ freeCnt g (p, 1)) : ∀ b ∈ blocksOf p i, b ∈ g.free i := by
  obtain ⟨bs, hlen, hnodup, hmem⟩ := hs.freeCnt_eq ha hcls
  have hperm : bs.Perm (blocksOf p i) := by
    refine (hnodup.subperm (fun b hb => ((hmem b).mp hb).1)).perm_of_length_le ?_
    rw [length_blocksOf]
    omega
  exact fun b hb => ((hmem b).mp (hperm.mem_iff.mpr hb)).2

/-- If the count says that not all blocks of an arena are free, one is allocated. -/
theorem Shape.some_live (hless : freeCnt g (p, 1) < classCount i) : ∃ d ∈ live, pgRoundDown d.1 = p := by
  obtain ⟨bs, hlen, -, hmem⟩ := hs.freeCnt_eq ha hcls
  by_contra hnone
  have hall : ∀ b ∈ blocksOf p i, b ∈ bs := by
    intro b hb
    have hblock : Block taken g b p i := ⟨ha, hcls, hb⟩
    rcases hs.covered b p i hblock with ⟨n, hlive⟩ | hin
    · exact absurd ⟨(b, n), hlive, hs.block_page hblock⟩ hnone
    · exact (hmem b).mpr ⟨hb, hin⟩
  have hle := ((nodup_blocksOf p i).subperm hall).length_le
  rw [length_blocksOf] at hle
  omega

/-- If all blocks of an arena are free, none is allocated. -/
theorem Shape.none_live (hfull : classCount i ≤ freeCnt g (p, 1)) : ∀ d ∈ live, pgRoundDown d.1 ≠ p := by
  intro d hd hpage
  obtain ⟨a, cap, hroom, -⟩ := hs.liveBlock d hd
  have heq : a = (p, 1) := hs.arena_unique hroom.taken ha ((hs.room_page hroom).symm.trans hpage)
  subst heq
  rcases hroom.kind with ⟨j, hcls', hb, -⟩ | ⟨hcls', -, -⟩
  · have hij : i = j := Option.some.inj (hcls.symm.trans hcls')
    subst hij
    exact hs.exclusive d hd i (hs.small _ ha i hcls).1 (hs.all_free ha hcls hfull d.1 hb)
  · rw [hcls] at hcls'
    cases hcls'

end FreeCount

/-- What a procedure leaves of the heap. -/
structure Same (h h' : Heap) : Prop where
  descs : h'.descs = h.descs
  cnt : h'.descCnt = h.descCnt
  taken : h'.taken = h.taken

/-- The heap is in order again once the count of the arena that changed is set. -/
theorem Ready.of_count (hcnt : h.descCnt = CLASSES) (hs : Shape h.descs h.taken live g)
    (hst : Stored h.mem h.descs h.taken g) (ha : (p, 1) ∈ h.taken) (hcls : g.cls p = some i)
    (hothers : ∀ a ∈ h.taken, a ≠ (p, 1) → ld h.mem (a.1 + 8) = freeCnt g a) :
    Ready { h with mem := st h.mem (p + 8) (freeCnt g (p, 1)) } live g ∧
      Keeps live h.mem (st h.mem (p + 8) (freeCnt g (p, 1))) := by
  obtain ⟨hstored, hother, hrooms⟩ := hst.set_count hs.toGround ha (freeCnt g (p, 1))
  refine ⟨⟨hcnt, hs, hstored, ?_⟩, ?_⟩
  · intro a' ha'
    by_cases heq : a' = (p, 1)
    · subst heq
      have hle := hs.freeCnt_le ha hcls
      have hmany := classCount_le i
      exact ld_st_self (by omega)
    · exact (hother a' ha' heq).trans (hothers a' ha' heq)
  · intro c hc
    obtain ⟨a', cap, hroom, hle⟩ := hs.liveBlock c hc
    exact (hrooms a' c.1 cap hroom).sub (Nat.le_refl _) (by omega)

/-- **The first free block of a class is taken.** -/
theorem Ready.takeBlock {blocks : List Nat} (hr : Ready h live g) (hi : i < CLASSES)
    (hfree : g.free i = b :: blocks) (hn : n ≤ classSize i) :
    ∃ h', takeBlock (descAt h.descs i) h = some (some b, h') ∧ Ready h' ((b, n) :: live) (g.setFree i blocks) ∧
      Same h h' ∧ Keeps live h.mem h'.mem := by
  have hs := hr.shape
  have hlist := hr.stored.lists i hi
  have hspare : ∀ c ∈ cells (freeList (descAt h.descs i)) (g.free i), SpareCell h.descs h.taken g live i c :=
    fun c hc => hs.cells_spare hi hc
  obtain ⟨p, hb⟩ := hs.freeBlock i hi b (by rw [hfree]; exact mem_cons_self)
  rw [hfree] at hlist hspare
  obtain ⟨m', hpop, hlist', hoff⟩ := hlist.popFront
  obtain ⟨hstored, hheader⟩ := hr.stored.relist hs.toGround hi hoff (fun c hc => (hspare c hc).1) hlist'
  have hshape : Shape h.descs h.taken ((b, n) :: live) (g.setFree i blocks) := hs.take hi hfree hn
  have hpage := hs.block_page hb
  -- the counts before, in the memory after the list operation
  have hcounts : Counted m' h.taken (g.setFree i (b :: blocks)) := by
    rw [← hfree, setFree_self]
    exact hr.counted.frame hheader
  have hthis : ld m' (p + 8) = freeCnt (g.setFree i blocks) (p, 1) + 1 :=
    (hcounts _ hb.taken).trans (freeCnt_cons hb.cls hpage 1)
  have hnew : (ld m' (p + 8) + 4294967295) % 4294967296 = freeCnt (g.setFree i blocks) (p, 1) := by
    have hlt := ld_lt m' (p + 8)
    omega
  have hothers : ∀ a ∈ h.taken, a ≠ (p, 1) → ld m' (a.1 + 8) = freeCnt (g.setFree i blocks) a := by
    intro a ha hne
    refine (hcounts a ha).trans (freeCnt_other ?_)
    rw [hpage]
    exact fun hpa => hne (hs.arena_unique ha hb.taken hpa.symm)
  obtain ⟨hr', hkeeps⟩ := @Ready.of_count { h with mem := m' } _ _ _ _ hr.cnt hshape hstored hb.taken hb.cls hothers
  refine ⟨_, ?_, hr', ⟨rfl, rfl, rfl⟩, ?_⟩
  · have harena : blockToArena b { h with mem := m' } = some (p, { h with mem := m' }) :=
      @blockToArena_run { h with mem := m' } _ _ _ _ hshape.toGround hstored (hb.setFree i blocks).room
    have hword : word (p + 8) { h with mem := m' } = some (ld m' (p + 8), { h with mem := m' }) := rfl
    refine (Proc.bind_run (onMem_run hpop)).trans ((Proc.bind_run harena).trans ((Proc.bind_run hword).trans ?_))
    rw [hnew]
    rfl
  · exact (hs.keeps_off hi hoff hspare hs.liveBlock).trans (fun c hc => hkeeps c (mem_cons_of_mem _ hc))

/-! ## A new arena -/

theorem Header.frame_cells {cs : List Nat}
    (hh : Header m descs p i) (hs : Ground descs taken g) (ha : (p, 1) ∈ taken) (hi : i < CLASSES)
    (hoff : SameOff cs m m') (hcs : ∀ c ∈ cs, ClassCell descs taken g i c) : Header m' descs p i :=
  hh.frame
    ((hoff p 12 (fun c hc => hs.cell_off_header hi (hcs c hc) ha)).sub (Nat.le_refl _) (by omega))
    (hoff _ 8 (fun c hc => hs.cell_off_desc hi (hcs c hc)))

/-- The free list of a class while the blocks of an arena join or leave it. -/
structure Listed (h h₁ : Heap) (g : Layout) (p i : Nat) (es : List Nat) : Prop where
  descs : h₁.descs = h.descs
  header : Header h₁.mem h.descs p i
  list : IsList h₁.mem (freeList (descAt h.descs i)) es
  ours : ∀ c ∈ cells (freeList (descAt h.descs i)) es, ClassCell h.descs h.taken g i c

theorem Listed.block {h₁ : Heap} {es : List Nat} {k : Nat} (hl : Listed h h₁ g p i es) (hs : Ground h.descs h.taken g)
    (ha : (p, 1) ∈ h.taken) (hk : k < classCount i) : arenaToBlock p k h₁ = some (blockAt p i k, h₁) := by
  refine arenaToBlock_run ?_ (hs.usable _ ha).nonnull hk
  rw [hl.descs]
  exact hl.header

/-- **The blocks of an arena go to the end of the list**, from block `k` on. -/
theorem addBlocks_run (hs : Ground h.descs h.taken g) (ha : (p, 1) ∈ h.taken) (hcls : g.cls p = some i) (n k : Nat)
    (hn : k + n = classCount i) {h₁ : Heap} {es : List Nat} (hl : Listed h h₁ g p i es)
    (hapart : ∀ c ∈ cells (freeList (descAt h.descs i)) es, ∀ j, k ≤ j → j < classCount i → Apart (blockAt p i j) c) :
    ∃ m', addBlocks p (descAt h.descs i) n k h₁ = some ((), { h₁ with mem := m' }) ∧
      IsList m' (freeList (descAt h.descs i)) (es ++ (List.range' k n).map (blockAt p i)) ∧
      SameOff (cells (freeList (descAt h.descs i)) (es ++ (List.range' k n).map (blockAt p i))) h₁.mem m' := by
  have hi := (hs.small _ ha i hcls).1
  have hblock : ∀ j, j < classCount i → Block h.taken g (blockAt p i j) p i :=
    fun j hj => ⟨ha, hcls, mem_blocksOf.mpr ⟨j, hj, rfl⟩⟩
  -- on the blocks that are left
  induction n generalizing k h₁ es with
  | zero =>
    refine ⟨h₁.mem, rfl, ?_, fun a n _ x _ _ => rfl⟩
    rw [range'_zero, map_nil, append_nil]
    exact hl.list
  | succ n ih =>
    have hk : k < classCount i := by omega
    have hge := classSize_ge i
    obtain ⟨m₂, hpush, hlist₂, hoff₂⟩ := hl.list.pushBack (hs.block_isCell (hblock k hk))
      (fun c hc => hapart c hc k (Nat.le_refl _) hk)
    have hcells₁ : ∀ c ∈ blockAt p i k :: cells (freeList (descAt h.descs i)) es, ClassCell h.descs h.taken g i c := by
      intro c hc
      rcases List.mem_cons.mp hc with rfl | hc
      · exact .inr (.inr ⟨p, hblock k hk⟩)
      · exact hl.ours c hc
    have hcells₂ : ∀ c ∈ cells (freeList (descAt h.descs i)) (es ++ [blockAt p i k]),
        c ∈ blockAt p i k :: cells (freeList (descAt h.descs i)) es := by
      intro c hc
      rcases mem_cells_append.mp hc with hc | hc
      · exact mem_cons_of_mem _ hc
      · rw [List.mem_singleton.mp hc]
        exact mem_cons_self
    obtain ⟨m₃, hrest, hlist₃, hoff₃⟩ := @ih (k + 1) (by omega) { h₁ with mem := m₂ } (es ++ [blockAt p i k])
      ⟨hl.descs, hl.header.frame_cells hs ha hi hoff₂ hcells₁, hlist₂, fun c hc => hcells₁ c (hcells₂ c hc)⟩ (by
        intro c hc j hj hjn
        rcases List.mem_cons.mp (hcells₂ c hc) with rfl | hc
        · have hnext := @blockAt_apart p i k j (by omega)
          exact .inr (by omega)
        · exact hapart c hc j (by omega) hjn)
    have hall : (es ++ [blockAt p i k]) ++ (List.range' (k + 1) n).map (blockAt p i) =
        es ++ (List.range' k (n + 1)).map (blockAt p i) := by
      rw [range'_succ, map_cons, List.append_assoc]
      rfl
    rw [hall] at hlist₃ hoff₃
    refine ⟨m₃, (Proc.bind_run (hl.block hs ha hk)).trans ((Proc.bind_run (onMem_run hpush)).trans hrest), hlist₃, ?_⟩
    refine (hoff₂.mono ?_).trans hoff₃
    intro c hc
    rcases List.mem_cons.mp hc with rfl | hc
    · refine mem_cells_append.mpr (.inr ?_)
      exact mem_cons_self
    · exact mem_cells_append.mpr (.inl hc)

theorem setHeader_run (p d w : Nat) (h : Heap) :
    setHeader p d w h = some ((), { h with mem := withHeader h.mem p d w }) := rfl

/-- The blocks of an arena in another page are not counted. -/
theorem freeCnt_blocksOf_other (hfree : g.free i = []) (hp : p % 4096 = 0) (hne : a.1 ≠ p) :
    freeCnt ((g.setCls p (some i)).setFree i (blocksOf p i)) a = freeCnt g a := by
  unfold freeCnt
  rw [setFree_cls, setCls_other g _ hne]
  cases hcls : g.cls a.1 with
  | none => rfl
  | some j =>
    by_cases hji : j = i
    · subst hji
      simp only [setFree_same, hfree, countP_nil]
      refine List.countP_eq_zero.mpr ?_
      intro b hb hpage
      rw [block_page hp hb] at hpage
      exact hne (of_decide_eq_true hpage).symm
    · simp only [setFree_other _ _ hji, setCls_free]

theorem freeCnt_blocksOf_self (hp : p % 4096 = 0) :
    freeCnt ((g.setCls p (some i)).setFree i (blocksOf p i)) (p, 1) = classCount i := by
  unfold freeCnt
  simp only [setFree_cls, setCls_same, setFree_same]
  rw [← length_blocksOf p i]
  refine List.countP_eq_length.mpr ?_
  intro b hb
  exact decide_eq_true (block_page hp hb)

/-- **A page becomes an arena of a class that has no free blocks.** -/
theorem Ready.newArena (hr : Ready h live g) (hf : Fresh h.descs h.taken (p, 1)) (hi : i < CLASSES) (hfree : g.free i = []) :
    ∃ m', newArena p (descAt h.descs i) { h with taken := (p, 1) :: h.taken } =
        some ((), { h with mem := m', taken := (p, 1) :: h.taken }) ∧
      Ready { h with mem := m', taken := (p, 1) :: h.taken } live ((g.setCls p (some i)).setFree i (blocksOf p i)) ∧
      Keeps live h.mem m' := by
  have hs := hr.shape
  have hground := hs.toGround
  have hp : p % 4096 = 0 := hf.usable.aligned
  have hadd : Ground h.descs ((p, 1) :: h.taken) (g.setCls p (some i)) :=
    hground.add hf (fun j hj => by cases hj; exact ⟨hi, rfl⟩)
  have hself : (p, 1) ∈ (p, 1) :: h.taken := mem_cons_self
  have hcls : (g.setCls p (some i)).cls p = some i := setCls_same g p _
  have hdesc : descAt h.descs i < 4294967296 := by
    have hat := descAt_eq h.descs i
    have hdata := hground.data.2
    have hclasses : CLASSES = 7 := rfl
    omega
  -- the header
  obtain ⟨hstored₁, hheader₁, hkeeps₁⟩ := @Stored.add _ _ _ _ _ _ (some i) hground hf hr.stored hdesc (classCount i)
  have hh : Header (withHeader h.mem p (descAt h.descs i) (classCount i)) h.descs p i := by
    have howner : _ = descPtr h.descs ((g.setCls p (some i)).cls p) := hstored₁.owner _ hself
    rw [hcls] at howner
    exact ⟨hstored₁.magic _ hself, howner, (hstored₁.desc i hi).1, (hstored₁.desc i hi).2⟩
  have hlist := hstored₁.lists i hi
  rw [setCls_free, hfree] at hlist
  have hblock : ∀ b ∈ blocksOf p i, Block ((p, 1) :: h.taken) (g.setCls p (some i)) b p i := fun b hb => ⟨hself, hcls, hb⟩
  have hlive : ∀ b ∈ blocksOf p i, ∀ d ∈ live, d.1 ≠ b := by
    rintro b hb d hd rfl
    obtain ⟨a, cap, hroom, -⟩ := hs.liveBlock d hd
    have hpage := hadd.room_page (hroom.add hground hf)
    rw [hadd.block_page (hblock _ hb)] at hpage
    exact hf.page_ne hground hroom.taken hpage.symm
  have hends : ∀ c ∈ cells (freeList (descAt h.descs i)) [],
      SpareCell h.descs ((p, 1) :: h.taken) (g.setCls p (some i)) live i c := by
    intro c hc
    rw [← hfree] at hc
    exact ⟨hadd.cells_class hi hc, (hs.cells_spare hi hc).2⟩
  -- the blocks
  obtain ⟨m', hrun, hlist', hoff⟩ := @addBlocks_run { h with taken := (p, 1) :: h.taken } _ _ _ hadd hself hcls
    (classCount i) 0 (Nat.zero_add _)
    { h with mem := withHeader h.mem p (descAt h.descs i) (classCount i), taken := (p, 1) :: h.taken } []
    ⟨rfl, hh, hlist, fun c hc => (hends c hc).1⟩
    (fun c hc j _ hj => hadd.block_off_ends hi (hblock _ (mem_blocksOf.mpr ⟨j, hj, rfl⟩)) hc)
  have hblocks : [] ++ (List.range' 0 (classCount i)).map (blockAt p i) = blocksOf p i := by
    rw [nil_append, ← range_eq_range']
    rfl
  rw [hblocks] at hlist' hoff
  have hcells : ∀ c ∈ cells (freeList (descAt h.descs i)) (blocksOf p i),
      SpareCell h.descs ((p, 1) :: h.taken) (g.setCls p (some i)) live i c := by
    intro c hc
    rcases (@mem_cells_append _ c [] (blocksOf p i)).mp hc with hc | hc
    · exact hends c hc
    · exact ⟨.inr (.inr ⟨p, hblock c hc⟩), hlive c hc⟩
  obtain ⟨hstored, hheader⟩ := hstored₁.relist hadd hi hoff (fun c hc => (hcells c hc).1) hlist'
  refine ⟨m', ?_, ⟨hr.cnt, hs.add_small hf hi hfree, hstored, ?_⟩, ?_⟩
  · have hword : word (descAt h.descs i + 4) { h with taken := (p, 1) :: h.taken } =
        some (classCount i, { h with taken := (p, 1) :: h.taken }) := by
      rw [← (hr.stored.desc i hi).2]
      rfl
    exact (Proc.bind_run hword).trans ((Proc.bind_run (setHeader_run _ _ _ _)).trans hrun)
  · intro a ha
    have hsame := ((hheader a ha).sub (show a.1 ≤ a.1 + 8 by omega) (show a.1 + 8 + 4 ≤ a.1 + 12 by omega)).ld_eq
    refine hsame.trans ?_
    rcases List.mem_cons.mp ha with rfl | ha
    · rw [freeCnt_blocksOf_self hp]
      have hmany := classCount_le i
      exact ld_st_self (by omega)
    · rw [freeCnt_blocksOf_other hfree hp (hf.page_ne hground ha), ← hr.counted a ha]
      exact ((hheader₁ a ha).sub (by omega) (by omega)).ld_eq
  · refine (hkeeps₁ live hs.liveBlock).trans (hadd.keeps_off hi hoff hcells ?_)
    exact fun d hd => (hs.liveBlock d hd).add hground hf

/-! ## Giving a block back -/

theorem memset_run (dst : Nat) (v : UInt8) (size : Nat) (h : Heap) :
    memset dst v size h = some ((), { h with mem := patch h.mem dst (List.replicate size v) }) := rfl

theorem sameAt_replicate {x k dst size : Nat} {v : UInt8} (hoff : x + k ≤ dst ∨ dst + size ≤ x) :
    SameAt m (patch m dst (List.replicate size v)) x k := by
  refine sameAt_patch ?_
  rw [length_replicate]
  exact hoff

/-- Writing to the room of an allocated block leaves the heap and the other blocks. -/
theorem Ready.write_live (hr : Ready h live g) (hlive : (b, n) ∈ live) (hroom : Room h.taken g a b cap)
    (hsame : ∀ x k, x + k ≤ b ∨ b + cap ≤ x → SameAt h.mem m' x k) :
    Ready { h with mem := m' } live g ∧ Keeps (without live (some b)) h.mem m' := by
  have hs := hr.shape
  obtain ⟨hstored, hheader⟩ := hr.stored.write_room hs.toGround hroom (hs.exclusive _ hlive) hsame
  refine ⟨⟨hr.cnt, hs, hstored, hr.counted.frame hheader⟩, ?_⟩
  intro d hd
  obtain ⟨hd, hne⟩ := mem_without.mp hd
  obtain ⟨a', cap', hroom', hle⟩ := hs.liveBlock d hd
  have hapart := hs.rooms_apart hroom' hroom (fun heq => hne (congrArg some heq))
  exact hsame d.1 d.2 (by omega)

/-- **A block of a class goes back to its free list.** -/
theorem Ready.giveBlock (hr : Ready h live g) (hb : Block h.taken g b p i) (hlive : (b, n) ∈ live) :
    ∃ m' cnt, onMem (listPushFront (freeList (descAt h.descs i)) b) h = some ((), { h with mem := m' }) ∧
      cnt = freeCnt (g.setFree i (b :: g.free i)) (p, 1) ∧ (ld m' (p + 8) + 1) % 4294967296 = cnt ∧
      Ready { h with mem := st m' (p + 8) cnt } (without live (some b)) (g.setFree i (b :: g.free i)) ∧
      Keeps (without live (some b)) h.mem (st m' (p + 8) cnt) := by
  have hs := hr.shape
  have hi := hs.block_class hb
  have hlist := hr.stored.lists i hi
  have hpage := hs.block_page hb
  obtain ⟨m', hpush, hlist', hoff⟩ := hlist.pushFront (hs.block_isCell hb)
    (fun c hc => hs.block_off_cells hi hb (hs.exclusive _ hlive i hi) hc)
  have hspare : ∀ c ∈ b :: cells (freeList (descAt h.descs i)) (g.free i),
      SpareCell h.descs h.taken g (without live (some b)) i c := by
    intro c hc
    rcases List.mem_cons.mp hc with rfl | hc
    · exact ⟨.inr (.inr ⟨p, hb⟩), fun d hd heq => (mem_without.mp hd).2 (congrArg some heq)⟩
    · obtain ⟨hcell, hne⟩ := hs.cells_spare hi hc
      exact ⟨hcell, fun d hd => hne d (mem_without.mp hd).1⟩
  obtain ⟨hstored, hheader⟩ := hr.stored.relist hs.toGround hi hoff (fun c hc => (hspare c hc).1) hlist'
  have hshape := hs.give hb hlive
  have hcounts : Counted m' h.taken (g.setFree i (g.free i)) := by
    rw [setFree_self]
    exact hr.counted.frame hheader
  have hthis : ld m' (p + 8) + 1 = freeCnt (g.setFree i (b :: g.free i)) (p, 1) := by
    rw [freeCnt_cons hb.cls hpage 1]
    exact congrArg (· + 1) (hcounts _ hb.taken)
  have hle := hshape.freeCnt_le hb.taken hb.cls
  have hmany := classCount_le i
  have hothers : ∀ a ∈ h.taken, a ≠ (p, 1) → ld m' (a.1 + 8) = freeCnt (g.setFree i (b :: g.free i)) a := by
    intro a ha hne
    refine (hcounts a ha).trans (freeCnt_other ?_).symm
    rw [hpage]
    exact fun hpa => hne (hs.arena_unique ha hb.taken hpa.symm)
  obtain ⟨hr', hkeeps⟩ := @Ready.of_count { h with mem := m' } _ _ _ _ hr.cnt hshape hstored hb.taken hb.cls hothers
  exact ⟨m', _, onMem_run hpush, rfl, by omega, hr', (hs.keeps_off hi hoff hspare
    (fun d hd => hs.liveBlock d (mem_without.mp hd).1)).trans hkeeps⟩

/-! ## Giving an arena back -/

/-- **The blocks of an arena leave the list**, from block `k` on. -/
theorem removeBlocks_run (hs : Ground h.descs h.taken g) (ha : (p, 1) ∈ h.taken) (hcls : g.cls p = some i) (n k : Nat)
    (hn : k + n = classCount i) {h₁ : Heap} {es : List Nat} (hl : Listed h h₁ g p i es)
    (hin : ∀ j, k ≤ j → j < classCount i → blockAt p i j ∈ es) :
    ∃ m', removeBlocks p n k h₁ = some ((), { h₁ with mem := m' }) ∧
      IsList m' (freeList (descAt h.descs i)) (((List.range' k n).map (blockAt p i)).foldl List.erase es) ∧
      SameOff (cells (freeList (descAt h.descs i)) es) h₁.mem m' := by
  have hi := (hs.small _ ha i hcls).1
  -- on the blocks that are left
  induction n generalizing k h₁ es with
  | zero => exact ⟨h₁.mem, rfl, hl.list, fun a n _ x _ _ => rfl⟩
  | succ n ih =>
    have hk : k < classCount i := by omega
    have hge := classSize_ge i
    obtain ⟨y, m₂, hremove, hlist₂, hoff₂⟩ := hl.list.erase (hin k (Nat.le_refl _) hk)
    have hcells₂ : ∀ c ∈ cells (freeList (descAt h.descs i)) (es.erase (blockAt p i k)),
        c ∈ cells (freeList (descAt h.descs i)) es := by
      intro c hc
      rcases (@mem_cells_append _ c [] _).mp hc with hc | hc
      · exact (@mem_cells_append _ c [] es).mpr (.inl hc)
      · exact (@mem_cells_append _ c [] es).mpr (.inr (mem_of_mem_erase hc))
    obtain ⟨m₃, hrest, hlist₃, hoff₃⟩ := @ih (k + 1) (by omega) { h₁ with mem := m₂ } (es.erase (blockAt p i k))
      ⟨hl.descs, hl.header.frame_cells hs ha hi hoff₂ hl.ours, hlist₂, fun c hc => hl.ours c (hcells₂ c hc)⟩ (by
        intro j hj hjn
        have hnext := @blockAt_apart p i k j (by omega)
        exact (mem_erase_of_ne (by omega)).mpr (hin j (by omega) hjn))
    refine ⟨m₃, (Proc.bind_run (hl.block hs ha hk)).trans ((Proc.bind_run (onMem_run hremove)).trans hrest), ?_,
      hoff₂.trans (hoff₃.mono hcells₂)⟩
    exact hlist₃

/-- Taking elements out one by one. -/
theorem foldl_erase_eq_filter {es : List Nat} (hnodup : es.Nodup) (bs : List Nat) :
    bs.foldl List.erase es = es.filter (fun b => b ∉ bs) := by
  induction bs generalizing es with
  | nil => exact (List.filter_eq_self.mpr (by simp)).symm
  | cons b bs ih =>
    rw [foldl_cons, ih (hnodup.erase b), hnodup.erase_eq_filter, List.filter_filter]
    refine filter_congr ?_
    intro c _
    by_cases hcb : c = b
    · simp [hcb]
    · simp [hcb]

/-- `palloc_free_multiple` of an arena -/
theorem pallocFree_run {k : Nat} (hu : Usable h.descs (p, k)) (ha : (p, k) ∈ h.taken) :
    pallocFreeMultiple p k h = some ((), { h with
      mem := patch h.mem p (List.replicate (4096 * k) 0xcc), taken := h.taken.erase (p, k) }) := by
  have hok : ¬ (p = 0 ∨ k = 0) := by
    rintro (heq | heq)
    · exact hu.nonnull heq
    · exact absurd heq (Nat.pos_iff_ne_zero.mp hu.some)
  refine (Proc.bind_run (Proc.assert_run hu.aligned h)).trans ?_
  rw [if_neg hok]
  refine (Proc.bind_run (memset_run _ _ _ _)).trans ((Proc.bind_run rfl).trans ?_)
  exact Proc.bind_run (Proc.assert_run ha _)

/-- Once its free blocks are off the lists, an arena without allocated blocks can be given back. -/
theorem Ready.of_release {k : Nat} (hcnt : h.descCnt = CLASSES) (hs : Shape h.descs h.taken live g)
    (hst : Stored h.mem h.descs h.taken (g.drop p)) (hcounted : Counted h.mem h.taken g) (ha : (p, k) ∈ h.taken)
    (hlive : ∀ d ∈ live, pgRoundDown d.1 ≠ p) :
    Ready { h with mem := patch h.mem p (List.replicate (4096 * k) 0xcc), taken := h.taken.erase (p, k) } live (g.drop p) ∧
      Keeps live h.mem (patch h.mem p (List.replicate (4096 * k) 0xcc)) := by
  have hshape : Shape h.descs (h.taken.erase (p, k)) live (g.drop p) := hs.drop ha hlive
  obtain ⟨hstored, hheader, hkeeps⟩ := (Stored.erase hst).frame_page hshape.toGround (hs.fresh_erase ha)
    (fun x n hoff => @sameAt_replicate h.mem x n p (4096 * k) 0xcc hoff)
  refine ⟨⟨hcnt, hshape, hstored, ?_⟩, hkeeps live hshape.liveBlock⟩
  intro a' ha'
  have hin := mem_of_mem_erase ha'
  have hne : a'.1 ≠ p := by
    intro heq
    have hself := hs.arena_unique hin ha heq
    exact hs.erase_not_mem (hself ▸ ha')
  rw [freeCnt_drop hne, ← hcounted a' hin]
  exact ((hheader a' ha').sub (by omega) (by omega)).ld_eq

/-- **An arena all of whose blocks are free is given back.** -/
theorem Ready.dropArena (hr : Ready h live g) (ha : (p, 1) ∈ h.taken) (hcls : g.cls p = some i)
    (hfull : classCount i ≤ freeCnt g (p, 1)) :
    ∃ m₁ m₂, removeBlocks p (classCount i) 0 h = some ((), { h with mem := m₁ }) ∧
      pallocFreeMultiple p 1 { h with mem := m₁ } = some ((), { h with mem := m₂, taken := h.taken.erase (p, 1) }) ∧
      Ready { h with mem := m₂, taken := h.taken.erase (p, 1) } live (g.drop p) ∧ Keeps live h.mem m₂ := by
  have hs := hr.shape
  have hi := (hs.small _ ha i hcls).1
  have hall := hs.all_free ha hcls hfull
  obtain ⟨m₁, hrun, hlist, hoff⟩ := removeBlocks_run hs.toGround ha hcls (classCount i) 0 (Nat.zero_add _)
    ⟨rfl, hr.header ha hcls, hr.stored.lists i hi, fun c hc => hs.cells_class hi hc⟩
    (fun j _ hj => hall _ (mem_blocksOf.mpr ⟨j, hj, rfl⟩))
  have hrest : ((List.range' 0 (classCount i)).map (blockAt p i)).foldl List.erase (g.free i) = (g.drop p).free i := by
    rw [foldl_erase_eq_filter (hs.freeNodup i hi), ← range_eq_range']
    refine filter_congr ?_
    intro b hb
    obtain ⟨q, hq⟩ := hs.freeBlock i hi b hb
    refine decide_eq_decide.mpr (not_congr ⟨fun hin => block_page (hs.usable _ ha).aligned hin, fun hpage => ?_⟩)
    have hqp : q = p := (hs.block_page hq).symm.trans hpage
    subst hqp
    exact hq.mem
  rw [hrest] at hlist
  obtain ⟨hstored, hheader⟩ := hr.stored.relist hs.toGround hi hoff (fun c hc => hs.cells_class hi hc) hlist
  have hdrop : Stored m₁ h.descs h.taken (g.drop p) := by
    refine hstored.congr rfl ?_
    intro j hj
    by_cases hne : j = i
    · subst hne
      rw [setFree_same]
    · rw [setFree_other _ _ hne]
      refine @Ground.drop_free _ _ _ (p, 1) _ hs.toGround hj ?_
      intro heq
      exact hne (Option.some.inj (heq.symm.trans hcls))
  obtain ⟨hr', hkeeps⟩ := @Ready.of_release { h with mem := m₁ } _ _ _ _ hr.cnt hs hdrop (hr.counted.frame hheader) ha
    (hs.none_live ha hcls hfull)
  exact ⟨m₁, _, hrun, @pallocFree_run { h with mem := m₁ } _ _ (hs.usable _ ha) ha, hr',
    (hs.keeps_off hi hoff (fun c hc => hs.cells_spare hi hc) hs.liveBlock).trans hkeeps⟩

end Malloc
end Asg1
