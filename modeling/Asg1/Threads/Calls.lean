import Asg1.Lib.Lts
import Asg1.Threads.Heap

/-!
# `Threads.Calls` — the heap over whole runs of calls

`malloc`, `calloc`, `realloc` and `free` end without a failed assertion, and they keep the invariant of the heap. A
request that fails leaves the heap as it was, and a block has its bytes until it is freed.
-/

namespace Asg1
namespace Malloc

open Word Flat Kernel List

variable {h h' : Heap} {live : List (Nat × Nat)} {g : Layout} {a : Nat × Nat} {b p i n cap : Nat} {pager : Pager}

/-! ## `malloc` -/

/-- The page allocator hands out pages that are apart from the arenas. -/
def PagerOk (h : Heap) (pager : Pager) : Prop := ∀ k p, 0 < k → pager k = some p → Fresh h.descs h.taken (p, k)

/-- What has happened when a block of `n` bytes was allocated. -/
structure Allocates (h h' : Heap) (live : List (Nat × Nat)) (b n : Nat) : Prop where
  inv : ∃ g, Inv h' ((b, n) :: live) g
  keeps : Keeps live h.mem h'.mem
  descs : h'.descs = h.descs
  taken : ∀ a ∈ h.taken, a ∈ h'.taken

/-- The block was not allocated before. -/
theorem Allocates.ne (hb : Allocates h h' live b n) : ∀ d ∈ live, d.1 ≠ b := by
  intro d hd heq
  obtain ⟨g, hv⟩ := hb.inv
  refine (List.nodup_cons.mp hv.shape.liveNodup).1 ?_
  exact List.mem_map.mpr ⟨d, hd, heq⟩

/-- A request ends with a block, or with nothing and the heap as it was. -/
def Answers (x : K (Option Nat)) (h : Heap) (live : List (Nat × Nat)) (n : Nat) : Prop :=
  ∃ r h', x h = some (r, h') ∧ (r = none → h' = h) ∧ ∀ b, r = some b → Allocates h h' live b n

variable {k : Nat} {x : K (Option Nat)}

theorem Answers.of_none (hx : x h = some (none, h)) : Answers x h live n :=
  ⟨_, h, hx, fun _ => rfl, nofun⟩

theorem Answers.of_some (hx : x h = some (some b, h')) (hb : Allocates h h' live b n) : Answers x h live n :=
  ⟨_, h', hx, nofun, fun c hc => by cases hc; exact hb⟩

/-- `palloc_get_multiple` with an answer. -/
theorem pallocGet_run (hk : k ≠ 0) (hp : pager k = some p) (h : Heap) :
    pallocGetMultiple pager k h = some (some p, { h with taken := (p, k) :: h.taken }) := by
  unfold pallocGetMultiple
  rw [if_neg hk, hp]
  rfl

theorem pallocGet_none (hp : pager k = none) (h : Heap) : pallocGetMultiple pager k h = some (none, h) := by
  unfold pallocGetMultiple
  rw [hp]
  split
  · rfl
  · rfl

/-- **A request for a class.** -/
theorem Inv.mallocSmall (hv : Inv h live g) (hpager : PagerOk h pager) (hi : i < CLASSES) (hn : n ≤ classSize i) :
    Answers (mallocSmall pager (descAt h.descs i)) h live n := by
  have hempty : onMem (listEmpty (freeList (descAt h.descs i))) h = some ((g.free i).isEmpty, h) :=
    onMem_run (hv.stored.lists i hi).empty
  cases hfree : g.free i with
  | cons b blocks =>
    rw [hfree] at hempty
    obtain ⟨h', hrun, hr', hsame, hkeeps⟩ := hv.toReady.takeBlock hi hfree hn
    refine Answers.of_some ((Proc.bind_run hempty).trans hrun) ⟨⟨_, hr', ?_⟩, hkeeps, hsame.descs, ?_⟩
    · intro a ha
      rw [hsame.taken] at ha
      obtain ⟨d, hd, hpage⟩ := hv.used a ha
      exact ⟨d, mem_cons_of_mem _ hd, hpage⟩
    · intro a ha
      rw [hsame.taken]
      exact ha
  | nil =>
    rw [hfree] at hempty
    cases hp : pager 1 with
    | none => exact Answers.of_none ((Proc.bind_run hempty).trans ((Proc.bind_run (pallocGet_none hp h)).trans rfl))
    | some p =>
      have hf := hpager 1 p Nat.one_pos hp
      obtain ⟨m₁, hnew, hr₁, hkeeps₁⟩ := hv.toReady.newArena hf hi hfree
      obtain ⟨b, blocks, hblocks⟩ : ∃ b blocks, blocksOf p i = b :: blocks := by
        refine exists_cons_of_length_pos ?_
        rw [length_blocksOf]
        exact classCount_pos hi
      have hfirst : ((g.setCls p (some i)).setFree i (blocksOf p i)).free i = b :: blocks := by
        rw [setFree_same, hblocks]
      obtain ⟨h', hrun, hr', hsame, hkeeps⟩ := hr₁.takeBlock hi hfirst hn
      have htaken : h'.taken = (p, 1) :: h.taken := hsame.taken
      refine Answers.of_some ((Proc.bind_run hempty).trans ((Proc.bind_run (pallocGet_run Nat.one_ne_zero hp h)).trans
        ((Proc.bind_run hnew).trans hrun))) ⟨⟨_, hr', ?_⟩, hkeeps₁.trans hkeeps, hsame.descs, ?_⟩
      · intro a ha
        rw [htaken] at ha
        rcases List.mem_cons.mp ha with rfl | ha
        · refine ⟨(b, n), mem_cons_self, block_page hf.usable.aligned (i := i) ?_⟩
          rw [hblocks]
          exact mem_cons_self
        · obtain ⟨d, hd, hpage⟩ := hv.used a ha
          exact ⟨d, mem_cons_of_mem _ hd, hpage⟩
      · intro a ha
        rw [htaken]
        exact mem_cons_of_mem _ ha

/-- **A request for pages of its own.** -/
theorem Inv.mallocBig (hv : Inv h live g) (hpager : PagerOk h pager) (hn : n + 12 ≤ 4294967296) :
    Answers (mallocBig pager n) h live n := by
  have hs := hv.shape
  -- a request that is too large for the sum is one for no pages, which is not met
  by_cases hzero : pagesFor n = 0
  · have hnone : pallocGetMultiple pager (pagesFor n) h = some (none, h) := by
      unfold pallocGetMultiple
      rw [if_pos hzero]
      rfl
    exact Answers.of_none ((Proc.bind_run hnone).trans rfl)
  have hpages : n + 12 ≤ 4096 * pagesFor n ∧ 0 < pagesFor n ∧ pagesFor n < 4294967296 := by
    unfold pagesFor PGSIZE ARENA_SIZE at *
    omega
  obtain ⟨hroom, hpos, hmax⟩ := hpages
  cases hp : pager (pagesFor n) with
  | none => exact Answers.of_none ((Proc.bind_run (pallocGet_none hp h)).trans rfl)
  | some p =>
    have hf := hpager _ p hpos hp
    obtain ⟨hstored, hheader, hkeeps⟩ :=
      @Stored.add _ _ _ _ _ _ none hs.toGround hf hv.stored (show 0 < 4294967296 by decide) (pagesFor n)
    have hshape := hs.add_big hf hroom
    refine Answers.of_some ((Proc.bind_run (pallocGet_run (by omega) hp h)).trans (Proc.bind_run (setHeader_run _ _ _ _)))
      ⟨⟨_, ⟨hv.cnt, hshape, hstored, ?_⟩, ?_⟩, hkeeps live hs.liveBlock, rfl, fun a ha => mem_cons_of_mem _ ha⟩
    · intro a ha
      rcases List.mem_cons.mp ha with rfl | ha
      · have hcnt : freeCnt (g.setCls p none) (p, pagesFor n) = pagesFor n := by
          unfold freeCnt
          rw [setCls_same]
        rw [hcnt]
        exact ld_st_self hmax
      · have hcnt : freeCnt (g.setCls p none) a = freeCnt g a := by
          unfold freeCnt
          rw [setCls_other g none (hf.page_ne hs.toGround ha)]
          rfl
        rw [hcnt, ← hv.counted a ha]
        exact ((hheader a ha).sub (by omega) (by omega)).ld_eq
    · intro a ha
      rcases List.mem_cons.mp ha with rfl | ha
      · refine ⟨(p + 12, n), mem_cons_self, pgRoundDown_eq hf.usable.aligned ?_ ?_ rfl⟩
        · omega
        · omega
      · obtain ⟨d, hd, hpage⟩ := hv.used a ha
        exact ⟨d, mem_cons_of_mem _ hd, hpage⟩

/-- **`malloc`** -/
theorem Inv.malloc (hv : Inv h live g) (hpager : PagerOk h pager) (hn : n + 12 ≤ 4294967296) :
    Answers (malloc pager n) h live n := by
  by_cases hzero : n = 0
  · exact Answers.of_none (by unfold Malloc.malloc; rw [if_pos hzero]; rfl)
  · obtain ⟨k, hk, hfind, hsmall, -⟩ := @findDesc_run h.mem h.descs n (fun i hi => (hv.stored.desc i hi).1) CLASSES 0 rfl
    have hrun : ∀ {r h'}, (if descAt h.descs k = descAt h.descs CLASSES then Malloc.mallocBig pager n
        else Malloc.mallocSmall pager (descAt h.descs k)) h = some (r, h') → Malloc.malloc pager n h = some (r, h') := by
      intro r h' hx
      unfold Malloc.malloc
      rw [if_neg hzero]
      refine (Proc.bind_run rfl).trans ?_
      rw [hv.cnt]
      have hstart : descAt h.descs 0 = h.descs := rfl
      rw [hstart] at hfind
      rw [hfind]
      exact hx
    rcases Nat.lt_or_eq_of_le hk with hlt | rfl
    · have hne : descAt h.descs k ≠ descAt h.descs CLASSES := by
        rw [descAt_eq, descAt_eq]
        omega
      obtain ⟨r, h', hx, hnone, hsome⟩ := hv.mallocSmall hpager hlt (hsmall hlt)
      refine ⟨r, h', hrun ?_, hnone, hsome⟩
      rw [if_neg hne]
      exact hx
    · obtain ⟨r, h', hx, hnone, hsome⟩ := hv.mallocBig hpager hn
      refine ⟨r, h', hrun ?_, hnone, hsome⟩
      rw [if_pos rfl]
      exact hx

/-! ## `free` -/

/-- What has happened when a block was freed. -/
structure Frees (h h' : Heap) (live : List (Nat × Nat)) (b : Nat) : Prop where
  inv : ∃ g, Inv h' (without live (some b)) g
  keeps : Keeps (without live (some b)) h.mem h'.mem
  descs : h'.descs = h.descs
  taken : ∀ a ∈ h'.taken, a ∈ h.taken

/-- The arenas other than the one of the freed block still have an allocated block. -/
theorem Inv.used_without (hv : Inv h live g) (hpage : pgRoundDown b ≠ a.1) (ha : a ∈ h.taken) :
    ∃ d ∈ without live (some b), pgRoundDown d.1 = a.1 := by
  obtain ⟨d, hd, heq⟩ := hv.used a ha
  refine ⟨d, mem_without.mpr ⟨hd, ?_⟩, heq⟩
  intro hdb
  rw [Option.some.inj hdb] at heq
  exact hpage heq

/-- **Freeing a block of a class.** -/
theorem Inv.freeSmall (hv : Inv h live g) (hb : Block h.taken g b p i) (hlive : (b, n) ∈ live) :
    ∃ h', freeSmall b p (descAt h.descs i) h = some ((), h') ∧ Frees h h' live b := by
  have hs := hv.shape
  have hi := hs.block_class hb
  have hpage := hs.block_page hb
  have hsize : word (descAt h.descs i) h = some (classSize i, h) := by
    rw [← (hv.stored.desc i hi).1]
    rfl
  obtain ⟨hr₁, hkeeps₁⟩ := hv.toReady.write_live hlive hb.room
    (fun x k hoff => @sameAt_replicate h.mem x k b (classSize i) 0xcc hoff)
  obtain ⟨m₂, cnt, hpush, hcnt, hsum, hr₂, hkeeps₂⟩ := hr₁.giveBlock hb hlive
  have hcount : word (descAt h.descs i + 4) { h with mem := st m₂ (p + 8) cnt } =
      some (classCount i, { h with mem := st m₂ (p + 8) cnt }) := by
    rw [← (hr₂.stored.desc i hi).2]
    rfl
  have hstart : ∀ {r}, (if classCount i ≤ cnt then do
        Proc.assert (cnt = classCount i)
        removeBlocks p (classCount i) 0
        pallocFreeMultiple p 1
      else (Pure.pure PUnit.unit : K PUnit)) { h with mem := st m₂ (p + 8) cnt } = some r →
      Malloc.freeSmall b p (descAt h.descs i) h = some r := by
    intro r hrest
    refine (Proc.bind_run hsize).trans ((Proc.bind_run (memset_run _ _ _ _)).trans ((Proc.bind_run hpush).trans ?_))
    refine (Proc.bind_run rfl).trans ?_
    rw [hsum]
    refine (Proc.bind_run rfl).trans ((Proc.bind_run hcount).trans hrest)
  have hothers : ∀ a ∈ h.taken, a ≠ (p, 1) → ∃ d ∈ without live (some b), pgRoundDown d.1 = a.1 := by
    intro a ha hne
    refine hv.used_without ?_ ha
    rw [hpage]
    exact fun heq => hne (hs.arena_unique ha hb.taken heq.symm)
  by_cases hfull : classCount i ≤ cnt
  · have hexact : cnt = classCount i := by
      have hle := hr₂.shape.freeCnt_le hb.taken hb.cls
      omega
    obtain ⟨m₃, m₄, hremove, hrelease, hr₃, hkeeps₃⟩ := hr₂.dropArena hb.taken hb.cls (hcnt ▸ hfull)
    refine ⟨_, hstart ?_, ⟨_, hr₃, ?_⟩, (hkeeps₁.trans hkeeps₂).trans hkeeps₃, rfl, fun a ha => mem_of_mem_erase ha⟩
    · rw [if_pos hfull]
      exact (Proc.bind_run (Proc.assert_run hexact _)).trans ((Proc.bind_run hremove).trans hrelease)
    · intro a ha
      refine hothers a (mem_of_mem_erase ha) ?_
      rintro rfl
      exact hs.erase_not_mem ha
  · refine ⟨_, hstart ?_, ⟨_, hr₂, ?_⟩, hkeeps₁.trans hkeeps₂, rfl, fun a ha => ha⟩
    · rw [if_neg hfull]
      rfl
    · intro a ha
      by_cases heq : a = (p, 1)
      · subst heq
        rw [hcnt] at hfull
        exact hr₂.shape.some_live hb.taken hb.cls (Nat.lt_of_not_le hfull)
      · exact hothers a ha heq

theorem freeCnt_big (hcls : g.cls a.1 = none) : freeCnt g a = a.2 := by
  unfold freeCnt
  rw [hcls]

/-- What the header of the arena of a block says. -/
theorem Ready.header_run (hr : Ready h live g) (hroom : Room h.taken g a b cap) :
    (∃ i, Block h.taken g b a.1 i ∧ cap = classSize i ∧ word (a.1 + 4) h = some (descAt h.descs i, h)) ∨
    (g.cls a.1 = none ∧ b = a.1 + 12 ∧ cap + 12 = 4096 * a.2 ∧ word (a.1 + 4) h = some (0, h) ∧
      word (a.1 + 8) h = some (a.2, h)) := by
  have howner : word (a.1 + 4) h = some (descPtr h.descs (g.cls a.1), h) := by
    rw [← hr.stored.owner a hroom.taken]
    rfl
  rcases hroom.kind with ⟨i, hcls, hb, hcap⟩ | ⟨hcls, hb, hcap⟩
  · have hone : a = (a.1, 1) := Prod.ext rfl (hr.shape.small a hroom.taken i hcls).2
    rw [hcls] at howner
    exact .inl ⟨i, ⟨hone ▸ hroom.taken, hcls, hb⟩, hcap, howner⟩
  · rw [hcls] at howner
    refine .inr ⟨hcls, hb, hcap, howner, ?_⟩
    have hcounted := hr.counted a hroom.taken
    rw [freeCnt_big hcls] at hcounted
    rw [← hcounted]
    rfl

/-- **Freeing a big block.** -/
theorem Inv.freeBig (hv : Inv h live g) (ha : a ∈ h.taken) (hcls : g.cls a.1 = none) (hlive : (a.1 + 12, n) ∈ live) :
    ∃ h', pallocFreeMultiple a.1 a.2 h = some ((), h') ∧ Frees h h' live (a.1 + 12) := by
  have hs := hv.shape
  have hground := hs.toGround
  have hfree : ∀ j < CLASSES, (g.drop a.1).free j = g.free j := by
    intro j hj
    refine hground.drop_free hj ?_
    rw [hcls]
    nofun
  have hpage : pgRoundDown (a.1 + 12) = a.1 := pgRoundDown_eq (hs.usable a ha).aligned (by omega) (by omega) rfl
  -- the block is the only one of its arena
  have halone : ∀ d ∈ without live (some (a.1 + 12)), pgRoundDown d.1 ≠ a.1 := by
    intro d hd heq
    obtain ⟨hd, hne⟩ := mem_without.mp hd
    obtain ⟨a', cap, hroom, -⟩ := hs.liveBlock d hd
    obtain rfl : a' = a := hs.arena_unique hroom.taken ha ((hs.room_page hroom).symm.trans heq)
    rcases hroom.kind with ⟨i, hcls', -, -⟩ | ⟨-, hd12, -⟩
    · rw [hcls] at hcls'
      cases hcls'
    · exact hne (congrArg some hd12)
  have hshape : Shape h.descs h.taken (without live (some (a.1 + 12))) g := by
    refine ⟨hground, hs.freeNodup, fun d hd => hs.liveBlock d (mem_without.mp hd).1,
      hs.liveNodup.sublist (List.filter_sublist.map _), fun d hd => hs.exclusive d (mem_without.mp hd).1, ?_⟩
    intro c q j hc
    rcases hs.covered c q j hc with ⟨k, hk⟩ | hin
    · refine .inl ⟨k, mem_without.mpr ⟨hk, ?_⟩⟩
      intro heq
      have hc12 : c = a.1 + 12 := Option.some.inj heq
      have hqa : q = a.1 := by
        rw [← hs.block_page hc, hc12]
        exact hpage
      have hsome := hc.cls
      rw [hqa, hcls] at hsome
      cases hsome
    · exact .inr hin
  obtain ⟨hr', hkeeps⟩ := Ready.of_release hv.cnt hshape (hv.stored.congr rfl hfree) hv.counted ha halone
  refine ⟨_, pallocFree_run (hs.usable a ha) ha, ⟨_, hr', ?_⟩, hkeeps, rfl, fun a' ha' => mem_of_mem_erase ha'⟩
  intro a' ha'
  refine hv.used_without ?_ (mem_of_mem_erase ha')
  rw [hpage]
  intro heq
  obtain rfl := hs.arena_unique (mem_of_mem_erase ha') ha heq.symm
  exact hs.erase_not_mem ha'

/-- **`free`** -/
theorem Inv.free (hv : Inv h live g) (hlive : (b, n) ∈ live) :
    ∃ h', free (some b) h = some ((), h') ∧ Frees h h' live b := by
  have hs := hv.shape
  obtain ⟨a, cap, hroom, -⟩ := hs.liveBlock _ hlive
  have harena := blockToArena_run hs.toGround hv.stored hroom
  rcases hv.header_run hroom with ⟨i, hb, -, howner⟩ | ⟨hcls, hb, -, howner, hcnt⟩
  · obtain ⟨h', hrun, hfrees⟩ := hv.freeSmall hb hlive
    refine ⟨h', (Proc.bind_run harena).trans ((Proc.bind_run howner).trans ?_), hfrees⟩
    rw [if_pos (descAt_ne_zero hs.toGround i)]
    exact hrun
  · obtain rfl : b = a.1 + 12 := hb
    obtain ⟨h', hrun, hfrees⟩ := hv.freeBig hroom.taken hcls hlive
    refine ⟨h', (Proc.bind_run harena).trans ((Proc.bind_run howner).trans ?_), hfrees⟩
    exact (Proc.bind_run hcnt).trans hrun

/-! ## `block_size`, `calloc` and `realloc` -/

/-- **`block_size`** is the room of a block. -/
theorem Ready.blockSize (hr : Ready h live g) (hroom : Room h.taken g a b cap) : blockSize b h = some (cap, h) := by
  have hs := hr.shape
  have harena := blockToArena_run hs.toGround hr.stored hroom
  rcases hr.header_run hroom with ⟨i, hb, hcap, howner⟩ | ⟨hcls, hb, hcap, howner, hcnt⟩
  · refine (Proc.bind_run harena).trans ((Proc.bind_run howner).trans ?_)
    rw [if_pos (descAt_ne_zero hs.toGround i), hcap, ← (hr.stored.desc i (hs.block_class hb)).1]
    rfl
  · have hu := hs.usable a hroom.taken
    have hofs : (PGSIZE * a.2 + 4294967296 - pgOfs b) % 4294967296 = cap := by
      have halign := hu.aligned
      have hfits := hu.fits
      unfold pgOfs PGSIZE
      omega
    refine (Proc.bind_run harena).trans ((Proc.bind_run howner).trans ?_)
    refine (Proc.bind_run hcnt).trans ?_
    rw [hofs]
    rfl

/-- Writing to an allocated block. -/
theorem Inv.write_live {m' : Mem} (hv : Inv h live g) (hlive : (b, n) ∈ live) (hroom : Room h.taken g a b cap)
    (hsame : ∀ x k, x + k ≤ b ∨ b + cap ≤ x → SameAt h.mem m' x k) :
    Inv { h with mem := m' } live g ∧ Keeps (without live (some b)) h.mem m' := by
  obtain ⟨hr, hkeeps⟩ := hv.toReady.write_live hlive hroom hsame
  exact ⟨⟨hr, hv.used⟩, hkeeps⟩

/-- The sizes that blocks are known with can be changed, as long as they fit. -/
theorem Inv.resize {live' : List (Nat × Nat)} (hv : Inv h live g) (haddr : live'.map Prod.fst = live.map Prod.fst)
    (halloc : ∀ d ∈ live', Allocated h.taken g d) : Inv h live' g := by
  have hs := hv.shape
  have hmem : ∀ {l l' : List (Nat × Nat)}, l'.map Prod.fst = l.map Prod.fst → ∀ d ∈ l, ∃ k, (d.1, k) ∈ l' := by
    intro l l' heq d hd
    have hin : d.1 ∈ l'.map Prod.fst := by
      rw [heq]
      exact List.mem_map_of_mem hd
    obtain ⟨⟨x, k⟩, hk, hx⟩ := List.mem_map.mp hin
    exact ⟨k, hx ▸ hk⟩
  refine ⟨⟨hv.cnt, ⟨hs.toGround, hs.freeNodup, halloc, haddr ▸ hs.liveNodup, ?_, ?_⟩, hv.stored, hv.counted⟩, ?_⟩
  · intro d hd i hi
    obtain ⟨k, hk⟩ := hmem haddr.symm d hd
    exact hs.exclusive _ hk i hi
  · intro c q j hc
    rcases hs.covered c q j hc with ⟨k, hk⟩ | hin
    · exact .inl (hmem haddr _ hk)
    · exact .inr hin
  · intro a ha
    obtain ⟨d, hd, hpage⟩ := hv.used a ha
    obtain ⟨k, hk⟩ := hmem haddr d hd
    exact ⟨(d.1, k), hk, hpage⟩

/-- **`calloc`** -/
theorem Inv.calloc {x y : Nat} (hv : Inv h live g) (hpager : PagerOk h pager) (hn : x * y + 12 ≤ 4294967296) :
    Answers (calloc pager x y) h live (x * y) := by
  have hsize : x * y % 4294967296 = x * y := Nat.mod_eq_of_lt (by omega)
  unfold Malloc.calloc
  rw [hsize]
  by_cases hwrap : x * y < x ∨ x * y < y
  · refine Answers.of_none ?_
    rw [if_pos hwrap]
    rfl
  · rw [if_neg hwrap]
    obtain ⟨r, h₁, hrun, hnone, hsome⟩ := hv.malloc hpager hn
    cases r with
    | none =>
      obtain rfl := hnone rfl
      exact Answers.of_none ((Proc.bind_run hrun).trans rfl)
    | some b =>
      have hnew := (hsome b rfl).ne
      obtain ⟨⟨g₁, hv₁⟩, hkeeps, hdescs, htaken⟩ := hsome b rfl
      obtain ⟨a, cap, hroom, hle⟩ := hv₁.shape.liveBlock _ mem_cons_self
      obtain ⟨hv₂, hkeeps₂⟩ := @Inv.write_live h₁ _ _ _ _ _ _ (patch h₁.mem b (List.replicate (x * y) 0)) hv₁
        mem_cons_self hroom (fun z k hoff => sameAt_replicate (by simp only at hle hoff; omega))
      refine Answers.of_some ((Proc.bind_run hrun).trans ((Proc.bind_run (memset_run _ _ _ _)).trans rfl))
        ⟨⟨g₁, hv₂⟩, hkeeps.trans ?_, hdescs, htaken⟩
      intro d hd
      exact hkeeps₂ d (mem_without.mpr ⟨mem_cons_of_mem _ hd, fun heq => hnew d hd (Option.some.inj heq)⟩)

/-- The blocks with another size for one of them. -/
def resized (live : List (Nat × Nat)) (b n : Nat) : List (Nat × Nat) :=
  live.map fun d => if d.1 = b then (b, n) else d

theorem resized_addr (live : List (Nat × Nat)) (b n : Nat) : (resized live b n).map Prod.fst = live.map Prod.fst := by
  unfold resized
  rw [List.map_map]
  refine map_congr_left ?_
  intro d _
  by_cases hd : d.1 = b
  · simp [hd]
  · simp [hd]

theorem mem_resized (hlive : (b, n) ∈ live) (k : Nat) : (b, k) ∈ resized live b k :=
  List.mem_map.mpr ⟨(b, n), hlive, if_pos rfl⟩

theorem without_resized (live : List (Nat × Nat)) (b n : Nat) :
    without (resized live b n) (some b) = without live (some b) := by
  unfold without resized
  induction live with
  | nil => rfl
  | cons d live ih =>
    by_cases hd : d.1 = b
    · simp only [map_cons, if_pos hd]
      rw [filter_cons_of_neg (by simp), filter_cons_of_neg (by simp [hd]), ih]
    · simp only [map_cons, if_neg hd]
      rw [filter_cons_of_pos (by simp [hd]), filter_cons_of_pos (by simp [hd]), ih]

/-- What has happened when a block was moved. -/
structure Moves (h h' : Heap) (live : List (Nat × Nat)) (old new n cap : Nat) : Prop where
  inv : ∃ g, Inv h' ((new, n) :: without live (some old)) g
  /-- Both heaps are parts of one in between. -/
  between : ∃ h₁ live₁ g, Inv h₁ live₁ g ∧ (∀ a ∈ h.taken, a ∈ h₁.taken) ∧ ∀ a ∈ h'.taken, a ∈ h₁.taken
  copied : slice h'.mem new (min cap n) = slice h.mem old (min cap n)

/-- **`realloc`** without a block is `malloc`. -/
theorem Inv.realloc_null (hv : Inv h live g) (hpager : PagerOk h pager) (hn : n + 12 ≤ 4294967296) (hpos : n ≠ 0) :
    Answers (realloc pager none n) h live n := by
  obtain ⟨r, h', hrun, hnone, hsome⟩ := hv.malloc hpager hn
  refine ⟨r, h', ?_, hnone, hsome⟩
  unfold Malloc.realloc
  rw [if_neg hpos]
  exact (Proc.bind_run hrun).trans rfl

/-- **`realloc`** of a block. -/
theorem Inv.realloc {old : Nat} (hv : Inv h live g) (hpager : PagerOk h pager) (hn : n + 12 ≤ 4294967296) (hpos : n ≠ 0)
    (hlive : (old, k) ∈ live) :
    ∃ r h' cap, realloc pager (some old) n h = some (r, h') ∧ blockSize old h = some (cap, h) ∧ k ≤ cap ∧
      (r = none → h' = h) ∧ ∀ new, r = some new → Moves h h' live old new n cap := by
  obtain ⟨a, cap, hroom, hle⟩ := hv.shape.liveBlock _ hlive
  -- the old block keeps all of its room until it is freed
  have hv₀ : Inv h (resized live old cap) g := by
    refine hv.resize (resized_addr live old cap) ?_
    intro d hd
    obtain ⟨c, hc, rfl⟩ := List.mem_map.mp hd
    by_cases heq : c.1 = old
    · rw [if_pos heq]
      exact ⟨a, cap, hroom, Nat.le_refl _⟩
    · rw [if_neg heq]
      exact hv.shape.liveBlock c hc
  obtain ⟨r, h₁, hrun, hnone, hsome⟩ := hv₀.malloc hpager hn
  refine ⟨r, ?_⟩
  unfold Malloc.realloc
  rw [if_neg hpos]
  cases r with
  | none =>
    obtain rfl := hnone rfl
    exact ⟨h₁, cap, (Proc.bind_run hrun).trans rfl, hv.blockSize hroom, hle, fun _ => rfl, nofun⟩
  | some new =>
    have hne := (hsome new rfl).ne
    obtain ⟨⟨g₁, hv₁⟩, hkeeps, hdescs, htaken⟩ := hsome new rfl
    have hold := mem_resized hlive cap
    have hon : old ≠ new := hne _ hold
    obtain ⟨a₁, cap₁, hroom₁, hle₁⟩ := hv₁.shape.liveBlock _ (mem_cons_of_mem _ hold)
    obtain ⟨a₂, cap₂, hroom₂, hle₂⟩ := hv₁.shape.liveBlock _ mem_cons_self
    have hmin : (if n < cap₁ then n else cap₁) = min n cap₁ := by
      split
      · omega
      · omega
    have hlen : (slice h₁.mem old (min n cap₁)).length = min n cap₁ := length_slice
    obtain ⟨hv₂, -⟩ := @Inv.write_live h₁ _ _ _ _ _ _ (patch h₁.mem new (slice h₁.mem old (min n cap₁))) hv₁
      mem_cons_self hroom₂ (fun z j hoff => sameAt_patch (by omega))
    obtain ⟨h₃, hfree, hfrees⟩ := hv₂.free (mem_cons_of_mem _ hold)
    have hafter : without ((new, n) :: resized live old cap) (some old) = (new, n) :: without live (some old) := by
      unfold without
      rw [filter_cons_of_pos (by simpa using fun heq => hon heq.symm)]
      exact congrArg _ (without_resized live old cap)
    obtain ⟨hinv, hkept, hdescs', htaken'⟩ := hfrees
    rw [hafter] at hinv hkept
    refine ⟨h₃, cap, ?_, hv.blockSize hroom, hle, nofun, ?_⟩
    · refine (Proc.bind_run hrun).trans ((Proc.bind_run (hv₁.blockSize hroom₁)).trans ?_)
      rw [hmin]
      exact (Proc.bind_run rfl).trans ((Proc.bind_run hfree).trans rfl)
    · rintro _ ⟨⟩
      refine ⟨hinv, ⟨h₁, _, g₁, hv₁, htaken, htaken'⟩, ?_⟩
      have hwhole : slice (patch h₁.mem new (slice h₁.mem old (min n cap₁))) new (min n cap₁) =
          slice h₁.mem old (min n cap₁) := by
        have hself := @slice_patch_self UInt8 h₁.mem new (slice h₁.mem old (min n cap₁))
        rwa [hlen] at hself
      have hless : min (min cap n) (min n cap₁) = min cap n := by omega
      have hpart := congrArg (List.take (min cap n)) hwhole
      rw [take_slice, take_slice, hless] at hpart
      calc slice h₃.mem new (min cap n)
          = slice (patch h₁.mem new (slice h₁.mem old (min n cap₁))) new (min cap n) :=
            ((hkept _ mem_cons_self).sub (Nat.le_refl _) (by simp only; omega)).slice_eq
        _ = slice h₁.mem old (min cap n) := hpart
        _ = slice h.mem old (min cap n) := ((hkeeps _ hold).sub (Nat.le_refl _) (by simp only; omega)).slice_eq

end Malloc
end Asg1
