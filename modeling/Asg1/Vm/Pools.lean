import Asg1.Kernel.Bitmap
import Asg1.Vm.Palloc

/-!
# `Vm.Pools` — how memory is divided at boot

`palloc_init` divides the memory above 1 MB into the kernel pool and the user pool, takes all pages of the user pool for the
frame table, and makes the frame pool of them. Each pool begins with the pages of its own bitmap, so pages are taken off
three times. The array of frames has an entry for each page from the user pool, the bitmap of the frame pool has fewer
bits.

A panic and a failed assertion are `none`. That `malloc` finds memory for the array is taken for granted.
-/

namespace Asg1
namespace Pools

open Pte Frame BitVec

/-- `struct pool`. `start` is the address of `used_map`. -/
structure Pool where
  start : Word
  usedMap : Bitmap
  base : Word

/-- `DIV_ROUND_UP` of two sizes. -/
def divRoundUp (x step : Nat) : Nat := (x + step - 1) % 2 ^ 32 / step

/-- `bitmap_buf_size` -/
def bitmapBufSize (bitCnt : Nat) : Nat := (8 + byteCnt bitCnt) % 2 ^ 32

/-- The pages for the bitmap of a pool. -/
def bmPages (pageCnt : Nat) : Nat := divRoundUp (bitmapBufSize pageCnt) 4096

/-- `init_pool`, with what memory holds. -/
def initPool (mem : Word → Nat → Word) (base : Word) (pageCnt : Nat) : Option Pool := do
  guard (bmPages pageCnt ≤ pageCnt)
  let bits := pageCnt - bmPages pageCnt
  guard (bitmapBufSize bits ≤ bmPages pageCnt * 4096 % 2 ^ 32)
  let usedMap ← Bitmap.create bits (mem base)
  return ⟨base, usedMap, base + BitVec.ofNat 32 (bmPages pageCnt * 4096)⟩

/-- `old_palloc_init`: the two pools, and the number of user pages. -/
def oldPallocInit (mem : Word → Nat → Word) (initRamPages userPageLimit : Nat) : Option (Pool × Pool × Nat) := do
  let freeStart ← ptov 0x100000#32
  let freeEnd ← ptov (BitVec.ofNat 32 initRamPages * PGSIZE)
  let freePages := (freeEnd - freeStart).toNat / 4096
  let userPages := if freePages / 2 > userPageLimit then userPageLimit else freePages / 2
  let kernelPages := freePages - userPages
  let kernelPool ← initPool mem freeStart kernelPages
  let userPool ← initPool mem (freeStart + BitVec.ofNat 32 (kernelPages * 4096)) userPages
  return (kernelPool, userPool, userPages)

/-- `old_palloc_get_multiple` with `PAL_ASSERT`. -/
def oldPallocGetMultiple (pool : Pool) (pageCnt : Nat) : Option (Pool × Word) :=
  if pageCnt = 0 then some (pool, 0#32)
  else do
    let (usedMap, pageIdx) ← pool.usedMap.scanAndFlip 0 pageCnt false
    let idx ← pageIdx
    return ({ pool with usedMap }, pool.base + PGSIZE * BitVec.ofNat 32 idx)

/-- The pools and the frame table of a booted kernel. -/
structure Layout where
  kernelPool : Pool
  userPool : Pool
  framePool : Pool
  frames : List FrameEntry

/-- `palloc_init`, with `frame_table_init`. -/
def pallocInit (mem : Word → Nat → Word) (initRamPages userPageLimit : Nat) : Option Layout := do
  let (kernelPool, userPool, numUserPages) ← oldPallocInit mem initRamPages userPageLimit
  let numFrames := (numUserPages + 2 ^ 32 - bmPages numUserPages) % 2 ^ 32
  let (userPool, base) ← oldPallocGetMultiple userPool numFrames
  let framePool ← initPool mem base numFrames
  let frames := (List.range numFrames).map fun i =>
    ⟨-1, -1, false, false, false, framePool.base + BitVec.ofNat 32 i * PGSIZE⟩
  return ⟨kernelPool, userPool, framePool, frames⟩

/-! ## What is expected -/

/-- The addresses from `lo` to `hi`. -/
structure Range where
  lo : Nat
  hi : Nat

/-- Where the bitmap of a pool is. -/
def Pool.map (p : Pool) : Range := ⟨p.start.toNat, p.base.toNat⟩

/-- Where the pages of a pool are. -/
def Pool.pages (p : Pool) : Range := ⟨p.base.toNat, p.base.toNat + p.usedMap.bitCnt * 4096⟩

/-- The table with which `palloc_page` starts. -/
def Layout.table (l : Layout) : FrameTable :=
  ⟨(List.range l.framePool.usedMap.bitCnt).map l.framePool.usedMap.bit, l.frames⟩

/-- The ranges of the kernel pool and the user pool. -/
def Layout.ranges (l : Layout) : List Range :=
  [l.kernelPool.map, l.kernelPool.pages, l.userPool.map, l.userPool.pages]

/-- The pages that the frame table has got from the user pool. -/
def Layout.obtained (l : Layout) : Range :=
  ⟨l.framePool.start.toNat, l.framePool.start.toNat + l.frames.length * 4096⟩

/-- A frame for user pages. -/
structure IsFrame (l : Layout) (e : FrameEntry) : Prop where
  aligned : pgOfs e.kpage = 0#32
  obtained : l.obtained.lo ≤ e.kpage.toNat ∧ e.kpage.toNat + 4096 ≤ l.obtained.hi
  outside : l.framePool.map.hi ≤ e.kpage.toNat

/-- **Memory is divided.** No two ranges overlap, every bitmap fits where it is, and each frame is a page of its own. -/
structure Divided (initRamPages : Nat) (l : Layout) : Prop where
  disjoint : l.ranges.Pairwise fun a b => a.hi ≤ b.lo
  inside : ∀ r ∈ l.ranges, 0xc0100000 ≤ r.lo ∧ r.lo ≤ r.hi ∧ r.hi ≤ 0xc0000000 + initRamPages * 4096
  fits : ∀ p ∈ [l.kernelPool, l.userPool, l.framePool], p.map.lo + bitmapBufSize p.usedMap.bitCnt ≤ p.map.hi
  obtained : l.userPool.pages.lo ≤ l.obtained.lo ∧ l.obtained.hi ≤ l.userPool.pages.hi
  frames : ∀ i < l.framePool.usedMap.bitCnt, ∃ e, l.frames[i]? = some e ∧ IsFrame l e
  distinct : ∀ i < l.framePool.usedMap.bitCnt, ∀ j < l.framePool.usedMap.bitCnt,
    (l.frames[i]?).map FrameEntry.kpage = (l.frames[j]?).map FrameEntry.kpage → i = j

/-- Calls of `palloc_page` that each find a free frame, and the pages that they return. -/
inductive Calls (m : Machine) : State → State → List Word → Prop
  | nil (s : State) : Calls m s s []
  | cons {s s₁ s₂ : State} {pid : Nat} {pd upage stray : Word} {writable : Bool} {page result : Option Word}
      {kpages : List Word} (found : (scan s.table.usedMap).isSome)
      (call : pallocPage m s pid pd upage writable page stray = some (s₁, result)) (rest : Calls m s₁ s₂ kpages) :
      Calls m s s₂ (result.toList ++ kpages)

/-! ## One pool -/

section
variable {mem : Word → Nat → Word} {base : Word} {pageCnt : Nat} {p : Pool}

theorem bitmapBufSize_eq {bitCnt : Nat} (h : bitCnt < 2 ^ 20) : bitmapBufSize bitCnt = 8 + 4 * ((bitCnt + 31) / 32) := by
  unfold bitmapBufSize byteCnt elemCnt
  omega

theorem bmPages_eq (h : pageCnt < 2 ^ 20) : bmPages pageCnt = (8 + 4 * ((pageCnt + 31) / 32) + 4095) / 4096 := by
  unfold bmPages divRoundUp
  rw [bitmapBufSize_eq h]
  omega

/-- The bitmap of a pool takes a page at least, and has room there. -/
theorem bmPages_pos (h : pageCnt < 2 ^ 20) : 0 < bmPages pageCnt ∧ bmPages pageCnt ≤ 64 ∧
    bitmapBufSize (pageCnt - bmPages pageCnt) ≤ bmPages pageCnt * 4096 := by
  have hbm := bmPages_eq h
  rw [bitmapBufSize_eq (show pageCnt - bmPages pageCnt < 2 ^ 20 by omega)]
  omega

/-- What `init_pool` has made of `pageCnt` pages. -/
structure Initialized (a : Word) (pageCnt : Nat) (p : Pool) : Prop where
  start : p.start = a
  bitCnt : p.usedMap.bitCnt + bmPages pageCnt = pageCnt
  base : p.base.toNat = a.toNat + bmPages pageCnt * 4096
  clear : ∀ i < p.usedMap.bitCnt, p.usedMap.bit i = false
  fits : a.toNat + bitmapBufSize p.usedMap.bitCnt ≤ p.base.toNat

theorem initPool_spec (hcnt : pageCnt < 2 ^ 20) (hend : base.toNat + pageCnt * 4096 < 2 ^ 32)
    (h : initPool mem base pageCnt = some p) : Initialized base pageCnt p := by
  obtain ⟨-, hsmall, hfits⟩ := bmPages_pos hcnt
  obtain ⟨hle, h⟩ := of_assert h
  obtain ⟨-, h⟩ := of_assert h
  obtain ⟨b, hcreate, hbits, hclear⟩ := @Bitmap.create_eq (pageCnt - bmPages pageCnt) (mem base) (by omega)
  rw [hcreate] at h
  cases h
  have hbase : (base + BitVec.ofNat 32 (bmPages pageCnt * 4096)).toNat = base.toNat + bmPages pageCnt * 4096 := by
    rw [toNat_add, toNat_ofNat]
    omega
  refine ⟨rfl, ?_, hbase, ?_, ?_⟩
  · show b.bitCnt + bmPages pageCnt = pageCnt
    omega
  · intro i hi
    exact hclear i (hbits ▸ hi)
  · rw [hbits, hbase]
    omega

/-- A group of pages from a pool of which no page is taken. -/
theorem getMultiple_spec {p' : Pool} {cnt : Nat} {page : Word} (hcnt : 0 < cnt)
    (hclear : ∀ i < p.usedMap.bitCnt, p.usedMap.bit i = false) (hrange : cnt ≤ p.usedMap.bitCnt)
    (h : oldPallocGetMultiple p cnt = some (p', page)) :
    page = p.base ∧ p'.start = p.start ∧ p'.base = p.base ∧ p'.usedMap.bitCnt = p.usedMap.bitCnt := by
  have hrun : p.usedMap.Run false 0 cnt := ⟨by omega, fun j _ hj => hclear j (by omega)⟩
  rw [oldPallocGetMultiple, if_neg (by omega)] at h
  rcases Bitmap.scanAndFlip_eq (b := p.usedMap) false cnt (Nat.zero_le _) with
    ⟨k, b', hflip, -, -, hleast, hbits, -⟩ | ⟨-, hnone⟩
  · obtain rfl : k = 0 := by
      by_contra hk
      exact hleast 0 (Nat.le_refl _) (by omega) hrun
    rw [hflip] at h
    cases h
    refine ⟨?_, rfl, rfl, hbits⟩
    simp
  · exact absurd hrun (hnone 0 (Nat.le_refl _))

end

/-! ## The pools of a kernel -/

section
variable {mem : Word → Nat → Word} {initRamPages userPageLimit : Nat}

theorem ptov_ram (h : initRamPages < 2 ^ 18) : ∃ a, ptov (BitVec.ofNat 32 initRamPages * PGSIZE) = some a ∧
    a.toNat = 0xc0000000 + initRamPages * 4096 := by
  have hsize : PGSIZE.toNat = 4096 := rfl
  have hbase : PHYS_BASE.toNat = 0xc0000000 := rfl
  have hnat : (BitVec.ofNat 32 initRamPages * PGSIZE).toNat = initRamPages * 4096 := by
    rw [toNat_mul, toNat_ofNat, hsize]
    omega
  refine ⟨_, if_pos ?_, ?_⟩
  · rw [lt_def, hnat, hbase]
    omega
  · rw [toNat_add, hnat, hbase]
    omega

/-- The kernel pool and the user pool, from 1 MB on to the end of memory. -/
structure Halves (initRamPages kernelPages userPages : Nat) (kernelPool userPool : Pool) : Prop where
  total : 256 + kernelPages + userPages = initRamPages
  kernel : Initialized 0xc0100000#32 kernelPages kernelPool
  user : Initialized userPool.start userPages userPool
  start : userPool.start.toNat = 0xc0100000 + kernelPages * 4096

theorem oldPallocInit_spec {kernelPool userPool : Pool} {userPages : Nat} (hlo : 256 < initRamPages)
    (hhi : initRamPages < 2 ^ 18)
    (h : oldPallocInit mem initRamPages userPageLimit = some (kernelPool, userPool, userPages)) :
    ∃ kernelPages, Halves initRamPages kernelPages userPages kernelPool userPool := by
  have hstart : ptov 0x100000#32 = some 0xc0100000#32 := by decide
  obtain ⟨freeEnd, hend, hnat⟩ := ptov_ram hhi
  have hle : 0xc0100000#32 ≤ freeEnd := by
    rw [le_def, hnat]
    show 0xc0100000 ≤ _
    omega
  have hfree : (freeEnd - 0xc0100000#32).toNat / 4096 = initRamPages - 256 := by
    rw [toNat_sub_of_le hle, hnat]
    show (_ - 0xc0100000) / 4096 = _
    omega
  simp only [oldPallocInit, hstart, hend, Option.bind_eq_bind, Option.bind_some, hfree] at h
  obtain ⟨user, huser⟩ : ∃ user, user =
    if (initRamPages - 256) / 2 > userPageLimit then userPageLimit else (initRamPages - 256) / 2 := ⟨_, rfl⟩
  rw [← huser] at h
  have huserle : user ≤ (initRamPages - 256) / 2 := by
    rw [huser]
    split <;> omega
  obtain ⟨kernel, hkernel⟩ : ∃ kernel, kernel = initRamPages - 256 - user := ⟨_, rfl⟩
  rw [← hkernel] at h
  obtain ⟨kp, hkp, h⟩ := Option.bind_eq_some_iff.mp h
  obtain ⟨up, hup, h⟩ := Option.bind_eq_some_iff.mp h
  cases h
  have hmiddle : (0xc0100000#32 + BitVec.ofNat 32 (kernel * 4096)).toNat = 0xc0100000 + kernel * 4096 := by
    rw [toNat_add, toNat_ofNat, toNat_ofNat]
    omega
  have hkinit := initPool_spec (by omega) (by show 0xc0100000 + _ < _; omega) hkp
  have huinit := initPool_spec (by omega) (by rw [hmiddle]; omega) hup
  refine ⟨kernel, by omega, hkinit, ?_, ?_⟩
  · rw [huinit.start]
    exact huinit
  · rw [huinit.start]
    exact hmiddle

/-- What `palloc_init` has made of memory. -/
structure Booted (initRamPages kernelPages userPages : Nat) (l : Layout) : Prop where
  total : 256 + kernelPages + userPages = initRamPages
  kernel : Initialized 0xc0100000#32 kernelPages l.kernelPool
  user_start : l.userPool.start.toNat = 0xc0100000 + kernelPages * 4096
  user_bits : l.userPool.usedMap.bitCnt + bmPages userPages = userPages
  user_base : l.userPool.base.toNat = l.userPool.start.toNat + bmPages userPages * 4096
  user_fits : l.userPool.start.toNat + bitmapBufSize l.userPool.usedMap.bitCnt ≤ l.userPool.base.toNat
  frame : Initialized l.userPool.base l.userPool.usedMap.bitCnt l.framePool
  frames : l.frames = (List.range l.userPool.usedMap.bitCnt).map fun i =>
    ⟨-1, -1, false, false, false, l.framePool.base + BitVec.ofNat 32 i * PGSIZE⟩

theorem pallocInit_spec {l : Layout} (hlo : 256 < initRamPages) (hhi : initRamPages < 2 ^ 18)
    (h : pallocInit mem initRamPages userPageLimit = some l) :
    ∃ kernelPages userPages, Booted initRamPages kernelPages userPages l := by
  obtain ⟨⟨kernelPool, userPool, userPages⟩, hinit, h⟩ := Option.bind_eq_some_iff.mp h
  obtain ⟨kernelPages, halves⟩ := oldPallocInit_spec hlo hhi hinit
  have htotal := halves.total
  have hbits := halves.user.bitCnt
  have hnum : (userPages + 2 ^ 32 - bmPages userPages) % 2 ^ 32 = userPool.usedMap.bitCnt := by omega
  simp only [hnum] at h
  obtain ⟨⟨userPool', base⟩, hget, h⟩ := Option.bind_eq_some_iff.mp h
  obtain ⟨framePool, hframe, h⟩ := Option.bind_eq_some_iff.mp h
  cases h
  -- the bitmap of the frame pool takes a page, so there is one
  have hpos : 0 < userPool.usedMap.bitCnt := by
    have hle := (of_assert hframe).1
    have hbm := (bmPages_pos (show userPool.usedMap.bitCnt < 2 ^ 20 by omega)).1
    omega
  obtain ⟨rfl, hstart', hbase', hbits'⟩ := getMultiple_spec hpos halves.user.clear (Nat.le_refl _) hget
  have hstart := halves.start
  have hbase := halves.user.base
  have hfits := halves.user.fits
  have hpool : initPool mem userPool.base userPool.usedMap.bitCnt = some framePool := hframe
  have hframes := initPool_spec (by omega) (by omega) hpool
  refine ⟨kernelPages, userPages, htotal, halves.kernel, ?_, ?_, ?_, ?_, ?_, ?_⟩
  · rw [hstart', hstart]
  · rw [hbits', hbits]
  · rw [hbase', hstart', hbase]
  · rw [hbase', hstart', hbits']
    exact hfits
  · rw [hbase', hbits']
    exact hframes
  · rw [hbits']

section
variable {kernelPages userPages : Nat} {l : Layout}

section
variable (b : Booted initRamPages kernelPages userPages l)
include b

/-- The bounds of all pools. -/
theorem Booted.bounds :
    l.kernelPool.start.toNat = 0xc0100000 ∧ l.kernelPool.start.toNat ≤ l.kernelPool.base.toNat ∧
      l.kernelPool.base.toNat + l.kernelPool.usedMap.bitCnt * 4096 = l.userPool.start.toNat ∧
      l.userPool.start.toNat ≤ l.userPool.base.toNat ∧
      l.userPool.base.toNat + l.userPool.usedMap.bitCnt * 4096 = 0xc0000000 + initRamPages * 4096 ∧
      l.framePool.start = l.userPool.base ∧
      l.framePool.base.toNat + l.framePool.usedMap.bitCnt * 4096 = 0xc0000000 + initRamPages * 4096 := by
  have htotal := b.total
  have hkernel := b.kernel.bitCnt
  have hkbase := b.kernel.base
  have hk0 : (0xc0100000#32).toNat = 0xc0100000 := rfl
  have hstart := b.user_start
  have hubits := b.user_bits
  have hubase := b.user_base
  have hfbits := b.frame.bitCnt
  have hfbase := b.frame.base
  have hkstart := b.kernel.start
  refine ⟨by rw [hkstart]; rfl, by rw [hkstart]; omega, by omega, by omega, by omega, b.frame.start, by omega⟩

theorem Booted.frame_entry {i : Nat} (hi : i < l.userPool.usedMap.bitCnt) :
    l.frames[i]? = some ⟨-1, -1, false, false, false, l.framePool.base + BitVec.ofNat 32 i * PGSIZE⟩ := by
  simp [b.frames, hi]

/-- The address of a frame. -/
theorem Booted.frame_toNat (hhi : initRamPages < 2 ^ 18) {i : Nat} (hi : i < l.framePool.usedMap.bitCnt) :
    (l.framePool.base + BitVec.ofNat 32 i * PGSIZE).toNat = l.framePool.base.toNat + i * 4096 := by
  obtain ⟨-, -, -, -, -, -, hend⟩ := b.bounds
  have hsize : PGSIZE.toNat = 4096 := rfl
  rw [toNat_add, toNat_mul, toNat_ofNat, hsize]
  omega

/-- **Memory is divided.** -/
theorem Booted.divided (hhi : initRamPages < 2 ^ 18) : Divided initRamPages l := by
  obtain ⟨hkstart, hkle, hkend, hule, huend, hfstart, hfend⟩ := b.bounds
  have hfbase := b.frame.base
  have hlength : l.frames.length = l.userPool.usedMap.bitCnt := by simp [b.frames]
  have hframe : ∀ i < l.framePool.usedMap.bitCnt, l.frames[i]? =
      some ⟨-1, -1, false, false, false, l.framePool.base + BitVec.ofNat 32 i * PGSIZE⟩ :=
    fun i hi => b.frame_entry (by omega)
  constructor
  case disjoint =>
    simp only [Layout.ranges, Pool.map, Pool.pages, List.pairwise_cons, List.mem_cons, List.not_mem_nil, or_false,
      forall_eq_or_imp, forall_eq, List.Pairwise.nil, and_true, false_implies, implies_true]
    omega
  case inside =>
    simp only [Layout.ranges, Pool.map, Pool.pages, List.mem_cons, List.not_mem_nil, or_false, forall_eq_or_imp, forall_eq]
    omega
  case fits =>
    have hkfits := b.kernel.fits
    have hufits := b.user_fits
    have hffits := b.frame.fits
    have hk0 : (0xc0100000#32).toNat = 0xc0100000 := rfl
    simp only [Pool.map, List.mem_cons, List.not_mem_nil, or_false, forall_eq_or_imp, forall_eq, hfstart]
    omega
  case obtained =>
    simp only [Pool.pages, Layout.obtained, hfstart, hlength]
    omega
  case frames =>
    intro i hi
    refine ⟨_, hframe i hi, ?_, ?_, ?_⟩
    · rw [pgOfs_eq_zero, b.frame_toNat hhi hi]
      omega
    · simp only [Layout.obtained, hfstart, hlength, b.frame_toNat hhi hi]
      omega
    · simp only [Pool.map, b.frame_toNat hhi hi]
      omega
  case distinct =>
    intro i hi j hj h
    rw [hframe i hi, hframe j hj] at h
    have hkpage := congrArg (fun k => k.map BitVec.toNat) h
    simp only [Option.map_some, b.frame_toNat hhi hi, b.frame_toNat hhi hj, Option.some.injEq] at hkpage
    omega

/-- The machine that `Vm.Frame` and `Vm.Palloc` are about. -/
theorem Booted.machine (k : Pagedir.Boot) (hram : k.initRamPages = initRamPages) :
    ∃ m : Machine, m.toBoot = k ∧ Frame.frameTableInit m = l.table := by
  obtain ⟨-, -, -, -, -, -, hend⟩ := b.bounds
  have hbits := b.frame.bitCnt
  have hpage : KernelPage l.framePool.base := by
    have hstart := b.user_start
    have hubase := b.user_base
    have hfbase := b.frame.base
    constructor
    · rw [pgOfs_eq_zero]
      omega
    · rw [isUserVaddr_iff]
      omega
  let m : Machine := { k with
    poolBase := l.framePool.base, poolSize := l.framePool.usedMap.bitCnt, numFrames := l.userPool.usedMap.bitCnt,
    base_page := hpage, size_le := by omega, in_ram := by rw [hram, hend] }
  refine ⟨m, rfl, ?_⟩
  have hclear : (List.range l.framePool.usedMap.bitCnt).map l.framePool.usedMap.bit =
      List.replicate l.framePool.usedMap.bitCnt false := by
    rw [List.eq_replicate_iff]
    refine ⟨by simp, ?_⟩
    intro x hx
    obtain ⟨i, hi, rfl⟩ := List.mem_map.mp hx
    exact b.frame.clear i (List.mem_range.mp hi)
  rw [Frame.frameTableInit, Layout.table, hclear, b.frames]
  rfl

end

end

end

/-! ## Calls of `palloc_page` -/

section
variable {m : Machine} {s s' : State} {kpages : List Word}

/-- What a call does to the table, and what it returns. -/
theorem pallocPage_table {pid : Nat} {pd upage stray : Word} {writable : Bool} {page result : Option Word}
    (h : pallocPage m s pid pd upage writable page stray = some (s', result)) :
    s'.table = (s.table.take pid upage stray).1 ∧ ∀ k ∈ result, k = (s.table.take pid upage stray).2 := by
  obtain ⟨⟨ram, success⟩, -, hret⟩ := Option.bind_eq_some_iff.mp h
  cases hret
  refine ⟨rfl, ?_⟩
  intro k hk
  cases success with
  | false => cases hk
  | true => exact (Option.some.inj hk).symm

/-- **No frame is returned twice.** Each call returns the frame whose bit it sets, and no bit is cleared. -/
theorem Calls.nodup (h : Calls m s s' kpages) : TableOk m s.table → kpages.Nodup ∧
    ∀ k ∈ kpages, ∃ i, s.table.usedMap[i]? = some false ∧ k = m.frame i := by
  induction h with
  | nil s => exact fun _ => ⟨List.nodup_nil, by simp⟩
  | @cons s s₁ s₂ pid pd upage stray writable page result kpages found call rest ih =>
    intro ok
    obtain ⟨i, hscan⟩ := Option.isSome_iff_exists.mp found
    obtain ⟨htable, hresult⟩ := pallocPage_table call
    obtain ⟨hframe, -⟩ := ok.take hscan pid upage stray
    obtain ⟨hfree, hset⟩ := ok.take_bit hscan pid upage stray
    obtain ⟨hnodup, hlater⟩ := ih (htable ▸ ok.take_ok pid upage stray)
    have hi := ok.lt_poolSize hfree
    -- a page returned later has another frame
    have hfresh : m.frame i ∉ kpages := by
      intro hmem
      obtain ⟨j, hj, heq⟩ := hlater _ hmem
      rw [htable] at hj
      have hjfree := (ok.take_keeps pid upage stray).1 hj
      cases m.frame_inj hi (ok.lt_poolSize hjfree) heq
      rw [hset] at hj
      cases hj
    have hold : ∀ k ∈ kpages, ∃ j, s.table.usedMap[j]? = some false ∧ k = m.frame j := by
      intro k hk
      obtain ⟨j, hj, heq⟩ := hlater k hk
      rw [htable] at hj
      exact ⟨j, (ok.take_keeps pid upage stray).1 hj, heq⟩
    cases result with
    | none => exact ⟨hnodup, hold⟩
    | some k =>
      obtain rfl : k = m.frame i := (hresult k rfl).trans hframe
      refine ⟨List.nodup_cons.mpr ⟨hfresh, hnodup⟩, ?_⟩
      intro k hk
      rcases List.mem_cons.mp hk with rfl | hk
      · exact ⟨i, hfree, rfl⟩
      · exact hold k hk

end

/-- **Layout and exclusivity.** For every amount of memory between 1 MB and 1 GB and every limit with which booting does
    not panic, memory is divided, and whatever calls of `palloc_page` are made that each find a free frame, no two of
    them return the same page. -/
theorem memory_divided {mem : Word → Nat → Word} {initRamPages userPageLimit : Nat} {l : Layout}
    (hlo : 256 < initRamPages) (hhi : initRamPages < 2 ^ 18) (h : pallocInit mem initRamPages userPageLimit = some l) :
    Divided initRamPages l ∧ ∀ k : Pagedir.Boot, k.initRamPages = initRamPages →
      ∃ m : Machine, m.toBoot = k ∧ Frame.frameTableInit m = l.table ∧
        ∀ s s' kpages, s.table = l.table → Calls m s s' kpages → kpages.Nodup := by
  obtain ⟨kernelPages, userPages, b⟩ := pallocInit_spec hlo hhi h
  refine ⟨b.divided hhi, ?_⟩
  intro k hram
  obtain ⟨m, hboot, htable⟩ := b.machine k hram
  refine ⟨m, hboot, htable, ?_⟩
  intro s s' kpages hs hcalls
  refine (hcalls.nodup ?_).1
  rw [hs, ← htable]
  exact tableOk_init m

/-- Sixteen pages above 1 MB, at most six of them for the user: the frame pool has four. -/
theorem memory_divided_small :
    ∃ l, pallocInit (fun _ _ => 0#32) 272 6 = some l ∧ l.framePool.usedMap.bitCnt = 4 ∧ Divided 272 l := by
  have hrun : (pallocInit (fun _ _ => 0#32) 272 6).any (fun l => decide (l.framePool.usedMap.bitCnt = 4)) = true := by
    decide +kernel
  obtain ⟨l, hinit, hcnt⟩ := (Option.any_eq_true _ _).mp hrun
  exact ⟨l, hinit, of_decide_eq_true hcnt, (memory_divided (by decide) (by decide) hinit).1⟩

end Pools
end Asg1
