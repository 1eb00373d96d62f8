import Asg1.Kernel.List

/-!
# `Threads.Malloc` — the kernel's `malloc`

`threads/malloc.c` over a memory of bytes. The descriptors lie in the kernel's data at `descs`, an arena starts with a
header of three words (`magic`, `desc`, `free_cnt`), and the free blocks of a descriptor are threaded through the list of
`Kernel.List` that lies in it. Addresses are numbers below `2 ^ 32`, sums of sizes wrap around, and `none` is the null
pointer where a pointer is an argument or a result.

The page allocator is a ledger of the pages that are taken. What it hands out is a parameter of each call: a function
from the number of pages to a page or nothing. A failed assertion is stuck, and the locks of the descriptors are left
out, since calls are made one after the other.
-/

namespace Asg1
namespace Malloc

open Word Flat Kernel

def PGSIZE : Nat := 4096

/-- `sizeof (struct arena)` -/
def ARENA_SIZE : Nat := 12

/-- `sizeof (struct desc)` -/
def DESC_SIZE : Nat := 48

def ARENA_MAGIC : Nat := 0x9a548eed

/-- Memory, the descriptors with their number, and the pages that are taken, with the number of pages of each group. -/
structure Heap where
  mem : Mem
  descs : Nat
  descCnt : Nat
  taken : List (Nat × Nat)

abbrev K := Proc Heap

/-- A procedure on memory. -/
def onMem {α : Type} (x : Proc Mem α) : K α := fun h => (x h.mem).map fun r => (r.1, { h with mem := r.2 })

/-- `*a` -/
def word (a : Nat) : K Nat := do return ld (← get).mem a

/-- `*a = w` -/
def setWord (a w : Nat) : K Unit := modify fun h => { h with mem := st h.mem a w }

/-- `memset (dst, value, size)` -/
def memset (dst : Nat) (value : UInt8) (size : Nat) : K Unit :=
  modify fun h => { h with mem := patch h.mem dst (List.replicate size value) }

/-- `memcpy (dst, src, size)` -/
def memcpy (dst src size : Nat) : K Unit :=
  modify fun h => { h with mem := patch h.mem dst (slice h.mem src size) }

/-! ## The page allocator -/

/-- What the page allocator answers to a request for a number of pages. -/
abbrev Pager := Nat → Option Nat

/-- `palloc_get_multiple (0, page_cnt)` -/
def pallocGetMultiple (pager : Pager) (pageCnt : Nat) : K (Option Nat) :=
  if pageCnt = 0 then return none
  else
    match pager pageCnt with
    | none => return none
    | some pages => do
        modify fun h => { h with taken := (pages, pageCnt) :: h.taken }
        return some pages

def pgOfs (va : Nat) : Nat := va % PGSIZE

def pgRoundDown (va : Nat) : Nat := va / PGSIZE * PGSIZE

/-- `palloc_free_multiple (pages, page_cnt)`, which fills the pages with `0xcc` -/
def pallocFreeMultiple (pages pageCnt : Nat) : K Unit := do
  Proc.assert (pgOfs pages = 0)
  if pages = 0 ∨ pageCnt = 0 then return ()
  else
    memset pages 0xcc (PGSIZE * pageCnt)
    let h ← get
    Proc.assert ((pages, pageCnt) ∈ h.taken)
    set { h with taken := h.taken.erase (pages, pageCnt) }

/-! ## Descriptors and arenas -/

/-- `&d->free_list` -/
def freeList (d : Nat) : Nat := d + 8

/-- The loop of `malloc_init`. -/
def mallocInitLoop : Nat → Nat → K Unit
  | 0, _ => fun _ => none
  | fuel + 1, blockSize =>
    if blockSize < PGSIZE / 2 then do
      let h ← get
      let d := h.descs + DESC_SIZE * h.descCnt
      set { h with descCnt := h.descCnt + 1 }
      Proc.assert (h.descCnt + 1 ≤ 10)
      setWord d blockSize
      setWord (d + 4) ((PGSIZE - ARENA_SIZE) / blockSize)
      onMem (listInit (freeList d))
      mallocInitLoop fuel (blockSize * 2)
    else return ()

def mallocInit : K Unit := mallocInitLoop 10 16

/-- `block_to_arena` -/
def blockToArena (b : Nat) : K Nat := do
  let a := pgRoundDown b
  let h ← get
  let desc := ld h.mem (a + 4)
  Proc.assert (a ≠ 0)
  Proc.assert (ld h.mem a = ARENA_MAGIC)
  Proc.assert (desc = 0 ∨ (pgOfs b + 4294967296 - ARENA_SIZE) % 4294967296 % ld h.mem desc = 0)
  Proc.assert (desc ≠ 0 ∨ pgOfs b = ARENA_SIZE)
  return a

/-- `arena_to_block` -/
def arenaToBlock (a idx : Nat) : K Nat := do
  let h ← get
  let desc := ld h.mem (a + 4)
  Proc.assert (a ≠ 0)
  Proc.assert (ld h.mem a = ARENA_MAGIC)
  Proc.assert (idx < ld h.mem (desc + 4))
  return a + ARENA_SIZE + idx * ld h.mem desc

/-! ## `malloc` -/

/-- The smallest descriptor for a request, from descriptor `d` on, with `n` of them left. -/
def findDesc (m : Mem) (size : Nat) : Nat → Nat → Nat
  | 0, d => d
  | n + 1, d => if size ≤ ld m d then d else findDesc m size n (d + DESC_SIZE)

/-- `DIV_ROUND_UP (size + sizeof *a, PGSIZE)` -/
def pagesFor (size : Nat) : Nat := (size + ARENA_SIZE + PGSIZE - 1) % 4294967296 / PGSIZE

/-- Writes the header of an arena. -/
def setHeader (a desc freeCnt : Nat) : K Unit := do
  setWord a ARENA_MAGIC
  setWord (a + 4) desc
  setWord (a + 8) freeCnt

/-- The loop that puts the blocks of a new arena on the free list, with `n` rounds left. -/
def addBlocks (a d : Nat) : Nat → Nat → K Unit
  | 0, _ => return ()
  | n + 1, i => do
      let b ← arenaToBlock a i
      onMem (listPushBack (freeList d) b)
      addBlocks a d n (i + 1)

/-- `malloc` for a request that is too big for the descriptors. -/
def mallocBig (pager : Pager) (size : Nat) : K (Option Nat) := do
  let pageCnt := pagesFor size
  let pages ← pallocGetMultiple pager pageCnt
  match pages with
  | none => return none
  | some a => do
      setHeader a 0 pageCnt
      return some (a + ARENA_SIZE)

/-- Gets a block from the free list of a descriptor. -/
def takeBlock (d : Nat) : K (Option Nat) := do
  let b ← onMem (listPopFront (freeList d))
  let a ← blockToArena b
  let freeCnt ← word (a + 8)
  setWord (a + 8) ((freeCnt + 4294967295) % 4294967296)
  return some b

/-- A new arena for a descriptor, in the given page. -/
def newArena (a d : Nat) : K Unit := do
  let blocksPerArena ← word (d + 4)
  setHeader a d blocksPerArena
  addBlocks a d blocksPerArena 0

/-- `malloc` with the descriptor that was found. -/
def mallocSmall (pager : Pager) (d : Nat) : K (Option Nat) := do
  let empty ← onMem (listEmpty (freeList d))
  if empty then do
    let page ← pallocGetMultiple pager 1
    match page with
    | none => return none
    | some a => do
        newArena a d
        takeBlock d
  else takeBlock d

def malloc (pager : Pager) (size : Nat) : K (Option Nat) :=
  if size = 0 then return none
  else do
    let h ← get
    let d := findDesc h.mem size h.descCnt h.descs
    if d = h.descs + DESC_SIZE * h.descCnt then mallocBig pager size else mallocSmall pager d

def calloc (pager : Pager) (a b : Nat) : K (Option Nat) := do
  let size := a * b % 4294967296
  if size < a ∨ size < b then return none
  else do
    let p ← malloc pager size
    match p with
    | none => return none
    | some p => do
        memset p 0 size
        return some p

/-- `block_size` -/
def blockSize (block : Nat) : K Nat := do
  let a ← blockToArena block
  let d ← word (a + 4)
  if d ≠ 0 then word d
  else do
    let freeCnt ← word (a + 8)
    return (PGSIZE * freeCnt + 4294967296 - pgOfs block) % 4294967296

/-! ## `free` -/

/-- The loop that takes the blocks of an arena off the free list, with `n` rounds left. -/
def removeBlocks (a : Nat) : Nat → Nat → K Unit
  | 0, _ => return ()
  | n + 1, i => do
      let b ← arenaToBlock a i
      let _ ← onMem (listRemove b)
      removeBlocks a n (i + 1)

/-- `free` of a block of a descriptor. -/
def freeSmall (b a d : Nat) : K Unit := do
  let size ← word d
  memset b 0xcc size
  onMem (listPushFront (freeList d) b)
  let freeCnt ← word (a + 8)
  let freeCnt := (freeCnt + 1) % 4294967296
  setWord (a + 8) freeCnt
  let blocksPerArena ← word (d + 4)
  if blocksPerArena ≤ freeCnt then do
    Proc.assert (freeCnt = blocksPerArena)
    removeBlocks a blocksPerArena 0
    pallocFreeMultiple a 1

def free : Option Nat → K Unit
  | none => return ()
  | some b => do
      let a ← blockToArena b
      let d ← word (a + 4)
      if d ≠ 0 then freeSmall b a d
      else do
        let pageCnt ← word (a + 8)
        pallocFreeMultiple a pageCnt

/-- `realloc` -/
def realloc (pager : Pager) (oldBlock : Option Nat) (newSize : Nat) : K (Option Nat) :=
  if newSize = 0 then do
    free oldBlock
    return none
  else do
    let newBlock ← malloc pager newSize
    match oldBlock, newBlock with
    | some old, some new => do
        let oldSize ← blockSize old
        let minSize := if newSize < oldSize then newSize else oldSize
        memcpy new old minSize
        free oldBlock
        return newBlock
    | _, _ => return newBlock

/-! ## Calls -/

/-- What the users of the heap do: the four calls, and writing to a block they have. -/
inductive Call
  | malloc (size : Nat)
  | calloc (a b : Nat)
  | realloc (p : Option Nat) (size : Nat)
  | free (p : Option Nat)
  | write (p ofs : Nat) (bytes : List UInt8)

/-- The heap, and the blocks that are allocated with the sizes that were asked for. -/
structure Sys where
  heap : Heap
  live : List (Nat × Nat)

def call (pager : Pager) : Call → K (Option Nat)
  | .malloc size => malloc pager size
  | .calloc a b => calloc pager a b
  | .realloc p size => realloc pager p size
  | .free p => do free p; return none
  | .write p ofs bytes => do
      modify fun h => { h with mem := patch h.mem (p + ofs) bytes }
      return none

/-- The blocks without the one at an address. -/
def without (live : List (Nat × Nat)) (p : Option Nat) : List (Nat × Nat) := live.filter fun b => some b.1 ≠ p

/-- The blocks that are allocated after a call with this result. -/
def liveAfter (live : List (Nat × Nat)) : Call → Option Nat → List (Nat × Nat)
  | .malloc size, some b => (b, size) :: live
  | .calloc a n, some b => (b, a * n) :: live
  | .realloc p size, some b => (b, size) :: without live p
  | .realloc p size, none => if size = 0 then without live p else live
  | .free p, _ => without live p
  | _, _ => live

/-- A call, with the answers of the page allocator while it runs. -/
def step (s : Sys) (a : Call × Pager) : Option Sys :=
  (call a.2 a.1 s.heap).map fun r => ⟨r.2, liveAfter s.live a.1 r.1⟩

end Malloc
end Asg1
