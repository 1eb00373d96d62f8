import Asg1.Filesys.Ownership
import Asg1.Vm.Palloc

/-!
# `Userprog.Segment` — loading a segment of an executable

The part of `load` that is about one program header of type `PT_LOAD`: `validate_segment`, the numbers that `load` computes
from the header, and `load_segment`. All of it is in 32-bit arithmetic, and the header may hold any numbers.

A segment is loaded page by page: `palloc_page` maps a frame, `file_read` fills its beginning and `memset` clears the
rest. The frames are those of `Vm.Frame`, with what they hold added here; the file is one of `Filesys.Volume`. Kernel pages
and frames are apart (`Pools.memory_divided`), so what is written to a frame is not seen in a page table.
-/

namespace Asg1
namespace Segment

open Pte Pagedir Frame Flat
open Filesys (Addr)
open Volume (Vol)

/-! ## The program header -/

/-- The fields of `struct Elf32_Phdr` that are read for a segment. -/
structure Phdr where
  pOffset : Word
  pVaddr : Word
  pFilesz : Word
  pMemsz : Word
  pFlags : Word

def PF_W : Word := 2#32

/-- `validate_segment`, for a file of the given length. -/
def validateSegment (phdr : Phdr) (fileLength : Nat) : Bool :=
  if phdr.pOffset &&& PGMASK ≠ phdr.pVaddr &&& PGMASK then false
  else if phdr.pOffset > BitVec.ofNat 32 fileLength then false
  else if phdr.pMemsz < phdr.pFilesz then false
  else if phdr.pMemsz = 0#32 then false
  else if ¬ isUserVaddr phdr.pVaddr then false
  else if ¬ isUserVaddr (phdr.pVaddr + phdr.pMemsz) then false
  else if phdr.pVaddr + phdr.pMemsz < phdr.pVaddr then false
  else if phdr.pVaddr < PGSIZE then false
  else true

/-- `ROUND_UP (x, PGSIZE)` -/
def roundUp (x : Word) : Word := (x + PGSIZE - 1#32) / PGSIZE * PGSIZE

/-- What `load` computes from a header. -/
structure Args where
  filePage : Word
  memPage : Word
  readBytes : Word
  zeroBytes : Word
  writable : Bool

def Phdr.args (phdr : Phdr) : Args :=
  let pageOffset := phdr.pVaddr &&& PGMASK
  { filePage := phdr.pOffset &&& ~~~PGMASK
    memPage := phdr.pVaddr &&& ~~~PGMASK
    readBytes := if phdr.pFilesz > 0#32 then pageOffset + phdr.pFilesz else 0#32
    zeroBytes := if phdr.pFilesz > 0#32 then roundUp (pageOffset + phdr.pMemsz) - (pageOffset + phdr.pFilesz)
      else roundUp (pageOffset + phdr.pMemsz)
    writable := phdr.pFlags &&& PF_W ≠ 0#32 }

/-! ## `load_segment` -/

/-- The file system, the page directories with the frame table, what the frames hold, and the user pages that have been
    installed so far. -/
structure Loader where
  vol : Vol
  vm : Frame.State
  contents : Word → Nat → UInt8
  installed : List Word

/-- Who loads, and from what: the machine, the process with its page directory, and the open executable. -/
structure Job where
  machine : Machine
  pid : Nat
  pd : Word
  file : Addr

/-- The word before the array of frames that is taken for a `kpage` when there is no free frame. The array was allocated
    before `malloc_init`, as a block of whole pages, and the word is the number of them in the block's header. -/
def stray (m : Machine) : Word := BitVec.ofNat 32 ((m.numFrames * 16 + 12 + 4095) / 4096)

/-- Bytes written to a page from an offset on. -/
def write (contents : Word → Nat → UInt8) (kpage : Word) (offset : Nat) (bytes : List UInt8) : Word → Nat → UInt8 :=
  Function.update contents kpage (patch (contents kpage) offset bytes)

/-- A page is loaded, or `load_segment` returns false. A callee that fails an assertion stops the kernel. -/
def loadPage (j : Job) (writable : Bool) (s : Loader) (upage pageReadBytes : Word) (page : Option Word) :
    Option (Loader × Bool) :=
  (pallocPage j.machine s.vm j.pid j.pd upage writable page (stray j.machine)).bind fun x =>
    match x.2 with
    | none => some ({ s with vm := x.1 }, false)
    | some kpage =>
      (Volume.fileRead j.file pageReadBytes.toNat s.vol).bind fun y =>
        let s' : Loader := ⟨y.2, x.1, write s.contents kpage 0 y.1, s.installed ++ [upage]⟩
        if y.1.length ≠ pageReadBytes.toNat then
          (pallocFreeUpage x.1.ram j.pd upage).map fun ram => ({ s' with vm := { x.1 with ram } }, false)
        else
          let zeros := List.replicate (PGSIZE - pageReadBytes).toNat 0
          some ({ s' with contents := write s'.contents kpage pageReadBytes.toNat zeros }, true)

/-- How `load_segment` ends: it returns, one of its own assertions fails, the kernel stops in a function that it calls, or
    the loop is not done. -/
inductive Exit
  | returns (s : Loader) (success : Bool)
  | assertion
  | stops
  | unfinished

/-- The loop of `load_segment`, with the pages that there are for page tables. -/
def loadLoop (j : Job) (writable : Bool) : Nat → Loader → (upage readBytes zeroBytes : Word) → List (Option Word) → Exit
  | 0, _, _, _, _, _ => .unfinished
  | fuel + 1, s, upage, readBytes, zeroBytes, pages =>
    if readBytes > 0#32 ∨ zeroBytes > 0#32 then
      let pageReadBytes := if readBytes < PGSIZE then readBytes else PGSIZE
      let pageZeroBytes := PGSIZE - pageReadBytes
      match loadPage j writable s upage pageReadBytes (pages.headD none) with
      | none => .stops
      | some (s', false) => .returns s' false
      | some (s', true) =>
        loadLoop j writable fuel s' (upage + PGSIZE) (readBytes - pageReadBytes) (zeroBytes - pageZeroBytes) pages.tail
    else .returns s true

/-- `load_segment`. The offset in the file is an `off_t`. -/
def loadSegment (j : Job) (fuel : Nat) (s : Loader) (ofs upage readBytes zeroBytes : Word) (writable : Bool)
    (pages : List (Option Word)) : Exit :=
  if (readBytes + zeroBytes) % PGSIZE = 0#32 ∧ pgOfs upage = 0#32 ∧ ofs.toInt.tmod 4096 = 0 then
    match Volume.onFs (Filesys.fileSeek · j.file ofs.toInt) s.vol with
    | none => .stops
    | some (_, vol) => loadLoop j writable fuel { s with vol } upage readBytes zeroBytes pages
  else .assertion

/-- What `validate_segment` has checked, in numbers. -/
structure Checked (phdr : Phdr) (length : Nat) : Prop where
  offset : phdr.pOffset.toNat % 4096 = phdr.pVaddr.toNat % 4096
  offset_le : phdr.pOffset.toNat ≤ length
  filesz_le : phdr.pFilesz.toNat ≤ phdr.pMemsz.toNat
  memsz_pos : 0 < phdr.pMemsz.toNat
  end_lt : phdr.pVaddr.toNat + phdr.pMemsz.toNat < 0xc0000000
  vaddr_ge : 4096 ≤ phdr.pVaddr.toNat

section
variable {phdr : Phdr} {length : Nat}

theorem roundUp_toNat {x : Word} (h : x.toNat + 4095 < 2 ^ 32) : (roundUp x).toNat = (x.toNat + 4095) / 4096 * 4096 := by
  have hsize : PGSIZE.toNat = 4096 := rfl
  have hone : (1#32).toNat = 1 := rfl
  have hsum : (x + PGSIZE - 1#32).toNat = x.toNat + 4095 := by
    rw [BitVec.toNat_sub, BitVec.toNat_add, hsize, hone]
    omega
  rw [roundUp, BitVec.toNat_mul, BitVec.toNat_udiv, hsum, hsize]
  omega

/-- The pages of a segment. -/
def Phdr.pageCnt (phdr : Phdr) : Nat := (phdr.pVaddr.toNat % 4096 + phdr.pMemsz.toNat + 4095) / 4096

/-- **No computation wraps.** -/
structure Exact (phdr : Phdr) : Prop where
  segmentEnd : (phdr.pVaddr + phdr.pMemsz).toNat = phdr.pVaddr.toNat + phdr.pMemsz.toNat
  sum : ((phdr.pVaddr &&& PGMASK) + phdr.pMemsz).toNat = phdr.pVaddr.toNat % 4096 + phdr.pMemsz.toNat
  round : (roundUp ((phdr.pVaddr &&& PGMASK) + phdr.pMemsz)).toNat = phdr.pageCnt * 4096
  read : phdr.args.readBytes.toNat =
    if 0 < phdr.pFilesz.toNat then phdr.pVaddr.toNat % 4096 + phdr.pFilesz.toNat else 0
  zero : phdr.args.readBytes.toNat + phdr.args.zeroBytes.toNat = phdr.pageCnt * 4096

theorem Checked.exact (h : Checked phdr length) : Exact phdr := by
  have hend := h.end_lt
  have hfilesz := h.filesz_le
  have hofs : (phdr.pVaddr &&& PGMASK).toNat = phdr.pVaddr.toNat % 4096 := pgOfs_toNat phdr.pVaddr
  have hsum : ((phdr.pVaddr &&& PGMASK) + phdr.pMemsz).toNat = phdr.pVaddr.toNat % 4096 + phdr.pMemsz.toNat := by
    rw [BitVec.toNat_add, hofs]
    omega
  have hround : (roundUp ((phdr.pVaddr &&& PGMASK) + phdr.pMemsz)).toNat = phdr.pageCnt * 4096 := by
    rw [roundUp_toNat (by omega), hsum, Phdr.pageCnt]
  have hread : ((phdr.pVaddr &&& PGMASK) + phdr.pFilesz).toNat = phdr.pVaddr.toNat % 4096 + phdr.pFilesz.toNat := by
    rw [BitVec.toNat_add, hofs]
    omega
  have hcnt : phdr.pVaddr.toNat % 4096 + phdr.pMemsz.toNat ≤ phdr.pageCnt * 4096 := by
    unfold Phdr.pageCnt
    omega
  have hpos : phdr.pFilesz > 0#32 ↔ 0 < phdr.pFilesz.toNat := by
    rfl
  refine ⟨?_, hsum, hround, ?_, ?_⟩
  · rw [BitVec.toNat_add]
    omega
  · simp only [Phdr.args, hpos]
    split
    · exact hread
    · rfl
  · simp only [Phdr.args, hpos]
    split
    · have hle : (phdr.pVaddr &&& PGMASK) + phdr.pFilesz ≤ roundUp ((phdr.pVaddr &&& PGMASK) + phdr.pMemsz) := by
        rw [BitVec.le_def, hround, hread]
        omega
      rw [BitVec.toNat_sub_of_le hle, hround, hread]
      omega
    · show 0 + _ = _
      omega

end

/-! ## One page -/

/-- A page of the segment with its frame: the first `n` bytes are from the file, the others are zero. -/
structure PageLoaded (j : Job) (writable : Bool) (s s' : Loader) (upage : Word) (n : Nat) (page : Option Word) (i : Nat) :
    Prop where
  palloced : Palloced j.machine s.vm s'.vm j.pid j.pd upage writable ⟨page, stray j.machine⟩ (some (j.machine.frame i))
  free : s.vm.table.usedMap[i]? = some false
  used : s'.vm.table.usedMap[i]? = some true
  inv : Volume.Inv s'.vol []
  vol : ∃ mem, s'.vol = s.vol.moved j.file n s.vol.device mem
  inside : n = 0 ∨ (s.vol.file j.file).pos + n ≤ (s.vol.dataOf j.file).length
  holds : ∀ x < 4096, s'.contents (j.machine.frame i) x =
    if x < n then s.vol.device ((s.vol.dataOf j.file).start * 512 + (s.vol.file j.file).pos + x) else 0
  others : ∀ p, p ≠ j.machine.frame i → s'.contents p = s.contents p
  installed : s'.installed = s.installed ++ [upage]

/-- What it takes to load a page: the file is open, and memory is in order. -/
structure Ready (j : Job) (s : Loader) : Prop where
  inv : Volume.Inv s.vol []
  file : j.file ∈ s.vol.files
  sound : Sound j.machine s.vm
  dir : j.pd ∈ s.vm.dirs
  frames : j.machine.numFrames ≤ j.machine.initRamPages

section
variable {j : Job} {writable : Bool} {s s' : Loader} {upage w : Word} {page : Option Word}

variable {n i readBytes x : Nat} {va : Word}

end

/-! ## The loop -/

/-- Page `k` of a segment, in the state after: it is mapped to a frame that was free, which holds the file's bytes and then
    zeros. -/
structure PageHolds (j : Job) (writable : Bool) (s s' : Loader) (upage : Word) (readBytes k i : Nat) : Prop where
  free : s.vm.table.usedMap[i]? = some false
  used : s'.vm.table.usedMap[i]? = some true
  user : isUserVaddr (pageAt upage k)
  unmapped : view s.vm.ram j.pd (pageAt upage k) &&& PTE_P = 0#32
  mapped : view s'.vm.ram j.pd (pageAt upage k) = pteOf (j.machine.frame i) writable
  holds : ∀ x < 4096, s'.contents (j.machine.frame i) x =
    if k * 4096 + x < readBytes then
      s.vol.device ((s.vol.dataOf j.file).start * 512 + (s.vol.file j.file).pos + (k * 4096 + x))
    else 0

/-- **What the loop has done** when it returns true. -/
structure Loaded (j : Job) (writable : Bool) (s s' : Loader) (upage : Word) (cnt readBytes : Nat) : Prop where
  ready : Ready j s'
  pages : ∀ k < cnt, ∃ i, PageHolds j writable s s' upage readBytes k i
  kept : ∀ i : Nat, s.vm.table.usedMap[i]? = some true → s'.vm.table.usedMap[i]? = some true ∧
    s'.contents (j.machine.frame i) = s.contents (j.machine.frame i)
  mapped : ∀ va, isUserVaddr va → view s.vm.ram j.pd va &&& PTE_P ≠ 0#32 → view s'.vm.ram j.pd va = view s.vm.ram j.pd va
  inside : readBytes = 0 ∨ (s.vol.file j.file).pos + readBytes ≤ (s.vol.dataOf j.file).length
  installed : s'.installed = s.installed ++ (List.range cnt).map (pageAt upage)

section
variable {j : Job} {writable : Bool} {s s₁ s' : Loader} {upage w : Word} {page : Option Word} {pages : List (Option Word)}

theorem pageAt_zero (upage : Word) : pageAt upage 0 = upage := by simp [pageAt]

theorem pageAt_succ (upage : Word) (k : Nat) : pageAt upage (k + 1) = pageAt (upage + PGSIZE) k := by
  simp only [pageAt, BitVec.ofNat_add, BitVec.add_mul, BitVec.one_mul, BitVec.add_assoc]
  rw [BitVec.add_comm PGSIZE]

variable {r : Ram}

/-- After a page the next one can be loaded. -/
theorem PageLoaded.ready (h : PageLoaded j writable s s' upage n page i) (ready : Ready j s) : Ready j s' := by
  obtain ⟨mem, hvol⟩ := h.vol
  refine ⟨h.inv, ?_, h.palloced.sound, ?_, ready.frames⟩
  · rw [hvol]
    exact ready.file
  · rw [h.palloced.dirs]
    exact ready.dir

/-- The file is the same, further on. -/
theorem PageLoaded.file (h : PageLoaded j writable s s' upage n page i) :
    s'.vol.device = s.vol.device ∧ s'.vol.dataOf j.file = s.vol.dataOf j.file ∧
      (s'.vol.file j.file).pos = (s.vol.file j.file).pos + n := by
  obtain ⟨mem, hvol⟩ := h.vol
  have hfile : (s.vol.moved j.file n s.vol.device mem).file j.file =
      { s.vol.file j.file with pos := (s.vol.file j.file).pos + n } := if_pos rfl
  rw [hvol]
  refine ⟨rfl, ?_, by rw [hfile]⟩
  show (s.vol.inode ((s.vol.moved j.file n s.vol.device mem).file j.file).inode).data = _
  rw [hfile]

/-- Pages that are mapped before a page is loaded stay so. -/
theorem PageLoaded.keeps (h : PageLoaded j writable s s' upage n page i) (ready : Ready j s) (hva : isUserVaddr va) :
    (view s.vm.ram j.pd va &&& PTE_P ≠ 0#32 → view s'.vm.ram j.pd va = view s.vm.ram j.pd va) ∧
      (view s'.vm.ram j.pd va &&& PTE_P = 0#32 → view s.vm.ram j.pd va &&& PTE_P = 0#32) := by
  obtain ⟨-, hget, -, huser, -, -, changes⟩ := h.palloced.mapped _ rfl
  have hview := changes j.pd ready.dir va hva
  by_cases hsame : pgRoundDown va = pgRoundDown upage
  · rw [if_pos ⟨rfl, hsame⟩] at hview
    refine ⟨?_, ?_⟩
    · intro hpresent
      rw [view_congr hsame] at hpresent
      exact absurd (ready.sound.unmapped ready.dir huser hget) hpresent
    · intro hclear
      rw [hview] at hclear
      exact absurd hclear (pteOf_present _ _)
  · rw [if_neg (fun heq => hsame heq.2)] at hview
    rw [hview]
    exact ⟨fun _ => rfl, id⟩

/-- The arithmetic of one page and the rest. -/
theorem min_page (hn : n = min readBytes 4096) :
    (∀ x < 4096, x < n ↔ x < readBytes) ∧
      (∀ k x, k * 4096 + x < readBytes - n ↔ (k + 1) * 4096 + x < readBytes) ∧
      (∀ k x, (k + 1) * 4096 + x < readBytes → n + (k * 4096 + x) = (k + 1) * 4096 + x) ∧
      ∀ pos length, (n = 0 ∨ pos + n ≤ length) → (readBytes - n = 0 ∨ pos + n + (readBytes - n) ≤ length) →
        (readBytes = 0 ∨ pos + readBytes ≤ length) := by
  refine ⟨?_, ?_, ?_, ?_⟩ <;> intros <;> omega

/-- One page, and then the rest. -/
theorem PageLoaded.loaded {cnt : Nat} (ready : Ready j s) (hn : n = min readBytes 4096)
    (h : PageLoaded j writable s s₁ upage n page i)
    (hrest : Loaded j writable s₁ s' (upage + PGSIZE) cnt (readBytes - n)) :
    Loaded j writable s s' upage (cnt + 1) readBytes := by
  obtain ⟨hdevice, hdata, hpos⟩ := h.file
  obtain ⟨hfirst, hnext, haddr, hinside⟩ := min_page hn
  obtain ⟨-, -, -, huser, -, -, changes⟩ := h.palloced.mapped _ rfl
  have hbits : ∀ {k : Nat}, (s₁.vm.table.usedMap[k]? = some false → s.vm.table.usedMap[k]? = some false) ∧
      (s.vm.table.usedMap[k]? = some true → s₁.vm.table.usedMap[k]? = some true) := by
    intro k
    rw [h.palloced.table]
    exact ready.sound.table.take_keeps j.pid upage (stray j.machine)
  constructor
  case ready => exact hrest.ready
  case pages =>
    intro k hk
    cases k with
    | zero =>
      obtain ⟨hused, hcontents⟩ := hrest.kept i h.used
      have hview : view s₁.vm.ram j.pd upage = pteOf (j.machine.frame i) writable := by
        rw [changes j.pd ready.dir upage huser, if_pos ⟨rfl, rfl⟩]
      have hpresent : view s₁.vm.ram j.pd upage &&& PTE_P ≠ 0#32 := by
        rw [hview]
        exact pteOf_present _ _
      refine ⟨i, h.free, hused, ?_, ?_, ?_, ?_⟩
      · rwa [pageAt_zero]
      · rw [pageAt_zero]
        exact ready.sound.unmapped ready.dir huser (h.palloced.mapped _ rfl).2.1
      · rw [pageAt_zero, hrest.mapped upage huser hpresent, hview]
      · intro x hx
        rw [hcontents, h.holds x hx, Nat.zero_mul, Nat.zero_add]
        exact if_congr (hfirst x hx) rfl rfl
    | succ k =>
      obtain ⟨i', hk'⟩ := hrest.pages k (by omega)
      have hpage := pageAt_succ upage k
      refine ⟨i', hbits.1 hk'.free, hk'.used, ?_, ?_, ?_, ?_⟩
      · rw [hpage]
        exact hk'.user
      · rw [hpage]
        exact (h.keeps ready hk'.user).2 hk'.unmapped
      · rw [hpage]
        exact hk'.mapped
      · intro x hx
        rw [hk'.holds x hx, hdevice, hdata, hpos]
        by_cases hlt : (k + 1) * 4096 + x < readBytes
        · rw [if_pos hlt, if_pos ((hnext k x).mpr hlt), ← haddr k x hlt]
          simp only [Nat.add_assoc]
        · rw [if_neg hlt, if_neg (fun hlt' => hlt ((hnext k x).mp hlt'))]
  case kept =>
    intro k hk
    obtain ⟨hused, hcontents⟩ := hrest.kept k (hbits.2 hk)
    refine ⟨hused, hcontents.trans (h.others _ ?_)⟩
    intro hsame
    have hlt := ready.sound.table.lt_poolSize hk
    cases j.machine.frame_inj hlt (ready.sound.table.lt_poolSize h.free) hsame
    rw [h.free] at hk
    cases hk
  case mapped =>
    intro va hva hpresent
    have hsame := (h.keeps ready hva).1 hpresent
    rw [hrest.mapped va hva (by rw [hsame]; exact hpresent), hsame]
  case inside =>
    have hlast := hrest.inside
    rw [hpos, hdata] at hlast
    exact hinside (s.vol.file j.file).pos (s.vol.dataOf j.file).length h.inside hlast
  case installed =>
    have hpages : (List.range cnt).map (pageAt (upage + PGSIZE)) = (List.range cnt).map (pageAt upage ∘ Nat.succ) :=
      List.map_congr_left fun k _ => (pageAt_succ upage k).symm
    rw [hrest.installed, h.installed, List.append_assoc, List.range_succ_eq_map, List.map_cons, List.map_map, pageAt_zero,
      List.singleton_append, hpages]

end

/-! ## The segment -/

/-- The byte of a process at a user address. -/
def userByte (s : Loader) (pd va : Word) : Option UInt8 :=
  (pagedirGetPage s.vm.ram pd va).join.map fun kaddr => s.contents (pgRoundDown kaddr) (pgOfs kaddr).toNat

/-- A byte of a file, in its sectors on the device. -/
def fileByte (v : Vol) (f : Addr) (x : Nat) : UInt8 := v.device ((v.dataOf f).start * 512 + x)

/-- **A segment is loaded.** Its pages were not mapped and have been installed once each, and they hold the bytes of the
    file and then zeros. -/
structure SegmentLoaded (j : Job) (s s' : Loader) (phdr : Phdr) : Prop where
  unmapped : ∀ k < phdr.pageCnt, pagedirGetPage s.vm.ram j.pd (pageAt phdr.args.memPage k) = some none
  installed : s'.installed = s.installed ++ (List.range phdr.pageCnt).map (pageAt phdr.args.memPage)
  once : ((List.range phdr.pageCnt).map (pageAt phdr.args.memPage)).Nodup
  writable : ∀ k < phdr.pageCnt,
    pagedirIsWritable s'.vm.ram j.pd (pageAt phdr.args.memPage k) = some phdr.args.writable
  in_file : phdr.pFilesz.toNat = 0 ∨ phdr.pOffset.toNat + phdr.pFilesz.toNat ≤ (s.vol.dataOf j.file).length
  file : ∀ x < phdr.pFilesz.toNat, userByte s' j.pd (phdr.pVaddr + BitVec.ofNat 32 x) =
    some (fileByte s.vol j.file (phdr.pOffset.toNat + x))
  zero : ∀ va : Word, phdr.args.memPage.toNat ≤ va.toNat → va.toNat < phdr.args.memPage.toNat + phdr.pageCnt * 4096 →
    (0 < phdr.pFilesz.toNat → phdr.pVaddr.toNat + phdr.pFilesz.toNat ≤ va.toNat) → userByte s' j.pd va = some 0

section
variable {j : Job} {s s' : Loader} {phdr : Phdr} {length : Nat}

/-- **The region lies in the user's part of the address space**, above page 0. -/
theorem Checked.region (h : Checked phdr length) :
    phdr.args.memPage.toNat = phdr.pVaddr.toNat / 4096 * 4096 ∧ 4096 ≤ phdr.args.memPage.toNat ∧
      phdr.args.memPage.toNat + phdr.pageCnt * 4096 ≤ 0xc0000000 := by
  have hpage : phdr.args.memPage.toNat = phdr.pVaddr.toNat / 4096 * 4096 := pgRoundDown_toNat phdr.pVaddr
  have hend := h.end_lt
  have hge := h.vaddr_ge
  unfold Phdr.pageCnt
  omega

variable {upage : Word} {k : Nat}

theorem pageAt_toNat (h : upage.toNat + k * 4096 < 2 ^ 32) : (pageAt upage k).toNat = upage.toNat + k * 4096 := by
  have hsize : PGSIZE.toNat = 4096 := rfl
  rw [pageAt, BitVec.toNat_add, BitVec.toNat_mul, BitVec.toNat_ofNat, hsize]
  omega

/-- A byte of a page that holds part of the segment. -/
theorem PageHolds.userByte {writable : Bool} (ready : Ready j s') (ready₀ : Ready j s)
    (h : PageHolds j writable s s' upage readBytes k i) (haligned : pgOfs upage = 0#32)
    (hva : va.toNat = upage.toNat + k * 4096 + x) (hx : x < 4096) :
    userByte s' j.pd va = some (s'.contents (j.machine.frame i) x) := by
  have hi := ready₀.sound.table.lt_poolSize h.free
  have hpage := j.machine.frame_page hi
  have hat : (pageAt upage k).toNat = upage.toNat + k * 4096 := pageAt_toNat (by omega)
  rw [pgOfs_eq_zero] at haligned
  have hofs : (pgOfs va).toNat = x := by
    rw [pgOfs_toNat]
    omega
  have hround : pgRoundDown va = pgRoundDown (pageAt upage k) := by
    rw [← BitVec.toNat_inj, pgRoundDown_toNat, pgRoundDown_toNat]
    omega
  have huser : isUserVaddr va := by
    have hpageuser := h.user
    rw [isUserVaddr_iff] at hpageuser ⊢
    omega
  have hget : pagedirGetPage s'.vm.ram j.pd va = some (some (j.machine.frame i + pgOfs va)) := by
    rw [ready.sound.ok.getPage ready.dir huser, view_congr hround, h.mapped, if_neg (pteOf_present _ _), pteGetPage,
      pteOf_addr hpage, hpage.ptov]
    rfl
  have hframe := hpage.aligned
  rw [pgOfs_eq_zero] at hframe
  have hkaddr : (j.machine.frame i + pgOfs va).toNat = (j.machine.frame i).toNat + x := by
    rw [BitVec.toNat_add, hofs]
    omega
  have hdown : pgRoundDown (j.machine.frame i + pgOfs va) = j.machine.frame i := by
    rw [← BitVec.toNat_inj, pgRoundDown_toNat, hkaddr]
    omega
  have hrest : (pgOfs (j.machine.frame i + pgOfs va)).toNat = x := by
    rw [pgOfs_toNat, hkaddr]
    omega
  rw [Segment.userByte, hget]
  simp only [Option.join_some, Option.map_some, hdown, hrest]

theorem pteOf_writable {kpage : Word} (h : KernelPage kpage) (writable : Bool) :
    decide (pteOf kpage writable &&& PTE_W ≠ 0#32) = writable := by
  have haddr : (kpage - PHYS_BASE) &&& PTE_W = 0#32 := by
    rw [← and_PTE_ADDR h.aligned_sub, BitVec.and_assoc]
    have hmask : PTE_ADDR &&& PTE_W = 0#32 := by decide
    rw [hmask, BitVec.and_zero]
  cases writable with
  | false =>
    have hclear : pteOf kpage false &&& PTE_W = 0#32 := by
      rw [pteOf, or_and_of_disjoint (by decide), or_and_of_disjoint (by decide), or_and_of_disjoint (by decide), haddr]
    rw [hclear]
    rfl
  | true =>
    apply decide_eq_true
    rw [pteOf, or_and_of_disjoint (by decide)]
    exact or_and_ne_zero (by decide)

/-- The state in which the loop starts: the file is at the segment's first page. -/
structure Seeked (j : Job) (s s₁ : Loader) (pos : Nat) : Prop where
  vm : s₁.vm = s.vm
  installed : s₁.installed = s.installed
  device : s₁.vol.device = s.vol.device
  data : s₁.vol.dataOf j.file = s.vol.dataOf j.file
  pos : (s₁.vol.file j.file).pos = pos

/-- **A segment whose pages have been loaded.** -/
theorem Loaded.segment {s₁ : Loader} (ready : Ready j s) (ready₁ : Ready j s₁) (h : Checked phdr length)
    (hseek : Seeked j s s₁ (phdr.pOffset.toNat / 4096 * 4096))
    (hload : Loaded j phdr.args.writable s₁ s' phdr.args.memPage phdr.pageCnt phdr.args.readBytes.toNat) :
    SegmentLoaded j s s' phdr := by
  obtain ⟨hpage, hlow, hend⟩ := h.region
  have hofs := h.offset
  have hread := h.exact.read
  have haligned : pgOfs phdr.args.memPage = 0#32 := by
    rw [pgOfs_eq_zero]
    omega
  have hat : ∀ k < phdr.pageCnt, (pageAt phdr.args.memPage k).toNat = phdr.args.memPage.toNat + k * 4096 :=
    fun k hk => pageAt_toNat (by omega)
  -- the byte at offset `y` of the region
  have hbyte : ∀ (va : Word) (y : Nat), y < phdr.pageCnt * 4096 → va.toNat = phdr.args.memPage.toNat + y →
      userByte s' j.pd va = some (if y < phdr.args.readBytes.toNat then
        fileByte s.vol j.file (phdr.pOffset.toNat / 4096 * 4096 + y) else 0) := by
    intro va y hy hva
    obtain ⟨i, hi⟩ := hload.pages (y / 4096) (by omega)
    rw [hi.userByte hload.ready ready₁ haligned (x := y % 4096) (by omega) (Nat.mod_lt _ (by decide)),
      hi.holds _ (Nat.mod_lt _ (by decide)), hseek.device, hseek.data, hseek.pos, Nat.div_add_mod', fileByte, Nat.add_assoc]
  constructor
  case unmapped =>
    intro k hk
    obtain ⟨i, hi⟩ := hload.pages k hk
    have hclear := hi.unmapped
    rw [hseek.vm] at hclear
    rw [ready.sound.ok.getPage ready.dir hi.user, if_pos hclear]
  case installed => rw [hload.installed, hseek.installed]
  case once =>
    rw [List.nodup_map_iff_inj_on List.nodup_range]
    intro k hk l hl heq
    have hnat := congrArg BitVec.toNat heq
    rw [hat k (List.mem_range.mp hk), hat l (List.mem_range.mp hl)] at hnat
    omega
  case writable =>
    intro k hk
    obtain ⟨i, hi⟩ := hload.pages k hk
    have hframe := j.machine.frame_page (ready₁.sound.table.lt_poolSize hi.free)
    rw [pagedirIsWritable, hload.ready.sound.ok.is hload.ready.dir hi.user, hi.mapped, pteOf_writable hframe]
  case in_file =>
    have hinside := hload.inside
    rw [hseek.pos, hseek.data] at hinside
    split at hread <;> omega
  case file =>
    intro x hx
    have hfilesz := h.filesz_le
    have hendlt := h.end_lt
    have hva : (phdr.pVaddr + BitVec.ofNat 32 x).toNat = phdr.pVaddr.toNat + x := by
      rw [BitVec.toNat_add, BitVec.toNat_ofNat]
      omega
    have hcnt : phdr.pVaddr.toNat % 4096 + phdr.pMemsz.toNat ≤ phdr.pageCnt * 4096 := by
      unfold Phdr.pageCnt
      omega
    rw [if_pos (by omega)] at hread
    rw [hbyte _ (phdr.pVaddr.toNat % 4096 + x) (by omega) (by omega), if_pos (by omega)]
    congr 2
    omega
  case zero =>
    intro va hlo hhi hafter
    rw [hbyte va (va.toNat - phdr.args.memPage.toNat) (by omega) (by omega), if_neg]
    split at hread
    · rename_i hpos
      omega
    · omega

end

/-- `load_segment` has returned true. -/
def Exit.success : Exit → Bool
  | .returns _ b => b
  | .assertion | .stops | .unfinished => false

end Segment
end Asg1
