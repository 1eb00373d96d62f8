import Asg1.Filesys.File
import Asg1.Kernel.Bitmap
import Asg1.Lib.CInt
import Asg1.Lib.Flat
import Asg1.Lib.Proc

/-!
# `Filesys.Volume` — the file system on its device

The whole of `filesys/`: inodes on the device and in memory (`inode.c`), the free map and its file (`free-map.c`), the
root directory (`directory.c`), open files (`file.c`) and the calls of `filesys.c`, down to the bytes on the device. The
state contains the open inodes and files of `Filesys.File`, whose functions are used for what they do to the counters.

* A procedure that gets stuck is a failed assertion, a `PANIC` or a pointer that is not valid.
* `mem` is what the next calls of `malloc` and `calloc` return: `false` is a null pointer, and when the list is used up
  they all succeed. A `struct` that is allocated gets an address that was never used.
* `mapLost`, a history variable, tells that some `bitmap_write` of the free map has failed.
* The names of files are byte strings, without their final zero byte.
-/

namespace Asg1
namespace Volume

open Filesys

def FREE_MAP_SECTOR : Nat := 0
def INODE_MAGIC : BitVec 32 := 0x494e4f44#32
def NAME_MAX : Nat := 14

/-- `sizeof (struct dir_entry)` -/
def ENTRY_SIZE : Nat := 20

/-- `bytes_to_sectors`: the sum is an `off_t`, the result a `size_t`. -/
def bytesToSectors (size : Nat) : Nat := ((wrap32 (size + 511)).tdiv 512 % 2 ^ 32).toNat

/-! ## State -/

/-- `struct dir`. -/
structure Dir where
  inode : Addr
  pos : Nat

/-- The file system module. `removed` is the flag in each `struct inode`, and `dirs` are the `struct dir`s that are
    allocated. -/
structure Vol extends Fs where
  blocks : Nat
  freeMap : Bitmap
  freeMapFile : Option Addr
  removed : Addr → Bool
  dirs : List Addr
  dir : Addr → Dir
  next : Addr
  mem : List Bool
  mapLost : Bool

abbrev K := Proc Vol

/-- `malloc` and `calloc`: whether there is memory. -/
def malloc : K Bool := fun s =>
  match s.mem with
  | [] => some (true, s)
  | ok :: mem => some (ok, { s with mem })

/-- The address of what has been allocated. -/
def newAddr : K Addr := fun s => some (s.next, { s with next := s.next + 1 })

def stuck {α : Type} : K α := fun _ => none

/-- A function of `Filesys.File` on the open inodes and files. -/
def onFs (g : Fs → Option Fs) : K Unit := fun s => (g s.toFs).map (fun fs => ((), { s with toFs := fs }))

/-- `block_write`, which stops at a sector beyond the device. -/
def writeSector (sector : Nat) (buffer : List UInt8) : K Unit := fun s =>
  if sector < s.blocks then some ((), { s with device := blockWrite s.device sector buffer }) else none

/-! ## Inodes on the device -/

/-- `struct inode_disk` as `inode_create` writes it. -/
def inodeBytes (start length : Nat) : List UInt8 :=
  Bytes.le32 (BitVec.ofNat 32 start) ++ (Bytes.le32 (BitVec.ofNat 32 length) ++
    (Bytes.le32 INODE_MAGIC ++ List.replicate 500 0))

/-- The `struct inode_disk` in a sector. A negative length, which is never written, would be read as 0. -/
def inodeDisk (d : Device) (sector : Nat) : InodeDisk :=
  let length := (Bytes.word32 (Flat.slice d (sector * BLOCK_SECTOR_SIZE + 4) 4)).toNat
  { start := (Bytes.word32 (Flat.slice d (sector * BLOCK_SECTOR_SIZE) 4)).toNat
    length := if length < 2 ^ 31 then length else 0
    length_lt := by split <;> omega }

/-- The format of the device. Names are looked up by `lookup` below, not through this parameter. -/
def format : Format where
  lookup := fun _ _ _ => none
  inodeDisk := inodeDisk

/-- `byte_to_sector`, for offsets of either sign. -/
def sectorOf (data : InodeDisk) (pos : Int) : Nat :=
  if pos < data.length then (((data.start : Int) + pos.tdiv 512) % 2 ^ 32).toNat else 2 ^ 32 - 1

/-- `chunk_size` in the loops of `inode_read_at` and `inode_write_at`. -/
def chunkOf (data : InodeDisk) (size offset : Int) : Int :=
  let inodeLeft := wrap32 (data.length - offset)
  let sectorLeft := 512 - offset.tmod 512
  let minLeft := if inodeLeft < sectorLeft then inodeLeft else sectorLeft
  if size < minLeft then size else minLeft

/-- The variables of `inode_read_at`; `bounce` tells whether the bounce buffer is there. -/
structure ReadState where
  size : Int
  offset : Int
  buffer : List UInt8
  bounce : Bool

/-- One round of the loop. It is left with the bytes read and whether `malloc` was called. -/
def readStep (d : Device) (blocks : Nat) (data : InodeDisk) (memory : Bool) (x : ReadState) :
    Option (ReadState ⊕ List UInt8 × Bool) :=
  let chunk := chunkOf data x.size x.offset
  let sectorIdx := sectorOf data x.offset
  let sectorOfs := x.offset.tmod 512
  if x.size ≤ 0 then some (.inr (x.buffer, x.bounce))
  else if chunk ≤ 0 then some (.inr (x.buffer, x.bounce))
  else if sectorOfs = 0 ∧ chunk = 512 then
    if sectorIdx < blocks then
      some (.inl ⟨x.size - chunk, x.offset + chunk, x.buffer ++ blockRead d sectorIdx, x.bounce⟩)
    else none
  else if x.bounce = false ∧ memory = false then some (.inr (x.buffer, true))
  else if sectorIdx < blocks ∧ 0 ≤ sectorOfs then
    some (.inl ⟨x.size - chunk, x.offset + chunk,
      x.buffer ++ ((blockRead d sectorIdx).drop sectorOfs.toNat).take chunk.toNat, true⟩)
  else none

def readAt (d : Device) (blocks : Nat) (data : InodeDisk) (memory : Bool) (size offset : Int) :
    Option (List UInt8 × Bool) :=
  Loop.run (readStep d blocks data memory) (size.toNat + 1) ⟨size, offset, [], false⟩

/-- The variables of `inode_write_at`. -/
structure WriteState where
  size : Int
  offset : Int
  written : Nat
  device : Device
  bounce : Bool

/-- One round of the loop. It is left with the device, the number of bytes written and whether `malloc` was called. -/
def writeStep (blocks : Nat) (data : InodeDisk) (memory : Bool) (buffer : List UInt8) (x : WriteState) :
    Option (WriteState ⊕ Device × Nat × Bool) :=
  let chunk := chunkOf data x.size x.offset
  let sectorIdx := sectorOf data x.offset
  let sectorOfs := x.offset.tmod 512
  let bytes := (buffer.drop x.written).take chunk.toNat
  if x.size ≤ 0 then some (.inr (x.device, x.written, x.bounce))
  else if chunk ≤ 0 then some (.inr (x.device, x.written, x.bounce))
  else if sectorOfs = 0 ∧ chunk = 512 then
    if sectorIdx < blocks then
      some (.inl ⟨x.size - chunk, x.offset + chunk, x.written + chunk.toNat, blockWrite x.device sectorIdx bytes,
        x.bounce⟩)
    else none
  else if x.bounce = false ∧ memory = false then some (.inr (x.device, x.written, true))
  else if sectorIdx < blocks ∧ 0 ≤ sectorOfs then
    let bounce :=
      if sectorOfs > 0 ∨ chunk < 512 - sectorOfs then blockRead x.device sectorIdx
      else List.replicate BLOCK_SECTOR_SIZE 0
    let sector := bounce.take sectorOfs.toNat ++ bytes ++ bounce.drop (sectorOfs.toNat + chunk.toNat)
    some (.inl ⟨x.size - chunk, x.offset + chunk, x.written + chunk.toNat, blockWrite x.device sectorIdx sector, true⟩)
  else none

def writeAt (d : Device) (blocks : Nat) (data : InodeDisk) (memory : Bool) (buffer : List UInt8) (size offset : Int) :
    Option (Device × Nat × Bool) :=
  Loop.run (writeStep blocks data memory buffer) (size.toNat + 1) ⟨size, offset, 0, d, false⟩

/-- `inode_read_at`: the bytes read. -/
def inodeReadAt (i : Addr) (size offset : Int) : K (List UInt8) := fun s =>
  if i ∈ s.openInodes then
    (readAt s.device s.blocks (s.inode i).data (s.mem.headD true) size offset).map fun (buffer, asked) =>
      (buffer, if asked then { s with mem := s.mem.tail } else s)
  else none

/-- `inode_write_at`: the number of bytes written. -/
def inodeWriteAt (i : Addr) (buffer : List UInt8) (size offset : Int) : K Nat := fun s =>
  if i ∈ s.openInodes then
    if (s.inode i).denyWriteCnt ≠ 0 then some (0, s)
    else
      (writeAt s.device s.blocks (s.inode i).data (s.mem.headD true) buffer size offset).map fun (device, n, asked) =>
        (n, { s with device := device, mem := if asked then s.mem.tail else s.mem })
  else none

/-! ## The free map -/

/-- `file_write_at` -/
def fileWriteAt (f : Addr) (buffer : List UInt8) (size offset : Int) : K Nat := do
  let s ← get
  Proc.assert (f ∈ s.files)
  inodeWriteAt (s.file f).inode buffer size offset

/-- `file_read_at` -/
def fileReadAt (f : Addr) (size offset : Int) : K (List UInt8) := do
  let s ← get
  Proc.assert (f ∈ s.files)
  inodeReadAt (s.file f).inode size offset

/-- `bitmap_write` of the free map. -/
def bitmapWrite (f : Addr) : K Bool := do
  let s ← get
  let size := byteCnt s.freeMap.bitCnt
  let n ← fileWriteAt f s.freeMap.bytes size 0
  if n = size then return true
  else
    modify fun s => { s with mapLost := true }
    return false

/-- `bitmap_set_multiple` on the free map. -/
def setFreeMap (sector cnt : Nat) (value : Bool) : K Unit := fun s =>
  (s.freeMap.setMultiple sector cnt value).map fun freeMap => ((), { s with freeMap })

/-- `free_map_allocate` -/
def freeMapAllocate (cnt : Nat) : K (Option Nat) := do
  let s ← get
  match s.freeMap.scanAndFlip 0 cnt false with
  | none => stuck
  | some (_, none) => return none
  | some (freeMap, some sector) =>
    set { s with freeMap }
    match s.freeMapFile with
    | none => return some sector
    | some f =>
      if ← bitmapWrite f then return some sector
      else
        setFreeMap sector cnt false
        return none

/-- `free_map_release` -/
def freeMapRelease (sector cnt : Nat) : K Unit := do
  let s ← get
  Proc.assert (s.freeMap.all sector cnt = some true)
  setFreeMap sector cnt false
  match s.freeMapFile with
  | none => stuck
  | some f =>
    let _ ← bitmapWrite f
    return ()

/-! ## Inodes in memory -/

/-- The loop of `inode_create` that writes zeros, with `cnt` sectors to go. -/
def zeroSectors : Nat → Nat → K Unit
  | 0, _ => return ()
  | cnt + 1, sector => do
      writeSector (sector % 2 ^ 32) (List.replicate BLOCK_SECTOR_SIZE 0)
      zeroSectors cnt (sector + 1)

/-- `inode_create` -/
def inodeCreate (sector : Nat) (length : Int) : K Bool := do
  Proc.assert (0 ≤ length)
  if ← malloc then
    let sectors := bytesToSectors length.toNat
    match ← freeMapAllocate sectors with
    | none => return false
    | some start =>
      writeSector sector (inodeBytes start length.toNat)
      zeroSectors sectors start
      return true
  else return false

/-- Some `struct inode` for the sector is open. -/
def isOpen (fs : Fs) (sector : Nat) : Bool := fs.openInodes.any (fun i => (fs.inode i).sector = sector)

/-- `inode_open` -/
def inodeOpen (sector : Nat) : K (Option Addr) := do
  let s ← get
  if isOpen s.toFs sector then
    let (fs, i) := Filesys.inodeOpen format s.toFs sector s.next
    set { s with toFs := fs }
    return some i
  else if ← malloc then
    Proc.assert (sector < s.blocks)
    let a ← newAddr
    modify fun s =>
      { s with
        toFs := (Filesys.inodeOpen format s.toFs sector a).1
        removed := fun i => if i = a then false else s.removed i }
    return some a
  else return none

/-- `inode_reopen` -/
def inodeReopen (i : Addr) : K (Option Addr) := do
  let s ← get
  Proc.assert (i ∈ s.openInodes)
  set { s with toFs := s.toFs.setInode i { s.inode i with openCnt := (s.inode i).openCnt + 1 } }
  return some i

/-- `inode_close` -/
def inodeClose : Option Addr → K Unit
  | none => return ()
  | some i => do
      let s ← get
      onFs (Filesys.inodeClose · i)
      if (s.inode i).openCnt - 1 = 0 ∧ s.removed i = true then
        freeMapRelease (s.inode i).sector 1
        freeMapRelease (s.inode i).data.start (bytesToSectors (s.inode i).data.length)

/-- `inode_remove` -/
def inodeRemove (i : Addr) : K Unit :=
  modify fun s => { s with removed := fun j => if j = i then true else s.removed j }

/-! ## Files -/

/-- `file_open` -/
def fileOpen (inode : Option Addr) : K (Option Addr) := do
  let memory ← malloc
  match inode, memory with
  | some i, true =>
    let f ← newAddr
    modify fun s => { s with toFs := Filesys.fileOpen s.toFs i f }
    return some f
  | _, _ =>
    inodeClose inode
    return none

/-- `file_reopen` -/
def fileReopen (f : Addr) : K (Option Addr) := do
  let s ← get
  Proc.assert (f ∈ s.files)
  let i ← inodeReopen (s.file f).inode
  fileOpen i

/-- `file_close` -/
def fileClose (f : Addr) : K Unit := do
  onFs (fileAllowWrite · f)
  let s ← get
  inodeClose (some (s.file f).inode)
  modify fun s => { s with files := s.files.erase f, closed := f :: s.closed }

/-- `file_read` -/
def fileRead (f : Addr) (size : Int) : K (List UInt8) := do
  let s ← get
  Proc.assert (f ∈ s.files)
  let buffer ← inodeReadAt (s.file f).inode size (s.file f).pos
  modify fun s => { s with toFs := s.toFs.setFile f { s.file f with pos := (s.file f).pos + buffer.length } }
  return buffer

/-- `file_write` -/
def fileWrite (f : Addr) (buffer : List UInt8) (size : Int) : K Nat := do
  let s ← get
  Proc.assert (f ∈ s.files)
  let n ← inodeWriteAt (s.file f).inode buffer size (s.file f).pos
  modify fun s => { s with toFs := s.toFs.setFile f { s.file f with pos := (s.file f).pos + n } }
  return n

/-! ## The root directory -/

/-- `e.in_use` in the bytes of a `struct dir_entry`. -/
def entryInUse (e : List UInt8) : Bool := e.getD 19 0 ≠ 0

/-- `e.name`, up to its zero byte. -/
def entryName (e : List UInt8) : List UInt8 := ((e.drop 4).take 15).takeWhile (· ≠ 0)

/-- `e.inode_sector` -/
def entrySector (e : List UInt8) : Nat := (Bytes.word32 e).toNat

/-- The entry that `dir_add` makes out of `e`: bytes of the name after its zero byte are left as they are. -/
def newEntry (e name : List UInt8) (sector : Nat) : List UInt8 :=
  Bytes.le32 (BitVec.ofNat 32 sector) ++
    (name.take NAME_MAX ++ 0 :: ((e.drop 4).take 15).drop (min name.length NAME_MAX + 1) ++ [1])

/-- The entry with `in_use` cleared. -/
def clearEntry (e : List UInt8) : List UInt8 := e.take 19 ++ [0]

/-- `dir_create` -/
def dirCreate (sector entryCnt : Nat) : K Bool := inodeCreate sector (entryCnt * ENTRY_SIZE)

/-- `dir_open` -/
def dirOpen (inode : Option Addr) : K (Option Addr) := do
  let memory ← malloc
  match inode, memory with
  | some i, true =>
    let a ← newAddr
    modify fun s => { s with dirs := a :: s.dirs, dir := fun b => if b = a then ⟨i, 0⟩ else s.dir b }
    return some a
  | _, _ =>
    inodeClose inode
    return none

/-- `dir_open_root` -/
def dirOpenRoot : K (Option Addr) := do
  let i ← inodeOpen ROOT_DIR_SECTOR
  dirOpen i

/-- `dir_reopen` -/
def dirReopen (a : Addr) : K (Option Addr) := do
  let s ← get
  Proc.assert (a ∈ s.dirs)
  let i ← inodeReopen (s.dir a).inode
  dirOpen i

/-- `dir_close` -/
def dirClose : Option Addr → K Unit
  | none => return ()
  | some a => do
      let s ← get
      Proc.assert (a ∈ s.dirs)
      inodeClose (some (s.dir a).inode)
      modify fun s => { s with dirs := s.dirs.erase a }

/-- The loop of `lookup`, for the inode of the directory. -/
def lookupLoop (i : Addr) (name : List UInt8) : Nat → Nat → K (Option (List UInt8 × Nat))
  | 0, _ => stuck
  | fuel + 1, ofs => do
      let e ← inodeReadAt i ENTRY_SIZE ofs
      if e.length = ENTRY_SIZE then
        if entryInUse e = true ∧ name = entryName e then return some (e, ofs)
        else lookupLoop i name fuel (ofs + ENTRY_SIZE)
      else return none

/-- More rounds than a loop over the entries of a directory takes. -/
def entryFuel (s : Vol) (i : Addr) : Nat := (s.inode i).data.length / ENTRY_SIZE + 2

/-- `lookup` -/
def lookup (a : Addr) (name : List UInt8) : K (Option (List UInt8 × Nat)) := do
  let s ← get
  Proc.assert (a ∈ s.dirs)
  lookupLoop (s.dir a).inode name (entryFuel s (s.dir a).inode) 0

/-- `dir_lookup` -/
def dirLookup (a : Addr) (name : List UInt8) : K (Option Addr) := do
  match ← lookup a name with
  | some (e, _) => inodeOpen (entrySector e)
  | none => return none

/-- The loop of `dir_add` for a free slot; `e` is what the variable holds. -/
def slotLoop (i : Addr) : Nat → Nat → List UInt8 → K (List UInt8 × Nat)
  | 0, _, _ => stuck
  | fuel + 1, ofs, e => do
      let read ← inodeReadAt i ENTRY_SIZE ofs
      let e := read ++ e.drop read.length
      if read.length = ENTRY_SIZE then
        if entryInUse e = false then return (e, ofs) else slotLoop i fuel (ofs + ENTRY_SIZE) e
      else return (e, ofs)

/-- `dir_add`. The variable `e` is not initialised; what it holds at first is never looked at. -/
def dirAdd (a : Addr) (name : List UInt8) (sector : Nat) : K Bool := do
  let s ← get
  Proc.assert (a ∈ s.dirs)
  if name = [] ∨ name.length > NAME_MAX then return false
  else if (← lookup a name).isSome then return false
  else
    let s ← get
    let (e, ofs) ← slotLoop (s.dir a).inode (entryFuel s (s.dir a).inode) 0 (List.replicate ENTRY_SIZE 0xcc)
    let n ← inodeWriteAt (s.dir a).inode (newEntry e name sector) ENTRY_SIZE ofs
    return n = ENTRY_SIZE

/-- `dir_remove` -/
def dirRemove (a : Addr) (name : List UInt8) : K Bool := do
  match ← lookup a name with
  | none => return false
  | some (e, ofs) =>
    match ← inodeOpen (entrySector e) with
    | none => return false
    | some i =>
      let s ← get
      let n ← inodeWriteAt (s.dir a).inode (clearEntry e) ENTRY_SIZE ofs
      if n = ENTRY_SIZE then
        inodeRemove i
        inodeClose (some i)
        return true
      else
        inodeClose (some i)
        return false

/-- The loop of `dir_readdir`. -/
def readdirLoop (a : Addr) : Nat → K (Option (List UInt8))
  | 0 => stuck
  | fuel + 1 => do
      let s ← get
      let e ← inodeReadAt (s.dir a).inode ENTRY_SIZE (s.dir a).pos
      if e.length = ENTRY_SIZE then
        modify fun s =>
          { s with dir := fun b => if b = a then { s.dir a with pos := (s.dir a).pos + ENTRY_SIZE } else s.dir b }
        if entryInUse e then return some (entryName e) else readdirLoop a fuel
      else return none

/-- `dir_readdir` -/
def dirReaddir (a : Addr) : K (Option (List UInt8)) := do
  let s ← get
  Proc.assert (a ∈ s.dirs)
  readdirLoop a (entryFuel s (s.dir a).inode)

/-! ## `filesys.c` -/

/-- The conditions of `filesys_create` that come after `dir != NULL`, and the sector it has allocated. -/
def createEntry (a : Addr) (name : List UInt8) (initialSize : Int) : K (Bool × Nat) := do
  match ← freeMapAllocate 1 with
  | none => return (false, 0)
  | some sector =>
    if ← inodeCreate sector initialSize then
      let added ← dirAdd a name sector
      return (added, sector)
    else return (false, sector)

/-- `filesys_create` -/
def filesysCreate (name : List UInt8) (initialSize : Int) : K Bool := do
  let dir ← dirOpenRoot
  let (success, inodeSector) ← (do
    match dir with
    | none => return (false, 0)
    | some a => createEntry a name initialSize : K (Bool × Nat))
  if success = false ∧ inodeSector ≠ 0 then freeMapRelease inodeSector 1
  dirClose dir
  return success

/-- `filesys_open` -/
def filesysOpen (name : List UInt8) : K (Option Addr) := do
  let dir ← dirOpenRoot
  let inode ← (do
    match dir with
    | none => return none
    | some a => dirLookup a name : K (Option Addr))
  dirClose dir
  fileOpen inode

/-- `filesys_remove` -/
def filesysRemove (name : List UInt8) : K Bool := do
  let dir ← dirOpenRoot
  let success ← (do
    match dir with
    | none => return false
    | some a => dirRemove a name : K Bool)
  dirClose dir
  return success

/-! ## Formatting and starting -/

/-- `free_map_create` -/
def freeMapCreate : K Unit := do
  let s ← get
  let created ← inodeCreate FREE_MAP_SECTOR (byteCnt s.freeMap.bitCnt)
  Proc.assert (created = true)
  let i ← inodeOpen FREE_MAP_SECTOR
  match ← fileOpen i with
  | none => stuck
  | some f =>
    modify fun s => { s with freeMapFile := some f }
    let written ← bitmapWrite f
    Proc.assert (written = true)

/-- `free_map_open` -/
def freeMapOpen : K Unit := do
  let i ← inodeOpen FREE_MAP_SECTOR
  match ← fileOpen i with
  | none => stuck
  | some f =>
    let s ← get
    let size := byteCnt s.freeMap.bitCnt
    let bytes ← fileReadAt f size 0
    Proc.assert (bytes.length = size)
    modify fun s => { s with freeMapFile := some f, freeMap := s.freeMap.ofBytes bytes }

/-- `free_map_close` -/
def freeMapClose : K Unit := do
  let s ← get
  match s.freeMapFile with
  | none => return ()
  | some f => fileClose f

/-- `do_format` -/
def doFormat : K Unit := do
  freeMapCreate
  let created ← dirCreate ROOT_DIR_SECTOR 16
  Proc.assert (created = true)
  freeMapClose

/-- The module before `filesys_init`, with the free map that `free_map_init` makes. `memory` is what `malloc` finds. -/
def start (blocks : Nat) (device : Device) (memory : Nat → BitVec 32) : Option Vol :=
  (Bitmap.create blocks memory).map fun b =>
    { device, openInodes := [], inode := fun _ => ⟨0, 0, 0, inodeDisk device 0⟩, files := []
      file := fun _ => ⟨0, 0, false⟩, closed := [], blocks
      freeMap := (b.mark FREE_MAP_SECTOR).mark ROOT_DIR_SECTOR, freeMapFile := none, removed := fun _ => false
      dirs := [], dir := fun _ => ⟨0, 0⟩, next := 0, mem := [], mapLost := false }

/-- `filesys_init` -/
def filesysInit (blocks : Nat) (device : Device) (memory : Nat → BitVec 32) (format : Bool) : Option Vol := do
  let s ← start blocks device memory
  let (_, s) ← (do
    if format then doFormat
    freeMapOpen : K Unit) s
  return s

/-! ## Calls -/

/-- The calls that users of the file system make. -/
inductive Call
  | create (name : List UInt8) (initialSize : Int)
  | open (name : List UInt8)
  | remove (name : List UInt8)
  | close (f : Addr)
  | reopen (f : Addr)
  | read (f : Addr) (size : Int)
  | readAt (f : Addr) (size offset : Int)
  | write (f : Addr) (buffer : List UInt8) (size : Int)
  | writeAt (f : Addr) (buffer : List UInt8) (size offset : Int)
  | denyWrite (f : Addr)
  | allowWrite (f : Addr)
  | seek (f : Addr) (pos : Int)
  | tell (f : Addr)
  | length (f : Addr)
  | openRoot
  | reopenDir (a : Addr)
  | closeDir (a : Addr)
  | readdir (a : Addr)

/-- What a call returns. -/
inductive Result
  | unit
  | success (b : Bool)
  | handle (a : Option Addr)
  | bytes (l : List UInt8)
  | size (n : Nat)
  | name (l : Option (List UInt8))
  deriving DecidableEq

def call : Call → K Result
  | .create name initialSize => do return .success (← filesysCreate name initialSize)
  | .open name => do return .handle (← filesysOpen name)
  | .remove name => do return .success (← filesysRemove name)
  | .close f => do fileClose f; return .unit
  | .reopen f => do return .handle (← fileReopen f)
  | .read f size => do return .bytes (← fileRead f size)
  | .readAt f size offset => do return .bytes (← fileReadAt f size offset)
  | .write f buffer size => do return .size (← fileWrite f buffer size)
  | .writeAt f buffer size offset => do return .size (← fileWriteAt f buffer size offset)
  | .denyWrite f => do onFs (fileDenyWrite · f); return .unit
  | .allowWrite f => do onFs (fileAllowWrite · f); return .unit
  | .seek f pos => do onFs (fileSeek · f pos); return .unit
  | .tell f => fun s => (fileTell s.toFs f).map fun pos => (.size pos, s)
  | .length f => fun s => (fileLength s.toFs f).map fun n => (.size n, s)
  | .openRoot => do return .handle (← dirOpenRoot)
  | .reopenDir a => do return .handle (← dirReopen a)
  | .closeDir a => do dirClose (some a); return .unit
  | .readdir a => do return .name (← dirReaddir a)

end Volume
end Asg1
