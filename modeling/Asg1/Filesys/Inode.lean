import Asg1.Lib.Loop
import Mathlib.Algebra.Order.Ring.Int
import Mathlib.Data.List.Basic

/-!
# `Filesys.Inode` — reading and writing through an inode

`inode_read_at` and `inode_write_at` of `filesys/inode.c`, sector by sector on a block device. Both move at most
as many bytes as asked for and never beyond the end of the file, so that no position overflows, and a write
touches only sectors of the file.
-/

namespace Asg1
namespace Filesys

def BLOCK_SECTOR_SIZE : Nat := 512

/-- The contents of the device, byte by byte. -/
abbrev Device := Nat → UInt8

/-- `block_read`. -/
def blockRead (d : Device) (sector : Nat) : List UInt8 :=
  (List.range BLOCK_SECTOR_SIZE).map (fun i => d (sector * BLOCK_SECTOR_SIZE + i))

/-- `block_write`. -/
def blockWrite (d : Device) (sector : Nat) (buffer : List UInt8) : Device :=
  fun a => if a / BLOCK_SECTOR_SIZE = sector then buffer.getD (a % BLOCK_SECTOR_SIZE) 0 else d a

/-- `struct inode_disk`. `inode_create` asserts that the length is not negative. -/
structure InodeDisk where
  start : Nat
  length : Nat
  length_lt : length < 2 ^ 31

/-- `byte_to_sector`; the result -1 is unsigned. -/
def byteToSector (data : InodeDisk) (pos : Nat) : Nat :=
  if pos < data.length then (data.start + pos / BLOCK_SECTOR_SIZE) % 2 ^ 32 else 2 ^ 32 - 1

/-- `chunk_size`: what is asked for, what is left in the file, what is left in the sector, whichever is least. A
    difference that is negative in the source is 0 here; the loops end on both. -/
def chunkSize (data : InodeDisk) (size offset : Nat) : Nat :=
  min size (min (data.length - offset) (BLOCK_SECTOR_SIZE - offset % BLOCK_SECTOR_SIZE))

/-! ## `inode_read_at` -/

/-- The variables of the loop in `inode_read_at`; `buffer` is what has been copied so far. -/
structure ReadVars where
  size : Nat
  offset : Nat
  buffer : List UInt8

/-- A chunk of `chunk` bytes at `offset`: the whole sector, or part of it by way of the bounce buffer. -/
def readChunk (d : Device) (data : InodeDisk) (offset chunk : Nat) : List UInt8 :=
  let sectorIdx := byteToSector data offset
  let sectorOfs := offset % BLOCK_SECTOR_SIZE
  if sectorOfs = 0 ∧ chunk = BLOCK_SECTOR_SIZE then blockRead d sectorIdx
  else ((blockRead d sectorIdx).drop sectorOfs).take chunk

def readBody (d : Device) (data : InodeDisk) (x : ReadVars) : Option (ReadVars ⊕ List UInt8) :=
  if x.size = 0 then some (.inr x.buffer)
  else
    let chunk := chunkSize data x.size x.offset
    if chunk = 0 then some (.inr x.buffer)
    else some (.inl ⟨x.size - chunk, x.offset + chunk, x.buffer ++ readChunk d data x.offset chunk⟩)

/-- `inode_read_at`: the bytes read. A negative size is passed as 0. -/
def inodeReadAt (d : Device) (data : InodeDisk) (size offset : Nat) : Option (List UInt8) :=
  Loop.run (readBody d data) (size + 1) ⟨size, offset, []⟩

theorem chunkSize_le {data : InodeDisk} {size offset : Nat} (h : chunkSize data size offset ≠ 0) :
    chunkSize data size offset ≤ size ∧ offset + chunkSize data size offset ≤ data.length ∧
      chunkSize data size offset ≤ BLOCK_SECTOR_SIZE - offset % BLOCK_SECTOR_SIZE := by
  unfold chunkSize at h ⊢
  omega

theorem length_blockRead (d : Device) (sector : Nat) : (blockRead d sector).length = BLOCK_SECTOR_SIZE := by
  simp [blockRead]

theorem length_readChunk (d : Device) (data : InodeDisk) {offset chunk : Nat}
    (h : chunk ≤ BLOCK_SECTOR_SIZE - offset % BLOCK_SECTOR_SIZE) : (readChunk d data offset chunk).length = chunk := by
  simp only [readChunk]
  split
  · rename_i hfull
    rw [length_blockRead, hfull.2]
  · rw [List.length_take, List.length_drop, length_blockRead]
    omega

/-- What the loop may still add to the buffer. -/
def ReadBound (data : InodeDisk) (x : ReadVars) (out : List UInt8) : Prop :=
  out.length ≤ x.buffer.length + x.size ∧ x.offset + out.length ≤ max x.offset data.length + x.buffer.length

theorem readBody_step (d : Device) (data : InodeDisk) (x : ReadVars) :
    (∃ x', readBody d data x = some (.inl x') ∧ x'.size < x.size ∧
      ∀ out, ReadBound data x' out → ReadBound data x out) ∨
    (∃ out, readBody d data x = some (.inr out) ∧ ReadBound data x out) := by
  have hdone : ReadBound data x x.buffer := by
    unfold ReadBound
    omega
  by_cases hsize : x.size = 0
  · exact .inr ⟨x.buffer, by simp [readBody, hsize], hdone⟩
  · by_cases hchunk : chunkSize data x.size x.offset = 0
    · exact .inr ⟨x.buffer, by simp [readBody, hsize, hchunk], hdone⟩
    · obtain ⟨hle, hlength, hsector⟩ := chunkSize_le hchunk
      refine .inl ⟨⟨x.size - chunkSize data x.size x.offset, x.offset + chunkSize data x.size x.offset,
        x.buffer ++ readChunk d data x.offset (chunkSize data x.size x.offset)⟩, ?_, ?_, ?_⟩
      · simp [readBody, hsize, hchunk]
      · show x.size - _ < x.size
        omega
      · unfold ReadBound
        intro out hout
        simp only [List.length_append, length_readChunk d data hsector] at hout
        omega

/-- **`inode_read_at` ends**, with at most `size` bytes and none from beyond the end of the file. -/
theorem inodeReadAt_some (d : Device) (data : InodeDisk) (size offset : Nat) :
    ∃ out, inodeReadAt d data size offset = some out ∧ out.length ≤ size ∧
      offset + out.length ≤ max offset data.length := by
  obtain ⟨out, hrun, hbound⟩ := @Loop.run_of_measure _ _ (readBody d data) (fun _ => True) ReadVars.size
    (ReadBound data) (fun x _ => by
      rcases readBody_step d data x with ⟨x', hx', hlt, hmono⟩ | hout
      · exact .inl ⟨x', hx', trivial, hlt, hmono⟩
      · exact .inr hout) (size + 1) ⟨size, offset, []⟩ trivial (Nat.lt_succ_self _)
  refine ⟨out, hrun, ?_⟩
  simpa [ReadBound] using hbound

/-! ## `inode_write_at` -/

/-- The variables of the loop in `inode_write_at`, with the device. -/
structure WriteVars where
  size : Nat
  offset : Nat
  written : Nat
  device : Device

/-- What is written to the sector of `offset`: `bytes` alone if they fill the sector, and otherwise `bytes` in the
    bounce buffer, which holds the old contents unless none of them stays. -/
def newSector (d : Device) (data : InodeDisk) (offset : Nat) (bytes : List UInt8) (chunk : Nat) : List UInt8 :=
  let sectorOfs := offset % BLOCK_SECTOR_SIZE
  let sectorLeft := BLOCK_SECTOR_SIZE - sectorOfs
  if sectorOfs = 0 ∧ chunk = BLOCK_SECTOR_SIZE then bytes
  else
    let bounce :=
      if sectorOfs > 0 ∨ chunk < sectorLeft then blockRead d (byteToSector data offset)
      else List.replicate BLOCK_SECTOR_SIZE 0
    bounce.take sectorOfs ++ bytes ++ bounce.drop (sectorOfs + chunk)

def writeBody (data : InodeDisk) (buffer : List UInt8) (x : WriteVars) : Option (WriteVars ⊕ Device × Nat) :=
  if x.size = 0 then some (.inr (x.device, x.written))
  else
    let chunk := chunkSize data x.size x.offset
    if chunk = 0 then some (.inr (x.device, x.written))
    else
      let bytes := (buffer.drop x.written).take chunk
      some (.inl ⟨x.size - chunk, x.offset + chunk, x.written + chunk,
        blockWrite x.device (byteToSector data x.offset) (newSector x.device data x.offset bytes chunk)⟩)

/-- The loop of `inode_write_at`: the new contents of the device and the number of bytes written. -/
def writeData (d : Device) (data : InodeDisk) (buffer : List UInt8) (size offset : Nat) : Option (Device × Nat) :=
  Loop.run (writeBody data buffer) (size + 1) ⟨size, offset, 0, d⟩

theorem blockWrite_other {d : Device} {sector a : Nat} (buffer : List UInt8)
    (h : a / BLOCK_SECTOR_SIZE ≠ sector) : blockWrite d sector buffer a = d a := if_neg h

/-- Byte `a` of the device lies in no sector of the file. -/
def Outside (data : InodeDisk) (a : Nat) : Prop :=
  ∀ pos < data.length, a / BLOCK_SECTOR_SIZE ≠ byteToSector data pos

/-- What the loop may still write. -/
def WriteBound (data : InodeDisk) (x : WriteVars) (r : Device × Nat) : Prop :=
  r.2 ≤ x.written + x.size ∧ x.offset + r.2 ≤ max x.offset data.length + x.written ∧
    ∀ a, Outside data a → r.1 a = x.device a

theorem writeBody_step (data : InodeDisk) (buffer : List UInt8) (x : WriteVars) :
    (∃ x', writeBody data buffer x = some (.inl x') ∧ x'.size < x.size ∧
      ∀ r, WriteBound data x' r → WriteBound data x r) ∨
    (∃ r, writeBody data buffer x = some (.inr r) ∧ WriteBound data x r) := by
  have hdone : WriteBound data x (x.device, x.written) := by
    refine ⟨Nat.le_add_right _ _, ?_, fun _ _ => rfl⟩
    omega
  by_cases hsize : x.size = 0
  · exact .inr ⟨_, by simp [writeBody, hsize], hdone⟩
  · by_cases hchunk : chunkSize data x.size x.offset = 0
    · exact .inr ⟨_, by simp [writeBody, hsize, hchunk], hdone⟩
    · obtain ⟨hle, hlength, _⟩ := chunkSize_le hchunk
      refine .inl ⟨⟨x.size - chunkSize data x.size x.offset, x.offset + chunkSize data x.size x.offset,
        x.written + chunkSize data x.size x.offset, _⟩, by simp [writeBody, hsize, hchunk]; rfl, ?_, ?_⟩
      · show x.size - _ < x.size
        omega
      · rintro r ⟨hr, hend, hframe⟩
        simp only at hr hend
        refine ⟨by omega, by omega, ?_⟩
        intro a ha
        rw [hframe a ha]
        exact blockWrite_other _ (ha x.offset (by omega))

/-- **`inode_write_at` ends**, having written at most `size` bytes, none beyond the end of the file, and to no
    sector but those of the file. -/
theorem writeData_some (d : Device) (data : InodeDisk) (buffer : List UInt8) (size offset : Nat) :
    ∃ d' n, writeData d data buffer size offset = some (d', n) ∧ n ≤ size ∧
      offset + n ≤ max offset data.length ∧ ∀ a, Outside data a → d' a = d a := by
  obtain ⟨⟨d', n⟩, hrun, hbound⟩ := @Loop.run_of_measure _ _ (writeBody data buffer) (fun _ => True)
    WriteVars.size (WriteBound data) (fun x _ => by
      rcases writeBody_step data buffer x with ⟨x', hx', hlt, hmono⟩ | hr
      · exact .inl ⟨x', hx', trivial, hlt, hmono⟩
      · exact .inr hr) (size + 1) ⟨size, offset, 0, d⟩ trivial (Nat.lt_succ_self _)
  refine ⟨d', n, hrun, ?_⟩
  simpa [WriteBound] using hbound

end Filesys
end Asg1
