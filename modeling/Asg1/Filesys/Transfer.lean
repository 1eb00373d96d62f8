import Asg1.Filesys.Volume

/-!
# `Filesys.Transfer` — sectors as flat bytes

The sectors of a file are contiguous, so byte `pos` of a file that starts at sector `start` is byte
`start * 512 + pos` of the device. At offsets that are not negative, `inode_read_at` reads a slice of the device and
`inode_write_at` patches it, up to the end of the file; only when there is no memory for the bounce buffer do they stop
short. Inodes that `inode_create` writes are read back as they were.
-/

namespace Asg1
namespace Volume

open Filesys Flat List

/-! ## Sectors -/

theorem blockRead_eq (d : Device) (sector : Nat) : blockRead d sector = slice d (sector * 512) 512 := rfl

variable {offset size : Int} {d : Device} {sector : Nat}

theorem blockWrite_eq {buffer : List UInt8} (h : buffer.length = 512) :
    blockWrite d sector buffer = patch d (sector * 512) buffer := by
  funext x
  unfold blockWrite
  rw [show BLOCK_SECTOR_SIZE = 512 from rfl]
  split
  · rw [patch_getD (by omega) (by omega) 0]
    congr 1
    omega
  · rw [patch_outside (by omega)]

/-- Writing a sector back with part of it replaced patches that part. -/
theorem blockWrite_bounce (d : Device) (sector : Nat) {ofs : Nat} {bytes : List UInt8} (h : ofs + bytes.length ≤ 512) :
    blockWrite d sector ((blockRead d sector).take ofs ++ bytes ++ (blockRead d sector).drop (ofs + bytes.length)) =
      patch d (sector * 512 + ofs) bytes := by
  have hover : (blockRead d sector).take ofs ++ bytes ++ (blockRead d sector).drop (ofs + bytes.length) =
      slice (patch d (sector * 512 + ofs) bytes) (sector * 512) 512 := (slice_patch_within h).symm
  rw [hover, blockWrite_eq length_slice]
  funext x
  by_cases hin : sector * 512 ≤ x ∧ x < sector * 512 + 512
  · rw [patch_getD hin.1 (by rw [length_slice]; exact hin.2) 0, getD_slice (by omega)]
    congr 1
    omega
  · rw [patch_outside (by rw [length_slice]; omega), patch_outside (by omega)]

/-! ## Files as slices -/

/-- The sectors of a file, if it has any, lie on the device. -/
def Fits (blocks : Nat) (data : InodeDisk) : Prop :=
  (0 < data.length → data.start + (data.length + 511) / 512 ≤ blocks) ∧ blocks ≤ 2 ^ 32

theorem le_bytesToSectors {size : Nat} (h : size < 2 ^ 31) : (size + 511) / 512 ≤ bytesToSectors size := by
  unfold bytesToSectors
  by_cases hsmall : size + 511 < 2147483648
  · rw [wrap32_of_mem (by omega) (by omega)]
    have hdiv : ((size : Int) + 511).tdiv 512 = (((size + 511) / 512 : Nat) : Int) := by
      rw [Int.tdiv_eq_ediv_of_nonneg (by omega)]
      omega
    omega
  · -- the sum wraps around and the quotient is negative: as a `size_t` it is larger than any file
    have hwrap : wrap32 ((size : Int) + 511) = (size : Int) + 511 - 4294967296 := by
      unfold wrap32
      rw [Int.bmod_def]
      omega
    rw [hwrap]
    have hneg : ((size : Int) + 511 - 4294967296).tdiv 512 = -((4294967296 - (size : Int) - 511) / 512) := by
      rw [show (size : Int) + 511 - 4294967296 = -(4294967296 - (size : Int) - 511) by omega, Int.neg_tdiv,
        Int.tdiv_eq_ediv_of_nonneg (by omega)]
    omega

/-- What is left of the transfer. -/
def avail (data : InodeDisk) (size offset : Int) : Nat := min size.toNat (data.length - offset.toNat)

/-- A step of the loops either has nothing left to do, or it moves `c` bytes that lie in one sector of the file. -/
theorem chunkOf_cases {blocks : Nat} {data : InodeDisk} (hfits : Fits blocks data) (hsize : 0 < size)
    (hoff : 0 ≤ offset) (hlt : offset < 2147483648) :
    (chunkOf data size offset ≤ 0 ∧ avail data size offset = 0) ∨
    ∃ c : Nat, chunkOf data size offset = c ∧ 0 < c ∧ c ≤ size.toNat ∧ c + offset.toNat ≤ data.length ∧
      c + offset.toNat % 512 ≤ 512 ∧ offset.tmod 512 = ((offset.toNat % 512 : Nat) : Int) ∧
      sectorOf data offset = data.start + offset.toNat / 512 ∧ data.start + offset.toNat / 512 < blocks := by
  have hlen := data.length_lt
  have hmod : offset.tmod 512 = ((offset.toNat % 512 : Nat) : Int) := by
    rw [Int.tmod_eq_emod_of_nonneg hoff]
    omega
  have hwrap : wrap32 ((data.length : Int) - offset) = data.length - offset := wrap32_of_mem (by omega) (by omega)
  unfold chunkOf avail
  simp only [hwrap, hmod]
  by_cases hend : offset < data.length
  · obtain ⟨hin, hblocks⟩ := hfits
    refine .inr ⟨_, (Int.toNat_of_nonneg ?_).symm, ?_, ?_, ?_, ?_, trivial, ?_, by omega⟩
    case refine_6 =>
      unfold sectorOf
      rw [if_pos hend, Int.tdiv_eq_ediv_of_nonneg hoff]
      omega
    all_goals split <;> split <;> omega
  · refine .inl ⟨?_, ?_⟩
    · split <;> split <;> omega
    · omega

section
variable {d : Device} {blocks : Nat} {data : InodeDisk} (memory : Bool) {chunk : Nat} {x : ReadState} {bounce : Bool}

/-- A chunk, and then the rest. -/
theorem avail_chunk (hoff : 0 ≤ offset) (hsize : chunk ≤ size.toNat) (hend : chunk + offset.toNat ≤ data.length) :
    avail data (size - chunk) (offset + chunk) + chunk = avail data size offset ∧
      (offset + chunk).toNat = offset.toNat + chunk := by
  unfold avail
  omega

/-- The address of a byte of the file. -/
theorem address_eq :
    (data.start + offset.toNat / 512) * 512 + offset.toNat % 512 = data.start * 512 + offset.toNat := by
  omega

/-- The loop of `inode_read_at` may be in this state. -/
def ReadOk (x : ReadState) : Prop := 0 ≤ x.offset ∧ x.offset < 2147483648 ∧ x.size < 2147483648

/-- What the loop adds to the buffer. -/
def ReadsSlice (d : Device) (data : InodeDisk) (memory : Bool) (x : ReadState) (r : List UInt8 × Bool) : Prop :=
  ∃ m, r.1 = x.buffer ++ slice d (data.start * 512 + x.offset.toNat) m ∧ m ≤ avail data x.size x.offset ∧
    (memory = true → m = avail data x.size x.offset)

theorem readsSlice_nothing (h : avail data x.size x.offset = 0) (asked : Bool) :
    ReadsSlice d data memory x (x.buffer, asked) := by
  refine ⟨0, ?_, Nat.zero_le _, fun _ => h.symm⟩
  simp [slice]

theorem readsSlice_chunk (hoff : 0 ≤ x.offset)
    (hsize : chunk ≤ x.size.toNat) (hend : chunk + x.offset.toNat ≤ data.length) {r : List UInt8 × Bool}
    (h : ReadsSlice d data memory
      ⟨x.size - chunk, x.offset + chunk, x.buffer ++ slice d (data.start * 512 + x.offset.toNat) chunk, bounce⟩ r) :
    ReadsSlice d data memory x r := by
  obtain ⟨m, hr, hm, hfull⟩ := h
  obtain ⟨havail, hnat⟩ := avail_chunk hoff hsize hend
  refine ⟨chunk + m, ?_, ?_, ?_⟩
  · rw [hr, slice_add, hnat, List.append_assoc, Nat.add_assoc]
  · simp only at hm
    omega
  · intro hmem
    have := hfull hmem
    simp only at this
    omega

theorem readStep_spec (d : Device) (hfits : Fits blocks data) (x : ReadState) (ok : ReadOk x) :
    (∃ x', readStep d blocks data memory x = some (.inl x') ∧ ReadOk x' ∧ x'.size.toNat < x.size.toNat ∧
      ∀ r, ReadsSlice d data memory x' r → ReadsSlice d data memory x r) ∨
    (∃ r, readStep d blocks data memory x = some (.inr r) ∧ ReadsSlice d data memory x r) := by
  obtain ⟨hoff, hofflt, hsizelt⟩ := ok
  by_cases hsize : x.size ≤ 0
  · refine .inr ⟨_, if_pos hsize, readsSlice_nothing memory ?_ _⟩
    unfold avail
    omega
  have hpos : 0 < x.size := by omega
  rcases chunkOf_cases hfits hpos hoff hofflt with ⟨hchunk, hnone⟩ | ⟨c, hc, hcpos, hcs, hend, hsector, hmod, hidx, hidxlt⟩
  · refine .inr ⟨_, ?_, readsSlice_nothing memory hnone x.bounce⟩
    simp only [readStep]
    rw [if_neg hsize, if_pos hchunk]
  have hlen := data.length_lt
  have hnext : ∀ buffer bounce, ReadOk ⟨x.size - c, x.offset + c, buffer, bounce⟩ := by
    intro buffer bounce
    refine ⟨?_, ?_, ?_⟩ <;> simp only <;> omega
  have hbytes : ((blockRead d (data.start + x.offset.toNat / 512)).drop (x.offset.toNat % 512)).take c =
      slice d (data.start * 512 + x.offset.toNat) c := by
    rw [blockRead_eq, drop_slice, take_slice, address_eq]
    congr 1
    omega
  by_cases hfull : x.offset.tmod 512 = 0 ∧ (c : Int) = 512
  · refine .inl ⟨⟨x.size - c, x.offset + c, x.buffer ++ slice d (data.start * 512 + x.offset.toNat) c, x.bounce⟩,
      ?_, hnext _ _, ?_, fun r hr => readsSlice_chunk memory hoff hcs hend hr⟩
    · simp only [readStep, hc, hidx]
      rw [if_neg hsize, if_neg (by omega), if_pos hfull, if_pos hidxlt, ← hbytes]
      have hzero : x.offset.toNat % 512 = 0 := by omega
      have hc512 : c = 512 := by omega
      have hwhole : (blockRead d (data.start + x.offset.toNat / 512)).take 512 =
          blockRead d (data.start + x.offset.toNat / 512) :=
        take_of_length_le (Nat.le_of_eq (length_blockRead d _))
      rw [hzero, hc512, drop_zero, hwhole]
    · simp only
      omega
  · by_cases hmem : x.bounce = false ∧ memory = false
    · refine .inr ⟨(x.buffer, true), ?_, 0, by simp [slice], Nat.zero_le _, ?_⟩
      · simp only [readStep, hc]
        rw [if_neg hsize, if_neg (by omega), if_neg hfull, if_pos hmem]
      · intro htrue
        rw [hmem.2] at htrue
        cases htrue
    · refine .inl ⟨⟨x.size - c, x.offset + c, x.buffer ++ slice d (data.start * 512 + x.offset.toNat) c, true⟩,
        ?_, hnext _ _, ?_, fun r hr => readsSlice_chunk memory hoff hcs hend hr⟩
      · simp only [readStep, hc, hidx]
        rw [if_neg hsize, if_neg (by omega), if_neg hfull, if_neg hmem, if_pos ⟨hidxlt, by omega⟩, ← hbytes, hmod]
        rfl
      · simp only
        omega

/-- **`inode_read_at` reads a slice of the device.** -/
theorem readAt_eq (hfits : Fits blocks data) (hoff : 0 ≤ offset) (hofflt : offset < 2147483648)
    (hsize : size < 2147483648) :
    ∃ m asked, readAt d blocks data memory size offset = some (slice d (data.start * 512 + offset.toNat) m, asked) ∧
      m ≤ avail data size offset ∧ (memory = true → m = avail data size offset) := by
  obtain ⟨⟨buffer, asked⟩, hrun, m, hbuffer, hm⟩ := Loop.run_of_measure ReadOk (fun x => x.size.toNat)
    (ReadsSlice d data memory) (readStep_spec memory d hfits) (size.toNat + 1) ⟨size, offset, [], false⟩
    ⟨hoff, hofflt, hsize⟩ (Nat.lt_succ_self _)
  refine ⟨m, asked, ?_, hm⟩
  rw [readAt, hrun, ← hbuffer.trans (nil_append _)]

/-- The loop of `inode_write_at` may be in this state. -/
def WriteOk (buffer : List UInt8) (x : WriteState) : Prop :=
  0 ≤ x.offset ∧ x.offset < 2147483648 ∧ x.size < 2147483648 ∧ x.written + x.size.toNat ≤ buffer.length

/-- What the loop writes. -/
def WritesPatch (data : InodeDisk) (memory : Bool) (buffer : List UInt8) (x : WriteState)
    (r : Device × Nat × Bool) : Prop :=
  ∃ m, r.1 = patch x.device (data.start * 512 + x.offset.toNat) ((buffer.drop x.written).take m) ∧
    r.2.1 = x.written + m ∧ m ≤ avail data x.size x.offset ∧ (memory = true → m = avail data x.size x.offset)

variable {buffer : List UInt8}

theorem writesPatch_nothing {x : WriteState} (h : avail data x.size x.offset = 0) (asked : Bool) :
    WritesPatch data memory buffer x (x.device, x.written, asked) := by
  refine ⟨0, ?_, rfl, Nat.zero_le _, fun _ => h.symm⟩
  simp

theorem writesPatch_chunk {x : WriteState} (hoff : 0 ≤ x.offset)
    (hsize : chunk ≤ x.size.toNat) (hend : chunk + x.offset.toNat ≤ data.length)
    (hbuffer : x.written + x.size.toNat ≤ buffer.length) {r : Device × Nat × Bool}
    (h : WritesPatch data memory buffer ⟨x.size - chunk, x.offset + chunk, x.written + chunk,
      patch x.device (data.start * 512 + x.offset.toNat) ((buffer.drop x.written).take chunk), bounce⟩ r) :
    WritesPatch data memory buffer x r := by
  obtain ⟨m, hdev, hn, hm, hfull⟩ := h
  obtain ⟨havail, hnat⟩ := avail_chunk hoff hsize hend
  have hlength : ((buffer.drop x.written).take chunk).length = chunk := by
    rw [length_take, length_drop]
    omega
  refine ⟨chunk + m, ?_, ?_, ?_, ?_⟩
  · rw [hdev]
    simp only [hnat]
    have hjoin : (buffer.drop x.written).take (chunk + m) =
        (buffer.drop x.written).take chunk ++ (buffer.drop (x.written + chunk)).take m := by
      rw [take_add, drop_drop]
    rw [hjoin, ← patch_append, hlength, Nat.add_assoc]
  · rw [hn]
    exact Nat.add_assoc _ _ _
  · simp only at hm
    omega
  · intro hmem
    have := hfull hmem
    simp only at this
    omega

theorem writeStep_spec (hfits : Fits blocks data) (x : WriteState) (ok : WriteOk buffer x) :
    (∃ x', writeStep blocks data memory buffer x = some (.inl x') ∧ WriteOk buffer x' ∧
      x'.size.toNat < x.size.toNat ∧
      ∀ r, WritesPatch data memory buffer x' r → WritesPatch data memory buffer x r) ∨
    (∃ r, writeStep blocks data memory buffer x = some (.inr r) ∧ WritesPatch data memory buffer x r) := by
  obtain ⟨hoff, hofflt, hsizelt, hbuffer⟩ := ok
  by_cases hsize : x.size ≤ 0
  · refine .inr ⟨_, if_pos hsize, writesPatch_nothing memory ?_ _⟩
    unfold avail
    omega
  have hpos : 0 < x.size := by omega
  rcases chunkOf_cases hfits hpos hoff hofflt with ⟨hchunk, hnone⟩ | ⟨c, hc, hcpos, hcs, hend, hsector, hmod, hidx, hidxlt⟩
  · refine .inr ⟨_, ?_, writesPatch_nothing memory hnone x.bounce⟩
    simp only [writeStep]
    rw [if_neg hsize, if_pos hchunk]
  have hlen := data.length_lt
  have hnext : ∀ device bounce, WriteOk buffer ⟨x.size - c, x.offset + c, x.written + c, device, bounce⟩ := by
    intro device bounce
    refine ⟨?_, ?_, ?_, ?_⟩ <;> simp only <;> omega
  have hlength : ((buffer.drop x.written).take c).length = c := by
    rw [length_take, length_drop]
    omega
  by_cases hfull : x.offset.tmod 512 = 0 ∧ (c : Int) = 512
  · refine .inl ⟨⟨x.size - c, x.offset + c, x.written + c,
      patch x.device (data.start * 512 + x.offset.toNat) ((buffer.drop x.written).take c), x.bounce⟩,
      ?_, hnext _ _, ?_, fun r hr => writesPatch_chunk memory hoff hcs hend hbuffer hr⟩
    · simp only [writeStep, hc, hidx, Int.toNat_natCast]
      rw [if_neg hsize, if_neg (by omega), if_pos hfull, if_pos hidxlt, blockWrite_eq (by rw [hlength]; omega)]
      have haddr : (data.start + x.offset.toNat / 512) * 512 = data.start * 512 + x.offset.toNat := by omega
      rw [haddr]
    · simp only
      omega
  · by_cases hmem : x.bounce = false ∧ memory = false
    · refine .inr ⟨(x.device, x.written, true), ?_, 0, by simp, rfl, Nat.zero_le _, ?_⟩
      · simp only [writeStep, hc]
        rw [if_neg hsize, if_neg (by omega), if_neg hfull, if_pos hmem]
      · intro htrue
        rw [hmem.2] at htrue
        cases htrue
    · refine .inl ⟨⟨x.size - c, x.offset + c, x.written + c,
        patch x.device (data.start * 512 + x.offset.toNat) ((buffer.drop x.written).take c), true⟩,
        ?_, hnext _ _, ?_, fun r hr => writesPatch_chunk memory hoff hcs hend hbuffer hr⟩
      · simp only [writeStep, hc, hidx, Int.toNat_natCast, hmod]
        rw [if_neg hsize, if_neg (by omega), if_neg (by rw [← hmod]; exact hfull), if_neg hmem,
          if_pos ⟨hidxlt, by omega⟩]
        -- a chunk that fills its sector would have been written directly, so the sector is read first
        rw [if_pos (by omega)]
        have hin : x.offset.toNat % 512 + ((buffer.drop x.written).take c).length ≤ 512 := by
          omega
        have hbounce := blockWrite_bounce x.device (data.start + x.offset.toNat / 512) hin
        rw [hlength, address_eq] at hbounce
        rw [hbounce]
      · simp only
        omega

/-- **`inode_write_at` patches the device.** -/
theorem writeAt_eq (hfits : Fits blocks data) (hoff : 0 ≤ offset) (hofflt : offset < 2147483648)
    (hsize : size < 2147483648) (hbuffer : size.toNat ≤ buffer.length) :
    ∃ m asked, writeAt d blocks data memory buffer size offset =
        some (patch d (data.start * 512 + offset.toNat) (buffer.take m), m, asked) ∧
      m ≤ avail data size offset ∧ (memory = true → m = avail data size offset) := by
  obtain ⟨⟨device, n, asked⟩, hrun, m, hdev, hn, hm⟩ := Loop.run_of_measure (WriteOk buffer) (fun x => x.size.toNat)
    (WritesPatch data memory buffer) (writeStep_spec memory hfits) (size.toNat + 1)
    ⟨size, offset, 0, d, false⟩ ⟨hoff, hofflt, hsize, by simpa using hbuffer⟩ (Nat.lt_succ_self _)
  simp only [Nat.zero_add, drop_zero] at hdev hn
  refine ⟨m, asked, ?_, hm⟩
  rw [writeAt, hrun, hdev, hn]

end

/-! ## Inodes on the device -/

theorem length_inodeBytes (start length : Nat) : (inodeBytes start length).length = 512 := by
  unfold inodeBytes
  rw [length_append, length_append, length_append, length_replicate, Bytes.length_le32,
    Bytes.length_le32, Bytes.length_le32]

/-- **An inode is read back as it was written.** -/
theorem inodeDisk_patch {start length : Nat} (hstart : start < 2 ^ 32) (hlength : length < 2 ^ 31) :
    inodeDisk (patch d (sector * 512) (inodeBytes start length)) sector = ⟨start, length, hlength⟩ := by
  set bytes := inodeBytes start length with hbytes
  have hslice : slice (patch d (sector * 512) bytes) (sector * 512) 512 = bytes := by
    have hself : slice (patch d (sector * 512) bytes) (sector * 512) bytes.length = bytes := slice_patch_self
    rw [length_inodeBytes] at hself
    exact hself
  have hword : slice (patch d (sector * 512) bytes) (sector * 512) 4 = Bytes.le32 (BitVec.ofNat 32 start) := by
    have htake := congrArg (List.take 4) hslice
    rw [take_slice, hbytes, inodeBytes, take_left' (Bytes.length_le32 _)] at htake
    exact htake
  have hword' : slice (patch d (sector * 512) bytes) (sector * 512 + 4) 4 = Bytes.le32 (BitVec.ofNat 32 length) := by
    have htake := congrArg (fun l => (List.drop 4 l).take 4) hslice
    simp only [drop_slice, take_slice] at htake
    exact htake
  have hl : (Bytes.word32 (Bytes.le32 (BitVec.ofNat 32 length))).toNat = length := by
    rw [Bytes.word32_le32, BitVec.toNat_ofNat, Nat.mod_eq_of_lt (by omega)]
  have hs : (Bytes.word32 (Bytes.le32 (BitVec.ofNat 32 start))).toNat = start := by
    rw [Bytes.word32_le32, BitVec.toNat_ofNat, Nat.mod_eq_of_lt (by omega)]
  unfold inodeDisk
  simp only [show BLOCK_SECTOR_SIZE = 512 from rfl, hword, hword', hl, hs, if_pos hlength]

/-- The inode in a sector depends on that sector only. -/
theorem inodeDisk_congr {d' : Device} (h : ∀ x, x / 512 = sector → d' x = d x) :
    inodeDisk d' sector = inodeDisk d sector := by
  have hword : slice d' (sector * 512) 4 = slice d (sector * 512) 4 :=
    slice_congr fun x hle hlt => h x (by omega)
  have hword' : slice d' (sector * 512 + 4) 4 = slice d (sector * 512 + 4) 4 :=
    slice_congr fun x hle hlt => h x (by omega)
  unfold inodeDisk
  simp only [show BLOCK_SECTOR_SIZE = 512 from rfl, hword, hword']

end Volume
end Asg1
