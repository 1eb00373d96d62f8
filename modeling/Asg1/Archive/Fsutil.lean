import Asg1.Archive.Ustar
import Asg1.Filesys.Refine

/-!
# `Archive.Fsutil` — files to and from the scratch device

`fsutil_append` and `fsutil_extract` of `filesys/fsutil.c`, with the file system of `Filesys.Volume` on one side and the
scratch device on the other. Each of the two functions has a cursor of its own, a static variable.

* A procedure that gets stuck is a `PANIC` or a failed assertion.
* The end of the archive is written from `buffer` and then, to the same sector, from `buffer + 1`; `after` is the byte in
  memory after the buffer, which that write takes along.
* What is printed is left out.

`fsutilAppend_spec` says what an append leaves on the scratch device.
-/

namespace Asg1
namespace Fsutil

open Filesys Flat Volume Ustar List

/-! ## Definitions -/

/-- The file system, the scratch device and the two cursors. -/
structure Util where
  vol : Vol
  scratch : Device
  blocks : Nat
  extractSector : Nat
  appendSector : Nat

abbrev P := Proc Util

def stuck {α : Type} : P α := fun _ => none

/-- A procedure of the file system. -/
def onVol {α : Type} (x : K α) : P α := fun u => (x u.vol).map (fun r => (r.1, { u with vol := r.2 }))

/-- `file_length` -/
def fileLength (f : Addr) : K Nat := fun s => (Filesys.fileLength s.toFs f).map (fun n => (n, s))

/-- `block_write` to the scratch device, which stops at a sector beyond its end. -/
def writeScratch (sector : Nat) (buffer : List UInt8) : P Unit := fun u =>
  if sector < u.blocks then some ((), { u with scratch := blockWrite u.scratch sector buffer }) else none

/-- `block_write (dst, sector++, buffer)` -/
def appendBlock (buffer : List UInt8) : P Unit := do
  let u ← get
  writeScratch u.appendSector buffer
  modify fun u => { u with appendSector := u.appendSector + 1 }

/-- `block_read (src, sector++, buffer)` -/
def extractBlock : P (List UInt8) := fun u =>
  if u.extractSector < u.blocks then
    some (blockRead u.scratch u.extractSector, { u with extractSector := u.extractSector + 1 })
  else none

/-- `chunk_size` in the loops that copy. -/
def chunkSize (size : Nat) : Nat := if BLOCK_SECTOR_SIZE < size then BLOCK_SECTOR_SIZE else size

/-- The loop of `fsutil_append`. Each round takes at least one byte off the size. -/
def copyOut (src : Addr) : Nat → Nat → P Unit
  | 0, _ => return ()
  | n + 1, size => do
      if 0 < size then
        let u ← get
        Proc.assert (u.appendSector < u.blocks)
        let buffer ← onVol (fileRead src (chunkSize size))
        Proc.assert (buffer.length = chunkSize size)
        appendBlock (buffer ++ List.replicate (BLOCK_SECTOR_SIZE - chunkSize size) 0)
        copyOut src n (size - chunkSize size)
      else return ()

/-- The sector at `buffer + 1`, when the buffer is all zeros. -/
def endBytes (after : UInt8) : List UInt8 := List.replicate (BLOCK_SECTOR_SIZE - 1) 0 ++ [after]

/-- The last part of `fsutil_append`: the two writes of the end of the archive, both to the sector under the cursor. -/
def writeEnd (after : UInt8) : P Unit := do
  let u ← get
  writeScratch u.appendSector (List.replicate BLOCK_SECTOR_SIZE 0)
  writeScratch u.appendSector (endBytes after)

/-- `fsutil_append` -/
def fsutilAppend (fileName : List UInt8) (after : UInt8) : P Unit := do
  let memory ← onVol malloc
  Proc.assert (memory = true)
  match ← onVol (filesysOpen fileName) with
  | none => stuck
  | some src =>
    let size ← onVol (fileLength src)
    match ustarMakeHeader fileName .regular size with
    | some (some header) =>
      appendBlock header
      copyOut src size size
      writeEnd after
      onVol (fileClose src)
    | _ => stuck

/-- The loop of `fsutil_extract` that copies one file. -/
def copyIn (dst : Addr) : Nat → Nat → P Unit
  | 0, _ => return ()
  | n + 1, size => do
      if 0 < size then
        let data ← extractBlock
        let written ← onVol (fileWrite dst data (chunkSize size))
        Proc.assert (written = chunkSize size)
        copyIn dst n (size - chunkSize size)
      else return ()

/-- One file of the archive is put into the file system. -/
def putFile (fileName : List UInt8) (size : Nat) : P Unit := do
  let created ← onVol (filesysCreate fileName size)
  Proc.assert (created = true)
  match ← onVol (filesysOpen fileName) with
  | none => stuck
  | some dst =>
    copyIn dst size size
    onVol (fileClose dst)

/-- The loop of `fsutil_extract`, which ends at the latest at the end of the scratch device. -/
def extractLoop : Nat → P Unit
  | 0 => stuck
  | n + 1 => do
      let header ← extractBlock
      match ustarParseHeader header with
      | .ok ⟨_, .eof, _⟩ => return ()
      | .ok ⟨_, .directory, _⟩ => extractLoop n
      | .ok ⟨some fileName, .regular, size⟩ =>
        putFile fileName size
        extractLoop n
      | _ => stuck

/-- `fsutil_extract` -/
def fsutilExtract : P Unit := do
  let header ← onVol malloc
  let data ← onVol malloc
  Proc.assert (header = true ∧ data = true)
  let u ← get
  extractLoop (u.blocks + 1 - u.extractSector)
  writeScratch 0 (List.replicate BLOCK_SECTOR_SIZE 0)
  writeScratch 1 (List.replicate BLOCK_SECTOR_SIZE 0)

/-! ## The archive -/

/-- A file with zeros after it, up to the end of its last sector. -/
def padded (l : List UInt8) : List UInt8 := l ++ List.replicate ((512 - l.length % 512) % 512) 0

/-- The header that `ustar_make_header` makes for a file. -/
def headerOf (name : List UInt8) (size : Nat) : List UInt8 :=
  match ustarMakeHeader name .regular size with
  | some (some header) => header
  | _ => []

/-- The number of sectors for the data of a file. -/
def dataSectors (size : Nat) : Nat := (size + 511) / 512

theorem length_padded (l : List UInt8) : (padded l).length = 512 * dataSectors l.length := by
  unfold padded dataSectors
  rw [length_append, length_replicate]
  omega

theorem padded_nil : padded [] = [] := rfl

variable {l name : List UInt8} {sector : Nat} {s : Vol}

/-- One sector of a file, and then the others. -/
theorem padded_step (h : 0 < l.length) : padded l =
    (l.take (chunkSize l.length) ++ List.replicate (512 - chunkSize l.length) 0) ++ padded (l.drop (chunkSize l.length)) := by
  unfold chunkSize
  rw [show BLOCK_SECTOR_SIZE = 512 from rfl]
  split
  · have hmod : (l.length - 512) % 512 = l.length % 512 := by omega
    unfold padded
    rw [Nat.sub_self, List.replicate_zero, append_nil, length_drop, hmod, ← List.append_assoc,
      take_append_drop]
  · have hpad : (512 - l.length % 512) % 512 = 512 - l.length := by omega
    rw [take_length, drop_length, padded_nil, append_nil, padded, hpad]

/-! ## Rules -/

section
variable {α : Type} {u : Util}

theorem onVol_ends {x : K α} {Q : α → Vol → Prop} (h : x.Ends u.vol Q) :
    (onVol x).Ends u fun a u' => ∃ v, u' = { u with vol := v } ∧ Q a v := by
  obtain ⟨a, v, hrun, hq⟩ := h
  refine ⟨a, { u with vol := v }, ?_, v, rfl, hq⟩
  rw [onVol, hrun]
  rfl

variable {buffer : List UInt8}

theorem writeScratch_run (hlt : sector < u.blocks) (hlen : buffer.length = 512) :
    writeScratch sector buffer u = some ((), { u with scratch := patch u.scratch (sector * 512) buffer }) := by
  rw [writeScratch, if_pos hlt, blockWrite_eq hlen]

theorem appendBlock_ends (hlt : u.appendSector < u.blocks) (hlen : buffer.length = 512) :
    (appendBlock buffer).Ends u fun _ u' => u' = { u with
      scratch := patch u.scratch (u.appendSector * 512) buffer, appendSector := u.appendSector + 1 } := by
  apply Proc.Ends.get
  apply Proc.Ends.step (writeScratch_run hlt hlen)
  exact ⟨(), _, rfl, rfl⟩

/-- There is memory. -/
theorem malloc_ends (h : s.mem = []) : malloc.Ends s fun r s' => r = true ∧ s' = s := by
  refine ⟨true, s, ?_, rfl, rfl⟩
  rw [malloc, h]

end

/-! ## Appending -/

/-- The device has one file of this name, with these bytes. -/
def HoldsFile (d : Device) (name l : List UInt8) : Prop :=
  ∃ k < SLOTS, entryInUse (slot d k) = true ∧ entryName (slot d k) = name ∧ contents d (entrySector (slot d k)) = l ∧
    ∀ j < SLOTS, entryInUse (slot d j) = true → entryName (slot d j) = name → j = k

theorem HoldsFile.keep {d d' : Device} (h : HoldsFile d name l) (hslots : ∀ k < SLOTS, slot d' k = slot d k)
    (hcontents : ∀ k < SLOTS, entryInUse (slot d k) = true →
      contents d' (entrySector (slot d k)) = contents d (entrySector (slot d k))) : HoldsFile d' name l := by
  obtain ⟨k, hk, huse, hname, hl, hunique⟩ := h
  refine ⟨k, hk, ?_, ?_, ?_, ?_⟩
  · rw [hslots k hk]
    exact huse
  · rw [hslots k hk]
    exact hname
  · rw [hslots k hk, hcontents k hk huse]
    exact hl
  · intro j hj
    rw [hslots j hj]
    exact hunique j hj

/-- A file is open for reading, in a file system that has not changed. -/
structure Reading (d : Device) (data : InodeDisk) (f : Addr) (v : Vol) : Prop where
  inv : Inv v []
  mem : v.mem = []
  user : User v f
  device : v.device = d
  data : v.dataOf f = data

section
variable {d : Device} {data : InodeDisk} {f : Addr} {u : Util} {v : Vol}

/-- Reading a part of the file that is there. -/
theorem Reading.fileRead (h : Reading d data f v) {n : Nat} (hn : (v.file f).pos + n ≤ data.length) :
    (fileRead f n).Ends v fun buffer v' => buffer = slice d (data.start * 512 + (v.file f).pos) n ∧
      Reading d data f v' ∧ (v'.file f).pos = (v.file f).pos + n := by
  have hlength := data.length_lt
  refine (h.inv.fileRead h.user.1 (by omega)).mono ?_
  rintro buffer _ ⟨hinv, m, mem, rfl, hbuffer, -, hcalm⟩
  obtain ⟨hm, hmem⟩ := hcalm h.mem
  have hm' : m = n := by
    rw [hm, h.data]
    unfold avail
    omega
  have hfile : (v.toFs.moved f ((v.file f).pos + m) v.device).file f = { v.file f with pos := (v.file f).pos + m } :=
    if_pos rfl
  rw [hm'] at hfile hbuffer hinv ⊢
  rw [h.device, h.data] at hbuffer
  refine ⟨hbuffer, ⟨hinv, hmem, h.user, h.device, ?_⟩, ?_⟩
  · show (v.inode ((v.toFs.moved f ((v.file f).pos + n) v.device).file f).inode).data = data
    rw [hfile]
    exact h.data
  · show ((v.toFs.moved f ((v.file f).pos + n) v.device).file f).pos = _
    rw [hfile]

theorem chunkSize_le (size : Nat) : chunkSize size ≤ size ∧ chunkSize size ≤ 512 := by
  unfold chunkSize
  rw [show BLOCK_SECTOR_SIZE = 512 from rfl]
  split <;> omega

variable {size : Nat} {after : UInt8}

theorem chunkSize_pos (h : 0 < size) : 0 < chunkSize size := by
  unfold chunkSize
  split
  · decide
  · exact h

theorem dataSectors_step (h : 0 < size) : dataSectors size = 1 + dataSectors (size - chunkSize size) := by
  unfold dataSectors chunkSize
  rw [show BLOCK_SECTOR_SIZE = 512 from rfl]
  split <;> omega

/-- Nothing is left to copy. -/
theorem copied_nothing (u : Util) (a : Nat) : u = { u with
    vol := u.vol
    scratch := patch u.scratch (u.appendSector * 512) (padded (slice d a 0))
    appendSector := u.appendSector + dataSectors 0 } := by
  have hnone : padded (slice d a 0) = [] := by rw [slice, range_zero, map_nil, padded_nil]
  have hsectors : dataSectors 0 = 0 := rfl
  rw [hnone, patch_nil, hsectors, Nat.add_zero]

/-- **The loop of `fsutil_append`** writes the rest of the file, sector by sector. -/
theorem copyOut_ends (n : Nat) (h : Reading d data f u.vol) (hn : size ≤ n)
    (hsize : (u.vol.file f).pos + size = data.length) (hroom : u.appendSector + dataSectors size ≤ u.blocks) :
    (copyOut f n size).Ends u fun _ u' => ∃ v, Reading d data f v ∧ u' = { u with
      vol := v
      scratch := patch u.scratch (u.appendSector * 512) (padded (slice d (data.start * 512 + (u.vol.file f).pos) size))
      appendSector := u.appendSector + dataSectors size } := by
  induction n generalizing u size with
  | zero =>
    obtain rfl : size = 0 := by omega
    exact .pure ⟨u.vol, h, copied_nothing u _⟩
  | succ n ih =>
    refine .ite ?_ ?_
    · intro hpos
      obtain ⟨hchunk, hchunk512⟩ := chunkSize_le size
      have hchunkpos := chunkSize_pos hpos
      have hsectors := dataSectors_step hpos
      have hlt : u.appendSector < u.blocks := by omega
      apply Proc.Ends.get
      apply Proc.Ends.assert hlt
      refine .bind (onVol_ends (h.fileRead (n := chunkSize size) (by omega))) ?_
      rintro _ _ ⟨v, rfl, rfl, hreading, hpos'⟩
      apply Proc.Ends.assert length_slice
      have hlen : (slice d (data.start * 512 + (u.vol.file f).pos) (chunkSize size) ++
          List.replicate (BLOCK_SECTOR_SIZE - chunkSize size) 0).length = 512 := by
        rw [length_append, length_slice, length_replicate, show BLOCK_SECTOR_SIZE = 512 from rfl]
        omega
      refine .bind (appendBlock_ends hlt hlen) ?_
      rintro _ _ rfl
      refine (ih hreading (by omega) (by rw [hpos']; omega) (by
        show u.appendSector + 1 + _ ≤ u.blocks
        omega)).mono ?_
      rintro _ _ ⟨v', hreading', rfl⟩
      refine ⟨v', hreading', ?_⟩
      -- the sector that was written and those that follow make up what is left of the file
      have hstep := padded_step (l := slice d (data.start * 512 + (u.vol.file f).pos) size) (by
        rw [length_slice]
        exact hpos)
      rw [length_slice, take_slice, drop_slice, Nat.min_eq_left hchunk] at hstep
      have hnext : (u.appendSector + 1) * 512 = u.appendSector * 512 +
          (slice d (data.start * 512 + (u.vol.file f).pos) (chunkSize size) ++
            List.replicate (BLOCK_SECTOR_SIZE - chunkSize size) 0).length := by
        omega
      rw [hpos', ← Nat.add_assoc, hnext, patch_append, hsectors, ← Nat.add_assoc, hstep]
      rfl
    · intro hpos
      obtain rfl : size = 0 := by omega
      exact .pure ⟨u.vol, h, copied_nothing u _⟩

/-- The file that `filesys_open` has found is read from the start. -/
theorem reading_of_open {s₁ : Vol} {i : Addr} {mem : List Bool} (hinv : Inv (s₁.withFile i mem) [])
    (hold : Inv s []) (hstill : Still s s₁) (hmem : mem = []) (hsector : (s₁.inode i).sector = sector) :
    Reading s₁.device (inodeDisk s₁.device sector) s₁.next (s₁.withFile i mem) ∧
      ((s₁.withFile i mem).file s₁.next).pos = 0 := by
  have hfile : (s₁.withFile i mem).file s₁.next = ⟨i, 0, false⟩ := if_pos rfl
  have hlisted : s₁.next ∈ (s₁.withFile i mem).files := mem_cons_self
  have hfree : s₁.freeMapFile ≠ some s₁.next := by
    obtain ⟨m, hm⟩ := hold.mapFile
    rw [hstill.freeMapFile, hm.file]
    intro heq
    have hlt := Nat.lt_of_lt_of_le (hold.file_lt m hm.listed) hstill.next
    rw [Option.some.injEq] at heq
    rw [heq] at hlt
    exact Nat.lt_irrefl _ hlt
  refine ⟨⟨hinv, hmem, ⟨hlisted, hfree⟩, rfl, ?_⟩, ?_⟩
  · rw [hinv.dataOf_eq hlisted]
    show inodeDisk s₁.device (s₁.inode ((s₁.withFile i mem).file s₁.next).inode).sector = _
    rw [hfile]
    rw [hsector]
  · rw [hfile]

theorem length_endBytes (after : UInt8) : (endBytes after).length = 512 := by
  rw [endBytes, length_append, length_replicate]
  rfl

theorem writeEnd_ends (hlt : u.appendSector < u.blocks) : (writeEnd after).Ends u fun _ u' =>
    u' = { u with scratch := patch u.scratch (u.appendSector * 512) (endBytes after) } := by
  have hzeros : (List.replicate BLOCK_SECTOR_SIZE (0 : UInt8)).length = 512 := length_replicate
  apply Proc.Ends.get
  apply Proc.Ends.step (writeScratch_run hlt hzeros)
  refine ⟨(), _, writeScratch_run hlt (length_endBytes after), ?_⟩
  rw [patch_cover (by rw [hzeros, length_endBytes])]

theorem entryName_bounds (e : List UInt8) : (entryName e).length ≤ 15 ∧ 0 ∉ entryName e := by
  unfold entryName
  refine ⟨?_, ?_⟩
  · have hle := (takeWhile_sublist (fun b : UInt8 => decide (b ≠ 0)) (l := (e.drop 4).take 15)).length_le
    rw [length_take] at hle
    omega
  · intro hmem
    have hall := List.all_eq_true.mp (all_takeWhile (p := fun b : UInt8 => decide (b ≠ 0)) (l := (e.drop 4).take 15))
    have hne := hall 0 hmem
    cases hne

/-- What is appended for a file: its header and its data. -/
def archived (name l : List UInt8) : List UInt8 := headerOf name l.length ++ padded l

theorem sectors_after (a n : Nat) : (a + 1 + n) * 512 = a * 512 + (512 + 512 * n) := by omega

/-- **`fsutil_append`** puts a file where the archive ended, and a new end after it. -/
theorem fsutilAppend_ends (hinv : Inv u.vol []) (hmem : u.vol.mem = [])
    (hfile : HoldsFile u.vol.device name l) (hstrip : stripAntisocialPrefixes name = name)
    (hroom : u.appendSector + 1 + dataSectors l.length < u.blocks) :
    (fsutilAppend name after).Ends u fun _ u' => ∃ v, Inv v [] ∧ v.mem = [] ∧
      (∀ name' l', HoldsFile u.vol.device name' l' → HoldsFile v.device name' l') ∧ u' = { u with
        vol := v
        scratch := patch u.scratch (u.appendSector * 512) (archived name l ++ endBytes after)
        appendSector := u.appendSector + 1 + dataSectors l.length } := by
  obtain ⟨k, hk, huse, hname, hl, hunique⟩ := hfile
  refine .bind (onVol_ends (malloc_ends hmem)) ?_
  rintro _ _ ⟨v, rfl, rfl, rfl⟩
  apply Proc.Ends.assert rfl
  refine .bind (onVol_ends (hinv.filesysOpen name)) ?_
  rintro r _ ⟨v, rfl, hinv₁, -, hnone, hsome⟩
  cases r with
  | none => exact absurd ⟨k, hk, huse, hname⟩ ((hnone rfl).2 hmem)
  | some f =>
    obtain ⟨j, hj, hjuse, hjname, s₁, i, mem, hstill, hdev, -, hsector, rfl, rfl, hcalm⟩ := hsome f rfl
    obtain rfl := hunique j hj hjuse hjname
    obtain ⟨hreading, hpos⟩ := reading_of_open hinv₁ hinv hstill (hcalm (hstill.calm hmem)) hsector
    rw [hdev] at hreading
    have hlength : (inodeDisk u.vol.device (entrySector (slot u.vol.device j))).length = l.length := by
      rw [← hl, contents, length_slice]
    have hsize : (fileLength s₁.next).Ends (s₁.withFile i mem) fun n v => n = l.length ∧ v = s₁.withFile i mem := by
      refine ⟨_, _, ?_, hlength, rfl⟩
      rw [fileLength, hinv₁.accounts.fileLength hreading.user.1]
      show some ((s₁.withFile i mem).dataOf s₁.next |>.length, _) = _
      rw [hreading.data]
    refine .bind (onVol_ends hsize) ?_
    rintro _ _ ⟨v, rfl, rfl, rfl⟩
    -- the name of an entry is short enough for a header
    obtain ⟨hshort, hzero⟩ := entryName_bounds (slot u.vol.device j)
    rw [hjname] at hshort hzero
    have hlt := (inodeDisk u.vol.device (entrySector (slot u.vol.device j))).length_lt
    obtain ⟨header, hmake, hheader, -⟩ := parse_make (show UstarType.regular ≠ .eof by decide)
      (hstrip.symm ▸ Nat.le_trans hshort (by decide)) hzero (hlength ▸ hlt)
    simp only [hmake]
    have hof : headerOf name l.length = header := by
      unfold headerOf
      simp only [hmake]
    refine .bind (appendBlock_ends (by show u.appendSector < u.blocks; omega) hheader) ?_
    rintro _ _ rfl
    refine .bind (copyOut_ends _ hreading (Nat.le_refl _) ?_ ?_) ?_
    · rw [hpos, hlength, Nat.zero_add]
    · show u.appendSector + 1 + _ ≤ u.blocks
      omega
    rintro _ _ ⟨v, hreading', rfl⟩
    refine .bind (writeEnd_ends ?_) ?_
    · exact hroom
    rintro _ _ rfl
    refine (onVol_ends (hreading'.inv.fileClose hreading'.user)).mono ?_
    rintro _ _ ⟨w, rfl, hinv', hcloses⟩
    refine ⟨w, hinv', hcloses.calm hreading'.mem, ?_, ?_⟩
    · intro name' l' hholds
      have hroot := hcloses.intact _ (live_root w) (by decide)
      have hslots : ∀ k < SLOTS, slot w.device k = slot u.vol.device k := by
        intro k hk
        rw [hroot.slot hreading'.inv.layout hk, hreading'.device]
      refine hholds.keep hslots ?_
      intro k hk huse
      rw [← hslots k hk] at huse ⊢
      have huses : Uses w.device k (entrySector (slot w.device k)) := ⟨hk, huse, rfl⟩
      have hintact := hcloses.intact _ (live_slot huses) (hinv'.layout.slot_file k _ huses).1
      rw [hreading'.device] at hintact
      exact hintact.contents
    · have hdata : slice u.vol.device ((inodeDisk u.vol.device (entrySector (slot u.vol.device j))).start * 512 +
          ((s₁.withFile i mem).file s₁.next).pos) l.length = l := by
        rw [hpos, Nat.add_zero, ← hlength]
        exact hl
      have hfirst : (u.appendSector + 1) * 512 = u.appendSector * 512 + header.length := by
        omega
      have hsecond : (u.appendSector + 1 + dataSectors l.length) * 512 =
          u.appendSector * 512 + (header ++ padded l).length := by
        rw [length_append, hheader, length_padded]
        exact sectors_after u.appendSector (dataSectors l.length)
      rw [hdata, hfirst, patch_append, hsecond, patch_append, archived, hof]

end

end Fsutil
end Asg1
