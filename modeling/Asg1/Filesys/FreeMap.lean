import Asg1.Filesys.Transfer

/-!
# `Filesys.FreeMap` — what the functions of `free-map.c` do

`free_map_allocate` and `free_map_release` change the map in memory and write it to its file. Seen from outside they
touch nothing but the map, the sectors of its file on the device, and the supply of memory; and if no write of the map
has failed, the bits in the file are those in memory.
-/

namespace Asg1
namespace Volume

open Filesys Flat

/-! ## Changes of the device -/

/-- The device changes in the given sectors only. -/
def Only (sectors : Nat → Prop) (d d' : Device) : Prop := ∀ x, ¬ sectors (x / 512) → d' x = d x

namespace Only

variable {p q : Nat → Prop} {d d' d'' : Device}

theorem refl : Only p d d := fun _ _ => rfl

theorem trans (h : Only p d d') (h' : Only p d' d'') : Only p d d'' := fun x hx => (h' x hx).trans (h x hx)

end Only

/-- The sectors that are allocated to a file. -/
def extent (data : InodeDisk) (x : Nat) : Prop := data.start ≤ x ∧ x < data.start + bytesToSectors data.length

/-- A write inside a file changes its sectors only. -/
theorem only_patch {data : InodeDisk} {d : Device} {o : Nat} {bytes : List UInt8}
    (h : o + bytes.length ≤ data.length) : Only (extent data) d (patch d (data.start * 512 + o) bytes) := by
  intro x hx
  apply patch_outside
  have hle := le_bytesToSectors data.length_lt
  unfold extent at hx
  omega

/-! ## The file of the free map -/

/-- The inode of an open file. -/
abbrev Vol.dataOf (s : Vol) (f : Addr) : InodeDisk := (s.inode (s.file f).inode).data

/-- `f` is the free map file, and it can be written. -/
structure MapOk (s : Vol) (f : Addr) : Prop where
  file : s.freeMapFile = some f
  listed : f ∈ s.files
  opened : (s.file f).inode ∈ s.openInodes
  allowed : (s.inode (s.file f).inode).denyWriteCnt = 0
  fits : Fits s.blocks (s.dataOf f)
  length : (s.dataOf f).length = byteCnt s.blocks
  bitCnt : s.freeMap.bitCnt = s.blocks

/-- The bits in the file are those of the map. -/
def Stored (b : Bitmap) (d : Device) (data : InodeDisk) : Prop :=
  ∀ i < b.bitCnt, Bitmap.fileBit (fun j => d (data.start * 512 + j)) i = b.bit i

/-- What a function of `free-map.c` may change: the map, its file on the device, and the supply of memory. -/
structure MapStep (data : InodeDisk) (s s' : Vol) : Prop where
  fs : s'.toFs = { s.toFs with device := s'.device }
  blocks : s'.blocks = s.blocks
  freeMapFile : s'.freeMapFile = s.freeMapFile
  removed : s'.removed = s.removed
  dirs : s'.dirs = s.dirs
  dir : s'.dir = s.dir
  next : s'.next = s.next
  only : Only (extent data) s.device s'.device
  bitCnt : s'.freeMap.bitCnt = s.freeMap.bitCnt
  stored : s'.mapLost = false →
    s.mapLost = false ∧ (Stored s.freeMap s.device data → Stored s'.freeMap s'.device data)
  calm : s.mem = [] → s'.mem = [] ∧ s'.mapLost = s.mapLost

namespace MapStep

variable {data : InodeDisk} {s s' s'' : Vol} {f : Addr}

theorem refl : MapStep data s s where
  fs := rfl
  blocks := rfl
  freeMapFile := rfl
  removed := rfl
  dirs := rfl
  dir := rfl
  next := rfl
  only := Only.refl
  bitCnt := rfl
  stored := fun hlost => ⟨hlost, fun h => h⟩
  calm := fun hmem => ⟨hmem, rfl⟩

theorem trans (h : MapStep data s s') (h' : MapStep data s' s'') : MapStep data s s'' where
  fs := by rw [h'.fs, h.fs]
  blocks := h'.blocks.trans h.blocks
  freeMapFile := h'.freeMapFile.trans h.freeMapFile
  removed := h'.removed.trans h.removed
  dirs := h'.dirs.trans h.dirs
  dir := h'.dir.trans h.dir
  next := h'.next.trans h.next
  only := h.only.trans h'.only
  bitCnt := h'.bitCnt.trans h.bitCnt
  stored := by
    intro hlost
    obtain ⟨hlost', hstored'⟩ := h'.stored hlost
    obtain ⟨hlost'', hstored⟩ := h.stored hlost'
    exact ⟨hlost'', fun hs => hstored' (hstored hs)⟩
  calm := by
    intro hmem
    obtain ⟨hmem', hlost⟩ := h.calm hmem
    obtain ⟨hmem'', hlost'⟩ := h'.calm hmem'
    exact ⟨hmem'', hlost'.trans hlost⟩

theorem mapOk (h : MapStep data s s') (ok : MapOk s f) : MapOk s' f := by
  have hdata : s'.dataOf f = s.dataOf f := by rw [Vol.dataOf, h.fs]
  constructor
  case file => rw [h.freeMapFile]; exact ok.file
  case listed => rw [h.fs]; exact ok.listed
  case opened => rw [h.fs]; exact ok.opened
  case allowed => rw [h.fs]; exact ok.allowed
  case fits => rw [hdata, h.blocks]; exact ok.fits
  case length => rw [hdata, h.blocks]; exact ok.length
  case bitCnt => rw [h.bitCnt, h.blocks]; exact ok.bitCnt

end MapStep

section
variable {s : Vol} {f : Addr}

/-- `inode_write_at` patches the device, unless writes are denied. -/
theorem inodeWriteAt_spec {i : Addr} (hi : i ∈ s.openInodes) (hdeny : (s.inode i).denyWriteCnt = 0)
    (hfits : Fits s.blocks (s.inode i).data) (buffer : List UInt8) (size offset : Int) (hoff : 0 ≤ offset)
    (hofflt : offset < 2147483648) (hsize : size < 2147483648) (hbuffer : size.toNat ≤ buffer.length) :
    (inodeWriteAt i buffer size offset).Ends s fun n s' => ∃ mem,
      s' = { s with
        device := patch s.device ((s.inode i).data.start * 512 + offset.toNat) (buffer.take n), mem := mem } ∧
      n ≤ avail (s.inode i).data size offset ∧
      (s.mem = [] → n = avail (s.inode i).data size offset ∧ mem = []) := by
  obtain ⟨m, asked, hrun, hle, hfull⟩ := writeAt_eq (s.mem.headD true) (d := s.device) hfits hoff hofflt hsize hbuffer
  refine ⟨m, { s with
    device := patch s.device ((s.inode i).data.start * 512 + offset.toNat) (buffer.take m)
    mem := if asked then s.mem.tail else s.mem }, ?_, _, rfl, hle, ?_⟩
  · unfold inodeWriteAt
    rw [if_pos hi, if_neg (by simpa using hdeny), hrun]
    rfl
  · intro hmem
    refine ⟨hfull (by rw [hmem]; rfl), ?_⟩
    rw [hmem]
    simp

/-- `bitmap_write` of the free map. -/
theorem bitmapWrite_spec (ok : MapOk s f) :
    (bitmapWrite f).Ends s fun written s' => ∃ device mem lost,
      s' = { s with device := device, mem := mem, mapLost := lost } ∧ Only (extent (s.dataOf f)) s.device device ∧
      (written = true → lost = s.mapLost ∧ Stored s.freeMap device (s.dataOf f)) ∧
      (written = false → lost = true) ∧ (s.mem = [] → written = true ∧ mem = []) := by
  have hlen : s.freeMap.bytes.length = byteCnt s.freeMap.bitCnt := Bitmap.length_bytes
  have hsize : byteCnt s.freeMap.bitCnt < 2 ^ 29 := by
    unfold byteCnt elemCnt
    omega
  have havail : avail (s.dataOf f) (byteCnt s.freeMap.bitCnt) 0 = byteCnt s.freeMap.bitCnt := by
    unfold avail
    rw [ok.length, ok.bitCnt]
    simp
  obtain ⟨n, s', hrun, mem, hs', hle, hcalm⟩ := inodeWriteAt_spec ok.opened ok.allowed ok.fits
    s.freeMap.bytes (byteCnt s.freeMap.bitCnt) 0 (by omega) (by omega) (by omega) (by omega)
  rw [havail] at hle hcalm
  rw [Int.toNat_zero] at hs'
  have hinside : 0 + (s.freeMap.bytes.take n).length ≤ (s.dataOf f).length := by
    rw [List.length_take, ok.length, ← ok.bitCnt]
    omega
  have honly := only_patch (d := s.device) hinside
  have hwrite : fileWriteAt f s.freeMap.bytes (byteCnt s.freeMap.bitCnt) 0 s = some (n, s') := by
    show (Proc.assert (f ∈ s.files) s).bind _ = _
    rw [Proc.assert, if_pos ok.listed]
    exact hrun
  apply Proc.Ends.get
  apply Proc.Ends.step hwrite
  refine .ite ?_ ?_
  · intro hfull
    refine .pure ⟨_, mem, s.mapLost, hs', honly, ?_, ?_, ?_⟩
    · intro _
      refine ⟨rfl, ?_⟩
      intro i hi
      apply Bitmap.fileBit_bytes ?_ hi
      intro j hj
      rw [hfull, List.take_of_length_le (by omega), Nat.add_zero,
        patch_getD (Nat.le_add_right _ _) (Nat.add_lt_add_left (by omega) _) 0, Nat.add_sub_cancel_left]
    · intro hfalse
      cases hfalse
    · intro hmem
      exact ⟨rfl, (hcalm hmem).2⟩
  · intro hshort
    apply Proc.Ends.modify
    refine .pure ⟨_, mem, true, by rw [hs'], honly, ?_, ?_, ?_⟩
    · intro htrue
      cases htrue
    · intro _
      rfl
    · intro hmem
      exact absurd (hcalm hmem).1 hshort

variable {cnt k : Nat}

/-- Bits that are set and cleared again are as they were. -/
theorem setMultiple_back {b b₁ : Bitmap} (hrun : b.Run false k cnt) (hcnt : b₁.bitCnt = b.bitCnt)
    (hbit : ∀ j, b₁.bit j = if k ≤ j ∧ j < k + cnt then true else b.bit j) :
    ∃ b₂, b₁.setMultiple k cnt false = some b₂ ∧ b₂.bitCnt = b.bitCnt ∧ ∀ j, b₂.bit j = b.bit j := by
  obtain ⟨b₂, hset, hcnt₂, hbit₂⟩ := Bitmap.setMultiple_eq false (show k + cnt ≤ b₁.bitCnt by rw [hcnt]; exact hrun.1)
  refine ⟨b₂, hset, hcnt₂.trans hcnt, ?_⟩
  intro j
  rw [hbit₂, hbit]
  split
  · rename_i hin
    rw [hrun.2 j hin.1 hin.2]
  · rfl

/-- What `free_map_allocate` returns, and the map it leaves. -/
structure Allocated (s s' : Vol) (cnt : Nat) (r : Option Nat) : Prop where
  none : r = none → ∀ j, s'.freeMap.bit j = s.freeMap.bit j
  some : ∀ k, r = some k → s.freeMap.Run false k cnt ∧ (∀ j < k, ¬ s.freeMap.Run false j cnt) ∧
    ∀ j, s'.freeMap.bit j = if k ≤ j ∧ j < k + cnt then true else s.freeMap.bit j
  full : s.mem = [] → r = Option.none → s'.device = s.device ∧ ∀ k, ¬ s.freeMap.Run false k cnt

/-- The first run of free sectors has been taken. -/
theorem Allocated.found {s' : Vol} (hrun : s.freeMap.Run false k cnt)
    (hmin : ∀ j, 0 ≤ j → j < k → ¬ s.freeMap.Run false j cnt)
    (hbit : ∀ j, s'.freeMap.bit j = if k ≤ j ∧ j < k + cnt then true else s.freeMap.bit j) :
    Allocated s s' cnt (Option.some k) := by
  constructor
  case none =>
    intro h
    cases h
  case some =>
    intro k' hk'
    cases hk'
    exact ⟨hrun, fun j hj => hmin j (Nat.zero_le _) hj, hbit⟩
  case full =>
    intro _ h
    cases h

/-- **`free_map_allocate`** takes the first run of free sectors, or changes no bit. -/
theorem freeMapAllocate_spec (ok : MapOk s f) (cnt : Nat) :
    (freeMapAllocate cnt).Ends s fun r s' => MapStep (s.dataOf f) s s' ∧ Allocated s s' cnt r := by
  apply Proc.Ends.get
  rcases Bitmap.scanAndFlip_eq (b := s.freeMap) false cnt (Nat.zero_le _) with
    ⟨k, b₁, hscan, -, hrun, hmin, hcnt, hbit⟩ | ⟨hscan, hnone⟩
  · rw [hscan]
    apply Proc.Ends.set
    simp only [ok.file]
    have ok₁ : MapOk { s with freeMap := b₁, freeMapFile := some f } f :=
      { ok with file := rfl, bitCnt := hcnt.trans ok.bitCnt }
    refine .bind (bitmapWrite_spec ok₁) ?_
    rintro written _ ⟨device, mem, lost, rfl, honly, hok, hlost, hcalm⟩
    cases written with
    | true =>
      obtain ⟨rfl, hstored⟩ := hok rfl
      refine .pure ⟨⟨rfl, rfl, ok.file.symm, rfl, rfl, rfl, rfl, honly, hcnt, ?_, ?_⟩, .found hrun hmin hbit⟩
      · exact fun hfalse => ⟨hfalse, fun _ => hstored⟩
      · exact fun hmem => ⟨(hcalm hmem).2, rfl⟩
    | false =>
      -- the write has failed: the bits are cleared again
      obtain ⟨b₂, hset, hcnt₂, hbit₂⟩ := setMultiple_back hrun hcnt hbit
      obtain rfl := hlost rfl
      apply Proc.Ends.step (by rw [setFreeMap, hset]; rfl)
      refine .pure ⟨⟨rfl, rfl, ok.file.symm, rfl, rfl, rfl, rfl, honly, hcnt₂, ?_, ?_⟩,
        ⟨fun _ => hbit₂, ?_, ?_⟩⟩
      · intro hfalse
        cases hfalse
      · intro hmem
        exact absurd (hcalm hmem).1 (by decide)
      · intro k' hk'
        cases hk'
      · intro hmem _
        exact absurd (hcalm hmem).1 (by decide)
  · rw [hscan]
    refine .pure ⟨MapStep.refl, ⟨fun _ _ => rfl, ?_, ?_⟩⟩
    · intro k hk
      cases hk
    · intro _ _
      exact ⟨rfl, fun k => hnone k (Nat.zero_le _)⟩

/-- `free_map_allocate` before there is a free map file. -/
theorem freeMapAllocate_init (hfile : s.freeMapFile = none) (cnt : Nat) :
    (freeMapAllocate cnt).Ends s fun r s' => s' = { s with freeMap := s'.freeMap } ∧
      s'.freeMap.bitCnt = s.freeMap.bitCnt ∧ Allocated s s' cnt r := by
  apply Proc.Ends.get
  rcases Bitmap.scanAndFlip_eq (b := s.freeMap) false cnt (Nat.zero_le _) with
    ⟨k, b₁, hscan, -, hrun, hmin, hcnt, hbit⟩ | ⟨hscan, hnone⟩
  · rw [hscan]
    apply Proc.Ends.set
    simp only [hfile]
    exact .pure ⟨rfl, hcnt, .found hrun hmin hbit⟩
  · rw [hscan]
    refine .pure ⟨rfl, rfl, ⟨fun _ _ => rfl, ?_, ?_⟩⟩
    · intro k hk
      cases hk
    · intro _ _
      exact ⟨rfl, fun k => hnone k (Nat.zero_le _)⟩

/-- **`free_map_release`** passes its assertion if all the bits are set, and clears them. -/
theorem freeMapRelease_spec (ok : MapOk s f) {sector : Nat} (hset : s.freeMap.Run true sector cnt) :
    (freeMapRelease sector cnt).Ends s fun _ s' => MapStep (s.dataOf f) s s' ∧
      ∀ j, s'.freeMap.bit j = if sector ≤ j ∧ j < sector + cnt then false else s.freeMap.bit j := by
  apply Proc.Ends.get
  obtain ⟨r, hall, hr⟩ := Bitmap.all_eq hset.1
  rw [hr.mpr hset.2] at hall
  apply Proc.Ends.assert hall
  obtain ⟨b₁, hclear, hcnt, hbit⟩ := Bitmap.setMultiple_eq false hset.1
  apply Proc.Ends.step (by rw [setFreeMap, hclear]; rfl)
  simp only [ok.file]
  have ok₁ : MapOk { s with freeMap := b₁, freeMapFile := some f } f :=
    { ok with file := rfl, bitCnt := hcnt.trans ok.bitCnt }
  refine .bind (bitmapWrite_spec ok₁) ?_
  rintro written _ ⟨device, mem, lost, rfl, honly, hok, hlost, hcalm⟩
  refine .pure ⟨⟨rfl, rfl, ok.file.symm, rfl, rfl, rfl, rfl, honly, hcnt, ?_, ?_⟩, hbit⟩
  · intro hfalse
    cases written with
    | true =>
      obtain ⟨rfl, hstored⟩ := hok rfl
      exact ⟨hfalse, fun _ => hstored⟩
    | false =>
      obtain rfl := hlost rfl
      cases hfalse
  · intro hmem
    obtain ⟨hwritten, hmem'⟩ := hcalm hmem
    exact ⟨hmem', (hok hwritten).1⟩

end

end Volume
end Asg1
