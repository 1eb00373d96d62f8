import Asg1.Filesys.Inv

/-!
# `Filesys.Entries` — the entries of the root directory

`inode_read_at` and `inode_write_at` transfer an entry as a whole or not at all, since it lies within one sector. So the
loops of `lookup` and `dir_add` run over the slots of the directory, and what they find is one of them. If there is not
enough memory for the bounce buffer a loop may stop early: `lookup` then misses an entry, and `dir_add` may take a slot
that is in use. The layout holds nevertheless.
-/

namespace Asg1
namespace Volume

open Filesys Flat List

/-! ## Transfers without memory -/

theorem chunkOf_le (data : InodeDisk) (size offset : Int) : chunkOf data size offset ≤ size := by
  unfold chunkOf
  simp only
  split <;> split <;> omega

section
variable {d : Device} {blocks : Nat} {data : InodeDisk} {size : Int} (offset : Int)

/-- Less than a sector is not read without a bounce buffer. -/
theorem readAt_noMemory (hpos : 0 < size) (hsize : size < 512) :
    ∃ asked, readAt d blocks data false size offset = some ([], asked) := by
  have hle := chunkOf_le data size offset
  by_cases hchunk : chunkOf data size offset ≤ 0
  · refine ⟨false, Loop.run_exit _ ?_⟩
    simp only [readStep]
    rw [if_neg (by omega), if_pos hchunk]
  · refine ⟨true, Loop.run_exit _ ?_⟩
    simp only [readStep]
    rw [if_neg (by omega), if_neg hchunk, if_neg (by omega), if_pos ⟨trivial, trivial⟩]

/-- Less than a sector is not written without a bounce buffer. -/
theorem writeAt_noMemory (buffer : List UInt8) (hpos : 0 < size) (hsize : size < 512) :
    ∃ asked, writeAt d blocks data false buffer size offset = some (d, 0, asked) := by
  have hle := chunkOf_le data size offset
  by_cases hchunk : chunkOf data size offset ≤ 0
  · refine ⟨false, Loop.run_exit _ ?_⟩
    simp only [writeStep]
    rw [if_neg (by omega), if_pos hchunk]
  · refine ⟨true, Loop.run_exit _ ?_⟩
    simp only [writeStep]
    rw [if_neg (by omega), if_neg hchunk, if_neg (by omega), if_pos ⟨trivial, trivial⟩]

end

/-! ## One entry -/

section
variable {s : Vol} {i : Addr}

theorem inodeReadAt_spec (hi : i ∈ s.openInodes) (hfits : Fits s.blocks (s.inode i).data) {size offset : Int}
    (hoff : 0 ≤ offset) (hofflt : offset < 2147483648) (hsize : size < 2147483648) :
    (inodeReadAt i size offset).Ends s fun buffer s' => ∃ m mem, s' = { s with mem } ∧
      buffer = slice s.device ((s.inode i).data.start * 512 + offset.toNat) m ∧
      m ≤ avail (s.inode i).data size offset ∧ (s.mem = [] → m = avail (s.inode i).data size offset ∧ mem = []) ∧
      (0 < size → size < 512 → m = 0 ∨ m = avail (s.inode i).data size offset) := by
  obtain ⟨m, asked, hrun, hle, hfull⟩ := readAt_eq (s.mem.headD true) (d := s.device) hfits hoff hofflt hsize
  refine ⟨_, { s with mem := if asked then s.mem.tail else s.mem }, ?_, m, _, rfl, rfl, hle, ?_, ?_⟩
  · unfold inodeReadAt
    rw [if_pos hi, hrun]
    cases asked <;> rfl
  · intro hmem
    refine ⟨hfull (by rw [hmem]; rfl), ?_⟩
    rw [hmem]
    simp
  · intro hpos hsmall
    cases hmemory : s.mem.headD true with
    | true => exact .inr (hfull hmemory)
    | false =>
      rw [hmemory] at hrun
      obtain ⟨_, hnone⟩ : ∃ asked', readAt s.device s.blocks (s.inode i).data false size offset = some ([], asked') :=
        readAt_noMemory offset hpos hsmall
      rw [hrun] at hnone
      have hnil : slice s.device ((s.inode i).data.start * 512 + offset.toNat) m = [] := by
        injection hnone with hpair
        injection hpair
      left
      rw [← length_slice (d := s.device) (a := (s.inode i).data.start * 512 + offset.toNat) (n := m), hnil]
      rfl

/-- The open inode of the root directory. -/
structure RootOk (s : Vol) (i : Addr) : Prop where
  layout : Layout s
  opened : i ∈ s.openInodes
  sector : (s.inode i).sector = ROOT_DIR_SECTOR
  allowed : (s.inode i).denyWriteCnt = 0

theorem RootOk.data (h : RootOk s i) : (s.inode i).data = inodeDisk s.device ROOT_DIR_SECTOR := by
  rw [h.layout.opened i h.opened, h.sector]

theorem RootOk.fits (h : RootOk s i) : Fits s.blocks (s.inode i).data := by
  rw [h.data]
  exact h.layout.fits (live_root s)

theorem RootOk.setMem (h : RootOk s i) (mem : List Bool) : RootOk { s with mem } i :=
  { h with layout := { h.layout with } }

/-- How much of an entry is there. -/
theorem RootOk.avail (h : RootOk s i) (k : Nat) :
    avail (s.inode i).data ENTRY_SIZE (k * ENTRY_SIZE : Nat) = if k < SLOTS then ENTRY_SIZE else 0 := by
  unfold Volume.avail
  rw [h.data, h.layout.rootLength]
  unfold SLOTS ENTRY_SIZE
  split <;> omega

variable {k : Nat} {e : List UInt8}

/-- Reading an entry. -/
theorem RootOk.readEntry (h : RootOk s i) (hk : k ≤ SLOTS) :
    (inodeReadAt i ENTRY_SIZE (k * ENTRY_SIZE : Nat)).Ends s fun e s' => ∃ mem, s' = { s with mem } ∧
      (e = [] ∨ k < SLOTS ∧ e = slot s.device k) ∧
      (s.mem = [] → mem = [] ∧ (k < SLOTS → e = slot s.device k)) := by
  unfold SLOTS at hk
  refine (inodeReadAt_spec h.opened h.fits (by unfold ENTRY_SIZE; omega) (by unfold ENTRY_SIZE; omega)
    (by unfold ENTRY_SIZE; omega)).mono ?_
  rintro e s' ⟨m, mem, rfl, rfl, -, hcalm, hwhole⟩
  rw [h.avail] at hcalm hwhole
  rw [h.data, Int.toNat_natCast]
  have hslot : ∀ n, n = (if k < SLOTS then ENTRY_SIZE else 0) → k < SLOTS →
      slice s.device ((inodeDisk s.device ROOT_DIR_SECTOR).start * 512 + k * ENTRY_SIZE) n = slot s.device k := by
    intro n hn hlt
    rw [hn, if_pos hlt]
    rfl
  refine ⟨mem, rfl, ?_, ?_⟩
  · rcases hwhole (by decide) (by decide) with hm | hm
    · left
      rw [hm]
      rfl
    · by_cases hlt : k < SLOTS
      · exact .inr ⟨hlt, hslot m hm hlt⟩
      · left
        rw [hm, if_neg hlt]
        rfl
  · intro hmem
    obtain ⟨hm, hmem'⟩ := hcalm hmem
    exact ⟨hmem', hslot m hm⟩

/-- The device with an entry written. -/
def setSlot (d : Device) (k : Nat) (e : List UInt8) : Device :=
  patch d ((inodeDisk d ROOT_DIR_SECTOR).start * 512 + k * ENTRY_SIZE) e

/-- Writing an entry. -/
theorem RootOk.writeEntry (h : RootOk s i) (hk : k ≤ SLOTS) (he : e.length = ENTRY_SIZE) :
    (inodeWriteAt i e ENTRY_SIZE (k * ENTRY_SIZE : Nat)).Ends s fun n s' => ∃ mem,
      ((n ≠ ENTRY_SIZE ∧ s' = { s with mem }) ∨
        (n = ENTRY_SIZE ∧ k < SLOTS ∧ s' = { s with device := setSlot s.device k e, mem := mem })) ∧
      (s.mem = [] → mem = [] ∧ (k < SLOTS → n = ENTRY_SIZE)) := by
  unfold SLOTS at hk
  cases hmemory : s.mem.headD true with
  | true =>
    obtain ⟨m, asked, hrun, hm⟩ : ∃ m asked, writeAt s.device s.blocks (s.inode i).data true e ENTRY_SIZE
        (k * ENTRY_SIZE : Nat) = some (patch s.device ((s.inode i).data.start * 512 + ((k * ENTRY_SIZE : Nat) : Int).toNat)
          (e.take m), m, asked) ∧ m = if k < SLOTS then ENTRY_SIZE else 0 := by
      have hoff : 0 ≤ ((k * ENTRY_SIZE : Nat) : Int) ∧ ((k * ENTRY_SIZE : Nat) : Int) < 2147483648 := by
        unfold ENTRY_SIZE
        omega
      have hbuffer : ((ENTRY_SIZE : Nat) : Int).toNat ≤ e.length := by omega
      obtain ⟨m, asked, hrun, -, hfull⟩ := writeAt_eq true h.fits hoff.1 hoff.2 (by decide) hbuffer
      exact ⟨m, asked, hrun, (hfull rfl).trans (h.avail k)⟩
    rw [h.data, Int.toNat_natCast] at hrun
    refine ⟨m, { s with device := setSlot s.device k (e.take m), mem := if asked then s.mem.tail else s.mem }, ?_,
      if asked then s.mem.tail else s.mem, ?_, ?_⟩
    · unfold inodeWriteAt
      rw [if_pos h.opened, if_neg (by simpa using h.allowed), hmemory, h.data, hrun]
      rfl
    · by_cases hlt : k < SLOTS
      · rw [if_pos hlt] at hm
        refine .inr ⟨hm, hlt, ?_⟩
        rw [hm, take_of_length_le (by omega)]
      · rw [if_neg hlt] at hm
        refine .inl ⟨by rw [hm]; decide, ?_⟩
        rw [hm]
        simp [setSlot]
    · intro hmem
      refine ⟨by rw [hmem]; simp, ?_⟩
      intro hlt
      rw [hm, if_pos hlt]
  | false =>
    obtain ⟨asked, hrun⟩ : ∃ asked, writeAt s.device s.blocks (s.inode i).data false e ENTRY_SIZE
        (k * ENTRY_SIZE : Nat) = some (s.device, 0, asked) := writeAt_noMemory _ e (by decide) (by decide)
    refine ⟨0, { s with mem := if asked then s.mem.tail else s.mem }, ?_, _, .inl ⟨by decide, rfl⟩, ?_⟩
    · unfold inodeWriteAt
      rw [if_pos h.opened, if_neg (by simpa using h.allowed), hmemory, hrun]
      rfl
    · intro hmem
      rw [hmem] at hmemory
      cases hmemory

/-! ## Searching the directory -/

/-- What `lookup` returns, when it starts at slot `k`. -/
structure Found (s : Vol) (name : List UInt8) (k : Nat) (r : Option (List UInt8 × Nat)) : Prop where
  slot : ∀ e ofs, r = some (e, ofs) → ∃ l < SLOTS, ofs = l * ENTRY_SIZE ∧ e = Volume.slot s.device l ∧
    entryInUse e = true ∧ entryName e = name
  none : s.mem = [] → r = none → ∀ l < SLOTS, k ≤ l → entryInUse (Volume.slot s.device l) = true →
    entryName (Volume.slot s.device l) ≠ name

/-- The loop of `lookup` goes over the slots and changes nothing. -/
theorem RootOk.lookupLoop (h : RootOk s i) (name : List UInt8) (fuel k : Nat) (hk : k ≤ SLOTS)
    (hfuel : SLOTS < fuel + k) :
    (lookupLoop i name fuel (k * ENTRY_SIZE)).Ends s fun r s' => ∃ mem, s' = { s with mem } ∧
      (s.mem = [] → mem = []) ∧ Found s name k r := by
  -- on the rounds that are left
  induction fuel generalizing s k with
  | zero => omega
  | succ fuel ih =>
    refine .bind (h.readEntry hk) ?_
    rintro e _ ⟨mem, rfl, hread, hcalm⟩
    refine .ite ?_ ?_
    · intro hlen
      have hslot : k < SLOTS ∧ e = Volume.slot s.device k := by
        rcases hread with rfl | hread
        · cases hlen
        · exact hread
      obtain ⟨hlt, he⟩ := hslot
      refine .ite ?_ ?_
      · rintro ⟨huse, hname⟩
        refine .pure ⟨mem, rfl, fun hmem => (hcalm hmem).1, ?_, ?_⟩
        · intro e' ofs hr
          cases hr
          exact ⟨k, hlt, rfl, he, huse, hname.symm⟩
        · intro _ hr
          cases hr
      · intro hother
        have hnext : k * ENTRY_SIZE + ENTRY_SIZE = (k + 1) * ENTRY_SIZE := by rw [Nat.add_mul, Nat.one_mul]
        rw [hnext]
        refine (ih (h.setMem mem) (k + 1) hlt (by omega)).mono ?_
        rintro r _ ⟨mem', rfl, hcalm', hfound⟩
        refine ⟨mem', rfl, fun hmem => hcalm' (hcalm hmem).1, hfound.slot, ?_⟩
        intro hmem hr l hl hkl huse
        by_cases hlk : l = k
        · rw [hlk, ← he] at huse ⊢
          exact fun hname => hother ⟨huse, hname.symm⟩
        · exact hfound.none (hcalm hmem).1 hr l hl (by omega) huse
    · intro hlen
      refine .pure ⟨mem, rfl, fun hmem => (hcalm hmem).1, ?_, ?_⟩
      · intro e' ofs hr
        cases hr
      · intro hmem _ l hl hkl
        have he := (hcalm hmem).2 (by omega)
        rw [he] at hlen
        exact absurd length_slice hlen

/-- What the loop of `dir_add` ends with, when it starts at slot `k`. -/
structure Vacant (s : Vol) (k : Nat) (r : List UInt8 × Nat) : Prop where
  length : r.1.length = ENTRY_SIZE
  slot : ∃ l, k ≤ l ∧ l ≤ SLOTS ∧ r.2 = l * ENTRY_SIZE ∧ (s.mem = [] → (l < SLOTS →
    entryInUse (Volume.slot s.device l) = false) ∧ ∀ j, k ≤ j → j < l → entryInUse (Volume.slot s.device j) = true)

/-- The loop of `dir_add` goes over the slots and changes nothing. -/
theorem RootOk.slotLoop (h : RootOk s i) (fuel k : Nat) (hk : k ≤ SLOTS) (hfuel : SLOTS < fuel + k)
    (he : e.length = ENTRY_SIZE) :
    (slotLoop i fuel (k * ENTRY_SIZE) e).Ends s fun r s' => ∃ mem, s' = { s with mem } ∧
      (s.mem = [] → mem = []) ∧ Vacant s k r := by
  induction fuel generalizing s k e with
  | zero => omega
  | succ fuel ih =>
    refine .bind (h.readEntry hk) ?_
    rintro read _ ⟨mem, rfl, hread, hcalm⟩
    refine .ite ?_ ?_
    · intro hlen
      have hslot : k < SLOTS ∧ read = Volume.slot s.device k := by
        rcases hread with rfl | hread
        · cases hlen
        · exact hread
      obtain ⟨hlt, hr⟩ := hslot
      have hwhole : read ++ e.drop read.length = read := by
        rw [hlen, drop_of_length_le (by omega), append_nil]
      rw [hwhole]
      refine .ite ?_ ?_
      · intro hfree
        refine .pure ⟨mem, rfl, fun hmem => (hcalm hmem).1, hlen, k, Nat.le_refl _, hk, rfl, ?_⟩
        intro _
        refine ⟨fun _ => by rw [← hr]; exact hfree, ?_⟩
        intro j hkj hjk
        omega
      · intro huse
        have hnext : k * ENTRY_SIZE + ENTRY_SIZE = (k + 1) * ENTRY_SIZE := by rw [Nat.add_mul, Nat.one_mul]
        rw [hnext]
        refine (ih (h.setMem mem) (k + 1) hlt (by omega) hlen).mono ?_
        rintro r _ ⟨mem', rfl, hcalm', hlength, l, hkl, hl, hofs, hcalm''⟩
        refine ⟨mem', rfl, fun hmem => hcalm' (hcalm hmem).1, hlength, l, by omega, hl, hofs, ?_⟩
        intro hmem
        obtain ⟨hfree, hused⟩ := hcalm'' (hcalm hmem).1
        refine ⟨hfree, ?_⟩
        intro j hkj hjl
        by_cases hjk : j = k
        · rw [hjk, ← hr]
          simpa using huse
        · exact hused j (by omega) hjl
    · intro hlen
      refine .pure ⟨mem, rfl, fun hmem => (hcalm hmem).1, ?_, k, Nat.le_refl _, hk, rfl, ?_⟩
      · have hnil : read = [] := by
          rcases hread with hnil | ⟨-, hr⟩
          · exact hnil
          · rw [hr] at hlen
            exact absurd length_slice hlen
        rw [hnil]
        exact he
      · intro hmem
        refine ⟨?_, fun j hkj hjk => by omega⟩
        intro hlt
        rw [(hcalm hmem).2 hlt] at hlen
        exact absurd length_slice hlen

end

/-! ## The bytes of an entry -/

section
variable {e name : List UInt8} {sector : Nat}

theorem length_newEntry (he : e.length = ENTRY_SIZE) (hname : name.length ≤ NAME_MAX) :
    (newEntry e name sector).length = ENTRY_SIZE := by
  unfold newEntry
  unfold ENTRY_SIZE NAME_MAX at *
  simp only [length_append, Bytes.length_le32, length_take, length_cons, length_drop,
    length_nil]
  omega

theorem entrySector_newEntry (hsector : sector < 2 ^ 32) : entrySector (newEntry e name sector) = sector := by
  unfold entrySector newEntry
  rw [Bytes.word32_append _ _ (Bytes.length_le32 _), Bytes.word32_le32, BitVec.toNat_ofNat]
  exact Nat.mod_eq_of_lt hsector

theorem entryInUse_concat {l : List UInt8} (hl : l.length = 19) (b : UInt8) : entryInUse (l ++ [b]) = decide (b ≠ 0) := by
  have hlast : (l ++ [b]).getD 19 0 = b := by
    rw [getD_eq_getElem?_getD, ← hl, getElem?_concat_length]
    rfl
  unfold entryInUse
  rw [hlast]

theorem entryInUse_newEntry (he : e.length = ENTRY_SIZE) (hname : name.length ≤ NAME_MAX) :
    entryInUse (newEntry e name sector) = true := by
  have hlen : (newEntry e name sector).length = ENTRY_SIZE := length_newEntry he hname
  unfold newEntry at hlen ⊢
  rw [← List.append_assoc] at hlen ⊢
  rw [length_append] at hlen
  rw [entryInUse_concat (Nat.add_right_cancel hlen)]
  decide

theorem entryName_newEntry (hname : name.length ≤ NAME_MAX) (hzero : 0 ∉ name) :
    entryName (newEntry e name sector) = name := by
  unfold entryName newEntry
  have hpos : 15 - name.length = 14 - name.length + 1 := by
    unfold NAME_MAX at hname
    omega
  have hshort : name.length ≤ 15 := by
    omega
  rw [drop_left' (Bytes.length_le32 _), take_of_length_le hname, List.append_assoc, List.take_append,
    take_of_length_le hshort, takeWhile_append_of_pos, hpos, List.cons_append, take_succ_cons,
    takeWhile_cons_of_neg (by decide), append_nil]
  intro b hb
  have hne : b ≠ 0 := by
    rintro rfl
    exact hzero hb
  simpa using hne

/-- A string ends at a zero byte, or before. -/
theorem length_takeWhile_zero (l rest : List UInt8) : ((l ++ 0 :: rest).takeWhile (· ≠ 0)).length ≤ l.length := by
  induction l with
  | nil =>
    rw [nil_append, takeWhile_cons_of_neg (by decide)]
  | cons b l ih =>
    rw [List.cons_append, takeWhile_cons]
    split
    · exact Nat.succ_le_succ ih
    · exact Nat.zero_le _

theorem length_entryName_newEntry (hname : name.length ≤ NAME_MAX) :
    (entryName (newEntry e name sector)).length ≤ NAME_MAX := by
  unfold entryName newEntry
  have hpos : 15 - name.length = 14 - name.length + 1 := by
    unfold NAME_MAX at hname
    omega
  have hshort : name.length ≤ 15 := by
    omega
  rw [drop_left' (Bytes.length_le32 _), take_of_length_le hname, List.append_assoc, List.take_append,
    take_of_length_le hshort, hpos, List.cons_append, take_succ_cons]
  exact Nat.le_trans (length_takeWhile_zero _ _) hname

theorem length_clearEntry (he : e.length = ENTRY_SIZE) : (clearEntry e).length = ENTRY_SIZE := by
  unfold clearEntry
  unfold ENTRY_SIZE at *
  simp only [length_append, length_take, length_cons, length_nil]
  omega

theorem entryInUse_clearEntry (he : e.length = ENTRY_SIZE) : entryInUse (clearEntry e) = false := by
  have hlen : (e.take 19).length = 19 := by
    unfold ENTRY_SIZE at he
    rw [length_take]
    omega
  unfold clearEntry
  rw [entryInUse_concat hlen]
  decide

end

/-! ## Writing an entry -/

/-- As `Still`, but entries of the root directory may change, and there may be new files. -/
structure Steady (new : Nat → Prop) (s s' : Vol) : Prop where
  blocks : s'.blocks = s.blocks
  freeMapFile : s'.freeMapFile = s.freeMapFile
  files : s'.files = s.files
  file : ∀ f < s.next, s'.file f = s.file f
  inode : ∀ i < s.next, (s'.inode i).sector = (s.inode i).sector ∧ (s'.inode i).data = (s.inode i).data
  dir : ∀ a < s.next, s'.dir a = s.dir a
  next : s.next ≤ s'.next
  live : ∀ sector, Live s' sector → new sector ∨ Live s sector
  map : inodeDisk s'.device FREE_MAP_SECTOR = inodeDisk s.device FREE_MAP_SECTOR
  root : inodeDisk s'.device ROOT_DIR_SECTOR = inodeDisk s.device ROOT_DIR_SECTOR
  intact : ∀ sector, Live s' sector → ¬ new sector → sector ≠ FREE_MAP_SECTOR → sector ≠ ROOT_DIR_SECTOR →
    Intact s.device s'.device sector
  calm : s.mem = [] → s'.mem = []

section
variable {s s' s'' : Vol} {new : Nat → Prop}

theorem Still.steady (h : Still s s') (new : Nat → Prop) : Steady new s s' :=
  { h with
    live := fun sector hl => .inr (h.live sector hl)
    root := (h.intact _ (live_root s') (by decide)).inode
    intact := fun sector hl _ hmap _ => h.intact sector hl hmap }

theorem Steady.trans (h : Steady new s s') (h' : Steady new s' s'') : Steady new s s'' where
  blocks := h'.blocks.trans h.blocks
  freeMapFile := h'.freeMapFile.trans h.freeMapFile
  files := h'.files.trans h.files
  file := fun f hf => (h'.file f (Nat.lt_of_lt_of_le hf h.next)).trans (h.file f hf)
  inode := by
    intro i hi
    obtain ⟨hs, hd⟩ := h.inode i hi
    obtain ⟨hs', hd'⟩ := h'.inode i (Nat.lt_of_lt_of_le hi h.next)
    exact ⟨hs'.trans hs, hd'.trans hd⟩
  dir := fun a ha => (h'.dir a (Nat.lt_of_lt_of_le ha h.next)).trans (h.dir a ha)
  next := Nat.le_trans h.next h'.next
  live := fun sector hl => (h'.live sector hl).elim .inl (h.live sector)
  map := h'.map.trans h.map
  root := h'.root.trans h.root
  intact := by
    intro sector hl hnew hmap hroot
    have hl' := (h'.live sector hl).resolve_left hnew
    exact (h.intact sector hl' hnew hmap hroot).trans (h'.intact sector hl hnew hmap hroot)
  calm := fun hmem => h'.calm (h.calm hmem)

theorem Still.andThen (h : Still s s') (h' : Steady new s' s'') : Steady new s s'' := (h.steady new).trans h'

theorem Steady.andThen (h : Steady new s s') (h' : Still s' s'') : Steady new s s'' := h.trans (h'.steady new)

end

section
variable {s : Vol} {held : List Addr} {k : Nat} {e : List UInt8}

theorem only_setSlot (h : Layout s) (hk : k < SLOTS) (he : e.length = ENTRY_SIZE) :
    Only (extent (inodeDisk s.device ROOT_DIR_SECTOR)) s.device (setSlot s.device k e) := by
  apply only_patch
  rw [h.rootLength, he]
  unfold SLOTS ENTRY_SIZE at *
  omega

/-- The entries after one has been written. -/
theorem slot_setSlot (h : Layout s) (hk : k < SLOTS) (he : e.length = ENTRY_SIZE) (l : Nat) :
    slot (setSlot s.device k e) l = if l = k then e else slot s.device l := by
  unfold slot
  rw [h.inode_same (live_root s) (live_root s) (only_setSlot h hk he)]
  split
  · rename_i hlk
    have hself : slice (setSlot s.device k e) ((inodeDisk s.device ROOT_DIR_SECTOR).start * 512 + k * ENTRY_SIZE)
        e.length = e := slice_patch_self
    rw [he] at hself
    rw [hlk]
    exact hself
  · apply slice_patch_other
    rw [he]
    unfold ENTRY_SIZE
    omega

/-- The free map is stored in sectors that do not change. -/
theorem Layout.stored_intact (h : Layout s) {d' : Device} (hmap : Intact s.device d' FREE_MAP_SECTOR)
    (hstored : Stored s.freeMap s.device (inodeDisk s.device FREE_MAP_SECTOR)) :
    Stored s.freeMap d' (inodeDisk d' FREE_MAP_SECTOR) := by
  intro i hi
  rw [← hstored i hi, hmap.inode]
  simp only [Bitmap.fileBit]
  rw [hmap.bytes]
  have hblocks := h.blocks_lt
  have hsectors := le_bytesToSectors (inodeDisk s.device FREE_MAP_SECTOR).length_lt
  rw [h.bitCnt] at hi
  unfold extent
  rw [h.mapLength] at hsectors ⊢
  unfold byteCnt elemCnt at *
  omega

/-- What is open does not depend on the device. -/
theorem Mem.setDevice (h : Mem s held) (device : Device) (mem : List Bool) :
    Mem { s with device := device, mem := mem } held :=
  { h with
    accounts := h.accounts.setDevice device
    mapFile := by
      obtain ⟨f, hf⟩ := h.mapFile
      exact ⟨f, { hf with }⟩ }

/-- **An entry is written.** -/
theorem Inv.writeSlot (h : Inv s held) (hk : k < SLOTS) (he : e.length = ENTRY_SIZE) (new : Nat → Prop)
    (hnew : ∀ sector, entryInUse e = true → entrySector e = sector → new sector ∧ NewFile s s.device sector)
    (hname : entryInUse e = true → (entryName e).length ≤ NAME_MAX) {mem : List Bool} (hcalm : s.mem = [] → mem = []) :
    Inv { s with device := setSlot s.device k e, mem := mem } held ∧
      Steady new s { s with device := setSlot s.device k e, mem := mem } := by
  have honly := only_setSlot h.layout hk he
  have hinode : ∀ sector, Live s sector → inodeDisk (setSlot s.device k e) sector = inodeDisk s.device sector :=
    fun sector hl => h.layout.inode_same (live_root s) hl honly
  have huses : ∀ sector, Uses (setSlot s.device k e) k sector → entryInUse e = true ∧ entrySector e = sector := by
    rintro sector ⟨-, huse, hsector⟩
    rw [slot_setSlot h.layout hk he, if_pos rfl] at huse hsector
    exact ⟨huse, hsector⟩
  have hother : ∀ l < SLOTS, l ≠ k → slot (setSlot s.device k e) l = slot s.device l := by
    intro l _ hlk
    rw [slot_setSlot h.layout hk he, if_neg hlk]
  have hlayout : Layout { s with device := setSlot s.device k e } := by
    have hname' : entryInUse (slot (setSlot s.device k e) k) = true →
        (entryName (slot (setSlot s.device k e) k)).length ≤ NAME_MAX := by
      rw [slot_setSlot h.layout hk he, if_pos rfl]
      exact hname
    refine h.layout.setSlot hinode hother ?_ hname'
    intro sector hu
    obtain ⟨huse, hsector⟩ := huses sector hu
    have hfile := (hnew sector huse hsector).2
    -- the inode of the new file is not in the directory
    have hsame : inodeDisk (setSlot s.device k e) sector = inodeDisk s.device sector :=
      inodeDisk_congr fun x hx => honly x (by
        rw [hx]
        exact hfile.header.2 (.contents ROOT_DIR_SECTOR) (live_root s))
    exact
      { hfile with
        contents := by rw [hsame]; exact hfile.contents
        apart := by rw [hsame]; exact hfile.apart
        start_le := by rw [hsame]; exact hfile.start_le }
  refine ⟨⟨h.toMem.setDevice _ mem, { hlayout with }, ?_⟩, ?_⟩
  · intro hlost
    exact h.layout.stored_intact (h.layout.intact_other (live_root s) (live_map s) (by decide) honly) (h.stored hlost)
  · have hlive : ∀ sector, Live { s with device := setSlot s.device k e, mem := mem } sector →
        new sector ∨ Live s sector := by
      rintro sector (rfl | rfl | ⟨l, hl⟩ | ⟨i, hi, rfl⟩)
      · exact .inr (live_map s)
      · exact .inr (live_root s)
      · by_cases hlk : l = k
        · rw [hlk] at hl
          obtain ⟨huse, hsector⟩ := huses sector hl
          exact .inl (hnew sector huse hsector).1
        · obtain ⟨hlt, huse, hsector⟩ := hl
          have hsame : slot (setSlot s.device k e) l = slot s.device l := hother l hlt hlk
          exact .inr (live_slot ⟨hlt, hsame ▸ huse, hsame ▸ hsector⟩)
      · exact .inr (live_open hi)
    exact
      { (Still.refl s).steady new with
        live := hlive
        map := hinode _ (live_map s)
        root := hinode _ (live_root s)
        intact := by
          intro sector hl hnot hmap hroot
          exact h.layout.intact_other (live_root s) ((hlive sector hl).resolve_left hnot) hroot honly
        calm := hcalm }

theorem Inv.rootOk (h : Inv s held) {a : Addr} (ha : a ∈ s.dirs) : RootOk s (s.dir a).inode := by
  have hi : (s.dir a).inode ∈ s.openInodes :=
    h.accounts.held_listed _ (mem_append_right _ (List.mem_map_of_mem ha))
  have hsector := h.dir_root a ha
  refine ⟨h.layout, hi, hsector, ?_⟩
  apply not_denied h.accounts hi
  intro g hg hsame
  obtain ⟨f, hf⟩ := h.mapFile
  have hroot : s.sectorOf g = ROOT_DIR_SECTOR := by
    unfold Vol.sectorOf
    rw [hsame]
    exact hsector
  by_cases hgf : g = f
  · rw [hgf]
    exact hf.allows
  · exact absurd hroot (hf.others g hg hgf).2

end

end Volume
end Asg1
