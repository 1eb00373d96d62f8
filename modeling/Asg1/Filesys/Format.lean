import Asg1.Filesys.Calls

/-!
# `Filesys.Format` — formatting, and starting the file system

`free_map_open` on a device with a layout gives a state that meets the invariant, and the free map in memory has the
bits that are stored on the device. `do_format` makes such a device: the inode of the free map and its file come first,
while the map is in memory only; then the root directory, with the map written after the allocation.
-/

namespace Asg1
namespace Volume

open Filesys Flat List

section
variable {s s' : Vol}

/-! ## Opening the free map -/

theorem accounts_empty {fs : Fs} (hopen : fs.openInodes = []) (hfiles : fs.files = []) : Accounts fs [] where
  nodup := by rw [hopen]; exact nodup_nil
  sector_inj := by
    rw [hopen]
    intro i hi
    cases hi
  files_nodup := by rw [hfiles]; exact nodup_nil
  listed := by
    rw [hfiles]
    intro f hf
    cases hf
  held_listed := by
    intro i hi
    cases hi
  openCnt := by
    rw [hopen]
    intro i hi
    cases hi
  opened := by
    rw [hopen]
    intro i hi
    cases hi
  denyWriteCnt := by
    rw [hopen]
    intro i hi
    cases hi
  pos_lt := by
    rw [hfiles]
    intro f hf
    cases hf

/-- The state with the inode of a sector as the only open one. -/
def Vol.withInode (s : Vol) (sector : Nat) : Vol :=
  { s with
    toFs :=
      { s.toFs.setInode s.next ⟨sector, 1, 0, inodeDisk s.device sector⟩ with openInodes := s.next :: s.openInodes }
    next := s.next + 1
    removed := fun i => if i = s.next then false else s.removed i }

theorem malloc_memory (hmem : s.mem = []) : malloc s = some (true, s) := by
  unfold malloc
  rw [hmem]

/-- `inode_open` when nothing is open. -/
theorem inodeOpen_first (hopen : s.openInodes = []) (hmem : s.mem = []) {sector : Nat} (hsector : sector < s.blocks) :
    (inodeOpen sector).Ends s fun r s' => r = some s.next ∧ s' = s.withInode sector := by
  have hclosed : isOpen s.toFs sector = false := by
    unfold isOpen
    rw [hopen]
    rfl
  have hfind : s.openInodes.find? (fun i => (s.inode i).sector = sector) = none := by rw [hopen]; rfl
  apply Proc.Ends.get
  refine .ite (fun htrue => by rw [hclosed] at htrue; cases htrue) ?_
  intro _
  apply Proc.Ends.step (malloc_memory hmem)
  refine .ite ?_ (fun hfalse => absurd rfl hfalse)
  intro _
  apply Proc.Ends.assert hsector
  apply Proc.Ends.step rfl
  apply Proc.Ends.modify
  refine .pure ⟨rfl, ?_⟩
  simp only [Filesys.inodeOpen, hfind]
  rfl

/-- `file_open` with enough memory. -/
theorem fileOpen_memory (hmem : s.mem = []) (i : Addr) :
    (fileOpen (some i)).Ends s fun r s' => r = some s.next ∧ s' = s.withFile i [] := by
  apply Proc.Ends.step (malloc_memory hmem)
  apply Proc.Ends.step rfl
  apply Proc.Ends.modify
  refine .pure ⟨rfl, ?_⟩
  unfold Vol.withFile
  rw [← hmem]

/-- What is open once the free map has been opened. -/
theorem accounts_map (hopen : s.openInodes = []) (hfiles : s.files = []) (sector : Nat) :
    Accounts ((s.withInode sector).withFile s.next []).toFs [] := by
  have hempty := accounts_empty hopen hfiles
  obtain ⟨fs, i, hrun, hacc, -⟩ := hempty.inodeOpen format sector (a := s.next) (by rw [hopen]; exact not_mem_nil)
  have hfind : s.openInodes.find? (fun i => (s.inode i).sector = sector) = none := by rw [hopen]; rfl
  simp only [Filesys.inodeOpen, hfind] at hrun
  cases hrun
  refine hacc.fileOpen ?_
  show s.next + 1 ∉ s.files
  rw [hfiles]
  exact not_mem_nil

/-- **`free_map_open`** on a device with a layout, of which `b` is the free map. -/
theorem freeMapOpen_spec {b : Bitmap} (hopen : s.openInodes = []) (hfiles : s.files = []) (hdirs : s.dirs = [])
    (hmem : s.mem = []) (hcnt : s.freeMap.bitCnt = s.blocks) (hlayout : Layout { s with freeMap := b })
    (hstored : Stored b s.device (inodeDisk s.device FREE_MAP_SECTOR)) :
    freeMapOpen.Ends s fun _ s' => Inv s' [] ∧ s'.device = s.device ∧ s'.blocks = s.blocks ∧ s'.dirs = [] ∧
      s'.files = [s.next + 1] ∧ s'.freeMapFile = some (s.next + 1) ∧ s'.mem = [] ∧ s'.mapLost = s.mapLost ∧
      s'.freeMap.bitCnt = s.blocks ∧ ∀ j < s.blocks, s'.freeMap.bit j = b.bit j := by
  have hbcnt : b.bitCnt = s.blocks := hlayout.bitCnt
  have hlive := live_map { s with freeMap := b }
  have hzero : FREE_MAP_SECTOR < s.blocks := (hlayout.owns.cover (.header FREE_MAP_SECTOR) hlive _ rfl).1
  have hfits : Fits s.blocks (inodeDisk s.device FREE_MAP_SECTOR) := hlayout.fits hlive
  have hlength : (inodeDisk s.device FREE_MAP_SECTOR).length = byteCnt s.blocks := hlayout.mapLength
  have hsize : byteCnt s.blocks < 2 ^ 29 := by
    unfold byteCnt elemCnt
    omega
  refine .bind (inodeOpen_first hopen hmem hzero) ?_
  rintro _ _ ⟨rfl, rfl⟩
  refine .bind (fileOpen_memory (s := s.withInode FREE_MAP_SECTOR) hmem s.next) ?_
  rintro _ _ ⟨rfl, rfl⟩
  set t := (s.withInode FREE_MAP_SECTOR).withFile s.next [] with ht
  have hfile : t.file (s.next + 1) = ⟨s.next, 0, false⟩ := if_pos rfl
  have hinode : t.inode s.next = ⟨FREE_MAP_SECTOR, 1, 0, inodeDisk s.device FREE_MAP_SECTOR⟩ := if_pos rfl
  have hlisted : s.next + 1 ∈ t.files := mem_cons_self
  have hopened : s.next ∈ t.openInodes := mem_cons_self
  have hacc : Accounts t.toFs [] := accounts_map hopen hfiles FREE_MAP_SECTOR
  -- the whole file is read
  have hread : (fileReadAt (s.next + 1) (byteCnt t.freeMap.bitCnt) 0).Ends t fun bytes t' => t' = { t with mem := [] } ∧
      bytes = slice s.device ((inodeDisk s.device FREE_MAP_SECTOR).start * 512) (byteCnt s.blocks) := by
    have hcnt' : t.freeMap.bitCnt = s.blocks := hcnt
    rw [hcnt']
    apply Proc.Ends.get
    apply Proc.Ends.assert hlisted
    rw [hfile]
    refine (inodeReadAt_spec hopened (by rw [hinode]; exact hfits) (Int.le_refl 0) (by omega) (by omega)).mono ?_
    rintro bytes t' ⟨m, mem, rfl, rfl, -, hcalm, -⟩
    obtain ⟨hm, rfl⟩ := hcalm rfl
    rw [hinode] at hm ⊢
    refine ⟨rfl, ?_⟩
    have hm' : m = byteCnt s.blocks := by
      rw [hm]
      unfold avail
      rw [hlength]
      simp
    rw [hm', Int.toNat_zero, Nat.add_zero]
    rfl
  apply Proc.Ends.get
  refine .bind hread ?_
  rintro bytes _ ⟨rfl, hbytes⟩
  have hlen : bytes.length = byteCnt t.freeMap.bitCnt := by
    rw [hbytes, length_slice]
    show byteCnt s.blocks = byteCnt s.freeMap.bitCnt
    rw [hcnt]
  apply Proc.Ends.assert hlen
  set b' := s.freeMap.ofBytes bytes with hb'
  refine ⟨(), { t with freeMapFile := some (s.next + 1), freeMap := b' }, rfl, ?_⟩
  have hbit : ∀ j < s.blocks, b'.bit j = b.bit j := by
    intro j hj
    rw [hb', Bitmap.bit_ofBytes (by rw [hcnt]; exact hj), ← hstored j (by rw [hbcnt]; exact hj)]
    have hlt : j / 8 < byteCnt s.blocks := by
      rw [← hbcnt]
      exact Bitmap.byteCnt_ge (by rw [hbcnt]; exact hj)
    simp only [Bitmap.fileBit]
    rw [hbytes, getD_slice hlt]
  refine ⟨⟨?_, ?_, ?_⟩, rfl, rfl, hdirs, ?_, rfl, rfl, rfl, hcnt, hbit⟩
  · constructor
    case accounts =>
      show Accounts t.toFs ([] ++ s.dirs.map _)
      rw [hdirs]
      exact hacc
    case mapFile =>
      refine ⟨s.next + 1, rfl, hlisted, ?_, ?_, ?_⟩
      · show (t.inode (t.file (s.next + 1)).inode).sector = _
        rw [hfile, hinode]
      · rw [hfile]
      · intro g hg hne
        have hg' : g ∈ (s.next + 1) :: s.files := hg
        rw [hfiles] at hg'
        exact absurd (List.mem_singleton.mp hg') hne
    case dirs_nodup => show s.dirs.Nodup; rw [hdirs]; exact nodup_nil
    case dir_root => show ∀ a ∈ s.dirs, _; rw [hdirs]; intro a ha; cases ha
    case dir_pos => show ∀ a ∈ s.dirs, _; rw [hdirs]; intro a ha; cases ha
    case inode_lt =>
      intro i hi
      have hi' : i ∈ s.next :: s.openInodes := hi
      rw [hopen] at hi'
      rw [List.mem_singleton.mp hi']
      exact Nat.lt_succ_of_lt (Nat.lt_succ_self s.next)
    case file_lt =>
      intro f hf
      have hf' : f ∈ (s.next + 1) :: s.files := hf
      rw [hfiles] at hf'
      rw [List.mem_singleton.mp hf']
      exact Nat.lt_succ_self (s.next + 1)
    case dir_lt => show ∀ a ∈ s.dirs, _; rw [hdirs]; intro a ha; cases ha
  · have hopenok : OpenOk { s with freeMap := b } { t with freeMapFile := some (s.next + 1), freeMap := b' } := by
      intro i hi
      have hi' : i ∈ s.next :: s.openInodes := hi
      rw [hopen] at hi'
      obtain rfl := List.mem_singleton.mp hi'
      show Live _ (t.inode s.next).sector ∧ (t.inode s.next).data = inodeDisk s.device (t.inode s.next).sector ∧
        (t.removed s.next = true → _)
      rw [hinode]
      refine ⟨hlive, rfl, ?_⟩
      intro hremoved
      have hremoved' : (if s.next = s.next then false else s.removed s.next) = true := hremoved
      rw [if_pos rfl] at hremoved'
      cases hremoved'
    have hcnt' : b'.bitCnt = b.bitCnt := by
      rw [hbcnt, ← hcnt]
      rfl
    refine hlayout.keep rfl hcnt' hopenok Intact.refl (fun _ _ => rfl) ?_
    intro p hp x hx
    have hp' := live_of_openOk hlayout hopenok Intact.refl hp
    have hmarked := hlayout.owns.cover p hp' x hx
    rw [hbit x hmarked.1]
    exact hmarked.2
  · intro _ j hj
    have hj' : j < s.blocks := by
      rw [← hcnt]
      exact hj
    rw [hbit j hj', ← hstored j (by rw [hbcnt]; exact hj')]
    rfl
  · show (s.next + 1) :: s.files = _
    rw [hfiles]

/-! ## Starting again -/

/-- What `free_map_init` makes. -/
structure Started (s : Vol) (size : Nat) (d : Device) : Prop where
  blocks : s.blocks = size
  device : s.device = d
  openInodes : s.openInodes = []
  files : s.files = []
  dirs : s.dirs = []
  mem : s.mem = []
  freeMapFile : s.freeMapFile = none
  mapLost : s.mapLost = false
  bitCnt : s.freeMap.bitCnt = size
  marks : s.freeMap.Prefix 2

variable {blocks : Nat} {device : Device} {memory : Nat → BitVec 32}

theorem start_eq (h : blocks + 31 < 2 ^ 32) (device : Device) (memory : Nat → BitVec 32) :
    ∃ s, start blocks device memory = some s ∧ Started s blocks device := by
  obtain ⟨b, hcreate, hcnt, hbit⟩ : ∃ b, Bitmap.create blocks memory = some b ∧ b.bitCnt = blocks ∧
      ∀ i < blocks, b.bit i = false := Bitmap.create_eq h
  unfold start
  rw [hcreate]
  refine ⟨_, rfl, rfl, rfl, rfl, rfl, rfl, rfl, rfl, rfl, hcnt, ?_⟩
  intro j hj
  have hj' : j < blocks := by
    rw [← hcnt]
    exact hj
  -- both sectors are in the first element
  have hmap : FREE_MAP_SECTOR / 32 < b.bits.length := Bitmap.elemIdx_lt (Nat.lt_of_le_of_lt (Nat.zero_le j) hj)
  have hroot : ROOT_DIR_SECTOR / 32 < (b.mark FREE_MAP_SECTOR).bits.length :=
    Bitmap.elemIdx_lt (i := FREE_MAP_SECTOR) (b := b.mark FREE_MAP_SECTOR) (Nat.lt_of_le_of_lt (Nat.zero_le j) hj)
  rw [Bitmap.bit_mark hroot, Bitmap.bit_mark hmap]
  unfold ROOT_DIR_SECTOR FREE_MAP_SECTOR
  by_cases h1 : j = 1
  · rw [if_pos h1, h1]
    rfl
  · rw [if_neg h1]
    by_cases h0 : j = 0
    · rw [if_pos h0, h0]
      rfl
    · rw [if_neg h0, hbit j hj']
      symm
      apply decide_eq_false
      omega

theorem start_some (h : start blocks device memory = some s) : blocks + 31 < 2 ^ 32 := by
  by_contra hbig
  unfold start Bitmap.create at h
  rw [dif_neg hbig] at h
  cases h

/-- **Starting again without formatting** gives the same free map. -/
theorem Inv.restart {held : List Addr} (h : Inv s held) (hlost : s.mapLost = false) (memory : Nat → BitVec 32) :
    ∃ s', filesysInit s.blocks s.device memory false = some s' ∧ Inv s' [] ∧ s'.device = s.device ∧
      ∀ j < s.blocks, s'.freeMap.bit j = s.freeMap.bit j := by
  obtain ⟨s₀, hstart, h₀⟩ := start_eq h.layout.blocks_lt s.device memory
  -- the layout as it was, with nothing open
  have hlayout : Layout { s₀ with freeMap := s.freeMap } := by
    have hopen : OpenOk s { s₀ with freeMap := s.freeMap } := by
      intro i hi
      have hi' : i ∈ s₀.openInodes := hi
      rw [h₀.openInodes] at hi'
      cases hi'
    have hintact : ∀ k, Intact s.device s₀.device k := by
      intro k
      rw [h₀.device]
      exact Intact.refl
    exact h.layout.keep h₀.blocks rfl hopen (hintact _) (fun k _ => (hintact k).inode)
      (fun p hp x hx => h.layout.bit_foot (live_of_openOk h.layout hopen (hintact _) hp) hx)
  have hstored : Stored s.freeMap s₀.device (inodeDisk s₀.device FREE_MAP_SECTOR) := by
    rw [h₀.device]
    exact h.stored hlost
  obtain ⟨_, s', hrun, hinv, hdev, -, -, -, -, -, -, -, hbits⟩ := freeMapOpen_spec h₀.openInodes h₀.files h₀.dirs h₀.mem
    (h₀.bitCnt.trans h₀.blocks.symm) hlayout hstored
  refine ⟨s', ?_, hinv, hdev.trans h₀.device, fun j hj => hbits j (by rw [h₀.blocks]; exact hj)⟩
  unfold filesysInit
  rw [hstart]
  show (freeMapOpen s₀).bind _ = _
  rw [hrun]
  rfl

end

/-! ## Formatting -/

/-- The number of sectors of the free map file. -/
def mapSectors (blocks : Nat) : Nat := bytesToSectors (byteCnt blocks)

/-- A device without files: the free map is in the sectors from 2 on, and the root directory after it. -/
structure Formatted (s : Vol) : Prop where
  bitCnt : s.freeMap.bitCnt = s.blocks
  room : 3 + mapSectors s.blocks ≤ s.blocks
  marks : s.freeMap.Prefix (3 + mapSectors s.blocks)
  mapStart : (inodeDisk s.device FREE_MAP_SECTOR).start = 2
  mapLength : (inodeDisk s.device FREE_MAP_SECTOR).length = byteCnt s.blocks
  rootStart : (inodeDisk s.device ROOT_DIR_SECTOR).start = 2 + mapSectors s.blocks
  rootLength : (inodeDisk s.device ROOT_DIR_SECTOR).length = SLOTS * ENTRY_SIZE
  zeros : ∀ x, x / 512 = 2 + mapSectors s.blocks → s.device x = 0
  stored : Stored s.freeMap s.device (inodeDisk s.device FREE_MAP_SECTOR)

section
variable {s s' : Vol}

/-- A free map with the same bits, read or written again, does not undo the formatting. -/
theorem Formatted.keep (h : Formatted s) (hdev : s'.device = s.device) (hblocks : s'.blocks = s.blocks)
    (hcnt : s'.freeMap.bitCnt = s.blocks) (hbits : ∀ j < s.blocks, s'.freeMap.bit j = s.freeMap.bit j)
    (hstored : Stored s'.freeMap s'.device (inodeDisk s'.device FREE_MAP_SECTOR)) : Formatted s' := by
  constructor
  case bitCnt => rw [hblocks]; exact hcnt
  case room => rw [hblocks]; exact h.room
  case marks =>
    intro j hj
    rw [hcnt] at hj
    rw [hbits j hj, hblocks]
    exact h.marks j (by rw [h.bitCnt]; exact hj)
  case mapStart => rw [hdev]; exact h.mapStart
  case mapLength => rw [hdev, hblocks]; exact h.mapLength
  case rootStart => rw [hdev, hblocks]; exact h.rootStart
  case rootLength => rw [hdev]; exact h.rootLength
  case zeros => rw [hdev, hblocks]; exact h.zeros
  case stored => exact hstored

theorem bytesToSectors_root : bytesToSectors (SLOTS * ENTRY_SIZE) = 1 := by decide

/-- The root directory is empty. -/
theorem Formatted.entryInUse (h : Formatted s) {k : Nat} (hk : k < SLOTS) : entryInUse (slot s.device k) = false := by
  unfold Volume.entryInUse slot
  have hzero : (slice s.device ((inodeDisk s.device ROOT_DIR_SECTOR).start * 512 + k * ENTRY_SIZE) ENTRY_SIZE).getD 19 0 =
      0 := by
    rw [getD_slice (by decide)]
    apply h.zeros
    rw [h.rootStart]
    unfold SLOTS at hk
    unfold ENTRY_SIZE
    omega
  rw [hzero]
  rfl

/-- **A formatted device has a layout.** -/
theorem Formatted.layout (h : Formatted s) (hopen : s.openInodes = []) : Layout s := by
  have hroom := h.room
  have hfree : ∀ k sector, ¬ Uses s.device k sector := by
    rintro k sector ⟨hk, huse, -⟩
    rw [h.entryInUse hk] at huse
    cases huse
  have hlive : ∀ sector, Live s sector → sector = FREE_MAP_SECTOR ∨ sector = ROOT_DIR_SECTOR := by
    rintro sector (hl | hl | ⟨k, hk⟩ | ⟨i, hi, -⟩)
    · exact .inl hl
    · exact .inr hl
    · exact absurd hk (hfree k sector)
    · rw [hopen] at hi
      cases hi
  -- the four pieces are intervals, one after the other
  have hmap : ∀ x, extent (inodeDisk s.device FREE_MAP_SECTOR) x ↔ 2 ≤ x ∧ x < 2 + mapSectors s.blocks := by
    intro x
    unfold extent
    rw [h.mapStart, h.mapLength]
    rfl
  have hroot : ∀ x, extent (inodeDisk s.device ROOT_DIR_SECTOR) x ↔ x = 2 + mapSectors s.blocks := by
    intro x
    unfold extent
    rw [h.rootStart, h.rootLength, bytesToSectors_root]
    omega
  constructor
  case bitCnt => exact h.bitCnt
  case owns =>
    constructor
    case cover =>
      intro p hp x hx
      have hlt : x < 3 + mapSectors s.blocks := by
        cases p with
        | header sector =>
          obtain rfl : x = sector := hx
          rcases hlive x hp with rfl | rfl
          · unfold FREE_MAP_SECTOR; omega
          · unfold ROOT_DIR_SECTOR; omega
        | contents sector =>
          have hx' : extent (inodeDisk s.device sector) x := hx
          rcases hlive sector hp with rfl | rfl
          · have hin := (hmap x).mp hx'
            omega
          · have hin := (hroot x).mp hx'
            omega
      refine ⟨by omega, ?_⟩
      rw [h.marks x (by rw [h.bitCnt]; omega)]
      exact decide_eq_true hlt
    case disjoint =>
      intro p hp q hq x hpx hqx
      have hplace : ∀ r : Piece, Live s r.sector → foot s.device r x →
          (r = .header FREE_MAP_SECTOR ∧ x = 0) ∨ (r = .header ROOT_DIR_SECTOR ∧ x = 1) ∨
          (r = .contents FREE_MAP_SECTOR ∧ 2 ≤ x ∧ x < 2 + mapSectors s.blocks) ∨
          (r = .contents ROOT_DIR_SECTOR ∧ x = 2 + mapSectors s.blocks) := by
        intro r hr hrx
        cases r with
        | header sector =>
          obtain rfl : x = sector := hrx
          rcases hlive x hr with rfl | rfl
          · exact .inl ⟨rfl, rfl⟩
          · exact .inr (.inl ⟨rfl, rfl⟩)
        | contents sector =>
          have hrx' : extent (inodeDisk s.device sector) x := hrx
          rcases hlive sector hr with rfl | rfl
          · exact .inr (.inr (.inl ⟨rfl, (hmap x).mp hrx'⟩))
          · exact .inr (.inr (.inr ⟨rfl, (hroot x).mp hrx'⟩))
      rcases hplace p hp hpx with ⟨rfl, h₁⟩ | ⟨rfl, h₁⟩ | ⟨rfl, h₁⟩ | ⟨rfl, h₁⟩ <;>
        rcases hplace q hq hqx with ⟨rfl, h₂⟩ | ⟨rfl, h₂⟩ | ⟨rfl, h₂⟩ | ⟨rfl, h₂⟩ <;>
        first
        | rfl
        | (exfalso; omega)
  case start_le =>
    intro sector hl
    rcases hlive sector hl with rfl | rfl
    · rw [h.mapStart]; omega
    · rw [h.rootStart]; omega
  case mapLength => exact h.mapLength
  case rootLength => exact h.rootLength
  case slot_inj => exact fun k _ sector hk _ => absurd hk (hfree k sector)
  case slot_file => exact fun k sector hk => absurd hk (hfree k sector)
  case slot_name => exact fun k hk huse => absurd ⟨hk, huse, rfl⟩ (hfree k _)
  case opened => rw [hopen]; intro i hi; cases hi
  case removed => rw [hopen]; intro i hi; cases hi

/-- The state between `free_map_create` and the creation of the root directory: the free map file is open. -/
structure MapMade (s : Vol) (i f : Addr) : Prop where
  openInodes : s.openInodes = [i]
  inode : s.inode i = ⟨FREE_MAP_SECTOR, 1, 0, inodeDisk s.device FREE_MAP_SECTOR⟩
  files : s.files = [f]
  file : s.file f = ⟨i, 0, false⟩
  removed : s.removed i = false
  dirs : s.dirs = []
  mem : s.mem = []
  mapLost : s.mapLost = false
  freeMapFile : s.freeMapFile = some f
  bitCnt : s.freeMap.bitCnt = s.blocks
  room : 2 + mapSectors s.blocks ≤ s.blocks
  marks : s.freeMap.Prefix (2 + mapSectors s.blocks)
  mapStart : (inodeDisk s.device FREE_MAP_SECTOR).start = 2
  mapLength : (inodeDisk s.device FREE_MAP_SECTOR).length = byteCnt s.blocks
  stored : Stored s.freeMap s.device (inodeDisk s.device FREE_MAP_SECTOR)

theorem mapSectors_pos (h : 0 < blocks) (hfits : blocks + 31 < 2 ^ 32) : 0 < mapSectors blocks := by
  have hsize : byteCnt blocks < 2 ^ 31 ∧ 0 < byteCnt blocks := by
    unfold byteCnt elemCnt
    omega
  have hle := le_bytesToSectors hsize.1
  unfold mapSectors
  omega

variable {d : Device} {i f : Addr}

/-- `inode_create` for the free map, which is not in a file yet. -/
theorem inodeCreate_map (h : Started s s.blocks d) :
    (inodeCreate FREE_MAP_SECTOR (byteCnt s.blocks)).Safe s fun r s' => r = true → ∃ b d',
      s' = { s with freeMap := b, device := d' } ∧ b.bitCnt = s.blocks ∧ 0 < s.blocks ∧
      2 + mapSectors s.blocks ≤ s.blocks ∧ b.Prefix (2 + mapSectors s.blocks) ∧
      (inodeDisk d' FREE_MAP_SECTOR).start = 2 ∧ (inodeDisk d' FREE_MAP_SECTOR).length = byteCnt s.blocks := by
  have hfits : s.blocks + 31 < 2 ^ 32 := by
    rw [← h.bitCnt]
    exact s.freeMap.fits
  have hsize : byteCnt s.blocks < 2 ^ 31 := by
    unfold byteCnt elemCnt
    omega
  apply Proc.Safe.assert
  intro _
  refine .step (malloc_memory h.mem) ?_
  refine .ite ?_ (fun hfalse => absurd rfl hfalse)
  intro _
  refine .bind (freeMapAllocate_init h.freeMapFile (bytesToSectors (byteCnt s.blocks))).safe ?_
  rintro r s₁ ⟨hs₁, hcnt₁, halloc⟩
  obtain ⟨b, rfl⟩ : ∃ b, s₁ = { s with freeMap := b } := ⟨s₁.freeMap, hs₁⟩
  cases r with
  | none =>
    refine .pure ?_
    intro hr
    cases hr
  | some start =>
    obtain ⟨hrun, hleast, hbits⟩ := halloc.some start rfl
    have hend : start + bytesToSectors (byteCnt s.blocks) ≤ s.blocks := by
      have hle := hrun.1
      rw [h.bitCnt] at hle
      exact hle
    have hout : ¬ (start ≤ FREE_MAP_SECTOR ∧ FREE_MAP_SECTOR < start + bytesToSectors (byteCnt s.blocks)) := by
      rintro ⟨hle, hlt⟩
      have hbit := hrun.2 _ hle hlt
      rw [h.marks FREE_MAP_SECTOR (by rw [h.bitCnt]; omega)] at hbit
      cases hbit
    refine .mono (writeInode_safe { s with freeMap := b } FREE_MAP_SECTOR hend
      (show s.blocks < 2 ^ 32 by omega) hsize hout) ?_
    rintro r' s' ⟨-, hpos, d', rfl, -, hinode, -⟩ -
    have hpos' : 0 < s.blocks := Nat.lt_of_le_of_lt (Nat.zero_le _) hpos
    obtain rfl : start = 2 := h.marks.first (mapSectors_pos hpos' hfits) hrun hleast
    refine ⟨b, d', rfl, hcnt₁.trans h.bitCnt, hpos', hend, h.marks.extend hcnt₁ hbits, ?_, ?_⟩
    · rw [hinode]
    · rw [hinode]

/-- The free map file can be written, wherever in the device the map is. -/
theorem mapOk_of_start (hfile : s.file f = ⟨i, 0, false⟩)
    (hinode : s.inode i = ⟨FREE_MAP_SECTOR, 1, 0, inodeDisk s.device FREE_MAP_SECTOR⟩) (hf : f ∈ s.files)
    (hi : i ∈ s.openInodes) (hmap : s.freeMapFile = some f) (hcnt : s.freeMap.bitCnt = s.blocks)
    (hroom : 2 + mapSectors s.blocks ≤ s.blocks) (hstart : (inodeDisk s.device FREE_MAP_SECTOR).start = 2)
    (hlength : (inodeDisk s.device FREE_MAP_SECTOR).length = byteCnt s.blocks) :
    MapOk s f ∧ s.dataOf f = inodeDisk s.device FREE_MAP_SECTOR := by
  have hdata : s.dataOf f = inodeDisk s.device FREE_MAP_SECTOR := by
    unfold Vol.dataOf
    rw [hfile, hinode]
  refine ⟨⟨hmap, hf, by rwa [hfile], by rw [hfile, hinode], ?_, by rw [hdata, hlength], hcnt⟩, hdata⟩
  have hle := le_bytesToSectors (inodeDisk s.device FREE_MAP_SECTOR).length_lt
  have hfits := s.freeMap.fits
  rw [hdata]
  refine ⟨fun _ => ?_, by omega⟩
  rw [hlength] at hle
  rw [hstart, hlength]
  exact Nat.le_trans (Nat.add_le_add_left hle 2) hroom

/-- **`free_map_create`** -/
theorem freeMapCreate_spec (h : Started s s.blocks d) :
    freeMapCreate.Safe s fun _ s' => s'.blocks = s.blocks ∧ ∃ i f, MapMade s' i f := by
  apply Proc.Safe.get
  rw [h.bitCnt]
  refine .bind (inodeCreate_map h) ?_
  intro created s₁ hcreated
  apply Proc.Safe.assert
  intro htrue
  obtain ⟨b, d', rfl, hcnt, hpos, hroom, hmarks, hstart, hlength⟩ := hcreated htrue
  refine .bind (inodeOpen_first (s := { s with freeMap := b, device := d' }) h.openInodes h.mem hpos).safe ?_
  rintro _ _ ⟨rfl, rfl⟩
  refine .bind (fileOpen_memory (s := Vol.withInode { s with freeMap := b, device := d' } FREE_MAP_SECTOR) h.mem
    s.next).safe ?_
  rintro _ _ ⟨rfl, rfl⟩
  refine .step rfl ?_
  set t : Vol := { Vol.withFile (Vol.withInode { s with freeMap := b, device := d' } FREE_MAP_SECTOR) s.next [] with
    freeMapFile := some (s.next + 1) } with ht
  have hfile : t.file (s.next + 1) = ⟨s.next, 0, false⟩ := if_pos rfl
  have hinode : t.inode s.next = ⟨FREE_MAP_SECTOR, 1, 0, inodeDisk d' FREE_MAP_SECTOR⟩ := if_pos rfl
  obtain ⟨hok, hdata⟩ : MapOk t (s.next + 1) ∧ t.dataOf (s.next + 1) = inodeDisk d' FREE_MAP_SECTOR :=
    mapOk_of_start hfile hinode mem_cons_self mem_cons_self rfl hcnt hroom hstart hlength
  refine .bind (bitmapWrite_spec hok).safe ?_
  rintro written _ ⟨device, mem, lost, rfl, honly, hwritten, -, hcalm⟩
  rw [hdata] at honly hwritten
  obtain ⟨rfl, rfl⟩ := hcalm rfl
  obtain ⟨rfl, hstored⟩ := hwritten rfl
  -- the inode is not in the sectors of the file
  have hsame : inodeDisk device FREE_MAP_SECTOR = inodeDisk d' FREE_MAP_SECTOR :=
    inodeDisk_congr fun x hx => honly x (by
      rw [hx]
      unfold extent
      rw [hstart]
      unfold FREE_MAP_SECTOR
      omega)
  refine Proc.Ends.safe ⟨(), _, rfl, rfl, s.next, s.next + 1, ?_⟩
  constructor
  case openInodes => show s.next :: s.openInodes = _; rw [h.openInodes]
  case inode =>
    rw [hinode, hsame]
  case files => show (s.next + 1) :: s.files = _; rw [h.files]
  case file => exact hfile
  case removed => exact if_pos rfl
  case dirs => exact h.dirs
  case mem => rfl
  case mapLost => exact h.mapLost
  case freeMapFile => rfl
  case bitCnt => exact hcnt
  case room => exact hroom
  case marks => exact hmarks
  case mapStart => show (inodeDisk device _).start = 2; rw [hsame]; exact hstart
  case mapLength => show (inodeDisk device _).length = _; rw [hsame]; exact hlength
  case stored => show Stored b device (inodeDisk device _); rw [hsame]; exact hstored

/-- **`dir_create`** for the root directory. -/
theorem dirCreate_root (h : MapMade s i f) :
    (dirCreate ROOT_DIR_SECTOR 16).Safe s fun r s' => r = true → Formatted s' ∧ s'.blocks = s.blocks ∧ s'.openInodes = [i] ∧
      s'.inode i = s.inode i ∧ s'.files = [f] ∧ s'.file f = s.file f ∧ s'.removed i = false ∧ s'.dirs = [] ∧
      s'.mem = [] ∧ s'.mapLost = false ∧ s'.freeMapFile = some f := by
  have hblocks : s.blocks + 31 < 2 ^ 32 := by
    rw [← h.bitCnt]
    exact s.freeMap.fits
  obtain ⟨hok, hdata⟩ := mapOk_of_start h.file h.inode (by rw [h.files]; exact mem_cons_self)
    (by rw [h.openInodes]; exact mem_cons_self) h.freeMapFile h.bitCnt h.room h.mapStart h.mapLength
  apply Proc.Safe.assert
  intro _
  refine .step (malloc_memory h.mem) ?_
  refine .ite ?_ (fun hfalse => absurd rfl hfalse)
  intro _
  have hsize : (((16 : Nat) : Int) * ((ENTRY_SIZE : Nat) : Int)).toNat = SLOTS * ENTRY_SIZE := by decide
  refine .bind (freeMapAllocate_spec hok (bytesToSectors (SLOTS * ENTRY_SIZE))).safe ?_
  rintro r s₁ ⟨hstep, halloc⟩
  rw [hdata] at hstep
  cases r with
  | none =>
    refine .pure ?_
    intro hr
    cases hr
  | some start =>
    obtain ⟨hrun, hleast, hbits⟩ := halloc.some start rfl
    have hcnt : 0 < bytesToSectors (SLOTS * ENTRY_SIZE) := by
      exact Nat.one_pos
    have hplace := h.marks.first hcnt hrun hleast
    have hmarks : s₁.freeMap.Prefix (2 + mapSectors s.blocks + bytesToSectors (SLOTS * ENTRY_SIZE)) := by
      rw [hplace] at hbits
      exact h.marks.extend hstep.bitCnt hbits
    have hend : start + bytesToSectors (SLOTS * ENTRY_SIZE) ≤ s₁.blocks := by
      have hle := hrun.1
      rw [h.bitCnt] at hle
      exact Nat.le_trans hle (Nat.le_of_eq hstep.blocks.symm)
    refine .mono (writeInode_safe s₁ ROOT_DIR_SECTOR hend (by rw [hstep.blocks]; omega) (by decide) (by
      unfold ROOT_DIR_SECTOR
      omega)) ?_
    rintro r' s' ⟨-, -, d', rfl, honly, hinode, hzeros⟩ -
    -- neither write is in the free map file
    have hmap₁ : inodeDisk s₁.device FREE_MAP_SECTOR = inodeDisk s.device FREE_MAP_SECTOR :=
      inodeDisk_congr fun x hx => hstep.only x (by
        rw [hx]
        unfold extent
        rw [h.mapStart]
        unfold FREE_MAP_SECTOR
        omega)
    have hmap : inodeDisk d' FREE_MAP_SECTOR = inodeDisk s.device FREE_MAP_SECTOR := by
      rw [← hmap₁]
      apply inodeDisk_congr
      intro x hx
      apply honly
      rw [hx]
      unfold FREE_MAP_SECTOR ROOT_DIR_SECTOR
      omega
    have hstored₁ : Stored s₁.freeMap s₁.device (inodeDisk s.device FREE_MAP_SECTOR) := by
      have hlost : s₁.mapLost = false := by
        rw [(hstep.calm h.mem).2]
        exact h.mapLost
      exact (hstep.stored hlost).2 h.stored
    have hfs := hstep.fs
    refine ⟨?_, hstep.blocks, ?_, ?_, ?_, ?_, ?_, ?_, (hstep.calm h.mem).1, (hstep.calm h.mem).2.trans h.mapLost,
      hstep.freeMapFile.trans h.freeMapFile⟩
    · constructor
      case bitCnt => show s₁.freeMap.bitCnt = s₁.blocks; rw [hstep.bitCnt, hstep.blocks]; exact h.bitCnt
      case room => show 3 + mapSectors s₁.blocks ≤ s₁.blocks; rw [hstep.blocks] at hend ⊢; omega
      case marks =>
        rw [hstep.blocks, show 3 + mapSectors s.blocks = 2 + mapSectors s.blocks + 1 by omega]
        exact hmarks
      case mapStart => show (inodeDisk d' _).start = 2; rw [hmap]; exact h.mapStart
      case mapLength => show (inodeDisk d' _).length = byteCnt s₁.blocks; rw [hmap, hstep.blocks]; exact h.mapLength
      case rootStart => show (inodeDisk d' _).start = 2 + mapSectors s₁.blocks; rw [hinode, hstep.blocks]; exact hplace
      case rootLength => show (inodeDisk d' _).length = _; rw [hinode]
      case zeros =>
        intro x hx
        have hx' : x / 512 = 2 + mapSectors s₁.blocks := hx
        rw [hstep.blocks] at hx'
        exact hzeros x (by omega) (by omega)
      case stored =>
        intro j hj
        have hj' : j < s.blocks := by
          rw [← h.bitCnt, ← hstep.bitCnt]
          exact hj
        rw [← hstored₁ j hj]
        rw [hmap, h.mapStart]
        simp only [Bitmap.fileBit]
        rw [honly]
        have hbyte : j / 8 < byteCnt s.blocks := by
          rw [← h.bitCnt]
          exact Bitmap.byteCnt_ge (by rw [h.bitCnt]; exact hj')
        have hle := le_bytesToSectors (inodeDisk s.device FREE_MAP_SECTOR).length_lt
        rw [h.mapLength] at hle
        have hsectors : (byteCnt s.blocks + 511) / 512 ≤ mapSectors s.blocks := hle
        unfold ROOT_DIR_SECTOR
        omega
    · show s₁.openInodes = _; rw [hfs]; exact h.openInodes
    · show s₁.inode i = _; rw [hfs]
    · show s₁.files = _; rw [hfs]; exact h.files
    · show s₁.file f = _; rw [hfs]
    · show s₁.removed i = _; rw [hstep.removed]; exact h.removed
    · show s₁.dirs = _; rw [hstep.dirs]; exact h.dirs

/-- `free_map_close` closes the only file there is. -/
theorem freeMapClose_only (hopen : s.openInodes = [i]) (hcnt : (s.inode i).openCnt = 1)
    (hfiles : s.files = [f]) (hfile : s.file f = ⟨i, 0, false⟩) (hremoved : s.removed i = false)
    (hmap : s.freeMapFile = some f) :
    freeMapClose.Ends s fun _ s' => s'.openInodes = [] ∧ s'.files = [] ∧ s'.device = s.device ∧
      s'.freeMap = s.freeMap ∧ s'.blocks = s.blocks ∧ s'.dirs = s.dirs ∧ s'.mem = s.mem ∧ s'.mapLost = s.mapLost := by
  have hallow : Filesys.fileAllowWrite s.toFs f = some s.toFs := by
    have hderef : Filesys.deref s.toFs f = some (s.file f, s.inode i) := by
      unfold Filesys.deref
      rw [if_pos ⟨by rw [hfiles]; exact mem_cons_self, by rw [hfile, hopen]; exact mem_cons_self⟩, hfile]
    simp only [Filesys.fileAllowWrite, hderef, Option.bind_eq_bind, Option.bind_some, hfile]
    rfl
  have hclose : Filesys.inodeClose s.toFs i = some { s.toFs.setInode i
      { s.inode i with openCnt := (s.inode i).openCnt - 1 } with openInodes := [] } := by
    unfold Filesys.inodeClose
    rw [if_pos (by rw [hopen]; exact mem_cons_self)]
    simp only [hcnt, hopen, erase_cons_head]
    rfl
  apply Proc.Ends.get
  simp only [hmap]
  apply Proc.Ends.step (by rw [onFs, hallow]; rfl)
  apply Proc.Ends.get
  have hinode : (s.file f).inode = i := by rw [hfile]
  rw [hinode]
  refine .bind (Q := fun _ s' => s' = { s with toFs := { s.toFs.setInode i
    { s.inode i with openCnt := (s.inode i).openCnt - 1 } with openInodes := [] } }) ?_ ?_
  · apply Proc.Ends.get
    apply Proc.Ends.step (by rw [onFs, hclose]; rfl)
    refine .ite ?_ (fun _ => Proc.Ends.pure rfl)
    rintro ⟨-, htrue⟩
    rw [hremoved] at htrue
    cases htrue
  · rintro _ _ rfl
    refine ⟨(), _, rfl, rfl, ?_, rfl, rfl, rfl, rfl, rfl, rfl⟩
    show s.files.erase f = []
    rw [hfiles, erase_cons_head]

/-- **`do_format`** -/
theorem doFormat_spec (h : Started s s.blocks d) :
    doFormat.Safe s fun _ s' => Formatted s' ∧ s'.blocks = s.blocks ∧ s'.openInodes = [] ∧ s'.files = [] ∧ s'.dirs = [] ∧ s'.mem = [] ∧
      s'.mapLost = false := by
  refine .bind (freeMapCreate_spec h) ?_
  rintro _ s₁ ⟨hblocks₁, i, f, h₁⟩
  refine .bind (dirCreate_root h₁) ?_
  intro created s₂ hcreated
  apply Proc.Safe.assert
  intro htrue
  obtain ⟨hformatted, hblocks₂, hopen, hinode, hfiles, hfile, hremoved, hdirs, hmem, hlost, hmap⟩ := hcreated htrue
  have hcnt : (s₂.inode i).openCnt = 1 := by rw [hinode, h₁.inode]
  refine .mono (freeMapClose_only hopen hcnt hfiles (hfile.trans h₁.file) hremoved hmap).safe ?_
  rintro _ s₃ ⟨hopen₃, hfiles₃, hdev₃, hmap₃, hblocks₃, hdirs₃, hmem₃, hlost₃⟩
  refine ⟨?_, hblocks₃.trans (hblocks₂.trans hblocks₁), hopen₃, hfiles₃, hdirs₃.trans hdirs, hmem₃.trans hmem, hlost₃.trans hlost⟩
  refine hformatted.keep hdev₃ hblocks₃ ?_ ?_ ?_
  · rw [hmap₃]
    exact hformatted.bitCnt
  · intro j _
    rw [hmap₃]
  · rw [hmap₃, hdev₃]
    exact hformatted.stored

/-- **Formatting and starting** gives a device without files and a state that meets the invariant. -/
theorem filesysInit_format
    (hinit : filesysInit blocks device memory true = some s) :
    Inv s [] ∧ Formatted s ∧ s.blocks = blocks ∧ s.dirs = [] ∧ s.mapLost = false ∧ s.mem = [] ∧
      ∀ f ∈ s.files, s.freeMapFile = some f := by
  obtain ⟨s₀, hstart, hrest⟩ := Option.bind_eq_some_iff.mp hinit
  obtain ⟨⟨_, s₁⟩, hrun, heq⟩ := Option.bind_eq_some_iff.mp hrest
  obtain rfl : s₁ = s := by
    cases heq
    rfl
  obtain ⟨s₀', hstart', h₀⟩ := start_eq (start_some hstart) device memory
  obtain rfl : s₀ = s₀' := by
    rw [hstart] at hstart'
    cases hstart'
    rfl
  have hsafe : Proc.Safe (doFormat >>= fun _ => freeMapOpen) s₀ fun _ s =>
      Inv s [] ∧ Formatted s ∧ s.blocks = blocks ∧ s.dirs = [] ∧ s.mapLost = false ∧ s.mem = [] ∧
        ∀ f ∈ s.files, s.freeMapFile = some f := by
    refine .bind (doFormat_spec (s := s₀) (by rw [h₀.blocks]; exact h₀)) ?_
    rintro _ s₂ ⟨hformatted, hblocks, hopen, hfiles, hdirs, hmem, hlost⟩
    refine .mono (freeMapOpen_spec hopen hfiles hdirs hmem hformatted.bitCnt (hformatted.layout hopen)
      hformatted.stored).safe ?_
    rintro _ s₃ ⟨hinv, hdev, hblocks₃, hdirs₃, hfiles₃, hfile₃, hmem₃, hlost₃, hcnt₃, hbits₃⟩
    have hlost' := hlost₃.trans hlost
    refine ⟨hinv, hformatted.keep hdev hblocks₃ hcnt₃ hbits₃ (hinv.stored hlost'),
      hblocks₃.trans (hblocks.trans h₀.blocks), hdirs₃, hlost', hmem₃, ?_⟩
    · intro f hf
      rw [hfiles₃] at hf
      rw [List.mem_singleton.mp hf]
      exact hfile₃
  exact hsafe () s₁ hrun

end

end Volume
end Asg1
