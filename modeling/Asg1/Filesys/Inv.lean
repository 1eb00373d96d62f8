import Asg1.Filesys.Layout

/-!
# `Filesys.Inv` — the invariant of the file system

`Inv` puts together the counters of the open inodes (`Accounts`), the layout of the device, the free map file and what
is stored in it. `held` are references to inodes in local variables, so that the invariant can be followed through the
functions of `inode.c`, `directory.c` and `file.c`: each has a lemma that says what it needs and what it leaves.
`Still` is what all of them promise to the users of other files.
-/

namespace Asg1
namespace Volume

open Filesys Flat List

/-! ## Definitions -/

/-- The references in open directories. -/
def Vol.dirRefs (s : Vol) : List Addr := s.dirs.map (fun a => (s.dir a).inode)

/-- The sector of the inode of an open file. -/
def Vol.sectorOf (s : Vol) (f : Addr) : Nat := (s.inode (s.file f).inode).sector

/-- `f` is the free map file; no other open file has the inode of the free map or of the root directory. -/
structure MapFile (s : Vol) (f : Addr) : Prop where
  file : s.freeMapFile = some f
  listed : f ∈ s.files
  sector : s.sectorOf f = FREE_MAP_SECTOR
  allows : (s.file f).denyWrite = false
  others : ∀ g ∈ s.files, g ≠ f → s.sectorOf g ≠ FREE_MAP_SECTOR ∧ s.sectorOf g ≠ ROOT_DIR_SECTOR

/-- What holds of the open inodes, files and directories. -/
structure Mem (s : Vol) (held : List Addr) : Prop where
  accounts : Accounts s.toFs (held ++ s.dirRefs)
  mapFile : ∃ f, MapFile s f
  dirs_nodup : s.dirs.Nodup
  dir_root : ∀ a ∈ s.dirs, (s.inode (s.dir a).inode).sector = ROOT_DIR_SECTOR
  dir_pos : ∀ a ∈ s.dirs, (s.dir a).pos ≤ SLOTS * ENTRY_SIZE
  inode_lt : ∀ i ∈ s.openInodes, i < s.next
  file_lt : ∀ f ∈ s.files, f < s.next
  dir_lt : ∀ a ∈ s.dirs, a < s.next

/-- **The invariant of the file system.** -/
structure Inv (s : Vol) (held : List Addr) : Prop extends Mem s held where
  layout : Layout s
  stored : s.mapLost = false → Stored s.freeMap s.device (inodeDisk s.device FREE_MAP_SECTOR)

/-- The users of open files see no difference: these are the same, and what is still live is as it was. -/
structure Still (s s' : Vol) : Prop where
  blocks : s'.blocks = s.blocks
  freeMapFile : s'.freeMapFile = s.freeMapFile
  files : s'.files = s.files
  file : ∀ f < s.next, s'.file f = s.file f
  inode : ∀ i < s.next, (s'.inode i).sector = (s.inode i).sector ∧ (s'.inode i).data = (s.inode i).data
  dir : ∀ a < s.next, s'.dir a = s.dir a
  next : s.next ≤ s'.next
  live : ∀ sector, Live s' sector → Live s sector
  map : inodeDisk s'.device FREE_MAP_SECTOR = inodeDisk s.device FREE_MAP_SECTOR
  intact : ∀ sector, Live s' sector → sector ≠ FREE_MAP_SECTOR → Intact s.device s'.device sector
  calm : s.mem = [] → s'.mem = []

namespace Still

variable {s s' s'' : Vol}

theorem refl (s : Vol) : Still s s where
  blocks := rfl
  freeMapFile := rfl
  files := rfl
  file := fun _ _ => rfl
  inode := fun _ _ => ⟨rfl, rfl⟩
  dir := fun _ _ => rfl
  next := Nat.le_refl _
  live := fun _ h => h
  map := rfl
  intact := fun _ _ _ => Intact.refl
  calm := fun h => h

theorem trans (h : Still s s') (h' : Still s' s'') : Still s s'' where
  blocks := h'.blocks.trans h.blocks
  freeMapFile := h'.freeMapFile.trans h.freeMapFile
  files := h'.files.trans h.files
  file := fun f hf => (h'.file f (Nat.lt_of_lt_of_le hf h.next)).trans (h.file f hf)
  inode := by
    intro i hi
    obtain ⟨hs, hd⟩ := h.inode i hi
    obtain ⟨hs', hd'⟩ := h'.inode i (Nat.lt_of_lt_of_le hi h.next)
    exact ⟨hs'.trans hs, hd'.trans hd⟩
  dir := fun a ha => (h'.dir a (Nat.lt_of_lt_of_le ha h.next)).trans (h.dir a ha)
  next := Nat.le_trans h.next h'.next
  live := fun sector hl => h.live sector (h'.live sector hl)
  map := h'.map.trans h.map
  intact := fun sector hl hne => (h.intact sector (h'.live sector hl) hne).trans (h'.intact sector hl hne)
  calm := fun hmem => h'.calm (h.calm hmem)

end Still

section
variable {s s' : Vol} {held : List Addr}

/-- The supply of memory plays no part. -/
theorem Inv.setMem (h : Inv s held) (mem : List Bool) : Inv { s with mem } held :=
  { h with
    layout := { h.layout with }
    mapFile := by
      obtain ⟨f, hf⟩ := h.mapFile
      exact ⟨f, { hf with }⟩ }

theorem still_setMem (s : Vol) {mem : List Bool} (hmem : s.mem = [] → mem = []) : Still s { s with mem } :=
  { Still.refl s with calm := hmem }

variable {i f : Addr} {fs : Fs}

theorem Mem.listed (h : Mem s held) (hf : f ∈ s.files) : (s.file f).inode ∈ s.openInodes :=
  h.accounts.listed f hf

variable {sector x next i : Nat} {a : Addr} {data : InodeDisk} {p : Piece} {fs fs' : Fs} {dirs rest : List Addr}

theorem Mem.dir_listed (h : Mem s held) (ha : a ∈ s.dirs) : (s.dir a).inode ∈ s.openInodes :=
  h.accounts.held_listed _ (mem_append_right _ (List.mem_map_of_mem ha))

/-- The next address is not that of an open inode. -/
theorem Mem.next_closed (h : Mem s held) : s.next ∉ s.openInodes := fun hmem => Nat.lt_irrefl _ (h.inode_lt _ hmem)

/-- The free map file stays what it is, if the files and the sectors of their inodes do. -/
theorem MapFile.keep (hf : MapFile s f) (hfile : s'.freeMapFile = s.freeMapFile) (hfiles : s'.files = s.files)
    (hsector : ∀ g ∈ s.files, s'.sectorOf g = s.sectorOf g) (hdeny : (s'.file f).denyWrite = (s.file f).denyWrite) :
    MapFile s' f where
  file := hfile.trans hf.file
  listed := hfiles ▸ hf.listed
  sector := (hsector f hf.listed).trans hf.sector
  allows := hdeny.trans hf.allows
  others := by
    intro g hg hgf
    rw [hfiles] at hg
    rw [hsector g hg]
    exact hf.others g hg hgf

/-- An open file has the inode that is on the device. -/
theorem Inv.dataOf_eq (h : Inv s held) (hf : f ∈ s.files) :
    s.dataOf f = inodeDisk s.device (s.sectorOf f) := h.layout.opened _ (h.listed hf)

theorem Mem.live_file (h : Mem s held) (hf : f ∈ s.files) : Live s (s.sectorOf f) := live_open (h.listed hf)

/-- Nobody denies writes to an inode that no file with `denyWrite` has. -/
theorem not_denied (h : Accounts s.toFs held) (hi : i ∈ s.openInodes)
    (hnone : ∀ f ∈ s.files, (s.file f).inode = i → (s.file f).denyWrite = false) : (s.inode i).denyWriteCnt = 0 := by
  rw [h.denyWriteCnt i hi]
  have hzero : deniers s.toFs i = 0 := by
    apply List.countP_eq_zero.mpr
    intro f hf
    simp only [decide_eq_true_eq, not_and, Bool.not_eq_true]
    exact hnone f hf
  rw [hzero]
  rfl

/-- An open file with the inode of the free map can be written as one. -/
theorem Layout.mapOk (h : Layout s) (hfile : s.freeMapFile = some f) (hlisted : f ∈ s.files)
    (hopened : (s.file f).inode ∈ s.openInodes) (hdeny : (s.inode (s.file f).inode).denyWriteCnt = 0)
    (hsector : s.sectorOf f = FREE_MAP_SECTOR) : MapOk s f ∧ s.dataOf f = inodeDisk s.device FREE_MAP_SECTOR := by
  have hdata : s.dataOf f = inodeDisk s.device FREE_MAP_SECTOR := by
    rw [← hsector]
    exact h.opened _ hopened
  refine ⟨⟨hfile, hlisted, hopened, hdeny, ?_, ?_, h.bitCnt⟩, hdata⟩
  · rw [hdata]; exact h.fits (live_map s)
  · rw [hdata]; exact h.mapLength

/-- Nobody denies writes to the free map. -/
theorem MapFile.allowed (hf : MapFile s f) (h : Accounts s.toFs held) :
    (s.inode (s.file f).inode).denyWriteCnt = 0 := by
  apply not_denied h (h.listed f hf.listed)
  intro g hg hsame
  by_cases hgf : g = f
  · rw [hgf]
    exact hf.allows
  · have hne := (hf.others g hg hgf).1
    have hsector : s.sectorOf g = s.sectorOf f := by rw [Vol.sectorOf, hsame]; rfl
    exact absurd (hsector.trans hf.sector) hne

/-- The free map file can be written. -/
theorem Inv.mapOk (h : Inv s held) (hf : MapFile s f) : MapOk s f :=
  (h.layout.mapOk hf.file hf.listed (h.listed hf.listed) (hf.allowed h.accounts) hf.sector).1

theorem Inv.map_data (h : Inv s held) (hf : MapFile s f) : s.dataOf f = inodeDisk s.device FREE_MAP_SECTOR := by
  rw [h.dataOf_eq hf.listed, hf.sector]

/-! ## Functions of `free-map.c` -/

theorem openOk_mapStep (h : Layout s) (hstep : MapStep data s s') : OpenOk s s' := by
  intro i hi
  rw [hstep.fs] at hi ⊢
  rw [hstep.removed]
  exact h.openOk i hi

/-- The layout after a function of `free-map.c` that leaves the marks of live files. -/
theorem Layout.mapStep (h : Layout s) (hstep : MapStep (inodeDisk s.device FREE_MAP_SECTOR) s s')
    (hbits : ∀ p : Piece, Live s p.sector → ∀ x, foot s.device p x → s'.freeMap.bit x = true) :
    Layout s' ∧ Still s s' := by
  have hopen := openOk_mapStep h hstep
  have hroot : Intact s.device s'.device ROOT_DIR_SECTOR :=
    h.intact_other (live_map s) (live_root s) (by decide) hstep.only
  have hlive : ∀ sector, Live s' sector → Live s sector := fun sector hl => live_of_openOk h hopen hroot hl
  refine ⟨h.keep hstep.blocks hstep.bitCnt hopen hroot ?_ ?_, ?_⟩
  · exact fun sector hl => h.inode_same (live_map s) (hlive sector hl) hstep.only
  · exact fun p hp => hbits p (hlive _ hp)
  · constructor
    case blocks => exact hstep.blocks
    case freeMapFile => exact hstep.freeMapFile
    case files => rw [hstep.fs]
    case file => intro f _; rw [hstep.fs]
    case inode => intro i _; rw [hstep.fs]; exact ⟨rfl, rfl⟩
    case dir => intro a _; rw [hstep.dir]
    case next => exact Nat.le_of_eq hstep.next.symm
    case live => exact hlive
    case map => exact h.inode_same (live_map s) (live_map s) hstep.only
    case intact =>
      intro sector hl hne
      exact h.intact_other (live_map s) (hlive sector hl) hne hstep.only
    case calm => exact fun hmem => (hstep.calm hmem).1

/-- A function of `free-map.c` does not touch what is open. -/
theorem Mem.mapStep (h : Mem s held) (hstep : MapStep data s s') : Mem s' held := by
  have hrefs : s'.dirRefs = s.dirRefs := by rw [Vol.dirRefs, hstep.dirs, hstep.dir]; rfl
  constructor
  case accounts => rw [hstep.fs, hrefs]; exact h.accounts.setDevice _
  case mapFile =>
    obtain ⟨f, hf⟩ := h.mapFile
    refine ⟨f, hf.keep hstep.freeMapFile (by rw [hstep.fs]) ?_ (by rw [hstep.fs])⟩
    intro g _
    rw [Vol.sectorOf, hstep.fs]
    rfl
  case dirs_nodup => rw [hstep.dirs]; exact h.dirs_nodup
  case dir_root => rw [hstep.dirs, hstep.dir, hstep.fs]; exact h.dir_root
  case dir_pos => rw [hstep.dirs, hstep.dir]; exact h.dir_pos
  case inode_lt => rw [hstep.fs, hstep.next]; exact h.inode_lt
  case file_lt => rw [hstep.fs, hstep.next]; exact h.file_lt
  case dir_lt => rw [hstep.dirs, hstep.next]; exact h.dir_lt

/-- **A function of `free-map.c` keeps the invariant**, if it leaves the marks of live files. -/
theorem Inv.mapStep (h : Inv s held) (hstep : MapStep (inodeDisk s.device FREE_MAP_SECTOR) s s')
    (hbits : ∀ p : Piece, Live s p.sector → ∀ x, foot s.device p x → s'.freeMap.bit x = true) :
    Inv s' held ∧ Still s s' := by
  obtain ⟨hlayout, hstill⟩ := h.layout.mapStep hstep hbits
  refine ⟨⟨h.toMem.mapStep hstep, hlayout, ?_⟩, hstill⟩
  intro hlost
  obtain ⟨hlost', hstored⟩ := hstep.stored hlost
  rw [hstill.map]
  exact hstored (h.stored hlost')

/-- The cells of live files are marked. -/
theorem Layout.bit_foot (h : Layout s) (hp : Live s p.sector) (hx : foot s.device p x) :
    s.freeMap.bit x = true := (h.owns.cover p hp x hx).2

/-- **`free_map_allocate`** hands out sectors that nobody has, and keeps the invariant. -/
theorem Inv.freeMapAllocate (h : Inv s held) (cnt : Nat) :
    (freeMapAllocate cnt).Ends s fun r s' => Inv s' held ∧ Still s s' ∧ s'.dirs = s.dirs ∧
      MapStep (inodeDisk s.device FREE_MAP_SECTOR) s s' ∧ Allocated s s' cnt r := by
  obtain ⟨f, hf⟩ := h.mapFile
  have hspec := freeMapAllocate_spec (h.mapOk hf) cnt
  rw [h.map_data hf] at hspec
  refine hspec.mono ?_
  rintro r s' ⟨hstep, halloc⟩
  have hkept : ∀ x, s.freeMap.bit x = true → s'.freeMap.bit x = true := by
    intro x hx
    cases r with
    | none => rw [halloc.none rfl]; exact hx
    | some k =>
      rw [(halloc.some k rfl).2.2]
      split
      · rfl
      · exact hx
  obtain ⟨hinv, hstill⟩ := h.mapStep hstep (fun p hp x hx => hkept x (h.layout.bit_foot hp hx))
  exact ⟨hinv, hstill, hstep.dirs, hstep, halloc⟩

/-- **`free_map_release`** of sectors that nobody has. -/
theorem Inv.freeMapRelease (h : Inv s held) {cnt : Nat} (hset : s.freeMap.Run true sector cnt)
    (hfree : ∀ p : Piece, Live s p.sector → ∀ x, foot s.device p x → ¬ (sector ≤ x ∧ x < sector + cnt)) :
    (freeMapRelease sector cnt).Ends s fun _ s' => Inv s' held ∧ Still s s' ∧ s'.dirs = s.dirs ∧
      MapStep (inodeDisk s.device FREE_MAP_SECTOR) s s' ∧
      ∀ j, s'.freeMap.bit j = if sector ≤ j ∧ j < sector + cnt then false else s.freeMap.bit j := by
  obtain ⟨f, hf⟩ := h.mapFile
  have hspec := freeMapRelease_spec (h.mapOk hf) hset
  rw [h.map_data hf] at hspec
  refine hspec.mono ?_
  rintro _ s' ⟨hstep, hbit⟩
  obtain ⟨hinv, hstill⟩ := h.mapStep hstep (by
    intro p hp x hx
    rw [hbit, if_neg (hfree p hp x hx)]
    exact h.layout.bit_foot hp hx)
  exact ⟨hinv, hstill, hstep.dirs, hstep, hbit⟩

/-! ## Opening and closing inodes -/

theorem malloc_spec (s : Vol) :
    malloc.Ends s fun memory s' => ∃ mem, s' = { s with mem } ∧ (s.mem = [] → memory = true ∧ mem = []) := by
  unfold malloc
  cases hmem : s.mem with
  | nil =>
    refine ⟨true, s, by simp only [hmem], [], ?_, fun _ => ⟨rfl, rfl⟩⟩
    rw [← hmem]
  | cons ok mem =>
    refine ⟨ok, { s with mem }, by simp only [hmem], mem, rfl, ?_⟩
    intro h
    cases h

/-- The inode of a sector, in memory or not, is the one on the device. -/
theorem Layout.dataOf_format (h : Layout s) (sector : Nat) :
    dataOf format s.toFs sector = inodeDisk s.device sector := by
  unfold dataOf
  cases hfind : s.openInodes.find? (fun i => (s.inode i).sector = sector) with
  | none => rfl
  | some i =>
    have hi := mem_of_find?_eq_some hfind
    have hsector : (s.inode i).sector = sector := by simpa using find?_some hfind
    rw [← hsector]
    exact h.opened i hi

/-- Only the open inodes change: the layout stays if they are on the device, and users see no difference. -/
theorem Layout.setFs (h : Layout s) {removed : Addr → Bool} (hdev : fs.device = s.device)
    (hopen : OpenOk s { s with toFs := fs, removed, next }) (hfiles : fs.files = s.files) (hfile : fs.file = s.file)
    (hinode : ∀ j < s.next, (fs.inode j).sector = (s.inode j).sector ∧ (fs.inode j).data = (s.inode j).data)
    (hnext : s.next ≤ next) :
    Layout { s with toFs := fs, removed, next } ∧ Still s { s with toFs := fs, removed, next } := by
  have hintact : ∀ sector, Intact s.device fs.device sector := by
    intro k
    rw [hdev]
    exact Intact.refl
  have hlive : ∀ k, Live { s with toFs := fs, removed, next } k → Live s k :=
    fun k hk => live_of_openOk h hopen (hintact _) hk
  refine ⟨h.keep rfl rfl hopen (hintact _) (fun k _ => (hintact k).inode)
    (fun p hp x hx => h.bit_foot (hlive _ hp) hx), ?_⟩
  constructor
  case blocks => rfl
  case freeMapFile => rfl
  case files => exact hfiles
  case file => intro f _; rw [hfile]
  case inode => exact hinode
  case dir => exact fun _ _ => rfl
  case next => exact hnext
  case live => exact hlive
  case map => exact (hintact _).inode
  case intact => exact fun k _ _ => hintact k
  case calm => exact fun hmem => hmem

/-- The invariant after an inode has been opened, and what users see of it. -/
theorem Inv.opened (h : Inv s held) (removed : Addr → Bool)
    (hlive : Live s sector) (hacc : Accounts fs (i :: (held ++ s.dirRefs)))
    (ho : Opened format s.toFs fs sector s.next i) (hinode : ∀ j < s.next, (fs.inode j).sector = (s.inode j).sector ∧
      (fs.inode j).data = (s.inode j).data) (hnext : s.next ≤ next) (hi : i < next)
    (hremoved : ∀ x ∈ s.openInodes, removed x = s.removed x) (hnew : i ∉ s.openInodes → removed i = false) :
    Inv { s with toFs := fs, removed, next } (i :: held) ∧ Still s { s with toFs := fs, removed, next } := by
  have hdev : fs.device = s.device := ho.keeps.device
  have hopen : OpenOk s { s with toFs := fs, removed, next } := by
    intro x hx
    by_cases hold : x ∈ s.openInodes
    · obtain ⟨hl, hd, hr⟩ := h.layout.openOk x hold
      obtain ⟨-, hsector, hdata⟩ := ho.old x hold
      show Live s (fs.inode x).sector ∧ (fs.inode x).data = inodeDisk s.device (fs.inode x).sector ∧
        (removed x = true → _)
      rw [hsector, hdata, hremoved x hold]
      exact ⟨hl, hd, hr⟩
    · have hxi : x = i := (ho.new x hx).resolve_right hold
      subst hxi
      show Live s (fs.inode x).sector ∧ (fs.inode x).data = inodeDisk s.device (fs.inode x).sector ∧
        (removed x = true → _)
      rw [ho.sector, ho.data, h.layout.dataOf_format, hnew hold]
      exact ⟨hlive, rfl, fun hfalse => by cases hfalse⟩
  have hsectorOf : ∀ f ∈ s.files, (fs.inode (fs.file f).inode).sector = s.sectorOf f := by
    intro f hf
    rw [ho.keeps.file]
    exact (ho.old _ (h.listed hf)).2.1
  obtain ⟨hlayout, hstill⟩ := h.layout.setFs hdev hopen ho.keeps.files ho.keeps.file hinode hnext
  refine ⟨⟨?_, hlayout, ?_⟩, hstill⟩
  · constructor
    case accounts => exact hacc
    case mapFile =>
      obtain ⟨f, hf⟩ := h.mapFile
      exact ⟨f, hf.keep rfl ho.keeps.files hsectorOf (by rw [ho.keeps.file])⟩
    case dirs_nodup => exact h.dirs_nodup
    case dir_root => exact fun a ha => ((ho.old _ (h.dir_listed ha)).2.1).trans (h.dir_root a ha)
    case dir_pos => exact h.dir_pos
    case inode_lt =>
      intro x hx
      rcases ho.new x hx with rfl | hold
      · exact hi
      · exact Nat.lt_of_lt_of_le (h.inode_lt x hold) hnext
    case file_lt =>
      intro f hf
      rw [ho.keeps.files] at hf
      exact Nat.lt_of_lt_of_le (h.file_lt f hf) hnext
    case dir_lt => exact fun a ha => Nat.lt_of_lt_of_le (h.dir_lt a ha) hnext
  · intro hlost
    rw [hdev]
    exact h.stored hlost

/-- The other inodes are not touched by `inode_open`. -/
theorem inodeOpen_inode (fs : Fs) (sector a j : Nat) (hj : j < a) :
    ((Filesys.inodeOpen format fs sector a).1.inode j).sector = (fs.inode j).sector ∧
      ((Filesys.inodeOpen format fs sector a).1.inode j).data = (fs.inode j).data := by
  unfold Filesys.inodeOpen
  cases fs.openInodes.find? (fun i => (fs.inode i).sector = sector) with
  | some i =>
    simp only [Fs.setInode]
    split
    · rename_i hji
      rw [hji]
      exact ⟨rfl, rfl⟩
    · exact ⟨rfl, rfl⟩
  | none =>
    simp only [Fs.setInode]
    rw [if_neg (Nat.ne_of_lt hj)]
    exact ⟨rfl, rfl⟩

theorem isOpen_iff (fs : Fs) (sector : Nat) :
    isOpen fs sector = true ↔ ∃ i ∈ fs.openInodes, (fs.inode i).sector = sector := by
  unfold isOpen
  simp

/-- Where `inode_open` puts an inode. -/
theorem inodeOpen_fst {a : Nat} (h : Filesys.inodeOpen format fs sector a = (fs', i)) :
    (isOpen fs sector = true → i ∈ fs.openInodes ∧ fs'.openInodes = fs.openInodes) ∧
      (isOpen fs sector = false → i = a ∧ fs'.openInodes = a :: fs.openInodes) := by
  unfold Filesys.inodeOpen at h
  cases hfind : fs.openInodes.find? (fun i => (fs.inode i).sector = sector) with
  | some j =>
    rw [hfind] at h
    cases h
    have hj := mem_of_find?_eq_some hfind
    have hsector : (fs.inode i).sector = sector := by simpa using find?_some hfind
    refine ⟨fun _ => ⟨hj, rfl⟩, ?_⟩
    intro hclosed
    have hopen := (isOpen_iff fs sector).mpr ⟨i, hj, hsector⟩
    rw [hclosed] at hopen
    cases hopen
  | none =>
    rw [hfind] at h
    cases h
    refine ⟨?_, fun _ => ⟨rfl, rfl⟩⟩
    intro hopen
    obtain ⟨j, hj, hsector⟩ := (isOpen_iff fs sector).mp hopen
    have hne := List.find?_eq_none.mp hfind j hj
    simp [hsector] at hne

/-- **`inode_open`** of a live sector. -/
theorem Inv.inodeOpen (h : Inv s held) (hlive : Live s sector) :
    (inodeOpen sector).Ends s fun r s' => Still s s' ∧ s'.dirs = s.dirs ∧ s'.dir = s.dir ∧
      s'.device = s.device ∧ s'.freeMap = s.freeMap ∧ s'.mapLost = s.mapLost ∧
      (s'.openInodes = s.openInodes ∨ s'.openInodes = s.next :: s.openInodes) ∧
      (r = none → Inv s' held ∧ s.mem ≠ []) ∧
      ∀ i, r = some i → Inv s' (i :: held) ∧ (s'.inode i).sector = sector := by
  have hnext := h.next_closed
  obtain ⟨fs, i, hopen, hacc, ho⟩ := h.accounts.inodeOpen format sector hnext
  obtain ⟨hyes, hno⟩ := inodeOpen_fst hopen
  have hinode := inodeOpen_inode s.toFs sector s.next
  rw [hopen] at hinode
  apply Proc.Ends.get
  refine .ite ?_ ?_
  · intro hfound
    obtain ⟨hi, hlist⟩ := hyes hfound
    simp only [hopen]
    apply Proc.Ends.set
    obtain ⟨hinv, hstill⟩ := h.opened s.removed hlive hacc ho (fun j hj => hinode j hj) (Nat.le_refl _)
      (h.inode_lt i hi) (fun _ _ => rfl) (fun hnot => absurd hi hnot)
    refine .pure ⟨hstill, rfl, rfl, ho.keeps.device, rfl, rfl, .inl hlist, ?_, ?_⟩
    · intro hnone
      cases hnone
    · intro j hj
      cases hj
      exact ⟨hinv, ho.sector⟩
  · intro hfound
    obtain ⟨hia, hlist⟩ := hno (by simpa using hfound)
    refine .bind (malloc_spec s) ?_
    rintro memory _ ⟨mem, rfl, hcalm⟩
    refine .ite ?_ ?_
    · intro _
      have hblocks : sector < s.blocks := (h.layout.owns.cover (.header sector) hlive sector rfl).1
      apply Proc.Ends.assert hblocks
      apply Proc.Ends.step rfl
      apply Proc.Ends.modify
      have hfs : (Filesys.inodeOpen format s.toFs sector s.next).1 = fs := by rw [hopen]
      simp only [hfs]
      subst hia
      obtain ⟨hinv, hstill⟩ := h.opened (fun j => if j = s.next then false else s.removed j) hlive hacc ho
        (fun j hj => hinode j hj) (Nat.le_succ _) (Nat.lt_succ_self _)
        (fun x hx => if_neg (by rintro rfl; exact hnext hx)) (fun _ => if_pos rfl)
      refine .pure ⟨hstill.trans (still_setMem _ ?_), rfl, rfl, ho.keeps.device, rfl, rfl, .inr hlist, ?_,
        ?_⟩
      · exact fun hmem => (hcalm hmem).2
      · intro hnone
        cases hnone
      · intro j hj
        cases hj
        exact ⟨hinv.setMem mem, ho.sector⟩
    · intro hnone
      refine .pure ⟨still_setMem s fun hmem => (hcalm hmem).2, rfl, rfl, rfl, rfl, rfl, .inl rfl, ?_, ?_⟩
      · intro _
        refine ⟨h.setMem mem, ?_⟩
        intro hmem
        exact hnone (hcalm hmem).1
      · intro j hj
        cases hj

/-- Opening the sector of an inode that is open. -/
theorem inodeOpen_listed (h : Accounts s.toFs held) (hi : i ∈ s.openInodes) (a : Addr) :
    Filesys.inodeOpen format s.toFs (s.inode i).sector a =
      (s.toFs.setInode i { s.inode i with openCnt := (s.inode i).openCnt + 1 }, i) := by
  unfold Filesys.inodeOpen
  cases hfind : s.openInodes.find? (fun j => (s.inode j).sector = (s.inode i).sector) with
  | none => simpa using List.find?_eq_none.mp hfind i hi
  | some j =>
    have hsector : (s.inode j).sector = (s.inode i).sector := by simpa using find?_some hfind
    obtain rfl : j = i := h.sector_inj j (mem_of_find?_eq_some hfind) i hi hsector
    rfl

/-- **`inode_reopen`** -/
theorem Inv.inodeReopen (h : Inv s held) (hi : i ∈ s.openInodes) :
    (inodeReopen i).Ends s fun r s' => r = some i ∧ Inv s' (i :: held) ∧ Still s s' ∧ s'.dirs = s.dirs ∧
      s'.device = s.device ∧ s'.mem = s.mem ∧ (s'.inode i).sector = (s.inode i).sector := by
  have hnext := h.next_closed
  have heq := inodeOpen_listed h.accounts hi s.next
  obtain ⟨fs, j, hopen, hacc, ho⟩ := h.accounts.inodeOpen format (s.inode i).sector hnext
  have hinode := inodeOpen_inode s.toFs (s.inode i).sector s.next
  rw [hopen] at hinode heq
  cases heq
  obtain ⟨hinv, hstill⟩ := h.opened s.removed (live_open hi) hacc ho (fun j hj => hinode j hj) (Nat.le_refl _)
    (h.inode_lt i hi) (fun _ _ => rfl) (fun hnot => absurd hi hnot)
  apply Proc.Ends.get
  apply Proc.Ends.assert hi
  apply Proc.Ends.set
  exact .pure ⟨rfl, hinv, hstill, rfl, rfl, rfl, ho.sector⟩

/-- What `inode_close` does to the lists. -/
theorem inodeClose_fs (h : Filesys.inodeClose fs i = some fs') :
    i ∈ fs.openInodes ∧ fs'.device = fs.device ∧ fs'.files = fs.files ∧ fs'.file = fs.file ∧ fs'.closed = fs.closed ∧
      fs'.openInodes = if (fs.inode i).openCnt - 1 = 0 then fs.openInodes.erase i else fs.openInodes := by
  unfold Filesys.inodeClose at h
  split at h
  · rename_i hi
    simp only at h
    split at h
    · rename_i hlast
      cases h
      exact ⟨hi, rfl, rfl, rfl, rfl, (if_pos hlast).symm⟩
    · rename_i hlast
      cases h
      exact ⟨hi, rfl, rfl, rfl, rfl, (if_neg hlast).symm⟩
  · cases h

/-- Pieces of what is still live were pieces before. -/
theorem Still.foot (h : Still s s') (hp : Live s' p.sector) (hx : foot s'.device p x) : Volume.foot s.device p x := by
  cases p with
  | header sector => exact hx
  | contents sector =>
    have hinode : inodeDisk s'.device sector = inodeDisk s.device sector := by
      by_cases hmap : sector = FREE_MAP_SECTOR
      · rw [hmap]
        exact h.map
      · exact (h.intact sector hp hmap).inode
    show extent (inodeDisk s.device sector) x
    rw [← hinode]
    exact hx

/-- An inode is dropped from the list, or only its counter changes: the layout stays. -/
theorem Layout.closed (h : Layout s) (hclose : Filesys.inodeClose s.toFs i = some fs) :
    Layout { s with toFs := fs } ∧ Still s { s with toFs := fs } := by
  obtain ⟨-, hdev, hfiles, hfile, -, hlist⟩ := inodeClose_fs hclose
  have hinode := inodeClose_inode hclose
  have hsub : ∀ x ∈ fs.openInodes, x ∈ s.openInodes := by
    intro x hx
    rw [hlist] at hx
    split at hx
    · exact mem_of_mem_erase hx
    · exact hx
  have hopen : OpenOk s { s with toFs := fs } := by
    intro x hx
    have hx' := h.openOk x (hsub x hx)
    show Live s (fs.inode x).sector ∧ (fs.inode x).data = inodeDisk s.device (fs.inode x).sector ∧
      (s.removed x = true → _)
    rw [(hinode x).1, (hinode x).2.1]
    exact hx'
  exact h.setFs hdev hopen hfiles hfile (fun x _ => ⟨(hinode x).1, (hinode x).2.1⟩) (Nat.le_refl _)

section
variable (h : Layout s) (hnodup : s.openInodes.Nodup)
  (hinj : ∀ x ∈ s.openInodes, ∀ y ∈ s.openInodes, (s.inode x).sector = (s.inode y).sector → x = y)
  (hclose : Filesys.inodeClose s.toFs i = some fs)
include h hnodup hinj hclose

/-- The last reference to a removed inode is gone, and nothing has its sectors any more. -/
theorem Layout.gone (hlast : (s.inode i).openCnt - 1 = 0)
    (hremoved : s.removed i = true) : ¬ Live { s with toFs := fs } (s.inode i).sector := by
  obtain ⟨hi, hdev, -, -, -, hlist⟩ := inodeClose_fs hclose
  obtain ⟨hmap, hroot, hslot⟩ := h.removed i hi hremoved
  rw [if_pos hlast] at hlist
  rintro (hl | hl | ⟨k, hk⟩ | ⟨x, hx, hsector⟩)
  · exact hmap hl
  · exact hroot hl
  · have hk' : Uses fs.device k (s.inode i).sector := hk
    rw [hdev] at hk'
    exact hslot k hk'
  · have hx' : x ∈ fs.openInodes := hx
    rw [hlist] at hx'
    obtain ⟨hne, hx'⟩ := hnodup.mem_erase_iff.mp hx'
    have hsector' : (fs.inode x).sector = (s.inode i).sector := hsector
    rw [(inodeClose_inode hclose x).1] at hsector'
    exact hne (hinj x hx' i hi hsector')

/-- **`inode_close`** keeps the layout; the sectors of a removed file are released with its last reference. -/
theorem inodeClose_layout (hmap : s.removed i = true → ∃ f, MapOk { s with toFs := fs } f ∧
      Vol.dataOf { s with toFs := fs } f = inodeDisk s.device FREE_MAP_SECTOR) :
    (inodeClose (some i)).Ends s fun _ s' =>
      MapStep (inodeDisk s.device FREE_MAP_SECTOR) { s with toFs := fs } s' ∧ Layout s' ∧ Still s s' ∧
      (s.removed i = false → s' = { s with toFs := fs }) := by
  obtain ⟨hi, hdev, -⟩ := inodeClose_fs hclose
  obtain ⟨hlayout₁, hstill₁⟩ := h.closed hclose
  apply Proc.Ends.get
  apply Proc.Ends.step (by rw [onFs, hclose]; rfl)
  refine .ite ?_ ?_
  · rintro ⟨hlast, hremoved⟩
    obtain ⟨f, hok₁, hdata₁⟩ := hmap hremoved
    set sector := (s.inode i).sector with hsector
    have hlive : Live s sector := live_open hi
    have hdata : (s.inode i).data = inodeDisk s.device sector := h.opened i hi
    have hgone := h.gone hnodup hinj hclose hlast hremoved
    -- what is live after the inode has been dropped has no cell of the file
    have hapart : ∀ p : Piece, Live { s with toFs := fs } p.sector → ∀ x, Volume.foot s.device p x →
        x ≠ sector ∧ ¬ extent (inodeDisk s.device sector) x := by
      intro p hp x hx
      have hne : p.sector ≠ sector := by
        intro heq
        rw [heq] at hp
        exact hgone hp
      refine ⟨?_, ?_⟩
      · rintro rfl
        exact hne (congrArg Piece.sector (h.owns.disjoint p (hstill₁.live _ hp) (.header _) hlive _ hx rfl))
      · intro hin
        exact hne (congrArg Piece.sector (h.owns.disjoint p (hstill₁.live _ hp) (.contents sector) hlive x hx hin))
    have hspec₁ := freeMapRelease_spec hok₁ (h.run_header hlive)
    rw [hdata₁] at hspec₁
    refine .bind hspec₁ ?_
    rintro _ s₂ ⟨hstep₂, hbit₂⟩
    have hmapdisk : inodeDisk fs.device FREE_MAP_SECTOR = inodeDisk s.device FREE_MAP_SECTOR := by rw [hdev]
    have hstep₂' : MapStep (inodeDisk fs.device FREE_MAP_SECTOR) { s with toFs := fs } s₂ := by
      rw [hmapdisk]
      exact hstep₂
    obtain ⟨hlayout₂, hstill₂⟩ := hlayout₁.mapStep hstep₂' (by
      intro p hp x hx
      have hx' := hstill₁.foot hp hx
      rw [hbit₂, if_neg (by have := (hapart p hp x hx').1; omega)]
      exact h.bit_foot (hstill₁.live _ hp) hx')
    -- the contents are still marked
    have hrun : s₂.freeMap.Run true (s.inode i).data.start (bytesToSectors (s.inode i).data.length) := by
      rw [hdata]
      obtain ⟨hle, hset⟩ := h.run_extent hlive
      refine ⟨by rw [hstep₂.bitCnt]; exact hle, ?_⟩
      intro j hj hlt
      have hne : j ≠ sector := by
        rintro rfl
        exact h.header_free hlive hlive ⟨hj, hlt⟩
      rw [hbit₂, if_neg (by omega)]
      exact hset j hj hlt
    have hdata₂ : s₂.dataOf f = inodeDisk s.device FREE_MAP_SECTOR := by
      rw [Vol.dataOf, hstep₂.fs]
      exact hdata₁
    have hspec₂ := freeMapRelease_spec (hstep₂.mapOk hok₁) hrun
    rw [hdata₂] at hspec₂
    refine hspec₂.mono ?_
    rintro _ s₃ ⟨hstep₃, hbit₃⟩
    have hstep₃' : MapStep (inodeDisk s₂.device FREE_MAP_SECTOR) s₂ s₃ := by
      rw [hstill₂.map, hmapdisk]
      exact hstep₃
    obtain ⟨hlayout₃, hstill₃⟩ := hlayout₂.mapStep hstep₃' (by
      intro p hp x hx
      have hx' := hstill₁.foot (hstill₂.live _ hp) (hstill₂.foot hp hx)
      have hout : ¬ ((s.inode i).data.start ≤ x ∧ x < (s.inode i).data.start + bytesToSectors (s.inode i).data.length) := by
        rw [hdata]
        exact (hapart p (hstill₂.live _ hp) x hx').2
      rw [hbit₃, if_neg hout]
      exact hlayout₂.bit_foot hp hx)
    refine ⟨hstep₂.trans hstep₃, hlayout₃, hstill₁.trans (hstill₂.trans hstill₃), ?_⟩
    intro hkept
    rw [hremoved] at hkept
    cases hkept
  · intro _
    exact .pure ⟨MapStep.refl, hlayout₁, hstill₁, fun _ => rfl⟩

end

/-- What is open after an inode has been closed, and perhaps a directory with it. -/
theorem Mem.closed {held' : List Addr} (h : Mem s held)
    (hclose : Filesys.inodeClose s.toFs i = some fs) (hdirs : dirs.Sublist s.dirs)
    (hacc : Accounts fs (held' ++ dirs.map (fun a => (s.dir a).inode))) : Mem { s with toFs := fs, dirs } held' := by
  obtain ⟨-, -, hfiles, hfile, -, hlist⟩ := inodeClose_fs hclose
  have hinode := inodeClose_inode hclose
  have hsectorOf : ∀ f, (fs.inode (fs.file f).inode).sector = s.sectorOf f := by
    intro f
    rw [hfile]
    exact (hinode _).1
  constructor
  case accounts => exact hacc
  case mapFile =>
    obtain ⟨f, hf⟩ := h.mapFile
    exact ⟨f, hf.keep rfl hfiles (fun g _ => hsectorOf g) (by rw [hfile])⟩
  case dirs_nodup => exact h.dirs_nodup.sublist hdirs
  case dir_root => exact fun a ha => ((hinode _).1).trans (h.dir_root a (hdirs.subset ha))
  case dir_pos => exact fun a ha => h.dir_pos a (hdirs.subset ha)
  case inode_lt =>
    intro x hx
    rw [hlist] at hx
    split at hx
    · exact h.inode_lt x (mem_of_mem_erase hx)
    · exact h.inode_lt x hx
  case file_lt =>
    intro f hf
    rw [hfiles] at hf
    exact h.file_lt f hf
  case dir_lt => exact fun a ha => h.dir_lt a (hdirs.subset ha)

/-- `inode_close` of a reference that `rest` does not need. -/
theorem Inv.closing (h : Inv s held) (hacc : Accounts s.toFs (i :: rest)) :
    (inodeClose (some i)).Ends s fun _ s' => ∃ fs, Filesys.inodeClose s.toFs i = some fs ∧ Accounts fs rest ∧
      MapStep (inodeDisk s.device FREE_MAP_SECTOR) { s with toFs := fs } s' ∧ Layout s' ∧ Still s s' ∧
      (s'.mapLost = false → Stored s'.freeMap s'.device (inodeDisk s'.device FREE_MAP_SECTOR)) ∧
      (s.removed i = false → s' = { s with toFs := fs }) := by
  obtain ⟨fs, hclose, hacc', hkeeps, -⟩ := hacc.inodeClose
  have hinode := inodeClose_inode hclose
  obtain ⟨f, hf⟩ := h.mapFile
  obtain ⟨hlayout₁, -⟩ := h.layout.closed hclose
  have hmap : ∃ f, MapOk { s with toFs := fs } f ∧
      Vol.dataOf { s with toFs := fs } f = inodeDisk s.device FREE_MAP_SECTOR := by
    have hlisted : f ∈ fs.files := by
      rw [hkeeps.files]
      exact hf.listed
    have hok := hlayout₁.mapOk (f := f) hf.file hlisted (hacc'.listed f hlisted) (by
      rw [hkeeps.file, (hinode _).2.2]
      exact hf.allowed h.accounts) (by
      show (fs.inode (fs.file f).inode).sector = _
      rw [hkeeps.file, (hinode _).1]
      exact hf.sector)
    refine ⟨f, hok.1, hok.2.trans ?_⟩
    rw [hkeeps.device]
  refine (inodeClose_layout h.layout hacc.nodup hacc.sector_inj hclose (fun _ => hmap)).mono ?_
  rintro _ s' ⟨hstep, hlayout, hstill, hkept⟩
  refine ⟨fs, hclose, hacc', hstep, hlayout, hstill, ?_, hkept⟩
  intro hlost
  obtain ⟨hlost', hstored⟩ := hstep.stored hlost
  rw [hstill.map]
  apply hstored
  rw [hkeeps.device]
  exact h.stored hlost'

/-- **`inode_close`** gives a reference back. -/
theorem Inv.inodeClose (h : Inv s (i :: held)) :
    (inodeClose (some i)).Ends s fun _ s' => Inv s' held ∧ Still s s' ∧ s'.dirs = s.dirs ∧ s'.dir = s.dir := by
  refine (h.closing h.accounts).mono ?_
  rintro _ s' ⟨fs, hclose, hacc, hstep, hlayout, hstill, hstored, -⟩
  have hmem : Mem { s with toFs := fs } held := h.toMem.closed hclose (List.Sublist.refl _) hacc
  exact ⟨⟨hmem.mapStep hstep, hlayout, hstored⟩, hstill, hstep.dirs, hstep.dir⟩

/-! ## Directories -/

/-- What is left of a list after an element may have been put in front and another may have been dropped. -/
def Relisted (n : Addr) (l l' : List Addr) : Prop := ∃ l₁ i, (l₁ = l ∨ l₁ = n :: l) ∧ (l' = l₁ ∨ l' = l₁.erase i)

/-- `inode_close` of a reference to the root directory, which is never removed. -/
theorem Inv.closing_root (h : Inv s held) (hacc : Accounts s.toFs (i :: rest))
    (hroot : (s.inode i).sector = ROOT_DIR_SECTOR) :
    (Volume.inodeClose (some i)).Ends s fun _ s' => ∃ fs, s' = { s with toFs := fs } ∧
      Filesys.inodeClose s.toFs i = some fs ∧ Accounts fs rest ∧ Layout s' ∧ Still s s' ∧
      (s'.mapLost = false → Stored s'.freeMap s'.device (inodeDisk s'.device FREE_MAP_SECTOR)) ∧
      (s'.openInodes = s.openInodes ∨ s'.openInodes = s.openInodes.erase i) := by
  refine (h.closing hacc).mono ?_
  rintro _ s' ⟨fs, hclose, hacc', -, hlayout, hstill, hstored, hkept⟩
  obtain ⟨hi, -, -, -, -, hlist⟩ := inodeClose_fs hclose
  have hremoved : s.removed i = false := by
    by_contra htrue
    exact (h.layout.removed i hi (by simpa using htrue)).2.1 hroot
  have hs' := hkept hremoved
  refine ⟨fs, hs', hclose, hacc', hlayout, hstill, hstored, ?_⟩
  rw [hs', hlist]
  split
  · exact .inr rfl
  · exact .inl rfl

/-- **`dir_open`** turns a reference into an open directory, or gives it back. -/
theorem Inv.dirOpen (h : Inv s (i :: held)) (hroot : (s.inode i).sector = ROOT_DIR_SECTOR) :
    (dirOpen (some i)).Ends s fun r s' => Inv s' held ∧ Still s s' ∧ s'.freeMap = s.freeMap ∧ s'.mapLost = s.mapLost ∧
      (r = none → s'.dirs = s.dirs ∧ s.mem ≠ [] ∧
        (s'.openInodes = s.openInodes ∨ s'.openInodes = s.openInodes.erase i)) ∧
      ∀ a, r = some a → a = s.next ∧ s'.dirs = a :: s.dirs ∧ s'.device = s.device ∧ s'.openInodes = s.openInodes := by
  refine .bind (malloc_spec s) ?_
  rintro memory _ ⟨mem, rfl, hcalm⟩
  cases memory with
  | true =>
    apply Proc.Ends.step rfl
    apply Proc.Ends.modify
    have hfresh : s.next ∉ s.dirs := fun hmem => Nat.lt_irrefl _ (h.dir_lt _ hmem)
    have hdir : ∀ b ∈ s.dirs, (if b = s.next then ⟨i, 0⟩ else s.dir b : Dir) = s.dir b := by
      intro b hb
      rw [if_neg (by rintro rfl; exact hfresh hb)]
    have hrefs : (s.next :: s.dirs).map (fun b => (if b = s.next then ⟨i, 0⟩ else s.dir b : Dir).inode) =
        i :: s.dirRefs := by
      rw [map_cons, if_pos rfl]
      congr 1
      apply map_congr_left
      intro b hb
      rw [hdir b hb]
    refine .pure ⟨⟨?_, ?_, h.stored⟩, ?_, rfl, rfl, ?_, ?_⟩
    · constructor
      case accounts =>
        rw [Vol.dirRefs, hrefs]
        exact h.accounts.perm List.perm_middle.symm
      case mapFile =>
        obtain ⟨f, hf⟩ := h.mapFile
        exact ⟨f, { hf with }⟩
      case dirs_nodup => exact List.nodup_cons.mpr ⟨hfresh, h.dirs_nodup⟩
      case dir_root =>
        intro b hb
        rcases List.mem_cons.mp hb with rfl | hb
        · show (s.inode (if s.next = s.next then ⟨i, 0⟩ else s.dir s.next : Dir).inode).sector = _
          rw [if_pos rfl]
          exact hroot
        · show (s.inode (if b = s.next then ⟨i, 0⟩ else s.dir b : Dir).inode).sector = _
          rw [hdir b hb]
          exact h.dir_root b hb
      case dir_pos =>
        intro b hb
        rcases List.mem_cons.mp hb with rfl | hb
        · show (if s.next = s.next then ⟨i, 0⟩ else s.dir s.next : Dir).pos ≤ _
          rw [if_pos rfl]
          exact Nat.zero_le _
        · show (if b = s.next then ⟨i, 0⟩ else s.dir b : Dir).pos ≤ _
          rw [hdir b hb]
          exact h.dir_pos b hb
      case inode_lt => exact fun x hx => Nat.lt_succ_of_lt (h.inode_lt x hx)
      case file_lt => exact fun f hf => Nat.lt_succ_of_lt (h.file_lt f hf)
      case dir_lt =>
        intro b hb
        rcases List.mem_cons.mp hb with rfl | hb
        · exact Nat.lt_succ_self _
        · exact Nat.lt_succ_of_lt (h.dir_lt b hb)
    · exact { h.layout with }
    · exact
        { Still.refl s with
          dir := fun b hb => if_neg (Nat.ne_of_lt hb)
          next := Nat.le_succ _
          calm := fun hmem => (hcalm hmem).2 }
    · intro hnone
      cases hnone
    · intro a ha
      cases ha
      exact ⟨rfl, rfl, rfl, rfl⟩
  | false =>
    refine .bind ((h.setMem mem).closing_root h.accounts hroot) ?_
    rintro _ _ ⟨fs, rfl, hclose, hacc, hlayout, hstill, hstored, hlist⟩
    have hmem := (h.setMem mem).toMem.closed hclose (List.Sublist.refl _) hacc
    refine .pure ⟨⟨hmem, hlayout, hstored⟩, (still_setMem s fun hmem => (hcalm hmem).2).trans hstill, rfl, rfl,
      ?_, ?_⟩
    · intro _
      refine ⟨rfl, ?_, hlist⟩
      intro hmem
      exact absurd (hcalm hmem).1 (by decide)
    · intro a ha
      cases ha

/-- **`dir_open_root`** -/
theorem Inv.dirOpenRoot (h : Inv s held) :
    dirOpenRoot.Ends s fun r s' => Inv s' held ∧ Still s s' ∧ s'.freeMap = s.freeMap ∧ s'.mapLost = s.mapLost ∧
      (r = none → s'.dirs = s.dirs ∧ s.mem ≠ [] ∧ Relisted s.next s.openInodes s'.openInodes) ∧
      ∀ a, r = some a → a ∈ s'.dirs ∧ s'.dirs.erase a = s.dirs ∧ s'.device = s.device ∧
        (s'.openInodes = s.openInodes ∨ s'.openInodes = s.next :: s.openInodes) := by
  refine .bind (h.inodeOpen (live_root s)) ?_
  rintro r s₁ ⟨hstill₁, hdirs₁, -, hdev₁, hmap₁, hlost₁, hlist₁, hnone, hsome⟩
  cases r with
  | some i =>
    obtain ⟨hinv₁, hroot⟩ := hsome i rfl
    refine (hinv₁.dirOpen hroot).mono ?_
    rintro r s₂ ⟨hinv₂, hstill₂, hmap₂, hlost₂, hnone₂, hsome₂⟩
    refine ⟨hinv₂, hstill₁.trans hstill₂, hmap₂.trans hmap₁, hlost₂.trans hlost₁, ?_, ?_⟩
    · intro hr
      obtain ⟨hdirs₂, hmem, hlist₂⟩ := hnone₂ hr
      exact ⟨hdirs₂.trans hdirs₁, fun h0 => hmem (hstill₁.calm h0), _, i, hlist₁, hlist₂⟩
    · intro a ha
      obtain ⟨rfl, hdirs₂, hdev₂, hlist₂⟩ := hsome₂ a ha
      rw [hdirs₂, hdirs₁, hlist₂]
      exact ⟨mem_cons_self, erase_cons_head _ _, hdev₂.trans hdev₁, hlist₁⟩
  | none =>
    obtain ⟨hinv₁, hmem⟩ := hnone rfl
    refine .bind (malloc_spec s₁) ?_
    rintro memory _ ⟨mem, rfl, hcalm⟩
    apply Proc.Ends.step rfl
    refine .pure ⟨hinv₁.setMem mem, hstill₁.trans (still_setMem s₁ fun h0 => (hcalm h0).2), hmap₁, hlost₁, ?_, ?_⟩
    · exact fun _ => ⟨hdirs₁, hmem, _, 0, hlist₁, .inl rfl⟩
    · intro a ha
      cases ha

/-- **`dir_reopen`** -/
theorem Inv.dirReopen (h : Inv s held) (ha : a ∈ s.dirs) :
    (dirReopen a).Ends s fun r s' => Inv s' held ∧ Still s s' ∧ (r = none → s'.dirs = s.dirs ∧ s.mem ≠ []) ∧
      ∀ b, r = some b → s.next ≤ b ∧ s'.dirs = b :: s.dirs := by
  apply Proc.Ends.get
  apply Proc.Ends.assert ha
  refine .bind (h.inodeReopen (h.dir_listed ha)) ?_
  rintro _ s₁ ⟨rfl, hinv₁, hstill₁, hdirs₁, -, hmem₁, hsector₁⟩
  refine (hinv₁.dirOpen (hsector₁.trans (h.dir_root a ha))).mono ?_
  rintro r s₂ ⟨hinv₂, hstill₂, -, -, hnone₂, hsome₂⟩
  refine ⟨hinv₂, hstill₁.trans hstill₂, ?_, ?_⟩
  · intro hr
    obtain ⟨hdirs₂, hmem₂, -⟩ := hnone₂ hr
    rw [hmem₁] at hmem₂
    exact ⟨hdirs₂.trans hdirs₁, hmem₂⟩
  · intro b hb
    obtain ⟨hb', hdirs₂, -⟩ := hsome₂ b hb
    rw [hb', hdirs₂, hdirs₁, hb']
    exact ⟨hstill₁.next, rfl⟩

/-- **`dir_close`** -/
theorem Inv.dirClose (h : Inv s held) (hdirs : s.dirs = dirs) (ha : a ∈ dirs) :
    (dirClose (some a)).Ends s fun _ s' => Inv s' held ∧ Still s s' ∧ s'.dirs = dirs.erase a ∧
      s'.device = s.device ∧ s'.freeMap = s.freeMap ∧ s'.mapLost = s.mapLost ∧
      ∃ i, s'.openInodes = s.openInodes ∨ s'.openInodes = s.openInodes.erase i := by
  subst hdirs
  have hperm : (held ++ s.dirRefs).Perm
      ((s.dir a).inode :: (held ++ (s.dirs.erase a).map (fun b => (s.dir b).inode))) := by
    have hrefs : s.dirRefs.Perm ((s.dir a).inode :: (s.dirs.erase a).map (fun b => (s.dir b).inode)) :=
      (perm_cons_erase ha).map _
    exact (hrefs.append_left held).trans perm_middle
  apply Proc.Ends.get
  apply Proc.Ends.assert ha
  refine .bind (h.closing_root (h.accounts.perm hperm) (h.dir_root a ha)) ?_
  rintro _ _ ⟨fs, rfl, hclose, hacc, hlayout, hstill, hstored, hlist⟩
  obtain ⟨-, hdev, -⟩ := inodeClose_fs hclose
  have hmem : Mem { s with toFs := fs, dirs := s.dirs.erase a } held :=
    h.toMem.closed hclose erase_sublist hacc
  exact ⟨(), { s with toFs := fs, dirs := s.dirs.erase a }, rfl, ⟨hmem, { hlayout with }, hstored⟩, { hstill with }, rfl,
    hdev, rfl, rfl, _, hlist⟩

end

end Volume
end Asg1
