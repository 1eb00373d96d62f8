import Asg1.Filesys.Directory

/-!
# `Filesys.Files` — the functions of `file.c`

Users have all open files but the free map file. Each function of `file.c`, called for such a file, ends and keeps the
invariant; reads and writes are slices and patches of the device in the sectors of the file.
-/

namespace Asg1
namespace Volume

open Filesys Flat

/-- An open file that is not the free map file. -/
def User (s : Vol) (f : Addr) : Prop := f ∈ s.files ∧ s.freeMapFile ≠ some f

instance decideUser (s : Vol) (f : Addr) : Decidable (User s f) :=
  inferInstanceAs (Decidable (f ∈ s.files ∧ s.freeMapFile ≠ some f))

section
variable {s s' : Vol} {held : List Addr} {f : Addr}

/-- The file of a user is neither the free map nor the root directory. -/
theorem Mem.user_sector (h : Mem s held) (hf : User s f) :
    s.sectorOf f ≠ FREE_MAP_SECTOR ∧ s.sectorOf f ≠ ROOT_DIR_SECTOR := by
  obtain ⟨m, hm⟩ := h.mapFile
  apply hm.others f hf.1
  rintro rfl
  exact hf.2 hm.file

/-! ## Opening -/

/-- The state after `file_open` has got its memory. -/
def Vol.withFile (s : Vol) (i : Addr) (mem : List Bool) : Vol :=
  { s with toFs := Filesys.fileOpen s.toFs i s.next, next := s.next + 1, mem := mem }

theorem withFile_file (s : Vol) (i : Addr) (mem : List Bool) (g : Addr) :
    (s.withFile i mem).file g = if g = s.next then ⟨i, 0, false⟩ else s.file g := rfl

variable {fs fs' : Fs} {n pos : Nat} {size : Int} {i : Addr}

/-- The invariant with one more file, for an inode that was held. -/
theorem Inv.withFile (h : Inv s (i :: held)) (mem : List Bool)
    (hsector : (s.inode i).sector ≠ FREE_MAP_SECTOR ∧ (s.inode i).sector ≠ ROOT_DIR_SECTOR) :
    Inv (s.withFile i mem) held := by
  have hfresh : s.next ∉ s.files := fun hmem => Nat.lt_irrefl _ (h.file_lt _ hmem)
  have hold : ∀ {g}, g ∈ s.files → (s.withFile i mem).file g = s.file g := by
    intro g hg
    rw [withFile_file, if_neg (by rintro rfl; exact hfresh hg)]
  have hnew : (s.withFile i mem).file s.next = ⟨i, 0, false⟩ := if_pos rfl
  refine ⟨?_, { h.layout with }, h.stored⟩
  constructor
  case accounts => exact h.accounts.fileOpen hfresh
  case mapFile =>
    obtain ⟨f, hf⟩ := h.mapFile
    refine ⟨f, hf.file, List.mem_cons_of_mem _ hf.listed, ?_, ?_, ?_⟩
    · unfold Vol.sectorOf
      rw [hold hf.listed]
      exact hf.sector
    · rw [hold hf.listed]
      exact hf.allows
    · intro g hg hgf
      unfold Vol.sectorOf
      rcases List.mem_cons.mp hg with rfl | hg
      · rw [hnew]
        exact hsector
      · rw [hold hg]
        exact hf.others g hg hgf
  case dirs_nodup => exact h.dirs_nodup
  case dir_root => exact h.dir_root
  case dir_pos => exact h.dir_pos
  case inode_lt => exact fun x hx => Nat.lt_succ_of_lt (h.inode_lt x hx)
  case file_lt =>
    intro g hg
    rcases List.mem_cons.mp hg with rfl | hg
    · exact Nat.lt_succ_self _
    · exact Nat.lt_succ_of_lt (h.file_lt g hg)
  case dir_lt => exact fun a ha => Nat.lt_succ_of_lt (h.dir_lt a ha)

/-- **`file_open`** turns a reference into an open file, or gives it back. -/
theorem Inv.fileOpen (h : Inv s (i :: held))
    (hsector : (s.inode i).sector ≠ FREE_MAP_SECTOR ∧ (s.inode i).sector ≠ ROOT_DIR_SECTOR) :
    (fileOpen (some i)).Ends s fun r s' => Inv s' held ∧
      (r = none → Still s s' ∧ s'.dirs = s.dirs ∧ s.mem ≠ []) ∧
      ∀ f, r = some f → f = s.next ∧ ∃ mem, s' = s.withFile i mem ∧ (s.mem = [] → mem = []) := by
  refine .bind (malloc_spec s) ?_
  rintro memory _ ⟨mem, rfl, hcalm⟩
  cases memory with
  | true =>
    apply Proc.Ends.step rfl
    apply Proc.Ends.modify
    refine .pure ⟨h.withFile mem hsector, ?_, ?_⟩
    · intro hnone
      cases hnone
    · intro f hf
      cases hf
      exact ⟨rfl, mem, rfl, fun hmem => (hcalm hmem).2⟩
  | false =>
    refine .bind (h.setMem mem).inodeClose ?_
    rintro _ s' ⟨hinv, hstill, hdirs, -⟩
    refine .pure ⟨hinv, ?_, ?_⟩
    · intro _
      refine ⟨(still_setMem s fun hmem => (hcalm hmem).2).trans hstill, hdirs, ?_⟩
      intro hmem
      exact absurd (hcalm hmem).1 (by decide)
    · intro f hf
      cases hf

/-- `file_open` of a null pointer. -/
theorem Inv.fileOpen_none (h : Inv s held) :
    (Volume.fileOpen none).Ends s fun r s' => r = none ∧ Inv s' held ∧ Still s s' ∧ s'.dirs = s.dirs := by
  refine .bind (malloc_spec s) ?_
  rintro memory _ ⟨mem, rfl, hcalm⟩
  apply Proc.Ends.step rfl
  exact .pure ⟨rfl, h.setMem mem, still_setMem s fun hmem => (hcalm hmem).2, rfl⟩

/-- **`file_reopen`** -/
theorem Inv.fileReopen (h : Inv s held) (hf : User s f) :
    (fileReopen f).Ends s fun r s' => Inv s' held ∧ (r = none → Still s s' ∧ s'.dirs = s.dirs ∧ s.mem ≠ []) ∧
      ∀ g, r = some g → ∃ s₁ mem, Still s s₁ ∧ s₁.dirs = s.dirs ∧ (s₁.inode (s.file f).inode).sector = s.sectorOf f ∧
        g = s₁.next ∧ s' = s₁.withFile (s.file f).inode mem ∧ (s₁.mem = [] → mem = []) := by
  apply Proc.Ends.get
  apply Proc.Ends.assert hf.1
  refine .bind (h.inodeReopen (h.listed hf.1)) ?_
  rintro _ s₁ ⟨rfl, hinv₁, hstill₁, hdirs₁, -, hmem₁, hsector₁⟩
  refine (hinv₁.fileOpen (by rw [hsector₁]; exact h.user_sector hf)).mono ?_
  rintro r s₂ ⟨hinv₂, hnone, hsome⟩
  refine ⟨hinv₂, ?_, ?_⟩
  · intro hr
    obtain ⟨hstill₂, hdirs₂, hmem⟩ := hnone hr
    rw [hmem₁] at hmem
    exact ⟨hstill₁.trans hstill₂, hdirs₂.trans hdirs₁, hmem⟩
  · intro g hg
    obtain ⟨hg', mem, hs₂, hcalm⟩ := hsome g hg
    exact ⟨s₁, mem, hstill₁, hdirs₁, hsector₁, hg', hs₂, hcalm⟩

/-! ## Denying writes -/

/-- At most the flag of one file and counters of denied writes differ. -/
structure Flagged (fs fs' : Fs) (f : Addr) : Prop where
  device : fs'.device = fs.device
  openInodes : fs'.openInodes = fs.openInodes
  files : fs'.files = fs.files
  inode : ∀ i, (fs'.inode i).sector = (fs.inode i).sector ∧ (fs'.inode i).data = (fs.inode i).data
  file : ∀ g, (fs'.file g).inode = (fs.file g).inode ∧ (fs'.file g).pos = (fs.file g).pos
  others : ∀ g, g ≠ f → fs'.file g = fs.file g

theorem Flagged.refl (fs : Fs) (f : Addr) : Flagged fs fs f where
  device := rfl
  openInodes := rfl
  files := rfl
  inode := fun _ => ⟨rfl, rfl⟩
  file := fun _ => ⟨rfl, rfl⟩
  others := fun _ _ => rfl

theorem flagged_setDeny (fs : Fs) (f : Addr) (flag : Bool) (cnt : Int) :
    Flagged fs ((fs.setFile f { fs.file f with denyWrite := flag }).setInode (fs.file f).inode
      { fs.inode (fs.file f).inode with denyWriteCnt := cnt }) f where
  device := rfl
  openInodes := rfl
  files := rfl
  inode := by
    intro i
    simp only [Fs.setInode, Fs.setFile]
    split
    · rename_i hi
      rw [hi]
      exact ⟨rfl, rfl⟩
    · exact ⟨rfl, rfl⟩
  file := by
    intro g
    simp only [Fs.setInode, Fs.setFile]
    split
    · rename_i hg
      rw [hg]
      exact ⟨rfl, rfl⟩
    · exact ⟨rfl, rfl⟩
  others := fun g hg => if_neg hg

theorem fileDenyWrite_flagged (h : Filesys.fileDenyWrite fs f = some fs') :
    Flagged fs fs' f ∧ (fs'.file f).denyWrite = true := by
  unfold Filesys.fileDenyWrite Filesys.deref at h
  split at h
  · simp only [Option.bind_eq_bind, Option.bind_some] at h
    split at h
    · rename_i hflag
      cases h
      exact ⟨Flagged.refl fs f, hflag⟩
    · simp only [inodeDenyWrite] at h
      split at h
      · cases h
        refine ⟨flagged_setDeny fs f true _, ?_⟩
        show (if f = f then _ else _ : File).denyWrite = true
        rw [if_pos rfl]
      · cases h
  · cases h

theorem fileAllowWrite_flagged (h : Filesys.fileAllowWrite fs f = some fs') :
    Flagged fs fs' f ∧ (fs'.file f).denyWrite = false := by
  unfold Filesys.fileAllowWrite Filesys.deref at h
  split at h
  · simp only [Option.bind_eq_bind, Option.bind_some] at h
    split at h
    · simp only [inodeAllowWrite] at h
      split at h
      · cases h
        refine ⟨flagged_setDeny fs f false _, ?_⟩
        show (if f = f then _ else _ : File).denyWrite = false
        rw [if_pos rfl]
      · cases h
    · rename_i hflag
      cases h
      exact ⟨Flagged.refl fs f, by simpa using hflag⟩
  · cases h

/-- The layout does not depend on the flags. -/
theorem Layout.flagged (h : Layout s) (hflag : Flagged s.toFs fs f) : Layout { s with toFs := fs } := by
  have hintact : ∀ k, Intact s.device fs.device k := by
    intro k
    rw [hflag.device]
    exact Intact.refl
  have hopen : OpenOk s { s with toFs := fs } := by
    intro i hi
    have hi' : i ∈ s.openInodes := by
      rw [← hflag.openInodes]
      exact hi
    show Live s (fs.inode i).sector ∧ (fs.inode i).data = inodeDisk s.device (fs.inode i).sector ∧
      (s.removed i = true → _)
    rw [(hflag.inode i).1, (hflag.inode i).2]
    exact h.openOk i hi'
  exact h.keep rfl rfl hopen (hintact _) (fun k _ => (hintact k).inode)
    (fun p hp x hx => h.bit_foot (live_of_openOk h hopen (hintact _) hp) hx)

/-- The invariant after the flag of a user's file has changed. -/
theorem Inv.flagged (h : Inv s held) (hf : User s f) (hflag : Flagged s.toFs fs f)
    (hacc : Accounts fs (held ++ s.dirRefs)) : Inv { s with toFs := fs } held := by
  have hsectorOf : ∀ g, (fs.inode (fs.file g).inode).sector = s.sectorOf g := by
    intro g
    rw [(hflag.file g).1]
    exact (hflag.inode _).1
  refine ⟨?_, h.layout.flagged hflag, ?_⟩
  · constructor
    case accounts => exact hacc
    case mapFile =>
      obtain ⟨m, hm⟩ := h.mapFile
      refine ⟨m, hm.file, ?_, (hsectorOf m).trans hm.sector, ?_, ?_⟩
      · rw [hflag.files]; exact hm.listed
      · have hne : m ≠ f := by
          rintro rfl
          exact hf.2 hm.file
        rw [hflag.others m hne]
        exact hm.allows
      · intro g hg hgm
        rw [hflag.files] at hg
        have hg' := hm.others g hg hgm
        rw [← hsectorOf g] at hg'
        exact hg'
    case dirs_nodup => exact h.dirs_nodup
    case dir_root => exact fun a ha => ((hflag.inode _).1).trans (h.dir_root a ha)
    case dir_pos => exact h.dir_pos
    case inode_lt => rw [hflag.openInodes]; exact h.inode_lt
    case file_lt => rw [hflag.files]; exact h.file_lt
    case dir_lt => exact h.dir_lt
  · intro hlost
    rw [hflag.device]
    exact h.stored hlost

/-- **`file_deny_write`** -/
theorem Inv.fileDenyWrite (h : Inv s held) (hf : User s f) :
    (onFs (Filesys.fileDenyWrite · f)).Ends s fun _ s' => Inv s' held ∧ ∃ fs, s' = { s with toFs := fs } ∧
      Flagged s.toFs fs f ∧ (fs.file f).denyWrite = true := by
  obtain ⟨fs, hrun, hacc, -⟩ := h.accounts.fileDenyWrite hf.1
  obtain ⟨hflag, hdeny⟩ := fileDenyWrite_flagged hrun
  exact ⟨(), { s with toFs := fs }, by rw [onFs, hrun]; rfl, h.flagged hf hflag hacc, fs, rfl, hflag, hdeny⟩

/-- **`file_allow_write`** -/
theorem Inv.fileAllowWrite (h : Inv s held) (hf : User s f) :
    (onFs (Filesys.fileAllowWrite · f)).Ends s fun _ s' => Inv s' held ∧ ∃ fs, s' = { s with toFs := fs } ∧
      Flagged s.toFs fs f ∧ (fs.file f).denyWrite = false := by
  obtain ⟨fs, hrun, hacc, -⟩ := h.accounts.fileAllowWrite hf.1
  obtain ⟨hflag, hdeny⟩ := fileAllowWrite_flagged hrun
  exact ⟨(), { s with toFs := fs }, by rw [onFs, hrun]; rfl, h.flagged hf hflag hacc, fs, rfl, hflag, hdeny⟩

/-! ## Closing -/

/-- What is open once the `struct file` is gone but the reference is not. -/
theorem Mem.freeFile (h : Mem s held) (hf : User s f) (hdeny : (s.file f).denyWrite = false) :
    Mem { s with files := s.files.erase f, closed := f :: s.closed } ((s.file f).inode :: held) := by
  have hsub : ∀ {g}, g ∈ s.files.erase f → g ∈ s.files := fun hg => List.mem_of_mem_erase hg
  constructor
  case accounts => exact h.accounts.freeFile hf.1 hdeny
  case mapFile =>
    obtain ⟨m, hm⟩ := h.mapFile
    have hne : m ≠ f := by
      rintro rfl
      exact hf.2 hm.file
    exact ⟨m, hm.file, (List.mem_erase_of_ne hne).mpr hm.listed, hm.sector, hm.allows,
      fun g hg hgm => hm.others g (hsub hg) hgm⟩
  case dirs_nodup => exact h.dirs_nodup
  case dir_root => exact h.dir_root
  case dir_pos => exact h.dir_pos
  case inode_lt => exact h.inode_lt
  case file_lt => exact fun g hg => h.file_lt g (hsub hg)
  case dir_lt => exact h.dir_lt

/-- What users see of a file that is closed: the others are as they were. -/
structure Closes (f : Addr) (s s' : Vol) : Prop where
  blocks : s'.blocks = s.blocks
  freeMapFile : s'.freeMapFile = s.freeMapFile
  files : s'.files = s.files.erase f
  file : ∀ g < s.next, g ≠ f → s'.file g = s.file g
  inode : ∀ i < s.next, (s'.inode i).sector = (s.inode i).sector ∧ (s'.inode i).data = (s.inode i).data
  dirs : s'.dirs = s.dirs
  next : s.next ≤ s'.next
  live : ∀ sector, Live s' sector → Live s sector
  intact : ∀ sector, Live s' sector → sector ≠ FREE_MAP_SECTOR → Intact s.device s'.device sector
  kept : s.removed (s.file f).inode = false → s'.device = s.device ∧ s'.freeMap = s.freeMap
  calm : s.mem = [] → s'.mem = []

/-- **`file_close`** of a user's file. -/
theorem Inv.fileClose (h : Inv s held) (hf : User s f) :
    (fileClose f).Ends s fun _ s' => Inv s' held ∧ Closes f s s' := by
  refine .bind (h.fileAllowWrite hf) ?_
  rintro _ _ ⟨hinv₁, fs₁, rfl, hflag, hdeny⟩
  have hf₁ : User { s with toFs := fs₁ } f := by
    refine ⟨?_, hf.2⟩
    rw [hflag.files]
    exact hf.1
  -- the state without the file, in which the reference is held
  have hmem₂ := hinv₁.toMem.freeFile hf₁ hdeny
  have hinv₂ : Inv { s with
      toFs := { fs₁ with files := fs₁.files.erase f, closed := f :: fs₁.closed } } ((fs₁.file f).inode :: held) :=
    ⟨hmem₂, { hinv₁.layout with }, hinv₁.stored⟩
  obtain ⟨fs₂, hclose₂, hacc₂, -, -⟩ := hinv₂.accounts.inodeClose
  obtain ⟨fs, hclose, rfl⟩ : ∃ fs, Filesys.inodeClose fs₁ (fs₁.file f).inode = some fs ∧
      { fs with files := fs₁.files.erase f, closed := f :: fs₁.closed } = fs₂ := by
    have hcommute := inodeClose_files fs₁ (fs₁.file f).inode (fs₁.files.erase f) (f :: fs₁.closed)
    rw [hcommute] at hclose₂
    exact Option.map_eq_some_iff.mp hclose₂
  obtain ⟨-, hdev, hfiles, hfile, hclosed, -⟩ := inodeClose_fs hclose
  have hinode := inodeClose_inode hclose
  obtain ⟨m, hm⟩ := hinv₁.mapFile
  obtain ⟨hlayout, -⟩ := hinv₁.layout.closed hclose
  -- the free map can be written while the file is being closed
  have hmap : ∃ m, MapOk { s with toFs := fs } m ∧
      Vol.dataOf { s with toFs := fs } m = inodeDisk fs₁.device FREE_MAP_SECTOR := by
    have hlisted : m ∈ fs.files := by
      rw [hfiles]
      exact hm.listed
    have hne : m ≠ f := by
      rintro rfl
      exact hf.2 hm.file
    have hopened : (fs.file m).inode ∈ fs.openInodes :=
      hacc₂.listed m (show m ∈ fs₁.files.erase f from (List.mem_erase_of_ne hne).mpr hm.listed)
    have hok := hlayout.mapOk (f := m) hm.file hlisted hopened (by
      rw [hfile, (hinode _).2.2]
      exact hm.allowed hinv₁.accounts) (by
      show (fs.inode (fs.file m).inode).sector = _
      rw [hfile, (hinode _).1]
      exact hm.sector)
    refine ⟨m, hok.1, hok.2.trans ?_⟩
    rw [hdev]
  apply Proc.Ends.get
  refine .bind (inodeClose_layout hinv₁.layout hinv₁.accounts.nodup hinv₁.accounts.sector_inj hclose
    (fun _ => hmap)) ?_
  rintro _ s₃ ⟨hstep, hlayout₃, hstill₃, hkept₃⟩
  have hmem : Mem { s with toFs := { fs with files := fs₁.files.erase f, closed := f :: fs₁.closed } } held :=
    hmem₂.closed hclose₂ (List.Sublist.refl _) hacc₂
  have hfiles₃ : s₃.files = fs₁.files := by
    rw [hstep.fs]
    exact hfiles
  have hclosed₃ : s₃.closed = fs₁.closed := by
    rw [hstep.fs]
    exact hclosed
  have hstep' : MapStep (inodeDisk fs₁.device FREE_MAP_SECTOR)
      { s with toFs := { fs with files := fs₁.files.erase f, closed := f :: fs₁.closed } }
      { s₃ with files := s₃.files.erase f, closed := f :: s₃.closed } := by
    refine { hstep with fs := ?_ }
    show { s₃.toFs with files := s₃.files.erase f, closed := f :: s₃.closed } =
      { fs with device := s₃.device, files := fs₁.files.erase f, closed := f :: fs₁.closed }
    rw [hfiles₃, hclosed₃]
    nth_rewrite 1 [hstep.fs]
    rfl
  refine ⟨(), { s₃ with files := s₃.files.erase f, closed := f :: s₃.closed }, rfl, ⟨?_, ?_, ?_⟩, ?_⟩
  · exact hmem.mapStep hstep'
  · exact { hlayout₃ with }
  · intro hlost
    obtain ⟨hlost', hstored⟩ := hstep.stored hlost
    rw [hstill₃.map]
    apply hstored
    rw [hdev]
    exact hinv₁.stored hlost'
  · have hlive₁ : ∀ sector, Live { s with toFs := fs₁ } sector → Live s sector := by
      rintro sector (rfl | rfl | ⟨k, hk⟩ | ⟨i, hi, rfl⟩)
      · exact live_map s
      · exact live_root s
      · have hk' : Uses fs₁.device k sector := hk
        rw [hflag.device] at hk'
        exact live_slot hk'
      · have hi' : i ∈ fs₁.openInodes := hi
        rw [hflag.openInodes] at hi'
        have hsector : (fs₁.inode i).sector = (s.inode i).sector := (hflag.inode i).1
        rw [hsector]
        exact live_open hi'
    constructor
    case blocks => exact hstill₃.blocks
    case freeMapFile => exact hstill₃.freeMapFile
    case files =>
      rw [hfiles₃, hflag.files]
    case file =>
      intro g hg hgf
      rw [hstill₃.file g hg]
      exact hflag.others g hgf
    case inode =>
      intro i hi
      obtain ⟨hs, hd⟩ := hstill₃.inode i hi
      exact ⟨hs.trans (hflag.inode i).1, hd.trans (hflag.inode i).2⟩
    case dirs => exact hstep.dirs
    case next => exact hstill₃.next
    case live => exact fun sector hl => hlive₁ sector (hstill₃.live sector hl)
    case intact =>
      intro sector hl hne
      have hintact := hstill₃.intact sector hl hne
      have hdev₁ : fs₁.device = s.device := hflag.device
      have hintact' : Intact fs₁.device s₃.device sector := hintact
      rw [hdev₁] at hintact'
      exact hintact'
    case kept =>
      intro hremoved
      have hsame : (fs₁.file f).inode = (s.file f).inode := (hflag.file f).1
      have heq := hkept₃ (by rw [hsame]; exact hremoved)
      rw [heq]
      exact ⟨hdev.trans hflag.device, rfl⟩
    case calm => exact hstill₃.calm

/-! ## Reading and writing -/

theorem Inv.fits (h : Inv s held) (hf : f ∈ s.files) : Fits s.blocks (s.dataOf f) := by
  rw [h.dataOf_eq hf]
  exact h.layout.fits (h.live_file hf)

variable {size offset : Int} {buffer : List UInt8} {data : InodeDisk}

/-- **`file_read_at`** reads a slice of the device. -/
theorem Inv.fileReadAt (h : Inv s held) (hf : f ∈ s.files) (hoff : 0 ≤ offset)
    (hofflt : offset < 2147483648) (hsize : size < 2147483648) :
    (fileReadAt f size offset).Ends s fun buffer s' => ∃ m mem, s' = { s with mem } ∧
      buffer = slice s.device ((s.dataOf f).start * 512 + offset.toNat) m ∧
      m ≤ avail (s.dataOf f) size offset ∧ (s.mem = [] → m = avail (s.dataOf f) size offset ∧ mem = []) := by
  apply Proc.Ends.get
  apply Proc.Ends.assert hf
  refine (inodeReadAt_spec (h.listed hf) (h.fits hf) hoff hofflt hsize).mono ?_
  rintro buffer s' ⟨m, mem, hs', hbuffer, hle, hcalm, -⟩
  exact ⟨m, mem, hs', hbuffer, hle, hcalm⟩

/-- Writes are denied to the file of `f`. -/
def Vol.Denied (s : Vol) (f : Addr) : Prop := (s.inode (s.file f).inode).denyWriteCnt ≠ 0

/-- `inode_write_at` for the inode of a file patches the device, unless writes are denied. -/
theorem Inv.inodeWriteAt (h : Inv s held) (hf : f ∈ s.files)
    (hoff : 0 ≤ offset) (hofflt : offset < 2147483648) (hsize : size < 2147483648)
    (hbuffer : size.toNat ≤ buffer.length) :
    (inodeWriteAt (s.file f).inode buffer size offset).Ends s fun n s' => ∃ mem,
      s' = { s with
        device := patch s.device ((s.dataOf f).start * 512 + offset.toNat) (buffer.take n), mem := mem } ∧
      n ≤ avail (s.dataOf f) size offset ∧ (s.Denied f → n = 0) ∧
      (s.mem = [] → mem = [] ∧ (¬ s.Denied f → n = avail (s.dataOf f) size offset)) := by
  by_cases hdeny : (s.inode (s.file f).inode).denyWriteCnt = 0
  · refine (inodeWriteAt_spec (h.listed hf) hdeny (h.fits hf) buffer size offset hoff hofflt hsize hbuffer).mono ?_
    rintro n s' ⟨mem, hs', hle, hcalm⟩
    refine ⟨mem, hs', hle, fun hdenied => absurd hdeny hdenied, ?_⟩
    intro hmem
    exact ⟨(hcalm hmem).2, fun _ => (hcalm hmem).1⟩
  · refine ⟨0, s, ?_, s.mem, ?_, Nat.zero_le _, fun _ => rfl, fun hmem => ⟨hmem, fun hno => absurd hdeny hno⟩⟩
    · unfold Volume.inodeWriteAt
      rw [if_pos (h.listed hf), if_pos hdeny]
    · rw [List.take_zero, patch_nil]

/-- **Writing to a file** of a user keeps the invariant, and leaves the others alone. -/
theorem Inv.patchFile (h : Inv s held) {sector : Nat} (hlive : Live s sector) (hmap : sector ≠ FREE_MAP_SECTOR)
    (hroot : sector ≠ ROOT_DIR_SECTOR) {d' : Device} (honly : Only (extent (inodeDisk s.device sector)) s.device d')
    (mem : List Bool) : Inv { s with device := d', mem := mem } held := by
  have hother : ∀ other, Live s other → other ≠ sector → Intact s.device d' other :=
    fun other hl hne => h.layout.intact_other hlive hl hne honly
  have hopen : OpenOk s { s with device := d', mem := mem } := h.layout.openOk
  have hroot' : Intact s.device d' ROOT_DIR_SECTOR := hother _ (live_root s) (fun heq => hroot heq.symm)
  have hlive' : ∀ k, Live { s with device := d', mem := mem } k → Live s k :=
    fun k hk => live_of_openOk h.layout hopen hroot' hk
  refine ⟨h.toMem.setDevice d' mem, ?_, ?_⟩
  · exact h.layout.keep rfl rfl hopen hroot' (fun k hk => h.layout.inode_same hlive (hlive' k hk) honly)
      (fun p hp x hx => h.layout.bit_foot (hlive' _ hp) hx)
  · intro hlost
    exact h.layout.stored_intact (hother _ (live_map s) (fun heq => hmap heq.symm)) (h.stored hlost)

/-- What is transferred lies within the file. -/
theorem avail_inside {m : Nat} (h : m ≤ avail data size offset) : m = 0 ∨ offset.toNat + m ≤ data.length := by
  unfold avail at h
  omega

theorem only_write {d : Device} (buffer : List UInt8) (h : n ≤ avail data size offset) :
    Only (extent data) d (patch d (data.start * 512 + offset.toNat) (buffer.take n)) := by
  rcases avail_inside h with rfl | hin
  · rw [List.take_zero, patch_nil]
    exact Only.refl
  · apply only_patch
    rw [List.length_take]
    omega

/-- The invariant after bytes have been written to a user's file. -/
theorem Inv.written (h : Inv s held) (hf : User s f) (buffer : List UInt8)
    (hn : n ≤ avail (s.dataOf f) size offset) (mem : List Bool) :
    Inv { s with
      device := patch s.device ((s.dataOf f).start * 512 + offset.toNat) (buffer.take n), mem := mem } held := by
  obtain ⟨hmap, hroot⟩ := h.user_sector hf
  have honly := only_write (d := s.device) buffer hn
  have hdata := h.dataOf_eq hf.1
  apply h.patchFile (h.live_file hf.1) hmap hroot
  rw [← hdata]
  exact honly

/-- The invariant after the position of a file has changed. -/
theorem Inv.setPos (h : Inv s held) (hpos : pos < 2 ^ 31) :
    Inv { s with toFs := s.toFs.setFile f { s.file f with pos } } held := by
  have hinode := setFile_inode s.toFs (f := f) (F := { s.file f with pos }) rfl
  have hdeny : ∀ g, ((s.toFs.setFile f { s.file f with pos }).file g).denyWrite = (s.file g).denyWrite := by
    intro g
    show (if g = f then { s.file f with pos } else s.file g : File).denyWrite = _
    split
    · rename_i hgf
      rw [hgf]
    · rfl
  have hsectorOf : ∀ g, (s.inode ((s.toFs.setFile f { s.file f with pos }).file g).inode).sector = s.sectorOf g := by
    intro g
    rw [hinode]
    rfl
  refine ⟨?_, { h.layout with }, h.stored⟩
  constructor
  case accounts => exact h.accounts.setPos hpos s.device
  case mapFile =>
    obtain ⟨m, hm⟩ := h.mapFile
    exact ⟨m, hm.keep rfl rfl (fun g _ => hsectorOf g) (hdeny m)⟩
  case dirs_nodup => exact h.dirs_nodup
  case dir_root => exact h.dir_root
  case dir_pos => exact h.dir_pos
  case inode_lt => exact h.inode_lt
  case file_lt => exact h.file_lt
  case dir_lt => exact h.dir_lt

/-- The position after a transfer is an offset again. -/
theorem pos_after (hpos : pos < 2 ^ 31) (hn : n ≤ avail data size pos) : pos + n < 2 ^ 31 := by
  have hlength := data.length_lt
  rcases avail_inside hn with rfl | hin
  · exact hpos
  · omega

/-- The state after a transfer of `n` bytes that has left the given device. -/
def Vol.moved (s : Vol) (f : Addr) (n : Nat) (device : Device) (mem : List Bool) : Vol :=
  { s with toFs := s.toFs.moved f ((s.file f).pos + n) device, mem := mem }

/-- **`file_read`** -/
theorem Inv.fileRead (h : Inv s held) (hf : f ∈ s.files) (hsize : size < 2147483648) :
    (fileRead f size).Ends s fun buffer s' => Inv s' held ∧ ∃ m mem, s' = s.moved f m s.device mem ∧
      buffer = slice s.device ((s.dataOf f).start * 512 + (s.file f).pos) m ∧
      m ≤ avail (s.dataOf f) size (s.file f).pos ∧
      (s.mem = [] → m = avail (s.dataOf f) size (s.file f).pos ∧ mem = []) := by
  have hpos : (s.file f).pos < 2 ^ 31 := h.accounts.pos_lt f hf
  apply Proc.Ends.get
  apply Proc.Ends.assert hf
  refine .bind (inodeReadAt_spec (h.listed hf) (h.fits hf) (Int.natCast_nonneg _) (by omega) hsize) ?_
  rintro _ _ ⟨m, mem, rfl, rfl, hle, hcalm, -⟩
  apply Proc.Ends.modify
  rw [length_slice, Int.toNat_natCast]
  refine .pure ⟨?_, m, mem, rfl, rfl, hle, hcalm⟩
  exact (h.setMem mem).setPos (pos_after hpos hle)

/-- **`file_write`** -/
theorem Inv.fileWrite (h : Inv s held) (hf : User s f) (hsize : size < 2147483648)
    (hbuffer : size.toNat ≤ buffer.length) :
    (fileWrite f buffer size).Ends s fun n s' => Inv s' held ∧ ∃ mem,
      s' = s.moved f n (patch s.device ((s.dataOf f).start * 512 + (s.file f).pos) (buffer.take n)) mem ∧
      n ≤ avail (s.dataOf f) size (s.file f).pos ∧ (s.Denied f → n = 0) ∧
      (s.mem = [] → mem = [] ∧ (¬ s.Denied f → n = avail (s.dataOf f) size (s.file f).pos)) := by
  have hpos : (s.file f).pos < 2 ^ 31 := h.accounts.pos_lt f hf.1
  apply Proc.Ends.get
  apply Proc.Ends.assert hf.1
  refine .bind (h.inodeWriteAt hf.1 (Int.natCast_nonneg _) (by omega) hsize hbuffer) ?_
  rintro n _ ⟨mem, rfl, hle, hdeny, hcalm⟩
  apply Proc.Ends.modify
  have hinv : Inv _ held := (h.written hf buffer hle mem).setPos (f := f) (pos_after hpos hle)
  exact .pure ⟨hinv, mem, rfl, hle, hdeny, hcalm⟩

/-- **`file_write_at`** -/
theorem Inv.fileWriteAt (h : Inv s held) (hf : User s f) (hoff : 0 ≤ offset)
    (hofflt : offset < 2147483648) (hsize : size < 2147483648) (hbuffer : size.toNat ≤ buffer.length) :
    (fileWriteAt f buffer size offset).Ends s fun n s' => Inv s' held ∧ ∃ mem,
      s' = { s with
        device := patch s.device ((s.dataOf f).start * 512 + offset.toNat) (buffer.take n), mem := mem } ∧
      n ≤ avail (s.dataOf f) size offset ∧ (s.Denied f → n = 0) ∧
      (s.mem = [] → mem = [] ∧ (¬ s.Denied f → n = avail (s.dataOf f) size offset)) := by
  apply Proc.Ends.get
  apply Proc.Ends.assert hf.1
  refine (h.inodeWriteAt hf.1 hoff hofflt hsize hbuffer).mono ?_
  rintro n _ ⟨mem, rfl, hle, hdeny, hcalm⟩
  exact ⟨h.written hf buffer hle mem, mem, rfl, hle, hdeny, hcalm⟩

/-- **`file_seek`** -/
theorem Inv.fileSeek (h : Inv s held) (hf : f ∈ s.files) {pos : Int} (hnonneg : 0 ≤ pos) (hpos : pos < 2147483648) :
    (onFs (Filesys.fileSeek · f pos)).Ends s fun _ s' => Inv s' held ∧
      s' = { s with toFs := s.toFs.setFile f { s.file f with pos := pos.toNat } } := by
  obtain ⟨n, rfl⟩ := Int.eq_ofNat_of_zero_le hnonneg
  obtain ⟨hrun, -⟩ := h.accounts.fileSeek hf (n := n) (by omega)
  refine ⟨(), { s with toFs := s.toFs.setFile f { s.file f with pos := n } }, ?_, h.setPos (by omega), rfl⟩
  have hrun' : Filesys.fileSeek s.toFs f n = some (s.toFs.moved f n s.device) := hrun
  rw [onFs, hrun']
  rfl

end

end Volume
end Asg1
