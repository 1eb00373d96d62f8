import Asg1.Filesys.Inode
import Mathlib.Algebra.Order.Ring.Int
import Mathlib.Data.List.Count

/-!
# `Filesys.File` — open files and open inodes

`struct file` and `struct inode` in memory: `file_open`, `file_close`, `file_read`, `file_write`, `file_seek`,
`file_tell`, `file_length` and `file_deny_write` of `filesys/file.c` over `inode_open` and `inode_close` of
`filesys/inode.c`, and `filesys_open` of `filesys/filesys.c`. `none` is an assertion that fails or a pointer that
is not valid; the bookkeeping invariant `Accounts` says that neither happens.

* `malloc` succeeds and gives any address that is free, which the caller of the model chooses.
* Where names are found in the root directory, and how a sector is read as an inode, are parameters (`Format`).
* No call here removes a file, so an inode is not marked as removed and closing it gives no sectors back.
-/

namespace Asg1
namespace Filesys

open List Option

/-- The address of a `struct file` or a `struct inode`. -/
abbrev Addr := Nat

def ROOT_DIR_SECTOR : Nat := 1

/-- `struct inode`. -/
structure Inode where
  sector : Nat
  openCnt : Int
  denyWriteCnt : Int
  data : InodeDisk

/-- `struct file`. -/
structure File where
  inode : Addr
  pos : Nat
  denyWrite : Bool

/-- How the device is read: the sector that the root directory, with the given inode, has for a name, and the inode
    in a sector. -/
structure Format where
  lookup : Device → InodeDisk → List UInt8 → Option Nat
  inodeDisk : Device → Nat → InodeDisk

/-- The device and what is in memory. `files` are the `struct file`s that are allocated; `closed`, a history
    variable, are those that `file_close` was called with, newest first. -/
structure Fs where
  device : Device
  openInodes : List Addr
  inode : Addr → Inode
  files : List Addr
  file : Addr → File
  closed : List Addr

namespace Fs

def setInode (fs : Fs) (i : Addr) (I : Inode) : Fs :=
  { fs with inode := fun j => if j = i then I else fs.inode j }

def setFile (fs : Fs) (f : Addr) (F : File) : Fs :=
  { fs with file := fun g => if g = f then F else fs.file g }

end Fs

/-! ## `inode.c` -/

/-- `inode_open`, which `malloc` gives address `a`. -/
def inodeOpen (fmt : Format) (fs : Fs) (sector : Nat) (a : Addr) : Fs × Addr :=
  match fs.openInodes.find? (fun i => (fs.inode i).sector = sector) with
  | some i => (fs.setInode i { fs.inode i with openCnt := (fs.inode i).openCnt + 1 }, i)
  | none =>
    let I : Inode := { sector, openCnt := 1, denyWriteCnt := 0, data := fmt.inodeDisk fs.device sector }
    ({ fs.setInode a I with openInodes := a :: fs.openInodes }, a)

/-- `inode_close`. -/
def inodeClose (fs : Fs) (i : Addr) : Option Fs :=
  if i ∈ fs.openInodes then
    let I := { fs.inode i with openCnt := (fs.inode i).openCnt - 1 }
    let fs₁ := fs.setInode i I
    if I.openCnt = 0 then some { fs₁ with openInodes := fs.openInodes.erase i } else some fs₁
  else none

/-- `inode_deny_write`. -/
def inodeDenyWrite (fs : Fs) (i : Addr) : Option Fs :=
  let I := { fs.inode i with denyWriteCnt := (fs.inode i).denyWriteCnt + 1 }
  if I.denyWriteCnt ≤ I.openCnt then some (fs.setInode i I) else none

/-- `inode_allow_write`. -/
def inodeAllowWrite (fs : Fs) (i : Addr) : Option Fs :=
  let I := fs.inode i
  if I.denyWriteCnt > 0 ∧ I.denyWriteCnt ≤ I.openCnt then
    some (fs.setInode i { I with denyWriteCnt := I.denyWriteCnt - 1 })
  else none

/-- `inode_write_at`. -/
def inodeWriteAt (d : Device) (I : Inode) (buffer : List UInt8) (size offset : Nat) : Option (Device × Nat) :=
  if I.denyWriteCnt ≠ 0 then some (d, 0) else writeData d I.data buffer size offset

/-! ## `file.c` and `filesys_open` -/

/-- The `struct file` at `f` and its inode. -/
def deref (fs : Fs) (f : Addr) : Option (File × Inode) :=
  if f ∈ fs.files ∧ (fs.file f).inode ∈ fs.openInodes then some (fs.file f, fs.inode (fs.file f).inode) else none

/-- `file_read`: the bytes read. -/
def fileRead (fs : Fs) (f : Addr) (size : Nat) : Option (Fs × List UInt8) := do
  let (F, I) ← deref fs f
  let buffer ← inodeReadAt fs.device I.data size F.pos
  return (fs.setFile f { F with pos := F.pos + buffer.length }, buffer)

/-- `file_write`: the number of bytes written. -/
def fileWrite (fs : Fs) (f : Addr) (buffer : List UInt8) (size : Nat) : Option (Fs × Nat) := do
  let (F, I) ← deref fs f
  let (device, n) ← inodeWriteAt fs.device I buffer size F.pos
  return ({ fs with device }.setFile f { F with pos := F.pos + n }, n)

/-- `file_seek`. -/
def fileSeek (fs : Fs) (f : Addr) (newPos : Int) : Option Fs := do
  let (F, _) ← deref fs f
  if newPos ≥ 0 then some (fs.setFile f { F with pos := newPos.toNat }) else none

/-- `file_tell`. -/
def fileTell (fs : Fs) (f : Addr) : Option Nat := (deref fs f).map (fun (F, _) => F.pos)

/-- `file_length`. -/
def fileLength (fs : Fs) (f : Addr) : Option Nat := (deref fs f).map (fun (_, I) => I.data.length)

/-- `file_deny_write`. -/
def fileDenyWrite (fs : Fs) (f : Addr) : Option Fs := do
  let (F, _) ← deref fs f
  if F.denyWrite then some fs else inodeDenyWrite (fs.setFile f { F with denyWrite := true }) F.inode

/-- `file_allow_write`. -/
def fileAllowWrite (fs : Fs) (f : Addr) : Option Fs := do
  let (F, _) ← deref fs f
  if F.denyWrite then inodeAllowWrite (fs.setFile f { F with denyWrite := false }) F.inode else some fs

/-- `file_close`. -/
def fileClose (fs : Fs) (f : Addr) : Option Fs := do
  let fs₁ ← fileAllowWrite fs f
  let fs₂ ← inodeClose fs₁ (fs₁.file f).inode
  return { fs₂ with files := fs₂.files.erase f, closed := f :: fs₂.closed }

/-- `file_open` for an inode that is not NULL, which `malloc` gives address `f`. -/
def fileOpen (fs : Fs) (i f : Addr) : Fs :=
  { fs.setFile f { inode := i, pos := 0, denyWrite := false } with files := f :: fs.files }

/-- `filesys_open`. The inodes of the directory and of the file get `a` and `b` if they are not open, and the
    `struct file` gets `f`. -/
def filesysOpen (fmt : Format) (fs : Fs) (name : List UInt8) (f a b : Addr) : Option (Fs × Option Addr) := do
  let (fs₁, root) := inodeOpen fmt fs ROOT_DIR_SECTOR a
  match fmt.lookup fs₁.device (fs₁.inode root).data name with
  | none =>
    let fs₂ ← inodeClose fs₁ root
    return (fs₂, none)
  | some sector =>
    let (fs₂, i) := inodeOpen fmt fs₁ sector b
    let fs₃ ← inodeClose fs₂ root
    return (fileOpen fs₃ i f, some f)

/-! ## Bookkeeping -/

/-- How many `struct file`s have inode `i`. -/
def openers (fs : Fs) (i : Addr) : Nat := fs.files.countP (fun f => (fs.file f).inode = i)

/-- How many `struct file`s deny writes to inode `i`. -/
def deniers (fs : Fs) (i : Addr) : Nat := fs.files.countP (fun f => (fs.file f).inode = i ∧ (fs.file f).denyWrite)

/-- **The bookkeeping invariant.** There is one `struct inode` for each open sector, and its counters count the
    files. `held` are the references to inodes that are not in a file. -/
structure Accounts (fs : Fs) (held : List Addr) : Prop where
  nodup : fs.openInodes.Nodup
  sector_inj : ∀ i ∈ fs.openInodes, ∀ j ∈ fs.openInodes, (fs.inode i).sector = (fs.inode j).sector → i = j
  files_nodup : fs.files.Nodup
  listed : ∀ f ∈ fs.files, (fs.file f).inode ∈ fs.openInodes
  held_listed : ∀ i ∈ held, i ∈ fs.openInodes
  openCnt : ∀ i ∈ fs.openInodes, (fs.inode i).openCnt = openers fs i + held.count i
  opened : ∀ i ∈ fs.openInodes, 0 < (fs.inode i).openCnt
  denyWriteCnt : ∀ i ∈ fs.openInodes, (fs.inode i).denyWriteCnt = deniers fs i
  pos_lt : ∀ f ∈ fs.files, (fs.file f).pos < 2 ^ 31

@[grind =] theorem setInode_apply (fs : Fs) (i : Addr) (I : Inode) (j : Addr) :
    (fs.setInode i I).inode j = if j = i then I else fs.inode j := rfl

@[grind =] theorem setInode_openInodes (fs : Fs) (i : Addr) (I : Inode) : (fs.setInode i I).openInodes = fs.openInodes := rfl

@[grind =] theorem setFile_apply (fs : Fs) (f : Addr) (F : File) (g : Addr) :
    (fs.setFile f F).file g = if g = f then F else fs.file g := rfl

theorem deniers_le_openers (fs : Fs) (i : Addr) : deniers fs i ≤ openers fs i := by
  apply countP_mono_left
  intro f _ h
  simp only [decide_eq_true_eq] at h ⊢
  exact h.1

/-- A change at one element of a list without repetitions. -/
theorem countP_update {α : Type} [DecidableEq α] {l : List α} {p q : α → Bool} {f : α} (hl : l.Nodup) (hf : f ∈ l)
    (hpq : ∀ x, x ≠ f → q x = p x) : l.countP q + (p f).toNat = l.countP p + (q f).toNat := by
  have hperm := perm_cons_erase hf
  have hrest : (l.erase f).countP q = (l.erase f).countP p := by
    apply countP_congr
    intro x hx
    have hxf : x ≠ f := by
      rintro rfl
      exact hl.not_mem_erase hx
    rw [hpq x hxf]
  rw [hperm.countP_eq, hperm.countP_eq, countP_cons, countP_cons, hrest]
  cases p f <;> cases q f <;> simp

/-- What users of a file see of it. -/
structure OpenFile where
  sector : Nat
  data : InodeDisk
  pos : Nat

def Fs.view (fs : Fs) (f : Addr) : OpenFile :=
  ⟨(fs.inode (fs.file f).inode).sector, (fs.inode (fs.file f).inode).data, (fs.file f).pos⟩

/-- The inode in a sector: the one in memory if it is open, otherwise the one on the device. -/
def dataOf (fmt : Format) (fs : Fs) (sector : Nat) : InodeDisk :=
  match fs.openInodes.find? (fun i => (fs.inode i).sector = sector) with
  | some i => (fs.inode i).data
  | none => fmt.inodeDisk fs.device sector

/-- Some open file denies writes to the file in this sector. -/
def Denied (fs : Fs) (sector : Nat) : Prop :=
  ∃ f ∈ fs.files, (fs.file f).denyWrite = true ∧ (fs.view f).sector = sector

/-- The same files are open, and look the same. -/
structure Keeps (fs fs' : Fs) : Prop where
  device : fs'.device = fs.device
  files : fs'.files = fs.files
  file : fs'.file = fs.file
  closed : fs'.closed = fs.closed
  view : ∀ f ∈ fs.files, fs'.view f = fs.view f

variable {a : Addr} {fs fs' : Fs} {held held' : List Addr} {F : File} {n sector : Nat} {name : List UInt8}

theorem Keeps.trans {fs'' : Fs} (h : Keeps fs fs') (h' : Keeps fs' fs'') : Keeps fs fs'' where
  device := h'.device.trans h.device
  files := h'.files.trans h.files
  file := h'.file.trans h.file
  closed := h'.closed.trans h.closed
  view := fun f hf => (h'.view f (h.files ▸ hf)).trans (h.view f hf)

variable {fs : Fs} {held : List Addr} {f i : Addr} {fmt : Format}


theorem Accounts.perm (h : Accounts fs held) (hp : held.Perm held') : Accounts fs held' :=
  { h with
    held_listed := fun i hi => h.held_listed i (hp.mem_iff.mpr hi)
    openCnt := fun i hi => by rw [h.openCnt i hi, hp.count_eq] }

/-- The counters do not depend on the device. -/
theorem Accounts.setDevice (h : Accounts fs held) (device : Device) :
    Accounts { fs with device } held := { h with }

/-! ## Opening and closing an inode -/

/-- `i` is a reference to the inode of the sector, which may have been opened at address `a`. -/
structure Opened (fmt : Format) (fs fs' : Fs) (k : Nat) (a i : Addr) : Prop where
  keeps : Keeps fs fs'
  sector : (fs'.inode i).sector = k
  data : (fs'.inode i).data = dataOf fmt fs k
  place : i = a ∨ i ∈ fs.openInodes
  old : ∀ x ∈ fs.openInodes, x ∈ fs'.openInodes ∧ (fs'.inode x).sector = (fs.inode x).sector ∧
    (fs'.inode x).data = (fs.inode x).data
  new : ∀ x ∈ fs'.openInodes, x = i ∨ x ∈ fs.openInodes

/-- `inode_open` gives a reference to the inode of the sector. -/
theorem Accounts.inodeOpen (fmt : Format) (h : Accounts fs held) (sector : Nat) (ha : a ∉ fs.openInodes) :
    ∃ fs' i, inodeOpen fmt fs sector a = (fs', i) ∧ Accounts fs' (i :: held) ∧ Opened fmt fs fs' sector a i := by
  unfold Filesys.inodeOpen
  cases hfind : fs.openInodes.find? (fun i => (fs.inode i).sector = sector) with
  | some i =>
    have hi : i ∈ fs.openInodes := mem_of_find?_eq_some hfind
    have hsector : (fs.inode i).sector = sector := by simpa using find?_some hfind
    set fs' := fs.setInode i { fs.inode i with openCnt := (fs.inode i).openCnt + 1 } with hfs'
    have hopeners : ∀ j, openers fs' j = openers fs j := fun _ => rfl
    have hdeniers : ∀ j, deniers fs' j = deniers fs j := fun _ => rfl
    have hinode : ∀ j, fs'.inode j =
        if j = i then { fs.inode i with openCnt := (fs.inode i).openCnt + 1 } else fs.inode j := fun _ => rfl
    have hsame : ∀ j, (fs'.inode j).sector = (fs.inode j).sector ∧ (fs'.inode j).data = (fs.inode j).data ∧
        (fs'.inode j).denyWriteCnt = (fs.inode j).denyWriteCnt := by
      grind
    refine ⟨fs', i, rfl, ?_, ⟨⟨rfl, rfl, rfl, rfl, fun f _ => ?_⟩, ?_, ?_, .inr hi,
      fun x hx => ⟨hx, (hsame x).1, (hsame x).2.1⟩, fun x hx => .inr hx⟩⟩
    · refine ⟨h.nodup, ?_, h.files_nodup, h.listed, ?_, ?_, ?_, ?_, h.pos_lt⟩
      · intro j hj k hk
        rw [(hsame j).1, (hsame k).1]
        exact h.sector_inj j hj k hk
      · grind [h.held_listed]
      · grind [h.openCnt]
      · have := h.opened
        grind
      · grind [h.denyWriteCnt]
    · have hv := hsame (fs.file f).inode
      show OpenFile.mk (fs'.inode (fs.file f).inode).sector (fs'.inode (fs.file f).inode).data _ = _
      rw [hv.1, hv.2.1]
      rfl
    · rw [(hsame i).1]; exact hsector
    · rw [(hsame i).2.1, dataOf, hfind]
  | none =>
    have hfresh : ∀ j ∈ fs.openInodes, (fs.inode j).sector ≠ sector := by
      intro j hj
      simpa using List.find?_eq_none.mp hfind j hj
    set I : Inode := ⟨sector, 1, 0, fmt.inodeDisk fs.device sector⟩ with hI
    set fs' : Fs := { fs.setInode a I with openInodes := a :: fs.openInodes } with hfs'
    have hopeners : ∀ j, openers fs' j = openers fs j := fun _ => rfl
    have hdeniers : ∀ j, deniers fs' j = deniers fs j := fun _ => rfl
    have hnew : fs'.inode a = I := if_pos rfl
    have hold : ∀ {j}, j ∈ fs.openInodes → fs'.inode j = fs.inode j := fun hj => if_neg (by rintro rfl; exact ha hj)
    have hzero : openers fs a = 0 ∧ deniers fs a = 0 := by
      have hopeners : openers fs a = 0 := by
        apply List.countP_eq_zero.mpr
        intro f hf heq
        simp only [decide_eq_true_eq] at heq
        exact ha (heq ▸ h.listed f hf)
      have hle := deniers_le_openers fs a
      omega
    have hheld : held.count a = 0 := List.count_eq_zero.mpr (fun hmem => ha (h.held_listed a hmem))
    refine ⟨fs', a, rfl, ?_, ⟨⟨rfl, rfl, rfl, rfl, fun f hf => ?_⟩, by rw [hnew], by rw [hnew, dataOf, hfind], .inl rfl,
      fun x hx => ⟨mem_cons_of_mem a hx, by rw [hold hx], by rw [hold hx]⟩, fun x hx => List.mem_cons.mp hx⟩⟩
    · refine ⟨List.nodup_cons.mpr ⟨ha, h.nodup⟩, ?_, h.files_nodup,
        fun f hf => mem_cons_of_mem a (h.listed f hf), ?_, ?_, ?_, ?_, h.pos_lt⟩
      · grind [h.sector_inj]
      · grind [h.held_listed]
      · grind [h.openCnt]
      · have := h.opened
        grind
      · grind [h.denyWriteCnt]
    · show OpenFile.mk (fs'.inode (fs.file f).inode).sector (fs'.inode (fs.file f).inode).data _ = _
      rw [hold (h.listed f hf)]
      rfl

/-- Closing an inode changes counters only, or drops it from the list. -/
theorem inodeClose_inode (h : inodeClose fs i = some fs') (j : Addr) :
    (fs'.inode j).sector = (fs.inode j).sector ∧ (fs'.inode j).data = (fs.inode j).data ∧
      (fs'.inode j).denyWriteCnt = (fs.inode j).denyWriteCnt := by
  unfold inodeClose at h
  split at h
  · simp only at h
    split at h <;> cases h <;> grind
  · cases h

/-- `inode_close` gives a reference back. -/
theorem Accounts.inodeClose (h : Accounts fs (i :: held)) :
    ∃ fs', inodeClose fs i = some fs' ∧ Accounts fs' held ∧ Keeps fs fs' ∧
      ∀ x ∈ fs'.openInodes, x ∈ fs.openInodes := by
  have hi : i ∈ fs.openInodes := h.held_listed i mem_cons_self
  have hcnt := h.openCnt i hi
  rw [count_cons_self] at hcnt
  have hother : ∀ {j}, j ≠ i → (i :: held).count j = held.count j :=
    fun hj => count_cons_of_ne (fun heq => hj heq.symm)
  obtain ⟨fs', hclose⟩ : ∃ fs', Filesys.inodeClose fs i = some fs' := by
    unfold Filesys.inodeClose
    rw [if_pos hi]
    simp only
    split <;> exact ⟨_, rfl⟩
  have hsame := inodeClose_inode hclose
  have hview : ∀ f, (fs'.file f) = fs.file f → fs'.view f = fs.view f := by
    intro f hf
    unfold Fs.view
    rw [hf, (hsame _).1, (hsame _).2.1]
  refine ⟨fs', hclose, ?_⟩
  unfold Filesys.inodeClose at hclose
  rw [if_pos hi] at hclose
  simp only at hclose
  have hopeners : openers fs' = openers fs ∧ deniers fs' = deniers fs := by
    split at hclose <;> cases hclose <;> exact ⟨rfl, rfl⟩
  have hopeners₁ := congrFun hopeners.1
  have hdeniers := congrFun hopeners.2
  have hopened := h.opened
  split at hclose
  · -- the last reference: no file and nobody else has the inode
    have hnone : openers fs i = 0 ∧ held.count i = 0 := by omega
    have hnofile : ∀ f ∈ fs.files, (fs.file f).inode ≠ i := by
      intro f hf heq
      have hno := List.countP_eq_zero.mp hnone.1 f hf
      simp [heq] at hno
    have hmem : ∀ {j}, j ∈ fs'.openInodes ↔ j ≠ i ∧ j ∈ fs.openInodes := by
      cases hclose
      exact h.nodup.mem_erase_iff
    have hinode : ∀ j, j ≠ i → fs'.inode j = fs.inode j := by
      cases hclose
      exact fun j hj => if_neg hj
    have hfiles : fs'.files = fs.files ∧ fs'.file = fs.file ∧ fs'.openInodes.Nodup := by
      cases hclose
      exact ⟨rfl, rfl, h.nodup.erase i⟩
    refine ⟨⟨hfiles.2.2, ?_, hfiles.1 ▸ h.files_nodup, ?_, ?_, ?_, ?_, ?_, ?_⟩, ?_, fun x hx => (hmem.mp hx).2⟩
    · grind [h.sector_inj]
    · rw [hfiles.1, hfiles.2.1]
      exact fun f hf => hmem.mpr ⟨hnofile f hf, h.listed f hf⟩
    · grind [h.held_listed]
    · grind [h.openCnt]
    · grind
    · grind [h.denyWriteCnt]
    · rw [hfiles.1, hfiles.2.1]
      exact h.pos_lt
    · cases hclose
      exact ⟨rfl, rfl, rfl, rfl, fun f _ => hview f rfl⟩
  · cases hclose
    refine ⟨⟨h.nodup, ?_, h.files_nodup, h.listed, ?_, ?_, ?_, ?_, h.pos_lt⟩,
      ⟨rfl, rfl, rfl, rfl, fun f _ => hview f rfl⟩, fun x hx => hx⟩
    · grind [h.sector_inj]
    · exact fun j hj => h.held_listed j (mem_cons_of_mem i hj)
    · grind [h.openCnt]
    · grind
    · grind [h.denyWriteCnt]

/-! ## Opening and closing a file -/

/-- Counting over the files when a new one comes first. -/
theorem countP_setFile_new (hf : f ∉ fs.files) (F : File) (p : File → Bool) :
    (fs.files.countP (fun g => p ((fs.setFile f F).file g))) = fs.files.countP (fun g => p (fs.file g)) := by
  apply countP_congr
  intro g hg
  have hgf : g ≠ f := by
    rintro rfl
    exact hf hg
  show p (if g = f then F else fs.file g) = true ↔ _
  rw [if_neg hgf]

/-- `file_open` puts the reference into a file. -/
theorem Accounts.fileOpen (h : Accounts fs (i :: held)) (hf : f ∉ fs.files) : Accounts (fileOpen fs i f) held := by
  have hi : i ∈ fs.openInodes := h.held_listed i mem_cons_self
  set F : File := { inode := i, pos := 0, denyWrite := false } with hF
  have hfile : ∀ g, (Filesys.fileOpen fs i f).file g = if g = f then F else fs.file g := fun _ => rfl
  have hfiles : (Filesys.fileOpen fs i f).files = f :: fs.files := rfl
  have hcount : ∀ p : File → Bool, (Filesys.fileOpen fs i f).files.countP (fun g => p ((Filesys.fileOpen fs i f).file g)) =
      fs.files.countP (fun g => p (fs.file g)) + if p F then 1 else 0 := by
    intro p
    rw [hfiles, countP_cons, hfile f, if_pos rfl]
    exact congrArg (· + _) (countP_setFile_new hf F p)
  have hopeners : ∀ j, openers (Filesys.fileOpen fs i f) j = openers fs j + if i = j then 1 else 0 := by
    intro j
    have hj := hcount fun G => decide (G.inode = j)
    simpa [openers, hF] using hj
  have hdeniers : ∀ j, deniers (Filesys.fileOpen fs i f) j = deniers fs j := by
    intro j
    have hj := hcount fun G => decide (G.inode = j ∧ G.denyWrite)
    simpa [deniers, hF] using hj
  refine ⟨h.nodup, h.sector_inj, List.nodup_cons.mpr ⟨hf, h.files_nodup⟩, ?_,
    fun j hj => h.held_listed j (mem_cons_of_mem i hj), ?_, h.opened, ?_, ?_⟩
  · intro g hg
    have hold := h.listed g
    show _ ∈ fs.openInodes
    grind
  · intro j hj
    have hold := h.openCnt j hj
    show (fs.inode j).openCnt = _
    grind
  · intro j hj
    show (fs.inode j).denyWriteCnt = _
    rw [h.denyWriteCnt j hj, hdeniers]
  · have := h.pos_lt
    grind

/-- `free(file)` in `file_close` leaves the reference to the inode. -/
theorem Accounts.freeFile (h : Accounts fs held) (hf : f ∈ fs.files) (hdeny : (fs.file f).denyWrite = false) :
    Accounts { fs with files := fs.files.erase f, closed := f :: fs.closed } ((fs.file f).inode :: held) := by
  have hperm := perm_cons_erase hf
  have hmem : ∀ {g}, g ∈ fs.files.erase f → g ∈ fs.files := fun hg => mem_of_mem_erase hg
  have hopeners : ∀ j, openers fs j = (fs.files.erase f).countP (fun g => (fs.file g).inode = j) +
      if (fs.file f).inode = j then 1 else 0 := by
    intro j
    unfold openers
    rw [hperm.countP_eq, countP_cons]
    simp
  have hdeniers : ∀ j, deniers fs j =
      (fs.files.erase f).countP (fun g => (fs.file g).inode = j ∧ (fs.file g).denyWrite) := by
    intro j
    unfold deniers
    rw [hperm.countP_eq, countP_cons]
    simp [hdeny]
  refine ⟨h.nodup, h.sector_inj, h.files_nodup.erase f, fun g hg => h.listed g (hmem hg), ?_, ?_, h.opened, ?_,
    fun g hg => h.pos_lt g (hmem hg)⟩
  · grind [h.listed, h.held_listed]
  · intro j hj
    have hold := h.openCnt j hj
    show (fs.inode j).openCnt = ((fs.files.erase f).countP (fun g => (fs.file g).inode = j) : Int) + _
    grind
  · intro j hj
    rw [h.denyWriteCnt j hj, hdeniers]
    rfl

/-! ## Changing one file -/

/-- Writing a file whose inode stays the same keeps the numbers of openers. -/
theorem openers_setFile (fs : Fs) (hF : F.inode = (fs.file f).inode) (i : Addr) :
    openers (fs.setFile f F) i = openers fs i := by
  apply countP_congr
  grind

theorem setFile_inode (fs : Fs) (hF : F.inode = (fs.file f).inode) (g : Addr) :
    ((fs.setFile f F).file g).inode = (fs.file g).inode := by
  grind

/-- The position of a file changes, and the device may. -/
theorem Accounts.setPos (h : Accounts fs held) (hn : n < 2 ^ 31) (device : Device) :
    Accounts ({ fs with device }.setFile f { fs.file f with pos := n }) held := by
  set fs' := { fs with device }.setFile f { fs.file f with pos := n }
  have hopeners : ∀ i, openers fs' i = openers fs i := openers_setFile { fs with device } rfl
  have hdeniers : ∀ i, deniers fs' i = deniers fs i := by
    intro i
    apply countP_congr
    grind
  refine ⟨h.nodup, h.sector_inj, h.files_nodup, ?_, h.held_listed, ?_, h.opened, ?_, ?_⟩
  · intro g hg
    have hold := h.listed g hg
    show _ ∈ fs.openInodes
    grind
  · intro i hi
    rw [hopeners]
    exact h.openCnt i hi
  · intro i hi
    rw [hdeniers]
    exact h.denyWriteCnt i hi
  · intro g hg
    have hold := h.pos_lt g hg
    grind

/-- The flag of a file changes, and the counter of its inode with it. -/
theorem Accounts.setDeny (h : Accounts fs held) (hf : f ∈ fs.files)
    (flag : Bool) (cnt : Int) (hcnt : cnt + ((fs.file f).denyWrite.toNat : Int) =
      (fs.inode (fs.file f).inode).denyWriteCnt + (flag.toNat : Int)) :
    Accounts ((fs.setFile f { fs.file f with denyWrite := flag }).setInode (fs.file f).inode
      { fs.inode (fs.file f).inode with denyWriteCnt := cnt }) held := by
  set i := (fs.file f).inode with hi
  set fs₁ := fs.setFile f { fs.file f with denyWrite := flag } with hfs₁
  set fs' := fs₁.setInode i { fs.inode i with denyWriteCnt := cnt } with hfs'
  have hinode : ∀ g, (fs'.file g).inode = (fs.file g).inode := setFile_inode fs rfl
  have hfile : ∀ g, fs'.file g = if g = f then { fs.file f with denyWrite := flag } else fs.file g := fun _ => rfl
  have hnode : ∀ j, fs'.inode j = if j = i then { fs.inode i with denyWriteCnt := cnt } else fs.inode j :=
    fun _ => rfl
  have hsame : ∀ j, (fs'.inode j).sector = (fs.inode j).sector ∧ (fs'.inode j).openCnt = (fs.inode j).openCnt := by
    grind
  have hopeners : ∀ j, openers fs' j = openers fs j := openers_setFile fs rfl
  refine ⟨h.nodup, ?_, h.files_nodup, ?_, h.held_listed, ?_, ?_, ?_, ?_⟩
  · intro j hj k hk
    rw [(hsame j).1, (hsame k).1]
    exact h.sector_inj j hj k hk
  · intro g hg
    rw [hinode]
    exact h.listed g hg
  · intro j hj
    rw [(hsame j).2, hopeners]
    exact h.openCnt j hj
  · intro j hj
    rw [(hsame j).2]
    exact h.opened j hj
  · intro j hj
    have hupdate := countP_update (p := fun g => decide ((fs.file g).inode = j ∧ (fs.file g).denyWrite))
      (q := fun g => decide ((fs'.file g).inode = j ∧ (fs'.file g).denyWrite)) h.files_nodup hf
      (fun x hx => by rw [hfile, if_neg hx])
    have hold := h.denyWriteCnt j hj
    have hnewf : fs'.file f = { fs.file f with denyWrite := flag } := if_pos rfl
    change deniers fs' j + _ = deniers fs j + _ at hupdate
    rw [hnewf, ← hi] at hupdate
    rw [hnode]
    split
    · rename_i hji
      rw [hji] at hupdate hold ⊢
      show cnt = _
      cases hd : (fs.file f).denyWrite <;> cases flag <;> simp [hd] at hupdate hcnt <;> omega
    · rename_i hji
      have hij : ¬ i = j := fun heq => hji heq.symm
      simp only [hij, false_and, decide_false, Bool.toNat_false, Nat.add_zero] at hupdate
      rw [hold, hupdate]
  · intro g hg
    rw [hfile]
    split
    · exact h.pos_lt f hf
    · exact h.pos_lt g hg

theorem Accounts.deref (h : Accounts fs held) (hf : f ∈ fs.files) :
    deref fs f = some (fs.file f, fs.inode (fs.file f).inode) := if_pos ⟨hf, h.listed f hf⟩

theorem Accounts.deny_le (h : Accounts fs held) (hi : i ∈ fs.openInodes) :
    (fs.inode i).denyWriteCnt ≤ (fs.inode i).openCnt := by
  rw [h.denyWriteCnt i hi, h.openCnt i hi]
  have hle := deniers_le_openers fs i
  omega

theorem view_setDeny (fs : Fs) (f : Addr) (flag : Bool) (cnt : Int) (g : Addr) :
    ((fs.setFile f { fs.file f with denyWrite := flag }).setInode (fs.file f).inode
      { fs.inode (fs.file f).inode with denyWriteCnt := cnt }).view g = fs.view g := by
  simp only [Fs.view, Fs.setInode, Fs.setFile]
  grind

/-- `file_deny_write` passes its assertion. -/
theorem Accounts.fileDenyWrite (h : Accounts fs held) (hf : f ∈ fs.files) :
    ∃ fs', fileDenyWrite fs f = some fs' ∧ Accounts fs' held ∧ fs'.device = fs.device ∧ fs'.files = fs.files ∧
      fs'.closed = fs.closed ∧ fs'.openInodes = fs.openInodes ∧ ∀ g, fs'.view g = fs.view g := by
  simp only [Filesys.fileDenyWrite, h.deref hf, bind_eq_bind, bind_some]
  cases hd : (fs.file f).denyWrite with
  | true => exact ⟨fs, rfl, h, rfl, rfl, rfl, rfl, fun _ => rfl⟩
  | false =>
    have hset := h.setDeny hf true ((fs.inode (fs.file f).inode).denyWriteCnt + 1) (by rw [hd]; simp)
    refine ⟨_, ?_, hset, rfl, rfl, rfl, rfl, view_setDeny fs f true _⟩
    have hle := hset.deny_le (h.listed f hf)
    simp only [Fs.setInode, if_true] at hle
    exact if_pos hle

/-- `file_allow_write` passes its assertions. -/
theorem Accounts.fileAllowWrite (h : Accounts fs held) (hf : f ∈ fs.files) :
    ∃ fs', fileAllowWrite fs f = some fs' ∧ Accounts fs' held ∧ fs'.device = fs.device ∧ fs'.files = fs.files ∧
      fs'.closed = fs.closed ∧ fs'.openInodes = fs.openInodes ∧ (fs'.file f).denyWrite = false ∧
      ∀ g, fs'.view g = fs.view g := by
  simp only [Filesys.fileAllowWrite, h.deref hf, bind_eq_bind, bind_some]
  cases hd : (fs.file f).denyWrite with
  | false => exact ⟨fs, rfl, h, rfl, rfl, rfl, rfl, hd, fun _ => rfl⟩
  | true =>
    have hset := h.setDeny hf false ((fs.inode (fs.file f).inode).denyWriteCnt - 1) (by rw [hd]; simp)
    refine ⟨_, ?_, hset, rfl, rfl, rfl, rfl, ?_, view_setDeny fs f false _⟩
    · have hle := h.deny_le (h.listed f hf)
      have hpos : 0 < (fs.inode (fs.file f).inode).denyWriteCnt := by
        rw [h.denyWriteCnt _ (h.listed f hf)]
        have hcount : 0 < deniers fs (fs.file f).inode := by
          apply List.countP_pos_iff.mpr
          exact ⟨f, hf, by simp [hd]⟩
        omega
      simp only [if_true, inodeAllowWrite]
      exact if_pos ⟨hpos, hle⟩
    · show (if f = f then _ else _ : File).denyWrite = false
      rw [if_pos rfl]

/-- Closing an inode does not look at the files. -/
theorem inodeClose_files (fs : Fs) (i : Addr) (files closed : List Addr) :
    inodeClose { fs with files, closed } i = (inodeClose fs i).map (fun fs' => { fs' with files, closed }) := by
  unfold inodeClose
  split
  · simp only
    split <;> rfl
  · rfl

/-- **`file_close` gives everything back** and leaves the other files alone. -/
theorem Accounts.fileClose (h : Accounts fs held) (hf : f ∈ fs.files) :
    ∃ fs', fileClose fs f = some fs' ∧ Accounts fs' held ∧ fs'.device = fs.device ∧
      fs'.files = fs.files.erase f ∧ fs'.closed = f :: fs.closed ∧
      ∀ g ∈ fs.files.erase f, fs'.view g = fs.view g := by
  obtain ⟨fs₁, hallow, hacc, hdev, hfiles, hclosed, _, hflag, hview⟩ := h.fileAllowWrite hf
  obtain ⟨fs₂, hclose, hacc₂, hkeeps, _⟩ := (hacc.freeFile (hfiles ▸ hf) hflag).inodeClose
  rw [inodeClose_files] at hclose
  obtain ⟨fs₃, hclose₃, heq⟩ := Option.map_eq_some_iff.mp hclose
  have hkept : fs₃.files = fs₁.files ∧ fs₃.closed = fs₁.closed := by
    unfold Filesys.inodeClose at hclose₃
    split at hclose₃
    · simp only at hclose₃
      split at hclose₃ <;> cases hclose₃ <;> exact ⟨rfl, rfl⟩
    · cases hclose₃
  refine ⟨fs₂, ?_, hacc₂, hkeeps.device.trans hdev, ?_, ?_, ?_⟩
  · simp only [Filesys.fileClose, hallow, hclose₃, bind_eq_bind, bind_some, hkept.1, hkept.2, ← heq]
    rfl
  · rw [hkeeps.files, ← hfiles]
  · rw [hkeeps.closed, ← hclosed]
  · intro g hg
    rw [← hview g]
    exact hkeeps.view g (by rw [hfiles]; exact hg)

/-! ## `filesys_open` -/

theorem Accounts.dataOf_open (h : Accounts fs held)
    (hi : i ∈ fs.openInodes) : dataOf fmt fs (fs.inode i).sector = (fs.inode i).data := by
  unfold dataOf
  cases hfind : fs.openInodes.find? (fun j => (fs.inode j).sector = (fs.inode i).sector) with
  | none => simpa using List.find?_eq_none.mp hfind i hi
  | some j =>
    have hj := mem_of_find?_eq_some hfind
    have hsector : (fs.inode j).sector = (fs.inode i).sector := by simpa using find?_some hfind
    rw [h.sector_inj j hj i hi hsector]

theorem dataOf_closed
    (h : ∀ i ∈ fs.openInodes, (fs.inode i).sector ≠ sector) : dataOf fmt fs sector = fmt.inodeDisk fs.device sector := by
  unfold dataOf
  rw [List.find?_eq_none.mpr (by simpa using h)]

/-- Opening one inode does not change what the others say. -/
theorem Opened.dataOf {i : Addr} (h : Opened fmt fs fs' sector a i) (hfs : Accounts fs held) (hfs' : Accounts fs' held')
    (hi : i ∈ fs'.openInodes) (k : Nat) : Filesys.dataOf fmt fs' k = Filesys.dataOf fmt fs k := by
  by_cases hopen : ∃ j ∈ fs.openInodes, (fs.inode j).sector = k
  · obtain ⟨j, hj, rfl⟩ := hopen
    obtain ⟨hj', hs, hd⟩ := h.old j hj
    rw [hfs.dataOf_open hj, ← hs, hfs'.dataOf_open hj', hd]
  · have hclosed : ∀ j ∈ fs.openInodes, (fs.inode j).sector ≠ k := fun j hj heq => hopen ⟨j, hj, heq⟩
    by_cases hk : sector = k
    · rw [← hk, ← h.data, ← hfs'.dataOf_open hi, h.sector]
    · rw [dataOf_closed hclosed, dataOf_closed, h.keeps.device]
      intro j hj
      rcases h.new j hj with rfl | hj'
      · rw [h.sector]; exact hk
      · rw [(h.old j hj').2.1]; exact hclosed j hj'

/-- `filesys_open` of a name that is not there. -/
theorem Accounts.filesysOpen_none (h : Accounts fs []) (f : Addr) (b : Addr) (ha : a ∉ fs.openInodes)
    (hname : fmt.lookup fs.device (dataOf fmt fs ROOT_DIR_SECTOR) name = none) :
    ∃ fs', filesysOpen fmt fs name f a b = some (fs', none) ∧ Accounts fs' [] ∧ Keeps fs fs' := by
  obtain ⟨fs₁, root, hopen, hacc, ho⟩ := h.inodeOpen fmt ROOT_DIR_SECTOR ha
  obtain ⟨fs₂, hclose, hacc₂, hkeeps, _⟩ := hacc.inodeClose
  refine ⟨fs₂, ?_, hacc₂, ho.keeps.trans hkeeps⟩
  rw [← ho.keeps.device, ← ho.data] at hname
  simp only [filesysOpen, hopen, hname, hclose, bind_eq_bind, bind_some]
  rfl

/-- **`filesys_open` of a name that is there** makes a new file at position 0. -/
theorem Accounts.filesysOpen_some (h : Accounts fs []) {f b : Addr}
    (hf : f ∉ fs.files) (ha : a ∉ fs.openInodes) (hb : b ∉ fs.openInodes) (hab : b ≠ a) {k : Nat}
    (hname : fmt.lookup fs.device (dataOf fmt fs ROOT_DIR_SECTOR) name = some k) :
    ∃ fs', filesysOpen fmt fs name f a b = some (fs', some f) ∧ Accounts fs' [] ∧ fs'.device = fs.device ∧
      fs'.files = f :: fs.files ∧ fs'.closed = fs.closed ∧ (∀ g ∈ fs.files, fs'.view g = fs.view g) ∧
      fs'.view f = ⟨k, dataOf fmt fs k, 0⟩ := by
  obtain ⟨fs₁, root, hopen, hacc, ho⟩ := h.inodeOpen fmt ROOT_DIR_SECTOR ha
  have hb₁ : b ∉ fs₁.openInodes := by
    intro hmem
    rcases ho.new b hmem with rfl | hmem
    · rcases ho.place with hroot | hroot
      · exact hab hroot
      · exact hb hroot
    · exact hb hmem
  obtain ⟨fs₂, i, hopen₂, hacc₂, ho₂⟩ := hacc.inodeOpen fmt k hb₁
  obtain ⟨fs₃, hclose, hacc₃, hkeeps₃, _⟩ := (hacc₂.perm (List.Perm.swap root i [])).inodeClose
  have hkeeps : Keeps fs fs₃ := (ho.keeps.trans ho₂.keeps).trans hkeeps₃
  have hf₃ : f ∉ fs₃.files := by rw [hkeeps.files]; exact hf
  refine ⟨Filesys.fileOpen fs₃ i f, ?_, hacc₃.fileOpen hf₃, hkeeps.device, ?_, hkeeps.closed, ?_, ?_⟩
  · rw [← ho.keeps.device, ← ho.data] at hname
    simp only [filesysOpen, hopen, hname, hopen₂, hclose, bind_eq_bind, bind_some]
    rfl
  · show f :: fs₃.files = _
    rw [hkeeps.files]
  · intro g hg
    have hgf : g ≠ f := by
      rintro rfl
      exact hf hg
    rw [← hkeeps.view g hg]
    simp [Fs.view, Filesys.fileOpen, Fs.setFile, hgf]
  · have hsame := inodeClose_inode hclose i
    have hroot : root ∈ fs₁.openInodes := hacc.held_listed root mem_cons_self
    have hdata : (fs₂.inode i).data = dataOf fmt fs k := by rw [ho₂.data, ho.dataOf h hacc hroot]
    simp only [Fs.view, Filesys.fileOpen, Fs.setFile, if_true]
    rw [hsame.1, hsame.2.1, ho₂.sector, hdata]

/-! ## Reading, writing and seeking -/

/-- File `f` has moved to position `n`, and the device to new contents. -/
def Fs.moved (fs : Fs) (f : Addr) (n : Nat) (device : Device) : Fs :=
  { fs with device }.setFile f { fs.file f with pos := n }

/-- A file that moves leaves the others where they are. -/
theorem view_moved (fs : Fs) (f : Addr) (n : Nat) (device : Device) (g : Addr) :
    (fs.moved f n device).view g = if g = f then { fs.view f with pos := n } else fs.view g := by
  by_cases hgf : g = f
  · rw [if_pos hgf, hgf]
    simp [Fs.view, Fs.moved, Fs.setFile]
  · simp [Fs.view, Fs.moved, Fs.setFile, hgf]

section
variable {fs : Fs} {held : List Addr} {f : Addr}

/-- `file_read`. -/
theorem Accounts.fileRead (h : Accounts fs held) (hf : f ∈ fs.files) (size : Nat) :
    ∃ buffer, inodeReadAt fs.device (fs.view f).data size (fs.view f).pos = some buffer ∧
      fileRead fs f size = some (fs.moved f ((fs.view f).pos + buffer.length) fs.device, buffer) ∧
      Accounts (fs.moved f ((fs.view f).pos + buffer.length) fs.device) held := by
  obtain ⟨buffer, hread, _, hend⟩ := inodeReadAt_some fs.device (fs.view f).data size (fs.view f).pos
  refine ⟨buffer, hread, ?_, ?_⟩
  · have hread' : inodeReadAt fs.device (fs.inode (fs.file f).inode).data size (fs.file f).pos = some buffer := hread
    simp only [Filesys.fileRead, h.deref hf, hread', bind_eq_bind, bind_some]
    rfl
  · have hpos : (fs.view f).pos < 2 ^ 31 := h.pos_lt f hf
    have hlength := (fs.view f).data.length_lt
    exact h.setPos (by omega) _

/-- What `inode_write_at` does as the users see it. -/
def writeResult (fs : Fs) (F : OpenFile) (buffer : List UInt8) (size : Nat) (r : Device × Nat) : Prop :=
  (Denied fs F.sector ∧ r = (fs.device, 0)) ∨
    (¬ Denied fs F.sector ∧ writeData fs.device F.data buffer size F.pos = some r)

section
variable (h : Accounts fs held) (hf : f ∈ fs.files)
include h hf

/-- The counter of an inode says whether some file denies writes to it. -/
theorem Accounts.denied_iff : (fs.inode (fs.file f).inode).denyWriteCnt ≠ 0 ↔ Denied fs (fs.view f).sector := by
  have hi := h.listed f hf
  rw [h.denyWriteCnt _ hi]
  have hpos : (deniers fs (fs.file f).inode : Int) ≠ 0 ↔ 0 < deniers fs (fs.file f).inode := by omega
  rw [hpos]
  unfold deniers Denied
  rw [countP_pos_iff]
  constructor
  · rintro ⟨g, hg, hp⟩
    simp only [decide_eq_true_eq] at hp
    exact ⟨g, hg, hp.2, by simp [Fs.view, hp.1]⟩
  · rintro ⟨g, hg, hdeny, hsector⟩
    refine ⟨g, hg, ?_⟩
    simp only [decide_eq_true_eq]
    exact ⟨h.sector_inj _ (h.listed g hg) _ hi hsector, hdeny⟩

/-- `file_write`. -/
theorem Accounts.fileWrite (buffer : List UInt8) (size : Nat) :
    ∃ device n, writeResult fs (fs.view f) buffer size (device, n) ∧
      fileWrite fs f buffer size = some (fs.moved f ((fs.view f).pos + n) device, n) ∧
      Accounts (fs.moved f ((fs.view f).pos + n) device) held ∧
      ∀ x, Outside (fs.view f).data x → device x = fs.device x := by
  have hpos : (fs.view f).pos < 2 ^ 31 := h.pos_lt f hf
  have hlength := (fs.view f).data.length_lt
  have hwrites : ∀ {device : Device} {n : Nat},
      inodeWriteAt fs.device (fs.inode (fs.file f).inode) buffer size (fs.file f).pos = some (device, n) →
      Filesys.fileWrite fs f buffer size = some (fs.moved f ((fs.view f).pos + n) device, n) := by
    intro device n hw
    simp only [Filesys.fileWrite, h.deref hf, hw, bind_eq_bind, bind_some]
    rfl
  by_cases hdeny : (fs.inode (fs.file f).inode).denyWriteCnt = 0
  · have hnot : ¬ Denied fs (fs.view f).sector := fun hd => (h.denied_iff hf).mpr hd hdeny
    obtain ⟨device, n, hw, _, hend, hframe⟩ :=
      writeData_some fs.device (fs.view f).data buffer size (fs.view f).pos
    refine ⟨device, n, .inr ⟨hnot, hw⟩, hwrites ?_, h.setPos (by omega) _, hframe⟩
    unfold inodeWriteAt
    rw [if_neg (fun hne => hne hdeny)]
    exact hw
  · refine ⟨fs.device, 0, .inl ⟨(h.denied_iff hf).mp hdeny, rfl⟩, hwrites ?_, h.setPos (by omega) _,
      fun _ _ => rfl⟩
    unfold inodeWriteAt
    rw [if_pos hdeny]

/-- `file_seek` to a position that is not negative. -/
theorem Accounts.fileSeek (hn : n < 2 ^ 31) :
    fileSeek fs f n = some (fs.moved f n fs.device) ∧ Accounts (fs.moved f n fs.device) held := by
  refine ⟨?_, h.setPos hn _⟩
  simp only [Filesys.fileSeek, h.deref hf, bind_eq_bind, bind_some]
  rfl

theorem Accounts.fileTell : fileTell fs f = some (fs.view f).pos := by
  simp only [Filesys.fileTell, h.deref hf, map_some]
  rfl

theorem Accounts.fileLength : fileLength fs f = some (fs.view f).data.length := by
  simp only [Filesys.fileLength, h.deref hf, map_some]
  rfl

end

end

end Filesys
end Asg1
