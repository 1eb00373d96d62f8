import Asg1.Lib.Lts
import Asg1.Lib.Radix
import Asg1.Threads.Pte

/-!
# `Userprog.Pagedir` — page directories in memory

`userprog/pagedir.c` over a memory of 32-bit words. A page directory is a page of entries that name page tables, a
page table is a page of entries that name frames, and all of them lie in one memory: the functions below compute
addresses with the bit operations of `threads/pte.h` and read and write words there. `paging_init`, which builds the
kernel's own directory that `pagedir_create` copies, is here too.

`palloc_get_page` is a parameter of each call: the page it returns, or `none`. What it may return is said by `Fresh`.
A failed assertion is `none`. The processor's cache of entries (`invalidate_pagedir`) is left out.

The main result reads lookups off the calls made: `pagedir_get_page` finds what the last successful
`pagedir_set_page` on that page of that directory put there, and no call is seen at another key.
-/

namespace Asg1
namespace Pagedir

open Pte

/-- Words by the address of their page and their index in it. -/
abbrev Mem := Word → Nat → Word

/-- Memory, and the pages that `palloc_get_page` has handed out. -/
structure Ram where
  mem : Mem
  taken : List Word

/-- `*a` -/
def Ram.read (r : Ram) (a : Word) : Word := r.mem (pgRoundDown a) ((pgOfs a).toNat / 4)

/-- `*a = w` -/
def Ram.write (r : Ram) (a w : Word) : Ram :=
  { r with mem := Radix.set r.mem (pgRoundDown a) ((pgOfs a).toNat / 4) w }

/-- The page that `palloc_get_page (PAL_ZERO)` has returned. -/
def Ram.takeZeroed (r : Ram) (page : Word) : Ram := ⟨Radix.fill r.mem page 0#32, page :: r.taken⟩

/-- `memcpy (dst, src, PGSIZE)` into a page that `palloc_get_page (0)` has returned. -/
def Ram.takeCopy (r : Ram) (dst src : Word) : Ram := ⟨Radix.copy r.mem dst src, dst :: r.taken⟩

/-! ## `paging_init` -/

/-- What the kernel is booted with: the amount of memory (`start.S` finds at most 64 MB, and the kernel's window
    onto memory has 1 GB), the bounds of its text, the page it gets for its directory, the page it gets for the
    table under each entry of it, and what memory holds. -/
structure Boot where
  initRamPages : Nat
  textStart : Word
  textEnd : Word
  initPageDir : Word
  tables : Nat → Word
  mem : Mem
  ram_le : initRamPages ≤ 2 ^ 18
  dir_page : KernelPage initPageDir
  table_page : ∀ i, KernelPage (tables i)
  apart : ∀ i, tables i ≠ initPageDir

/-- The table for page `page`, which is a new one at the first page of each table. -/
def pagingTable (k : Boot) (r : Ram) (pt vaddr : Word) : Option (Ram × Word) := do
  let pde := k.initPageDir + 4#32 * pdNo vaddr
  if r.read pde = 0#32 then
    let pt := k.tables (pdNo vaddr).toNat
    let entry ← pdeCreate pt
    return ((r.takeZeroed pt).write pde entry, pt)
  else return (r, pt)

/-- The loop of `paging_init`, `left` pages from the end. -/
def pagingLoop (k : Boot) : (left page : Nat) → Ram → Word → Option Ram
  | 0, _, r, _ => some r
  | left + 1, page, r, pt => do
    let vaddr ← ptov (BitVec.ofNat 32 page * PGSIZE)
    let inKernelText : Bool := k.textStart ≤ vaddr ∧ vaddr < k.textEnd
    let (r, pt) ← pagingTable k r pt vaddr
    let entry ← pteCreateKernel vaddr (!inKernelText)
    pagingLoop k left (page + 1) (r.write (pt + 4#32 * ptNo vaddr) entry) pt

def pagingInit (k : Boot) : Option Ram :=
  pagingLoop k k.initRamPages 0 (Ram.takeZeroed ⟨k.mem, []⟩ k.initPageDir) 0#32

/-! ## `pagedir.c` -/

def pagedirCreate (k : Boot) (r : Ram) (page : Option Word) : Ram × Option Word :=
  match page with
  | none => (r, none)
  | some pd => (r.takeCopy pd k.initPageDir, some pd)

/-- `&pt[pt_no (vaddr)]` for the table `pt` that `*pde` names. -/
def entryAddr (r : Ram) (pde vaddr : Word) : Option Word := do
  let pt ← pdeGetPt (r.read pde)
  return pt + 4#32 * ptNo vaddr

def lookupPage (r : Ram) (pd vaddr : Word) (create : Bool) (page : Option Word) : Option (Ram × Option Word) := do
  guard (pd ≠ 0#32)
  guard (create = false ∨ isUserVaddr vaddr)
  let pde := pd + 4#32 * pdNo vaddr
  if r.read pde ≠ 0#32 then
    let pte ← entryAddr r pde vaddr
    return (r, some pte)
  else if create then
    match page with
    | none => return (r, none)
    | some pt =>
      let entry ← pdeCreate pt
      let r := (r.takeZeroed pt).write pde entry
      let pte ← entryAddr r pde vaddr
      return (r, some pte)
  else return (r, none)

/-- `paddr >> PTSHIFT` -/
def frameNo (paddr : Word) : Nat := (paddr >>> PTSHIFT).toNat

/-- The end of `pagedir_set_page`. -/
def setEntry (r : Ram) (pte : Option Word) (kpage : Word) (writable : Bool) : Option (Ram × Bool) := do
  match pte with
  | none => return (r, false)
  | some pte =>
    guard (r.read pte &&& PTE_P = 0#32)
    let entry ← pteCreateUser kpage writable
    return (r.write pte entry, true)

def pagedirSetPage (k : Boot) (r : Ram) (pd upage kpage : Word) (writable : Bool) (page : Option Word) :
    Option (Ram × Bool) := do
  guard (pgOfs upage = 0#32)
  guard (pgOfs kpage = 0#32)
  guard (isUserVaddr upage)
  let paddr ← vtop kpage
  guard (frameNo paddr < k.initRamPages)
  guard (pd ≠ k.initPageDir)
  let (r, pte) ← lookupPage r pd upage true page
  setEntry r pte kpage writable

def pagedirGetPage (r : Ram) (pd uaddr : Word) : Option (Option Word) := do
  guard (isUserVaddr uaddr)
  let (r, pte) ← lookupPage r pd uaddr false none
  match pte with
  | none => return none
  | some pte =>
    if r.read pte &&& PTE_P ≠ 0#32 then
      let page ← pteGetPage (r.read pte)
      return some (page + pgOfs uaddr)
    else return none

def pagedirClearPage (r : Ram) (pd upage : Word) : Option Ram := do
  guard (pgOfs upage = 0#32)
  guard (isUserVaddr upage)
  let (r, pte) ← lookupPage r pd upage false none
  match pte with
  | none => return r
  | some pte =>
    if r.read pte &&& PTE_P ≠ 0#32 then return r.write pte (r.read pte &&& ~~~PTE_P) else return r

/-- The functions that test a flag. -/
def pagedirIs (flag : Word) (r : Ram) (pd vpage : Word) : Option Bool := do
  let (r, pte) ← lookupPage r pd vpage false none
  match pte with
  | none => return false
  | some pte => return r.read pte &&& flag ≠ 0#32

def pagedirIsDirty := pagedirIs PTE_D

def pagedirIsAccessed := pagedirIs PTE_A

/-- Whether the entry allows writing, as the processor reads it. -/
def pagedirIsWritable := pagedirIs PTE_W

/-- The functions that set or clear a flag. -/
def pagedirSetFlag (flag : Word) (r : Ram) (pd vpage : Word) (value : Bool) : Option Ram := do
  let (r, pte) ← lookupPage r pd vpage false none
  match pte with
  | none => return r
  | some pte => return r.write pte (if value then r.read pte ||| flag else r.read pte &&& ~~~flag)

def pagedirSetDirty := pagedirSetFlag PTE_D

def pagedirSetAccessed := pagedirSetFlag PTE_A

/-! ## Reading and writing entries -/

section
variable {r : Ram} {a i w : Word}

/-- `a[i]` for an array that starts at a page. -/
theorem Ram.read_index (ha : pgOfs a = 0#32) (hi : i.toNat < 1024) : r.read (a + 4#32 * i) = r.mem a i.toNat := by
  rw [Ram.read, pgRoundDown_index ha hi, pgOfs_index ha hi]

theorem Ram.write_index (ha : pgOfs a = 0#32) (hi : i.toNat < 1024) :
    r.write (a + 4#32 * i) w = { r with mem := Radix.set r.mem a i.toNat w } := by
  rw [Ram.write, pgRoundDown_index ha hi, pgOfs_index ha hi]

end

/-- How a directory entry names a table. -/
def scheme : Radix.Scheme Word Word where
  zero := 0#32
  table := fun w => if w = 0#32 then none else pdeGetPt w
  table_zero := if_pos rfl

theorem scheme_zero : scheme.table 0#32 = none := scheme.table_zero

theorem scheme_pdeOf {pt : Word} (h : KernelPage pt) : scheme.table (pdeOf pt) = some pt := by
  simp [scheme, pdeOf_ne_zero, pdeGetPt_pdeOf h]

/-- The table entry for an address, 0 where there is no table. -/
def view (r : Ram) (pd va : Word) : Word := Radix.look scheme r.mem pd (pdNo va).toNat (ptNo va).toNat

/-- Page `pt` is the table for `va` in a directory of `dirs`. -/
abbrev Table (dirs : List Word) (r : Ram) (pd va pt : Word) : Prop :=
  Radix.Hangs scheme (· < 768) (· ∈ dirs) r.mem pd (pdNo va).toNat pt

abbrev InUse (dirs : List Word) (r : Ram) (p : Word) : Prop := Radix.Uses scheme (· < 768) (· ∈ dirs) r.mem p

/-- **The shape of memory.** The directories `dirs` and their tables are distinct pages that have been handed out,
    no two entries for user addresses share a table, and the directory to copy has none of them. -/
structure Ok (k : Boot) (dirs : List Word) (r : Ram) : Prop where
  dir_page : ∀ pd ∈ dirs, KernelPage pd
  entry : ∀ pd ∈ dirs, ∀ i < 768, r.mem pd i = 0#32 ∨ ∃ pt, KernelPage pt ∧ r.mem pd i = pdeOf pt
  separate : Radix.Separate scheme (· < 768) (· ∈ dirs) r.mem
  handed : ∀ p, InUse dirs r p → p ∈ r.taken
  init_handed : k.initPageDir ∈ r.taken
  init_unused : ¬ InUse dirs r k.initPageDir
  init_blank : ∀ i < 768, r.mem k.initPageDir i = 0#32

/-- A page that `palloc_get_page` may return. -/
structure Fresh (r : Ram) (page : Word) : Prop where
  kernel : KernelPage page
  new : page ∉ r.taken

instance decideTaken (r : Ram) (page : Word) : Decidable (page ∈ r.taken) := inferInstance

instance (r : Ram) (page : Word) : Decidable (Fresh r page) :=
  decidable_of_iff (KernelPage page ∧ page ∉ r.taken) ⟨fun h => ⟨h.1, h.2⟩, fun h => ⟨h.1, h.2⟩⟩

variable {k : Boot} {dirs : List Word} {r r' : Ram} {pd va pt w : Word}

/-- Reading the entry in the table. -/
theorem Table.read (h : Table dirs r pd va pt) (hpage : KernelPage pt) :
    r.read (pt + 4#32 * ptNo va) = view r pd va := by
  rw [Ram.read_index hpage.aligned (ptNo_lt va), view, Radix.look_of_table h.named]

section
variable (ok : Ok k dirs r) (hpd : pd ∈ dirs)
include ok hpd

/-- The two outcomes of reading a directory entry for a user address. -/
theorem Ok.table_cases (hva : isUserVaddr va) : (r.read (pd + 4#32 * pdNo va) = 0#32 ∧ view r pd va = 0#32) ∨
    ∃ pt, KernelPage pt ∧ r.read (pd + 4#32 * pdNo va) = pdeOf pt ∧ Table dirs r pd va pt := by
  have hread : r.read (pd + 4#32 * pdNo va) = r.mem pd (pdNo va).toNat :=
    Ram.read_index (ok.dir_page pd hpd).aligned (pdNo_lt va)
  rw [hread]
  rcases ok.entry pd hpd _ (pdNo_lt_iff.mpr hva) with hzero | ⟨pt, hpage, hpde⟩
  · refine .inl ⟨hzero, Radix.look_of_none ?_⟩
    rw [hzero, scheme_zero]
  · refine .inr ⟨pt, hpage, hpde, hpd, pdNo_lt_iff.mpr hva, ?_⟩
    rw [hpde, scheme_pdeOf hpage]

theorem Ok.ne_zero : pd ≠ 0#32 := by
  rintro rfl
  exact (ok.dir_page _ hpd).kernel (by decide)

theorem Ok.ne_init : pd ≠ k.initPageDir := by
  rintro rfl
  exact ok.init_unused (.inl hpd)

/-- `lookup_page` without creating: the entry's address, or nothing when there is no table. -/
theorem Ok.lookupPage (hva : isUserVaddr va) :
    (lookupPage r pd va false none = some (r, none) ∧ view r pd va = 0#32) ∨
    ∃ pt, KernelPage pt ∧ Table dirs r pd va pt ∧
      lookupPage r pd va false none = some (r, some (pt + 4#32 * ptNo va)) := by
  have hne := ok.ne_zero hpd
  rcases ok.table_cases hpd hva with ⟨hzero, hview⟩ | ⟨pt, hpage, hpde, htable⟩
  · exact .inl ⟨by simp [Pagedir.lookupPage, guard, hne, hzero], hview⟩
  · refine .inr ⟨pt, hpage, htable, ?_⟩
    simp [Pagedir.lookupPage, guard, hne, entryAddr, hpde, pdeOf_ne_zero, pdeGetPt_pdeOf hpage]

end

/-! ## Writing an entry -/

/-- What a call does to the view: the entry of one page of one directory is now `w`. -/
def Changes (dirs : List Word) (r r' : Ram) (pd va w : Word) : Prop :=
  ∀ pd' ∈ dirs, ∀ va', isUserVaddr va' →
    view r' pd' va' = if pd' = pd ∧ pgRoundDown va' = pgRoundDown va then w else view r pd' va'

/-- The entry depends on the page only. -/
theorem view_congr {va' : Word} (h : pgRoundDown va' = pgRoundDown va) : view r pd va' = view r pd va := by
  obtain ⟨hdir, htable⟩ := pgRoundDown_eq_iff.mp h
  rw [view, view, hdir, htable]

theorem changes_self : Changes dirs r r pd va (view r pd va) := by
  intro pd' _ va' _
  split
  · rename_i hsame
    rw [hsame.1, view_congr hsame.2]
  · rfl

/-- A call that changes no entry. -/
def Unchanged (dirs : List Word) (r r' : Ram) : Prop :=
  ∀ pd ∈ dirs, ∀ va, isUserVaddr va → view r' pd va = view r pd va

theorem Ok.write (ok : Ok k dirs r) (hpage : KernelPage pt) (htable : Table dirs r pd va pt) :
    Ok k dirs (r.write (pt + 4#32 * ptNo va) w) ∧ Changes dirs r (r.write (pt + 4#32 * ptNo va) w) pd va w := by
  rw [Ram.write_index hpage.aligned (ptNo_lt va)]
  have hdir : ∀ p, p ∈ dirs → p ≠ pt := by
    rintro p hp rfl
    exact ok.separate.apart htable hp
  have huses : ∀ {p}, InUse dirs ⟨Radix.set r.mem pt (ptNo va).toNat w, r.taken⟩ p → InUse dirs r p := by
    rintro p (hp | ⟨d, i, h⟩)
    · exact .inl hp
    · exact .inr ⟨d, i, (ok.separate.hangs_setTable htable).mp h⟩
  have hinit : k.initPageDir ≠ pt := by
    intro heq
    exact ok.init_unused (heq ▸ .inr ⟨_, _, htable⟩)
  refine ⟨⟨ok.dir_page, ?_, ok.separate.setTable htable, fun p hp => ok.handed p (huses hp), ok.init_handed,
    fun h => ok.init_unused (huses h), ?_⟩, ?_⟩
  · intro p hp i hi
    simpa only [Radix.set_ne _ _ _ _ (hdir p hp)] using ok.entry p hp i hi
  · intro i hi
    simpa only [Radix.set_ne _ _ _ _ hinit] using ok.init_blank i hi
  · intro pd' hpd' va' hva'
    simp only [view, ok.separate.look_setTable htable hpd' (pdNo_lt_iff.mpr hva'), pgRoundDown_eq_iff]

/-! ## Hanging a table and making a directory -/

theorem Fresh.not_inUse (fresh : Fresh r pt) (ok : Ok k dirs r) : ¬ InUse dirs r pt := fun h => fresh.new (ok.handed pt h)

theorem Fresh.ne_init (fresh : Fresh r pt) (ok : Ok k dirs r) : pt ≠ k.initPageDir := by
  rintro rfl
  exact fresh.new ok.init_handed

/-- `*pde = pde_create (pt)` for a new table. -/
theorem Ok.grow (ok : Ok k dirs r) (hpd : pd ∈ dirs) (hva : isUserVaddr va) (hnone : r.read (pd + 4#32 * pdNo va) = 0#32)
    (fresh : Fresh r pt) :
    let r' := (r.takeZeroed pt).write (pd + 4#32 * pdNo va) (pdeOf pt)
    Ok k dirs r' ∧ Unchanged dirs r r' ∧ Table dirs r' pd va pt := by
  have hindex := pdNo_lt_iff.mpr hva
  have hpdPage := ok.dir_page pd hpd
  rw [Ram.read_index hpdPage.aligned (pdNo_lt va)] at hnone
  have hmem : ((r.takeZeroed pt).write (pd + 4#32 * pdNo va) (pdeOf pt)) =
      ⟨Radix.grow scheme r.mem pd (pdNo va).toNat pt (pdeOf pt), pt :: r.taken⟩ := by
    rw [Ram.write_index hpdPage.aligned (pdNo_lt va)]
    rfl
  have new : Radix.NewTable scheme (· < 768) (· ∈ dirs) r.mem pd (pdNo va).toNat pt (pdeOf pt) :=
    ⟨hpd, hindex, by rw [hnone, scheme_zero], fresh.not_inUse ok, scheme_pdeOf fresh.kernel⟩
  have hentry : ∀ p ∈ dirs, ∀ i, Radix.grow scheme r.mem pd (pdNo va).toNat pt (pdeOf pt) p i =
      if p = pd ∧ i = (pdNo va).toNat then pdeOf pt else r.mem p i := fun p hp i => new.entry hp
  have huses : ∀ {p}, InUse dirs ⟨Radix.grow scheme r.mem pd (pdNo va).toNat pt (pdeOf pt), pt :: r.taken⟩ p →
      InUse dirs r p ∨ p = pt := by
    rintro p (hp | ⟨d, i, h⟩)
    · exact .inl (.inl hp)
    · rcases new.hangs.mp h with hold | ⟨-, -, heq⟩
      · exact .inl (.inr ⟨d, i, hold⟩)
      · exact .inr heq
  rw [hmem]
  refine ⟨⟨ok.dir_page, ?_, new.separate ok.separate, ?_, List.mem_cons_of_mem _ ok.init_handed, ?_, ?_⟩, ?_, ?_⟩
  · intro p hp i hi
    simp only [hentry p hp i]
    split
    · exact .inr ⟨pt, fresh.kernel, rfl⟩
    · exact ok.entry p hp i hi
  · intro p hp
    rcases huses hp with hold | rfl
    · exact List.mem_cons_of_mem _ (ok.handed p hold)
    · exact List.mem_cons_self
  · intro h
    rcases huses h with hold | heq
    · exact ok.init_unused hold
    · exact fresh.ne_init ok heq.symm
  · intro i hi
    have hpdNe : k.initPageDir ≠ pd := (ok.ne_init hpd).symm
    simpa only [Radix.grow, Radix.set_ne _ _ _ _ hpdNe, Radix.fill_ne _ _ _ (fresh.ne_init ok).symm]
      using ok.init_blank i hi
  · intro pd' hpd' va' hva'
    exact new.look ok.separate hpd' (pdNo_lt_iff.mpr hva')
  · exact new.hangs.mpr (.inr ⟨rfl, rfl, rfl⟩)

/-- `pagedir_create`. -/
theorem Ok.create (ok : Ok k dirs r) (fresh : Fresh r pd) :
    let r' := r.takeCopy pd k.initPageDir
    Ok k (pd :: dirs) r' ∧ Unchanged dirs r r' ∧ ∀ va, isUserVaddr va → view r' pd va = 0#32 := by
  have hunused := fresh.not_inUse ok
  -- the new page is blank for user addresses, the others are as they were
  have hnew : ∀ i < 768, (r.takeCopy pd k.initPageDir).mem pd i = 0#32 := by
    intro i hi
    simpa only [Ram.takeCopy, Radix.copy_self] using ok.init_blank i hi
  have hold : ∀ p, p ≠ pd → ∀ i, (r.takeCopy pd k.initPageDir).mem p i = r.mem p i := by
    intro p hp i
    simp only [Ram.takeCopy, Radix.copy_ne _ _ _ hp]
  have agree : ∀ p, InUse dirs r p → ∀ i, (r.takeCopy pd k.initPageDir).mem p i = r.mem p i := by
    intro p hp i
    refine hold p ?_ i
    rintro rfl
    exact hunused hp
  have hangs : ∀ {d i t}, Radix.Hangs scheme (· < 768) (· ∈ pd :: dirs) (r.takeCopy pd k.initPageDir).mem d i t →
      Radix.Hangs scheme (· < 768) (· ∈ dirs) r.mem d i t := by
    rintro d i t ⟨hd, hi, ht⟩
    rcases List.mem_cons.mp hd with rfl | hd
    · rw [hnew i hi, scheme_zero] at ht
      cases ht
    · exact (Radix.hangs_frame agree).mp ⟨hd, hi, ht⟩
  have huses : ∀ {p}, InUse (pd :: dirs) (r.takeCopy pd k.initPageDir) p → p = pd ∨ InUse dirs r p := by
    rintro p (hp | ⟨d, i, h⟩)
    · exact (List.mem_cons.mp hp).imp id .inl
    · exact .inr (.inr ⟨d, i, hangs h⟩)
  refine ⟨⟨?_, ?_, ⟨?_, ?_⟩, ?_, List.mem_cons_of_mem _ ok.init_handed, ?_, ?_⟩, ?_, ?_⟩
  · intro p hp
    rcases List.mem_cons.mp hp with rfl | hp
    · exact fresh.kernel
    · exact ok.dir_page p hp
  · intro p hp i hi
    rcases List.mem_cons.mp hp with rfl | hp
    · exact .inl (hnew i hi)
    · rw [agree p (.inl hp)]
      exact ok.entry p hp i hi
  · intro d i t h hmem
    rcases List.mem_cons.mp hmem with rfl | hmem
    · exact hunused (.inr ⟨d, i, hangs h⟩)
    · exact ok.separate.apart (hangs h) hmem
  · exact fun h h' => ok.separate.once (hangs h) (hangs h')
  · intro p hp
    rcases huses hp with rfl | hp
    · exact List.mem_cons_self
    · exact List.mem_cons_of_mem _ (ok.handed p hp)
  · intro h
    rcases huses h with heq | h
    · exact fresh.ne_init ok heq.symm
    · exact ok.init_unused h
  · intro i hi
    rw [hold _ (fresh.ne_init ok).symm]
    exact ok.init_blank i hi
  · intro pd' hpd' va hva
    exact Radix.look_frame agree hpd' (pdNo_lt_iff.mpr hva)
  · intro va hva
    apply Radix.look_of_none
    rw [hnew _ (pdNo_lt_iff.mpr hva), scheme_zero]

/-! ## What each call does -/

/-- What `pagedir_set_page` asserts of the pages it is given. -/
structure SetArgs (k : Boot) (upage kpage : Word) : Prop where
  aligned : pgOfs upage = 0#32
  user : isUserVaddr upage
  kernel : KernelPage kpage
  inRam : frameNo (kpage - PHYS_BASE) < k.initRamPages

section
variable {upage kpage : Word} {writable : Bool} {page : Option Word}

/-- `lookup_page` that may create a table. -/
theorem Ok.lookupCreate (ok : Ok k dirs r) (hpd : pd ∈ dirs) (hva : isUserVaddr va) (fresh : ∀ pt ∈ page, Fresh r pt) :
    (Pagedir.lookupPage r pd va true page = some (r, none) ∧ page = none ∧
      Pagedir.lookupPage r pd va false none = some (r, none) ∧ view r pd va = 0#32) ∨
    ∃ r' pt, Pagedir.lookupPage r pd va true page = some (r', some (pt + 4#32 * ptNo va)) ∧ Ok k dirs r' ∧
      Unchanged dirs r r' ∧ KernelPage pt ∧ Table dirs r' pd va pt := by
  have hne := ok.ne_zero hpd
  rcases ok.table_cases hpd hva with ⟨hzero, hview⟩ | ⟨pt, hpage, hpde, htable⟩
  · cases page with
    | none =>
      refine .inl ⟨?_, rfl, ?_, hview⟩
      · simp [Pagedir.lookupPage, guard, hne, hva, hzero]
      · simp [Pagedir.lookupPage, guard, hne, hzero]
    | some pt =>
      have hfresh := fresh pt rfl
      obtain ⟨ok', same, htable⟩ := ok.grow hpd hva hzero hfresh
      refine .inr ⟨_, pt, ?_, ok', same, hfresh.kernel, htable⟩
      have hread : ((r.takeZeroed pt).write (pd + 4#32 * pdNo va) (pdeOf pt)).read (pd + 4#32 * pdNo va) = pdeOf pt := by
        simp [Ram.read, Ram.write]
      simp [Pagedir.lookupPage, guard, hne, hva, hzero, pdeCreate_eq hfresh.kernel, entryAddr, hread,
        pdeGetPt_pdeOf hfresh.kernel]
  · refine .inr ⟨r, pt, ?_, ok, fun _ _ _ _ => rfl, hpage, htable⟩
    simp [Pagedir.lookupPage, guard, hne, hva, entryAddr, hpde, pdeOf_ne_zero, pdeGetPt_pdeOf hpage]

theorem SetArgs.pagedirSetPage (args : SetArgs k upage kpage) (hne : pd ≠ k.initPageDir) :
    pagedirSetPage k r pd upage kpage writable page =
      (Pagedir.lookupPage r pd upage true page).bind fun x => setEntry x.1 x.2 kpage writable := by
  simp [Pagedir.pagedirSetPage, guard, args.aligned, args.user, args.kernel.aligned, args.kernel.vtop, args.inRam, hne]

theorem setArgs_of_some {x : Ram × Bool} (h : pagedirSetPage k r pd upage kpage writable page = some x) :
    SetArgs k upage kpage := by
  obtain ⟨haligned, h⟩ := of_assert h
  obtain ⟨hkpage, h⟩ := of_assert h
  obtain ⟨huser, h⟩ := of_assert h
  obtain ⟨paddr, hpaddr, h⟩ := Option.bind_eq_some_iff.mp h
  obtain ⟨hram, -⟩ := of_assert h
  obtain ⟨hkernel, rfl⟩ := of_vtop hpaddr
  exact ⟨haligned, huser, ⟨hkpage, hkernel⟩, hram⟩

/-- **`pagedir_set_page`** either lacks a table, gets no page for one and changes nothing, or maps the page. -/
theorem Ok.setPage (ok : Ok k dirs r) (hpd : pd ∈ dirs) (fresh : ∀ pt ∈ page, Fresh r pt) {b : Bool}
    (h : pagedirSetPage k r pd upage kpage writable page = some (r', b)) :
    (b = false ∧ r' = r ∧ page = none ∧ Pagedir.lookupPage r pd upage false none = some (r, none) ∧
      view r pd upage = 0#32) ∨
    (b = true ∧ Ok k dirs r' ∧ Changes dirs r r' pd upage (pteOf kpage writable)) := by
  have args := setArgs_of_some h
  rw [args.pagedirSetPage (ok.ne_init hpd)] at h
  rcases ok.lookupCreate hpd args.user fresh with
    ⟨hlook, hnone, hfalse, hview⟩ | ⟨r₁, pt, hlook, ok₁, same, hpage, htable⟩
  · simp [hlook, setEntry] at h
    exact .inl ⟨h.2, h.1.symm, hnone, hfalse, hview⟩
  · obtain ⟨ok₂, changes⟩ := ok₁.write (w := pteOf kpage writable) hpage htable
    by_cases hfree : r₁.read (pt + 4#32 * ptNo upage) &&& PTE_P = 0#32
    · simp [hlook, setEntry, guard, hfree, pteCreateUser_eq args.kernel] at h
      obtain ⟨rfl, rfl⟩ := h
      refine .inr ⟨rfl, ok₂, ?_⟩
      intro pd' hpd' va' hva'
      rw [changes pd' hpd' va' hva', same pd' hpd' va' hva']
    · simp [hlook, setEntry, guard, hfree] at h

/-- It returns whenever its arguments meet the assertions. -/
theorem Ok.setPage_returns (ok : Ok k dirs r) (hpd : pd ∈ dirs) (args : SetArgs k upage kpage)
    (hfree : view r pd upage &&& PTE_P = 0#32) (fresh : ∀ pt ∈ page, Fresh r pt) :
    (pagedirSetPage k r pd upage kpage writable page).isSome := by
  rw [args.pagedirSetPage (ok.ne_init hpd)]
  rcases ok.lookupCreate hpd args.user fresh with ⟨hlook, -⟩ | ⟨r₁, pt, hlook, ok₁, same, hpage, htable⟩
  · simp [hlook, setEntry]
  · rw [← same pd hpd upage args.user, ← htable.read hpage] at hfree
    simp [hlook, setEntry, guard, hfree, pteCreateUser_eq args.kernel]

end

/-! ### The calls that do not create a table -/

/-- `pagedir_clear_page` clears the present bit. -/
theorem Ok.clearPage (ok : Ok k dirs r) (hpd : pd ∈ dirs) (haligned : pgOfs va = 0#32) (hva : isUserVaddr va) :
    ∃ r', pagedirClearPage r pd va = some r' ∧ Ok k dirs r' ∧ Changes dirs r r' pd va (view r pd va &&& ~~~PTE_P) := by
  -- where nothing is written, the bit was clear already
  have hstay : view r pd va &&& PTE_P = 0#32 → Changes dirs r r pd va (view r pd va &&& ~~~PTE_P) := by
    intro hclear
    rw [and_not_of_and_eq_zero hclear]
    exact changes_self
  rcases ok.lookupPage hpd hva with ⟨hlook, hview⟩ | ⟨pt, hpage, htable, hlook⟩
  · refine ⟨r, ?_, ok, hstay (by rw [hview, BitVec.zero_and])⟩
    simp [pagedirClearPage, guard, haligned, hva, hlook]
  · have hread := htable.read hpage
    by_cases hclear : view r pd va &&& PTE_P = 0#32
    · refine ⟨r, ?_, ok, hstay hclear⟩
      simp [pagedirClearPage, guard, haligned, hva, hlook, hread, hclear]
    · obtain ⟨ok', changes⟩ := ok.write (w := view r pd va &&& ~~~PTE_P) hpage htable
      refine ⟨_, ?_, ok', changes⟩
      simp [pagedirClearPage, guard, haligned, hva, hlook, hread, hclear]

section
variable (ok : Ok k dirs r) (hpd : pd ∈ dirs) (hva : isUserVaddr va)
include ok hpd hva

/-- Setting or clearing a flag keeps every other bit. -/
theorem Ok.setFlag (flag : Word) (value : Bool) :
    ∃ r' w, pagedirSetFlag flag r pd va value = some r' ∧ Ok k dirs r' ∧ Changes dirs r r' pd va w ∧
      ∀ g, flag &&& g = 0#32 → w &&& g = view r pd va &&& g := by
  rcases ok.lookupPage hpd hva with ⟨hlook, hview⟩ | ⟨pt, hpage, htable, hlook⟩
  · exact ⟨r, view r pd va, by simp [pagedirSetFlag, hlook], ok, changes_self, fun _ _ => rfl⟩
  · have hread := htable.read hpage
    obtain ⟨ok', changes⟩ :=
      ok.write (w := if value then view r pd va ||| flag else view r pd va &&& ~~~flag) hpage htable
    refine ⟨_, _, by simp [pagedirSetFlag, hlook, hread], ok', changes, ?_⟩
    intro g hg
    split
    · exact or_and_of_disjoint hg
    · refine and_not_and_of_disjoint ?_
      rw [BitVec.and_comm] at hg ⊢
      exact and_not_of_and_eq_zero hg

/-! ### What the calls that only look return -/

theorem Ok.is (flag : Word) : pagedirIs flag r pd va = some (decide (view r pd va &&& flag ≠ 0#32)) := by
  rcases ok.lookupPage hpd hva with ⟨hlook, hview⟩ | ⟨pt, hpage, htable, hlook⟩
  · simp [pagedirIs, hlook, hview]
  · have hread := htable.read hpage
    simp [pagedirIs, hlook, hread]

theorem Ok.getPage : pagedirGetPage r pd va = if view r pd va &&& PTE_P = 0#32 then some none
      else (pteGetPage (view r pd va)).map fun page => some (page + pgOfs va) := by
  rcases ok.lookupPage hpd hva with ⟨hlook, hview⟩ | ⟨pt, hpage, htable, hlook⟩
  · simp [pagedirGetPage, guard, hva, hlook, hview]
  · have hread := htable.read hpage
    by_cases hclear : view r pd va &&& PTE_P = 0#32
    · simp [pagedirGetPage, guard, hva, hlook, hread, hclear]
    · cases hpte : pteGetPage (view r pd va) <;>
        simp [pagedirGetPage, guard, hva, hlook, hread, hclear, hpte]

end

/-- The results for one page of one directory. -/
structure SameResults (r r' : Ram) (pd va : Word) : Prop where
  lookup : pagedirGetPage r' pd va = pagedirGetPage r pd va
  writable : pagedirIsWritable r' pd va = pagedirIsWritable r pd va
  dirty : pagedirIsDirty r' pd va = pagedirIsDirty r pd va
  accessed : pagedirIsAccessed r' pd va = pagedirIsAccessed r pd va

/-- They depend on the entry only. -/
theorem Ok.sameResults {dirs' : List Word} (ok : Ok k dirs r) (ok' : Ok k dirs' r') (hpd : pd ∈ dirs)
    (hpd' : pd ∈ dirs') (hva : isUserVaddr va) (h : view r' pd va = view r pd va) : SameResults r r' pd va where
  lookup := by rw [ok.getPage hpd hva, ok'.getPage hpd' hva, h]
  writable := by rw [pagedirIsWritable, ok.is hpd hva, ok'.is hpd' hva, h]
  dirty := by rw [pagedirIsDirty, ok.is hpd hva, ok'.is hpd' hva, h]
  accessed := by rw [pagedirIsAccessed, ok.is hpd hva, ok'.is hpd' hva, h]

/-! ## The kernel's directory -/

/-- The kernel's directory has no entry for user addresses, and the table at hand is not that directory. -/
structure PagingInv (k : Boot) (r : Ram) (pt : Word) : Prop where
  blank : ∀ i < 768, r.mem k.initPageDir i = 0#32
  handed : k.initPageDir ∈ r.taken
  table : (∀ i, r.mem k.initPageDir i = 0#32) ∨ (KernelPage pt ∧ pt ≠ k.initPageDir)

/-- Below 1 GB the kernel's window maps a page to a kernel page. -/
theorem ptov_page {page : Nat} (h : page < 2 ^ 18) :
    ∃ vaddr, ptov (BitVec.ofNat 32 page * PGSIZE) = some vaddr ∧ KernelPage vaddr := by
  have hpage : (BitVec.ofNat 32 page * PGSIZE).toNat = page * 4096 := by
    have hsize : PGSIZE.toNat = 4096 := rfl
    rw [BitVec.toNat_mul, BitVec.toNat_ofNat, hsize]
    omega
  have hbase : PHYS_BASE.toNat = 0xc0000000 := rfl
  have hlt : BitVec.ofNat 32 page * PGSIZE < PHYS_BASE := by
    rw [BitVec.lt_def, hpage, hbase]
    omega
  have hvaddr : (BitVec.ofNat 32 page * PGSIZE + PHYS_BASE).toNat = page * 4096 + 0xc0000000 := by
    rw [BitVec.toNat_add, hpage, hbase]
    omega
  refine ⟨_, if_pos hlt, ?_, ?_⟩
  · rw [pgOfs_eq_zero, hvaddr]
    omega
  · rw [isUserVaddr_iff, hvaddr]
    omega

theorem PagingInv.pagingTable (inv : PagingInv k r pt) {vaddr : Word} (hvaddr : KernelPage vaddr) :
    ∃ r' pt', pagingTable k r pt vaddr = some (r', pt') ∧ PagingInv k r' pt' ∧ KernelPage pt' ∧
      pt' ≠ k.initPageDir := by
  have hindex : ¬ (pdNo vaddr).toNat < 768 := fun h => hvaddr.kernel (pdNo_lt_iff.mp h)
  by_cases hread : r.read (k.initPageDir + 4#32 * pdNo vaddr) = 0#32
  · have hpage := k.table_page (pdNo vaddr).toNat
    have hne := k.apart (pdNo vaddr).toNat
    refine ⟨(r.takeZeroed (k.tables (pdNo vaddr).toNat)).write (k.initPageDir + 4#32 * pdNo vaddr)
      (pdeOf (k.tables (pdNo vaddr).toNat)), _, ?_, ⟨?_, ?_, .inr ⟨hpage, hne⟩⟩, hpage, hne⟩
    · simp [Pagedir.pagingTable, hread, pdeCreate_eq hpage]
    · intro i hi
      rw [Ram.write_index k.dir_page.aligned (pdNo_lt vaddr)]
      have hi' : i ≠ (pdNo vaddr).toNat := by omega
      simpa [Radix.set_apply, hi', Ram.takeZeroed, Radix.fill_ne _ _ _ hne.symm] using inv.blank i hi
    · exact List.mem_cons_of_mem _ inv.handed
  · have htable : KernelPage pt ∧ pt ≠ k.initPageDir := by
      rcases inv.table with hblank | htable
      · rw [Ram.read_index k.dir_page.aligned (pdNo_lt vaddr)] at hread
        exact absurd (hblank _) hread
      · exact htable
    exact ⟨r, pt, by simp [Pagedir.pagingTable, hread], inv, htable.1, htable.2⟩

/-- **`paging_init` returns**, and leaves the kernel's directory without entries for user addresses. -/
theorem PagingInv.pagingLoop (left : Nat) : ∀ {page : Nat} {r : Ram} {pt : Word}, page + left ≤ 2 ^ 18 →
    PagingInv k r pt → ∃ r' pt', Pagedir.pagingLoop k left page r pt = some r' ∧ PagingInv k r' pt' := by
  induction left with
  | zero => exact fun _ inv => ⟨_, _, rfl, inv⟩
  | succ left ih =>
    intro page r pt hle inv
    obtain ⟨vaddr, hptov, hvaddr⟩ := ptov_page (show page < 2 ^ 18 by omega)
    obtain ⟨r₁, pt₁, htable, inv₁, hpage, hne⟩ := inv.pagingTable hvaddr
    obtain ⟨entry, hentry⟩ : ∃ entry, pteCreateKernel vaddr (!decide (k.textStart ≤ vaddr ∧ vaddr < k.textEnd)) =
        some entry := by simp [pteCreateKernel, guard, hvaddr.aligned, hvaddr.vtop]
    have inv₂ : PagingInv k (r₁.write (pt₁ + 4#32 * ptNo vaddr) entry) pt₁ := by
      rw [Ram.write_index hpage.aligned (ptNo_lt vaddr)]
      refine ⟨?_, inv₁.handed, .inr ⟨hpage, hne⟩⟩
      intro i hi
      simpa only [Radix.set_ne _ _ _ _ hne.symm] using inv₁.blank i hi
    obtain ⟨r', pt', hloop, inv'⟩ := ih (show page + 1 + left ≤ 2 ^ 18 by omega) inv₂
    refine ⟨r', pt', ?_, inv'⟩
    rw [← hloop]
    simp only [Pagedir.pagingLoop, hptov, htable, hentry, Option.bind_eq_bind, Option.bind_some]

theorem pagingInit_ok (k : Boot) : ∃ r, pagingInit k = some r ∧ Ok k [] r := by
  have start : PagingInv k (Ram.takeZeroed ⟨k.mem, []⟩ k.initPageDir) 0#32 :=
    ⟨fun _ _ => Radix.fill_self _ _ _ _, List.mem_cons_self, .inl fun _ => Radix.fill_self _ _ _ _⟩
  have hle : 0 + k.initRamPages ≤ 2 ^ 18 := by
    rw [Nat.zero_add]
    exact k.ram_le
  obtain ⟨r, pt, hloop, inv⟩ := PagingInv.pagingLoop k.initRamPages hle start
  have hunused : ∀ p, ¬ InUse [] r p := by
    rintro p (hp | ⟨d, i, h⟩)
    · cases hp
    · cases h.dir
  refine ⟨r, hloop, ?_, ?_, ⟨?_, ?_⟩, fun p hp => absurd hp (hunused p), inv.handed, hunused _, inv.blank⟩
  · exact fun _ h => nomatch h
  · exact fun _ h => nomatch h
  · exact fun h => nomatch h.dir
  · exact fun h => nomatch h.dir

/-! ## Runs of calls -/

/-- The calls that decide what is mapped: a directory is made, a page is set (or not) or cleared. -/
inductive Event
  | create (pd : Word)
  | set (pd upage kpage : Word) (success : Bool)
  | clear (pd upage : Word)

/-- The directories made so far; `log` keeps the events, the latest first. -/
structure State where
  ram : Ram
  dirs : List Word
  log : List Event

/-- The calls, with the page that `palloc_get_page` returns if it is called. -/
inductive Action
  | create (page : Option Word)
  | set (pd upage kpage : Word) (writable : Bool) (page : Option Word)
  | clear (pd upage : Word)
  | setDirty (pd vpage : Word) (dirty : Bool)
  | setAccessed (pd vpage : Word) (accessed : Bool)

def boot (k : Boot) : Option State := (pagingInit k).map fun r => ⟨r, [], []⟩

def step (k : Boot) (s : State) : Action → Option State
  | .create page =>
    match pagedirCreate k s.ram page with
    | (r, none) => some { s with ram := r }
    | (r, some pd) => some ⟨r, pd :: s.dirs, .create pd :: s.log⟩
  | .set pd upage kpage writable page =>
    (pagedirSetPage k s.ram pd upage kpage writable page).map fun x =>
      { s with ram := x.1, log := .set pd upage kpage x.2 :: s.log }
  | .clear pd upage =>
    (pagedirClearPage s.ram pd upage).map fun r => { s with ram := r, log := .clear pd upage :: s.log }
  | .setDirty pd vpage dirty => (pagedirSetDirty s.ram pd vpage dirty).map fun r => { s with ram := r }
  | .setAccessed pd vpage accessed => (pagedirSetAccessed s.ram pd vpage accessed).map fun r => { s with ram := r }

/-- The allocator returns a new page or none, and the calls are made on directories that `pagedir_create` has made,
    for user pages. What the functions assert of their arguments is in `step`. -/
def Allowed (s : State) : Action → Prop
  | .create page => ∀ p ∈ page, Fresh s.ram p
  | .set pd _ _ _ page => pd ∈ s.dirs ∧ ∀ p ∈ page, Fresh s.ram p
  | .clear pd _ => pd ∈ s.dirs
  | .setDirty pd vpage _ => pd ∈ s.dirs ∧ isUserVaddr vpage
  | .setAccessed pd vpage _ => pd ∈ s.dirs ∧ isUserVaddr vpage

/-- Decided by looking at the page, not at every word. -/
def decideFresh (r : Ram) (page : Option Word) : Decidable (∀ p ∈ page, Fresh r p) :=
  match page with
  | none => isTrue (fun _ h => nomatch h)
  | some p => decidable_of_iff (Fresh r p) (by simp)

instance (s : State) : (a : Action) → Decidable (Allowed s a)
  | .create page => decideFresh s.ram page
  | .set _ _ _ _ page =>
    have := decideFresh s.ram page
    inferInstanceAs (Decidable (_ ∧ _))
  | .clear .. => inferInstanceAs (Decidable (_ ∈ _))
  | .setDirty .. | .setAccessed .. => inferInstanceAs (Decidable (_ ∧ _))

/-- The page of a directory that a call is made on. -/
def Action.key : Action → Option (Word × Word)
  | .create _ => none
  | .set pd upage _ _ _ => some (pd, upage)
  | .clear pd upage => some (pd, upage)
  | .setDirty pd vpage _ => some (pd, pgRoundDown vpage)
  | .setAccessed pd vpage _ => some (pd, pgRoundDown vpage)

/-- **The finite map.** What the last set or clear of a page in a directory has left there. -/
def mapped : List Event → (pd page : Word) → Option Word
  | [], _, _ => none
  | .create pd' :: log, pd, page => if pd' = pd then none else mapped log pd page
  | .set pd' upage kpage success :: log, pd, page =>
    if pd' = pd ∧ upage = page then (if success then some kpage else none) else mapped log pd page
  | .clear pd' upage :: log, pd, page => if pd' = pd ∧ upage = page then none else mapped log pd page

/-- An entry agrees with the map. -/
def Tells (w : Word) : Option Word → Prop
  | none => w &&& PTE_P = 0#32
  | some kpage => KernelPage kpage ∧ w &&& PTE_P ≠ 0#32 ∧ w &&& PTE_ADDR = kpage - PHYS_BASE

structure Inv (k : Boot) (s : State) : Prop where
  ok : Ok k s.dirs s.ram
  tells : ∀ pd ∈ s.dirs, ∀ va, isUserVaddr va → Tells (view s.ram pd va) (mapped s.log pd (pgRoundDown va))

theorem Tells.of_bits {w w' : Word} {m : Option Word} (h : Tells w m) (hpresent : w' &&& PTE_P = w &&& PTE_P)
    (haddr : w' &&& PTE_ADDR = w &&& PTE_ADDR) : Tells w' m := by
  cases m with
  | none => exact hpresent.trans h
  | some kpage => exact ⟨h.1, hpresent ▸ h.2.1, haddr.trans h.2.2⟩

variable {upage kpage : Word} {page : Option Word}

theorem tells_pteOf (h : KernelPage kpage) (writable : Bool) : Tells (pteOf kpage writable) (some kpage) :=
  ⟨h, pteOf_present kpage writable, pteOf_addr h writable⟩

variable {s s' : State} {a : Action}

/-- What one call does: it keeps the invariant and the directories, and the entries of other keys. -/
structure Stepped (k : Boot) (s s' : State) (key : Option (Word × Word)) : Prop where
  inv : Inv k s'
  dirs : ∀ pd ∈ s.dirs, pd ∈ s'.dirs
  elsewhere : ∀ pd ∈ s.dirs, ∀ va, isUserVaddr va → key ≠ some (pd, pgRoundDown va) →
    view s'.ram pd va = view s.ram pd va

/-- A call that changes one entry, with a log that tells of no other key. -/
theorem Inv.change (inv : Inv k s) {log : List Event} {page : Word} (ok : Ok k s.dirs r')
    (changes : Changes s.dirs s.ram r' pd va w) (hpage : pgRoundDown va = page) (here : Tells w (mapped log pd page))
    (there : ∀ pd' page', ¬ (pd = pd' ∧ page = page') → mapped log pd' page' = mapped s.log pd' page') :
    Stepped k s ⟨r', s.dirs, log⟩ (some (pd, page)) := by
  subst hpage
  refine ⟨⟨ok, ?_⟩, fun _ h => h, ?_⟩
  · intro pd' hpd' va' hva'
    rw [changes pd' hpd' va' hva']
    split
    · rename_i hsame
      rw [hsame.1, hsame.2]
      exact here
    · rename_i hother
      rw [there pd' _ (fun h => hother ⟨h.1.symm, h.2.symm⟩)]
      exact inv.tells pd' hpd' va' hva'
  · intro pd' hpd' va' hva' hkey
    rw [changes pd' hpd' va' hva', if_neg]
    rintro ⟨rfl, hpage⟩
    exact hkey (by rw [hpage])

theorem Inv.create (inv : Inv k s) (fresh : ∀ p ∈ page, Fresh s.ram p)
    (hstep : step k s (.create page) = some s') : Stepped k s s' none := by
  cases page with
  | none =>
    obtain rfl := Option.some.inj hstep
    exact ⟨inv, fun _ h => h, fun _ _ _ _ _ => rfl⟩
  | some pd =>
    obtain rfl := Option.some.inj hstep
    obtain ⟨ok, same, hnew⟩ := inv.ok.create (fresh pd rfl)
    have hunused := (fresh pd rfl).not_inUse inv.ok
    refine ⟨⟨ok, ?_⟩, fun _ h => List.mem_cons_of_mem _ h, fun pd' hpd' va' hva' _ => same pd' hpd' va' hva'⟩
    intro pd' hpd' va hva
    simp only [mapped]
    rcases List.mem_cons.mp hpd' with rfl | hold
    · rw [if_pos rfl, hnew va hva]
      exact BitVec.zero_and
    · have hne : pd ≠ pd' := by
        rintro rfl
        exact hunused (.inl hold)
      rw [if_neg hne, same pd' hold va hva]
      exact inv.tells pd' hold va hva

theorem Inv.set (inv : Inv k s) {writable : Bool} (hpd : pd ∈ s.dirs)
    (fresh : ∀ p ∈ page, Fresh s.ram p) (hstep : step k s (.set pd upage kpage writable page) = some s') :
    Stepped k s s' (some (pd, upage)) := by
  obtain ⟨⟨r', success⟩, hset, rfl⟩ := Option.map_eq_some_iff.mp hstep
  have args := setArgs_of_some hset
  have hround := pgRoundDown_of_aligned args.aligned
  have there : ∀ pd' page', ¬ (pd = pd' ∧ upage = page') →
      mapped (.set pd upage kpage success :: s.log) pd' page' = mapped s.log pd' page' := by
    intro pd' page' hother
    rw [mapped, if_neg hother]
  rcases inv.ok.setPage hpd fresh hset with ⟨rfl, rfl, -, -, hview⟩ | ⟨rfl, ok, changes⟩
  · -- the page had no table, so it was not mapped
    refine inv.change inv.ok changes_self hround ?_ there
    rw [mapped, if_pos ⟨rfl, rfl⟩, hview]
    exact BitVec.zero_and
  · refine inv.change ok changes hround ?_ there
    rw [mapped, if_pos ⟨rfl, rfl⟩]
    exact tells_pteOf args.kernel writable

theorem clearArgs_of_some (h : pagedirClearPage r pd upage = some r') : pgOfs upage = 0#32 ∧ isUserVaddr upage := by
  obtain ⟨haligned, h⟩ := of_assert h
  exact ⟨haligned, (of_assert h).1⟩

theorem Inv.clear (inv : Inv k s) (hpd : pd ∈ s.dirs) (hstep : step k s (.clear pd upage) = some s') :
    Stepped k s s' (some (pd, upage)) := by
  obtain ⟨r', hclear, rfl⟩ := Option.map_eq_some_iff.mp hstep
  obtain ⟨haligned, huser⟩ := clearArgs_of_some hclear
  obtain ⟨r₁, hcall, ok, changes⟩ := inv.ok.clearPage hpd haligned huser
  obtain rfl : r₁ = r' := Option.some.inj (hcall.symm.trans hclear)
  refine inv.change ok changes (pgRoundDown_of_aligned haligned) ?_ ?_
  · rw [mapped, if_pos ⟨rfl, rfl⟩]
    exact and_not_and_self _ _
  · intro pd' page' hother
    rw [mapped, if_neg hother]

/-- A flag that is no part of the mapping. -/
theorem Inv.setFlag (inv : Inv k s) {flag : Word} {value : Bool} (hpd : pd ∈ s.dirs) (hva : isUserVaddr va)
    (hpresent : flag &&& PTE_P = 0#32) (haddr : flag &&& PTE_ADDR = 0#32)
    (hcall : pagedirSetFlag flag s.ram pd va value = some r') :
    Stepped k s { s with ram := r' } (some (pd, pgRoundDown va)) := by
  obtain ⟨r₁, w, hcall₁, ok, changes, hbits⟩ := inv.ok.setFlag hpd hva flag value
  obtain rfl : r₁ = r' := Option.some.inj (hcall₁.symm.trans hcall)
  exact inv.change ok changes rfl ((inv.tells pd hpd va hva).of_bits (hbits _ hpresent) (hbits _ haddr))
    (fun _ _ _ => rfl)

/-- **One call.** -/
theorem Inv.step (inv : Inv k s) (allowed : Allowed s a) (hstep : step k s a = some s') : Stepped k s s' a.key := by
  cases a with
  | create page => exact inv.create allowed hstep
  | set pd upage kpage writable page => exact inv.set allowed.1 allowed.2 hstep
  | clear pd upage => exact inv.clear allowed hstep
  | setDirty pd vpage dirty =>
    obtain ⟨r', hcall, rfl⟩ := Option.map_eq_some_iff.mp hstep
    exact inv.setFlag allowed.1 allowed.2 (by decide) (by decide) hcall
  | setAccessed pd vpage accessed =>
    obtain ⟨r', hcall, rfl⟩ := Option.map_eq_some_iff.mp hstep
    exact inv.setFlag allowed.1 allowed.2 (by decide) (by decide) hcall

/-- Runs from a booted kernel. -/
def Runs (k : Boot) (s : State) : Prop := ∃ s₀, boot k = some s₀ ∧ Lts.Reaches (step k) Allowed s₀ s

theorem Runs.inv (hrun : Runs k s) : Inv k s := by
  obtain ⟨s₀, hboot, hreach⟩ := hrun
  refine hreach.invariant ?_ (fun inv allowed hstep => (inv.step allowed hstep).inv)
  obtain ⟨r, hinit, ok⟩ := pagingInit_ok k
  rw [boot, hinit] at hboot
  obtain rfl := Option.some.inj hboot
  exact ⟨ok, fun _ h => nomatch h⟩

/-- What a call asserts of its arguments. -/
def Meets (k : Boot) (s : State) : Action → Prop
  | .create _ => True
  | .set pd upage kpage _ _ => SetArgs k upage kpage ∧ pagedirGetPage s.ram pd upage = some none
  | .clear _ upage => pgOfs upage = 0#32 ∧ isUserVaddr upage
  | .setDirty _ _ _ => True
  | .setAccessed _ _ _ => True

/-- **Page directories are finite maps.** -/
structure PagedirMaps (k : Boot) (s : State) : Prop where
  lookup : ∀ pd ∈ s.dirs, ∀ va, isUserVaddr va →
    pagedirGetPage s.ram pd va = some ((mapped s.log pd (pgRoundDown va)).map (· + va % PGSIZE))
  independent : ∀ a s', Allowed s a → step k s a = some s' → ∀ pd ∈ s.dirs, ∀ va, isUserVaddr va →
    a.key ≠ some (pd, pgRoundDown va) → SameResults s.ram s'.ram pd va
  failed : ∀ pd ∈ s.dirs, ∀ upage kpage writable page r', (∀ p ∈ page, Fresh s.ram p) →
    pagedirSetPage k s.ram pd upage kpage writable page = some (r', false) →
    ∀ pd' ∈ s.dirs, ∀ va, isUserVaddr va → pagedirGetPage r' pd' va = pagedirGetPage s.ram pd' va
  returns : ∀ a, Allowed s a → Meets k s a → (step k s a).isSome

theorem Inv.lookup (inv : Inv k s) (hpd : pd ∈ s.dirs) (hva : isUserVaddr va) :
    pagedirGetPage s.ram pd va = some ((mapped s.log pd (pgRoundDown va)).map (· + va % PGSIZE)) := by
  have htells := inv.tells pd hpd va hva
  rw [inv.ok.getPage hpd hva, ← pgOfs_eq_mod]
  cases hmap : mapped s.log pd (pgRoundDown va) with
  | none =>
    rw [hmap] at htells
    exact if_pos htells
  | some kpage =>
    rw [hmap] at htells
    obtain ⟨hpage, hpresent, haddr⟩ := htells
    rw [if_neg hpresent, pteGetPage, haddr, hpage.ptov]
    rfl

theorem Inv.returns (inv : Inv k s) (allowed : Allowed s a) (meets : Meets k s a) : (Pagedir.step k s a).isSome := by
  cases a with
  | create page => cases page <;> rfl
  | set pd upage kpage writable page =>
    have huser := meets.1.user
    have hfree : view s.ram pd upage &&& PTE_P = 0#32 := by
      have hget := meets.2
      rw [inv.lookup allowed.1 huser] at hget
      have htells := inv.tells pd allowed.1 upage huser
      cases hmap : mapped s.log pd (pgRoundDown upage) with
      | none => rwa [hmap] at htells
      | some kpage => simp [hmap] at hget
    simpa [Pagedir.step] using inv.ok.setPage_returns allowed.1 meets.1 hfree allowed.2
  | clear pd upage =>
    obtain ⟨r', hcall, -⟩ := inv.ok.clearPage allowed meets.1 meets.2
    simp [Pagedir.step, hcall]
  | setDirty pd vpage dirty =>
    obtain ⟨r', w, hcall, -⟩ := inv.ok.setFlag allowed.1 allowed.2 PTE_D dirty
    simp [Pagedir.step, pagedirSetDirty, hcall]
  | setAccessed pd vpage accessed =>
    obtain ⟨r', w, hcall, -⟩ := inv.ok.setFlag allowed.1 allowed.2 PTE_A accessed
    simp [Pagedir.step, pagedirSetAccessed, hcall]

/-- **Page directories refine finite maps**, in every state that any sequence of calls on any number of directories
    leads to, from any booted kernel. -/
theorem pagedir_refines_maps (k : Boot) : (boot k).isSome ∧ ∀ s, Runs k s → PagedirMaps k s := by
  obtain ⟨r, hinit, -⟩ := pagingInit_ok k
  refine ⟨by simp [boot, hinit], fun s hrun => ?_⟩
  have inv := hrun.inv
  refine ⟨fun pd hpd va hva => inv.lookup hpd hva, ?_, ?_, fun a allowed meets => inv.returns allowed meets⟩
  · intro a s' allowed hstep pd hpd va hva hkey
    have h := inv.step allowed hstep
    exact inv.ok.sameResults h.inv.ok hpd (h.dirs pd hpd) hva (h.elsewhere pd hpd va hva hkey)
  · intro pd hpd upage kpage writable page r' fresh hset pd' hpd' va hva
    rcases inv.ok.setPage hpd fresh hset with ⟨-, rfl, -⟩ | ⟨htrue, -⟩
    · rfl
    · cases htrue

/-- A machine with eight pages of memory. -/
def eightPages : Boot where
  initRamPages := 8
  textStart := 0xc0000000#32
  textEnd := 0xc0001000#32
  initPageDir := 0xc0001000#32
  tables := fun _ => 0xc0002000#32
  mem := fun _ _ => 0xcccccccc#32
  ram_le := by decide
  dir_page := ⟨by decide, by decide⟩
  table_page := fun _ => ⟨by decide, by decide⟩
  apart := fun _ => by decide

/-- Two directories; a page is set in the first, made dirty, cleared and set again. -/
def setTwice : List Action :=
  [.create (some 0xc0003000#32), .create (some 0xc0004000#32),
   .set 0xc0003000#32 0x08048000#32 0xc0006000#32 false (some 0xc0005000#32),
   .setDirty 0xc0003000#32 0x08048000#32 true, .clear 0xc0003000#32 0x08048000#32,
   .set 0xc0003000#32 0x08048000#32 0xc0007000#32 true none]

/-- The first directory has the page, the second has not. -/
theorem pagedir_refines_maps_setTwice :
    ∃ s, Runs eightPages s ∧ pagedirGetPage s.ram 0xc0003000#32 0x08048123#32 = some (some 0xc0007123#32) ∧
      pagedirGetPage s.ram 0xc0004000#32 0x08048123#32 = some none ∧ PagedirMaps eightPages s := by
  have hrun : ((boot eightPages).bind fun s₀ => Lts.run (step eightPages) Allowed s₀ setTwice).any (fun s =>
      pagedirGetPage s.ram 0xc0003000#32 0x08048123#32 = some (some 0xc0007123#32) ∧
      pagedirGetPage s.ram 0xc0004000#32 0x08048123#32 = some none) = true := by decide +kernel
  obtain ⟨s, hs, hfacts⟩ := (Option.any_eq_true _ _).mp hrun
  obtain ⟨s₀, hboot, hsteps⟩ := Option.bind_eq_some_iff.mp hs
  have hruns : Runs eightPages s := ⟨s₀, hboot, Lts.reaches_of_run _ Lts.Reaches.refl hsteps⟩
  obtain ⟨hfirst, hsecond⟩ := of_decide_eq_true hfacts
  exact ⟨s, hruns, hfirst, hsecond, (pagedir_refines_maps eightPages).2 s hruns⟩

end Pagedir
end Asg1
