import Asg1.Lib.Keyed
import Asg1.Userprog.Pagedir

/-!
# `Vm.Frame` — the frames of user pages, from `palloc_page` to `process_exit`

User pages come from the frame table (`vm/frame.c`): `palloc_page` takes the first frame whose bit in `used_map` is
clear, sets the bit and maps the frame into the page directory of the current process. The page directories are those of
`Userprog.Pagedir`, in the same memory. What gives memory back is here as the code has it: `pagedir_destroy`, whose
loop over the tables is commented out, frees the directory's own page and nothing else; `palloc_free_upage` hands the
address of a page table entry to `palloc_free_page`, which works on the kernel's pages.

No function clears a bit of `used_map`. So a frame stays taken when the process that had it exits, and when
`palloc_page` takes one and then cannot map it. The theorem says that nothing else goes wrong: as long as neither
happens, and the table is not asked for more frames than it has, the bits are exactly those of the frames mapped in
the directory of a live process.

What the frames hold is left out, and the calls of different processes are taken one at a time.
-/

namespace Asg1
namespace Frame

open Pte Pagedir List

/-! ## The frame table -/

structure FrameEntry where
  pid : Int
  pageNum : Int
  reference : Bool
  dirty : Bool
  resident : Bool
  kpage : Word

structure FrameTable where
  usedMap : List Bool
  frames : List FrameEntry

/-- A booted kernel with its frame pool: `poolSize` bits of `used_map`, and the pages from `poolBase` on, all in RAM.
    The array `frames` has an entry for each of them, and for the pages that hold the bitmap. -/
structure Machine extends Boot where
  poolBase : Word
  poolSize : Nat
  numFrames : Nat
  base_page : KernelPage poolBase
  size_le : poolSize ≤ numFrames
  in_ram : poolBase.toNat + poolSize * 4096 ≤ 0xc0000000 + initRamPages * 4096

/-- `frame_pool.base + i * PGSIZE` -/
def Machine.frame (m : Machine) (i : Nat) : Word := m.poolBase + BitVec.ofNat 32 i * PGSIZE

def frameTableInit (m : Machine) : FrameTable where
  usedMap := List.replicate m.poolSize false
  frames := (List.range m.numFrames).map fun i => ⟨-1, -1, false, false, false, m.frame i⟩

/-- `bitmap_scan_and_flip (used_map, 0, 1, false)`: the first clear bit, if there is one. -/
def scan (usedMap : List Bool) : Option Nat := usedMap.findIdx? (fun used => used = false)

/-- The first half of `palloc_page`: a frame is marked as used and written down as the page's. With no bit clear the
    index is `BITMAP_ERROR`, and what is read as the frame's `kpage` is the word `stray` before the array. -/
def FrameTable.take (t : FrameTable) (pid : Nat) (upage stray : Word) : FrameTable × Word :=
  match scan t.usedMap with
  | none => (t, stray)
  | some i =>
    let entry := fun e : FrameEntry =>
      { e with pid := pid, pageNum := (upage >>> 12).toNat, reference := true, dirty := false, resident := true }
    (⟨t.usedMap.set i true, t.frames.modify i entry⟩, ((t.frames[i]?).map FrameEntry.kpage).getD stray)

def installPage (k : Boot) (r : Ram) (pd upage kpage : Word) (writable : Bool) (page : Option Word) :
    Option (Ram × Bool) := do
  let found ← pagedirGetPage r pd upage
  if found.isNone then pagedirSetPage k r pd upage kpage writable page else return (r, false)

/-! ## Giving memory back -/

/-- `palloc_free_page`, for a page of the kernel's pool: it is filled with `0xcc` bytes. -/
def pallocFreePage (r : Ram) (page : Word) : Option Ram := do
  guard (pgOfs page = 0#32)
  if page = 0#32 then return r
  else
    guard (page ∈ r.taken)
    return ⟨Radix.fill r.mem page 0xcccccccc#32, r.taken.erase page⟩

def pallocFreeUpage (r : Ram) (pd upage : Word) : Option Ram := do
  let (r, kpage) ← lookupPage r pd upage false none
  pallocFreePage r (kpage.getD 0#32)

def pagedirDestroy (k : Boot) (r : Ram) (pd : Word) : Option Ram := do
  guard (pd ≠ k.initPageDir)
  pallocFreePage r pd

/-! ## Processes -/

/-- The live processes that have a page directory, with it. -/
structure State where
  ram : Ram
  table : FrameTable
  procs : List (Nat × Word)

def State.dirs (s : State) : List Word := s.procs.map Prod.snd

def State.pagedir (s : State) (pid : Nat) : Option Word := (Keyed.find Prod.fst s.procs pid).map Prod.snd

def pallocPage (m : Machine) (s : State) (pid : Nat) (pd upage : Word) (writable : Bool) (page : Option Word)
    (stray : Word) : Option (State × Option Word) := do
  let (table, kpage) := s.table.take pid upage stray
  let (ram, success) ← installPage m.toBoot s.ram pd upage kpage writable page
  return ({ s with ram := ram, table := table }, if success then some kpage else none)

/-- `load` makes the directory; `load_segment`, `setup_stack` and `grow_stack` call `palloc_page`; `load_segment` calls
    `palloc_free_upage` when the executable cannot be read; every process ends in `process_exit`. -/
inductive Action
  | load (pid : Nat) (page : Option Word)
  | palloc (pid : Nat) (upage : Word) (writable : Bool) (page : Option Word) (stray : Word)
  | freeUpage (pid : Nat) (upage : Word)
  | exit (pid : Nat)

def boot (m : Machine) : Option State := (pagingInit m.toBoot).map fun r => ⟨r, frameTableInit m, []⟩

def step (m : Machine) (s : State) : Action → Option State
  | .load pid page =>
    match pagedirCreate m.toBoot s.ram page with
    | (r, none) => some { s with ram := r }
    | (r, some pd) => some { s with ram := r, procs := (pid, pd) :: s.procs }
  | .palloc pid upage writable page stray => do
    let pd ← s.pagedir pid
    let (s, _) ← pallocPage m s pid pd upage writable page stray
    return s
  | .freeUpage pid upage => do
    let pd ← s.pagedir pid
    let r ← pallocFreeUpage s.ram pd upage
    return { s with ram := r }
  | .exit pid => do
    let pd ← s.pagedir pid
    let r ← pagedirDestroy m.toBoot s.ram pd
    return { s with ram := r, procs := s.procs.erase (pid, pd) }

/-- Kernel pages come fresh from their pool, and process names are new. -/
def Allowed (s : State) : Action → Prop
  | .load pid page => s.pagedir pid = none ∧ ∀ p ∈ page, Fresh s.ram p
  | .palloc _ _ _ page _ => ∀ p ∈ page, Fresh s.ram p
  | .freeUpage _ upage => isUserVaddr upage
  | .exit _ => True

instance (s : State) : (a : Action) → Decidable (Allowed s a)
  | .load pid page =>
    have := decideFresh s.ram page
    inferInstanceAs (Decidable (s.pagedir pid = none ∧ ∀ p ∈ page, Fresh s.ram p))
  | .palloc _ _ _ page _ => decideFresh s.ram page
  | .freeUpage _ upage => inferInstanceAs (Decidable (isUserVaddr upage))
  | .exit _ => isTrue trivial

/-- `lookup_page` returns a null pointer: the directory has no table for the address. -/
def NoTable (r : Ram) (pd va : Word) : Prop := (lookupPage r pd va false none).map Prod.snd = some none

instance (r : Ram) (pd va : Word) : Decidable (NoTable r pd va) := inferInstanceAs (Decidable (_ = _))

/-- **What must not happen.** `palloc_page` is called while a frame is free, for a page that is not mapped, with a page
    table or a page for one at hand; `palloc_free_upage` finds no entry; a process that exits has nothing mapped. -/
def Conserves (s : State) : Action → Prop
  | .load _ _ => True
  | .palloc pid upage _ page _ => (scan s.table.usedMap).isSome ∧ ∀ pd ∈ s.pagedir pid,
      pagedirGetPage s.ram pd upage = some none ∧ (page.isSome ∨ ¬ NoTable s.ram pd upage)
  | .freeUpage pid upage => ∀ pd ∈ s.pagedir pid, NoTable s.ram pd upage
  | .exit pid => ∀ pd ∈ s.pagedir pid, ∀ va, isUserVaddr va → pagedirGetPage s.ram pd va = some none

/-- Frame `i` is mapped in the directory of a live process. -/
def Mapped (m : Machine) (s : State) (i : Nat) : Prop :=
  ∃ p ∈ s.procs, ∃ upage, isUserVaddr upage ∧ pgOfs upage = 0#32 ∧
    pagedirGetPage s.ram p.2 upage = some (some (m.frame i))

/-- **Frame conservation.** -/
structure FrameConservation (m : Machine) (s : State) : Prop where
  used_iff : ∀ i < m.poolSize, s.table.usedMap[i]? = some true ↔ Mapped m s i
  free_at_end : s.procs = [] → ∀ i < m.poolSize, s.table.usedMap[i]? = some false

/-! ## Frames and bits -/

section
variable {m : Machine} {i j : Nat}

theorem Machine.frame_toNat (h : i < m.poolSize) : (m.frame i).toNat = m.poolBase.toNat + i * 4096 := by
  have hram := m.in_ram
  have hle := m.ram_le
  have hsize : PGSIZE.toNat = 4096 := rfl
  rw [Machine.frame, BitVec.toNat_add, BitVec.toNat_mul, BitVec.toNat_ofNat, hsize]
  omega

theorem Machine.frame_page (h : i < m.poolSize) : KernelPage (m.frame i) := by
  have hbase := m.base_page.aligned
  have hkernel := m.base_page.kernel
  rw [pgOfs_eq_zero] at hbase
  rw [isUserVaddr_iff] at hkernel
  constructor
  · rw [pgOfs_eq_zero, frame_toNat h]
    omega
  · rw [isUserVaddr_iff, frame_toNat h]
    omega

theorem Machine.frame_inj (hi : i < m.poolSize) (hj : j < m.poolSize) (h : m.frame i = m.frame j) : i = j := by
  rw [← BitVec.toNat_inj, frame_toNat hi, frame_toNat hj] at h
  omega

end

theorem scan_eq_some {usedMap : List Bool} {i : Nat} (h : scan usedMap = some i) : usedMap[i]? = some false := by
  obtain ⟨hlt, hfalse, -⟩ := List.findIdx?_eq_some_iff_getElem.mp h
  rw [List.getElem?_eq_getElem hlt]
  simpa using hfalse

/-- An entry that maps frame `i`. -/
def Holds (m : Machine) (w : Word) (i : Nat) : Prop := w &&& PTE_P ≠ 0#32 ∧ w &&& PTE_ADDR = m.frame i - PHYS_BASE

/-- A frame table over the machine's pool, whatever its bits are. -/
structure TableOk (m : Machine) (t : FrameTable) : Prop where
  size : t.usedMap.length = m.poolSize
  kpages : ∀ i < m.poolSize, (t.frames[i]?).map FrameEntry.kpage = some (m.frame i)

/-- Such a table, and page directories in memory. -/
structure Sound (m : Machine) (s : State) : Prop where
  ok : Ok m.toBoot s.dirs s.ram
  table : TableOk m s.table

/-- The bits and the entries of live directories agree. -/
structure FrameInv (m : Machine) (s : State) : Prop where
  ok : Ok m.toBoot s.dirs s.ram
  pids : Keyed.Distinct Prod.fst s.procs
  dirs : Keyed.Distinct Prod.snd s.procs
  size : s.table.usedMap.length = m.poolSize
  kpages : ∀ i < m.poolSize, (s.table.frames[i]?).map FrameEntry.kpage = some (m.frame i)
  mapped_used : ∀ pd ∈ s.dirs, ∀ va, isUserVaddr va → view s.ram pd va &&& PTE_P ≠ 0#32 →
    ∃ i, s.table.usedMap[i]? = some true ∧ Holds m (view s.ram pd va) i
  used_mapped : ∀ i, s.table.usedMap[i]? = some true →
    ∃ pd ∈ s.dirs, ∃ va, isUserVaddr va ∧ Holds m (view s.ram pd va) i

variable {m : Machine} {s s' : State} {t : FrameTable} {pid i : Nat} {pd va w : Word}

theorem FrameInv.sound (inv : FrameInv m s) : Sound m s := ⟨inv.ok, inv.size, inv.kpages⟩

theorem TableOk.lt_poolSize (h : TableOk m t) {b : Bool} (hbit : t.usedMap[i]? = some b) : i < m.poolSize := by
  rw [← h.size]
  exact (List.getElem?_eq_some_iff.mp hbit).1

theorem mem_of_pagedir (h : s.pagedir pid = some pd) : (pid, pd) ∈ s.procs := by
  obtain ⟨⟨pid', pd'⟩, hfind, rfl⟩ := Option.map_eq_some_iff.mp h
  obtain ⟨hmem, rfl⟩ := Keyed.mem_of_find hfind
  exact hmem

theorem dir_of_pagedir (h : s.pagedir pid = some pd) : pd ∈ s.dirs := List.mem_map.mpr ⟨_, mem_of_pagedir h, rfl⟩

/-- What `pagedir_get_page` returns for a page that maps a frame. -/
theorem FrameInv.getPage (inv : FrameInv m s) (hpd : pd ∈ s.dirs) (hva : isUserVaddr va)
    (halign : pgOfs va = 0#32) (hi : i < m.poolSize) :
    pagedirGetPage s.ram pd va = some (some (m.frame i)) ↔ Holds m (view s.ram pd va) i := by
  rw [inv.ok.getPage hpd hva, halign]
  constructor
  · intro h
    split at h
    · cases h
    · rename_i hpresent
      obtain ⟨j, hused, hpres, haddr⟩ := inv.mapped_used pd hpd va hva hpresent
      have hj := inv.sound.table.lt_poolSize hused
      rw [pteGetPage, haddr, (Machine.frame_page hj).ptov] at h
      have hframe : m.frame j = m.frame i := by simpa using h
      rw [← Machine.frame_inj hj hi hframe]
      exact ⟨hpresent, haddr⟩
  · rintro ⟨hpresent, haddr⟩
    rw [if_neg hpresent, pteGetPage, haddr, (Machine.frame_page hi).ptov]
    simp

/-- A page that `pagedir_get_page` does not find has a clear present bit. -/
theorem Sound.unmapped (h : Sound m s) (hpd : pd ∈ s.dirs) (hva : isUserVaddr va)
    (hget : pagedirGetPage s.ram pd va = some none) : view s.ram pd va &&& PTE_P = 0#32 := by
  rw [h.ok.getPage hpd hva] at hget
  split at hget
  · assumption
  · cases hpage : pteGetPage (view s.ram pd va) <;> simp [hpage] at hget

/-- **The invariant gives conservation.** -/
theorem FrameInv.conservation (inv : FrameInv m s) : FrameConservation m s := by
  have used_iff : ∀ i < m.poolSize, s.table.usedMap[i]? = some true ↔ Mapped m s i := by
    intro i hi
    constructor
    · intro hused
      obtain ⟨pd, hpd, va, hva, hholds⟩ := inv.used_mapped i hused
      obtain ⟨p, hp, rfl⟩ := List.mem_map.mp hpd
      have hround : view s.ram p.2 (pgRoundDown va) = view s.ram p.2 va :=
        view_congr (pgRoundDown_of_aligned (pgOfs_pgRoundDown va))
      have huser : isUserVaddr (pgRoundDown va) := by
        rw [isUserVaddr_iff] at hva ⊢
        rw [pgRoundDown_toNat]
        omega
      refine ⟨p, hp, pgRoundDown va, huser, pgOfs_pgRoundDown va, ?_⟩
      rw [inv.getPage hpd huser (pgOfs_pgRoundDown va) hi, hround]
      exact hholds
    · rintro ⟨p, hp, upage, huser, halign, hget⟩
      have hpd : p.2 ∈ s.dirs := List.mem_map.mpr ⟨p, hp, rfl⟩
      rw [inv.getPage hpd huser halign hi] at hget
      obtain ⟨j, hused, -, haddr⟩ := inv.mapped_used p.2 hpd upage huser hget.1
      have hj := inv.sound.table.lt_poolSize hused
      have hframe : m.frame j = m.frame i := by
        have hptov := (Machine.frame_page hj).ptov
        rw [← haddr, hget.2, (Machine.frame_page hi).ptov] at hptov
        exact (Option.some.inj hptov).symm
      rw [← Machine.frame_inj hj hi hframe]
      exact hused
  refine ⟨used_iff, fun hnone i hi => ?_⟩
  have hlt : i < s.table.usedMap.length := by rw [inv.size]; exact hi
  rw [List.getElem?_eq_getElem hlt]
  cases hbit : s.table.usedMap[i] with
  | false => rfl
  | true =>
    obtain ⟨p, hp, -⟩ := (used_iff i hi).mp (by rw [List.getElem?_eq_getElem hlt, hbit])
    rw [hnone] at hp
    cases hp

/-! ## One step -/

/-- The page of a directory that goes is not seen from the others. -/
theorem Ok.release {k : Boot} {dirs dirs' : List Word} {r : Ram} (ok : Ok k dirs r) (hpd : pd ∈ dirs)
    (hsub : ∀ p ∈ dirs', p ∈ dirs) (hgone : pd ∉ dirs') (c : Word) :
    let r' : Ram := ⟨Radix.fill r.mem pd c, r.taken.erase pd⟩
    Ok k dirs' r' ∧ Unchanged dirs' r r' := by
  have huses : ∀ p, InUse dirs' r p → InUse dirs r p ∧ p ≠ pd := by
    rintro p (hp | ⟨d, i, h⟩)
    · exact ⟨.inl (hsub p hp), fun heq => hgone (heq ▸ hp)⟩
    · have h' : Radix.Hangs scheme (· < 768) (· ∈ dirs) r.mem d i p := ⟨hsub d h.dir, h.index, h.named⟩
      refine ⟨.inr ⟨d, i, h'⟩, ?_⟩
      rintro rfl
      exact ok.separate.apart h' hpd
  have agree : ∀ p, InUse dirs' r p → ∀ i, Radix.fill r.mem pd c p i = r.mem p i :=
    fun p hp i => Radix.fill_ne _ _ _ (huses p hp).2
  have sep : Radix.Separate scheme (· < 768) (· ∈ dirs') r.mem := ok.separate.shrink hsub
  have hback : ∀ p, InUse dirs' ⟨Radix.fill r.mem pd c, r.taken.erase pd⟩ p → InUse dirs' r p := by
    rintro p (hp | ⟨d, i, h⟩)
    · exact .inl hp
    · exact .inr ⟨d, i, (Radix.hangs_frame agree).mp h⟩
  have hinit : k.initPageDir ≠ pd := (ok.ne_init hpd).symm
  refine ⟨⟨fun p hp => ok.dir_page p (hsub p hp), ?_, sep.frame agree, ?_, ?_, ?_, ?_⟩, ?_⟩
  · intro p hp i hi
    simpa only [agree p (.inl hp) i] using ok.entry p (hsub p hp) i hi
  · intro p hp
    obtain ⟨huse, hne⟩ := huses p (hback p hp)
    exact (mem_erase_of_ne hne).mpr (ok.handed p huse)
  · exact (mem_erase_of_ne hinit).mpr ok.init_handed
  · exact fun h => ok.init_unused (huses _ (hback _ h)).1
  · intro i hi
    simpa only [Radix.fill_ne _ _ _ hinit] using ok.init_blank i hi
  · intro p hp va hva
    exact Radix.look_frame agree hp (pdNo_lt_iff.mpr hva)

variable {page : Option Word} {upage : Word} {writable : Bool} {a : Action} {s : State}

theorem FrameInv.load (inv : FrameInv m s) (hnew : s.pagedir pid = none)
    (fresh : ∀ p ∈ page, Fresh s.ram p) (hstep : step m s (.load pid page) = some s') : FrameInv m s' := by
  cases page with
  | none =>
    obtain rfl := Option.some.inj hstep
    exact inv
  | some pd =>
    obtain rfl := Option.some.inj hstep
    obtain ⟨ok, same, hblank⟩ := inv.ok.create (fresh pd rfl)
    have hnotdir : pd ∉ s.dirs := fun h => (fresh pd rfl).not_inUse inv.ok (.inl h)
    have hpid : ∀ p ∈ s.procs, p.1 ≠ pid := Keyed.find_eq_none.mp (Option.map_eq_none_iff.mp hnew)
    refine ⟨ok, ?_, List.nodup_cons.mpr ⟨hnotdir, inv.dirs⟩, inv.size, inv.kpages, ?_, ?_⟩
    · refine List.nodup_cons.mpr ⟨?_, inv.pids⟩
      intro h
      obtain ⟨p, hp, heq⟩ := List.mem_map.mp h
      exact hpid p hp heq
    · intro pd' hpd' va hva hpresent
      rcases List.mem_cons.mp hpd' with rfl | hold
      · rw [hblank va hva, BitVec.zero_and] at hpresent
        exact absurd rfl hpresent
      · rw [same pd' hold va hva] at hpresent ⊢
        exact inv.mapped_used pd' hold va hva hpresent
    · intro i hused
      obtain ⟨pd', hpd', va, hva, hholds⟩ := inv.used_mapped i hused
      refine ⟨pd', mem_cons_of_mem _ hpd', va, hva, ?_⟩
      rw [same pd' hpd' va hva]
      exact hholds

theorem FrameInv.exit (inv : FrameInv m s) (hpd : s.pagedir pid = some pd)
    (hbare : ∀ va, isUserVaddr va → pagedirGetPage s.ram pd va = some none)
    (hstep : step m s (.exit pid) = some s') : FrameInv m s' := by
  have hdir := dir_of_pagedir hpd
  have hmem := mem_of_pagedir hpd
  have hpage := inv.ok.dir_page pd hdir
  have hdestroy : pagedirDestroy m.toBoot s.ram pd =
      some ⟨Radix.fill s.ram.mem pd 0xcccccccc#32, s.ram.taken.erase pd⟩ := by
    simp [pagedirDestroy, pallocFreePage, guard, inv.ok.ne_init hdir, hpage.aligned, inv.ok.ne_zero hdir,
      inv.ok.handed pd (.inl hdir)]
  simp only [step, hpd, hdestroy, Option.bind_eq_bind, Option.bind_some] at hstep
  obtain rfl := Option.some.inj hstep
  have hnodup : s.procs.Nodup := List.Nodup.of_map _ inv.pids
  have hsub : ∀ p ∈ (s.procs.erase (pid, pd)).map Prod.snd, p ∈ s.dirs := by
    intro p hp
    obtain ⟨q, hq, rfl⟩ := List.mem_map.mp hp
    exact List.mem_map.mpr ⟨q, mem_of_mem_erase hq, rfl⟩
  have hgone : pd ∉ (s.procs.erase (pid, pd)).map Prod.snd := by
    intro h
    obtain ⟨q, hq, heq⟩ := List.mem_map.mp h
    obtain ⟨hne, hq⟩ := hnodup.mem_erase_iff.mp hq
    exact hne (inv.dirs.inj hq hmem heq)
  obtain ⟨ok, same⟩ := Ok.release inv.ok hdir hsub hgone 0xcccccccc#32
  refine ⟨ok, List.Nodup.sublist (List.erase_sublist.map _) inv.pids,
    List.Nodup.sublist (List.erase_sublist.map _) inv.dirs, inv.size, inv.kpages, ?_, ?_⟩
  · intro pd' hpd' va hva hpresent
    rw [same pd' hpd' va hva] at hpresent ⊢
    exact inv.mapped_used pd' (hsub pd' hpd') va hva hpresent
  · intro i hused
    obtain ⟨pd', hpd', va, hva, hholds⟩ := inv.used_mapped i hused
    -- the page that maps the frame belongs to another process
    have hne : pd' ≠ pd := by
      rintro rfl
      exact hholds.1 (inv.sound.unmapped hdir hva (hbare va hva))
    obtain ⟨q, hq, rfl⟩ := List.mem_map.mp hpd'
    have hstay : q.2 ∈ (s.procs.erase (pid, pd)).map Prod.snd := by
      refine List.mem_map.mpr ⟨q, (mem_erase_of_ne ?_).mpr hq, rfl⟩
      rintro rfl
      exact hne rfl
    refine ⟨q.2, hstay, va, hva, ?_⟩
    rw [same _ hstay va hva]
    exact hholds

theorem FrameInv.freeUpage (inv : FrameInv m s) (hpd : s.pagedir pid = some pd)
    (huser : isUserVaddr upage) (hnone : NoTable s.ram pd upage)
    (hstep : step m s (.freeUpage pid upage) = some s') : FrameInv m s' := by
  have hlook : lookupPage s.ram pd upage false none = some (s.ram, none) := by
    rcases inv.ok.lookupPage (dir_of_pagedir hpd) huser with ⟨hlook, -⟩ | ⟨pt, -, -, hlook⟩
    · exact hlook
    · simp [NoTable, hlook] at hnone
  have hfree : pallocFreeUpage s.ram pd upage = some s.ram := by
    simp [pallocFreeUpage, hlook, pallocFreePage, guard, show pgOfs 0#32 = 0#32 by decide]
  simp only [step, hpd, hfree, Option.bind_eq_bind, Option.bind_some] at hstep
  obtain rfl := Option.some.inj hstep
  exact inv

/-- The frame that `palloc_page` takes. -/
theorem TableOk.take (h : TableOk m t) (hscan : scan t.usedMap = some i) (pid : Nat) (upage stray : Word) :
    let t' := (t.take pid upage stray).1
    (t.take pid upage stray).2 = m.frame i ∧ t'.usedMap = t.usedMap.set i true ∧
      ∀ j < m.poolSize, (t'.frames[j]?).map FrameEntry.kpage = some (m.frame j) := by
  have hi := h.lt_poolSize (scan_eq_some hscan)
  refine ⟨?_, ?_, ?_⟩
  · simp [FrameTable.take, hscan, h.kpages i hi]
  · simp [FrameTable.take, hscan]
  · intro j hj
    rw [← h.kpages j hj]
    simp only [FrameTable.take, hscan, getElem?_modify]
    cases t.frames[j]? with
    | none => rfl
    | some e => by_cases hij : i = j <;> simp [hij]

/-- What `install_page` does with an unmapped page when it has a table for it. -/
theorem Sound.install (hs : Sound m s) {kpage : Word} {success : Bool}
    {r' : Ram} (hpd : pd ∈ s.dirs) (fresh : ∀ p ∈ page, Fresh s.ram p)
    (hget : pagedirGetPage s.ram pd upage = some none) (htable : page.isSome ∨ ¬ NoTable s.ram pd upage)
    (h : installPage m.toBoot s.ram pd upage kpage writable page = some (r', success)) :
    isUserVaddr upage ∧ KernelPage kpage ∧ Ok m.toBoot s.dirs r' ∧
      Changes s.dirs s.ram r' pd upage (pteOf kpage writable) := by
  have hset : pagedirSetPage m.toBoot s.ram pd upage kpage writable page = some (r', success) := by
    simpa [installPage, hget] using h
  have args := setArgs_of_some hset
  rcases hs.ok.setPage hpd fresh hset with ⟨-, -, hnone, hlook, -⟩ | ⟨-, ok, changes⟩
  · rcases htable with hsome | htable
    · simp [hnone] at hsome
    · simp [NoTable, hlook] at htable
  · exact ⟨args.user, args.kernel, ok, changes⟩

/-- **`palloc_page` with a frame, an unmapped page and a table.** -/
theorem FrameInv.palloc (inv : FrameInv m s) {stray : Word}
    (hpd : s.pagedir pid = some pd) (fresh : ∀ p ∈ page, Fresh s.ram p) (hscan : scan s.table.usedMap = some i)
    (hget : pagedirGetPage s.ram pd upage = some none) (htable : page.isSome ∨ ¬ NoTable s.ram pd upage)
    (hstep : step m s (.palloc pid upage writable page stray) = some s') : FrameInv m s' := by
  have hdir := dir_of_pagedir hpd
  have hi := inv.sound.table.lt_poolSize (scan_eq_some hscan)
  obtain ⟨hkpage, husedMap, hkpages⟩ := inv.sound.table.take hscan pid upage stray
  simp only [step, hpd, pallocPage, Option.bind_eq_bind, Option.bind_some] at hstep
  obtain ⟨x, hpalloc, hx⟩ := Option.bind_eq_some_iff.mp hstep
  obtain ⟨⟨r', success⟩, hinstall, hret⟩ := Option.bind_eq_some_iff.mp hpalloc
  obtain rfl := Option.some.inj hret
  obtain rfl := Option.some.inj hx
  rw [hkpage] at hinstall
  obtain ⟨huser, hpage, ok, changes⟩ := inv.sound.install hdir fresh hget htable hinstall
  have hused : ∀ j, (s.table.usedMap.set i true)[j]? = some true ↔ j = i ∨ s.table.usedMap[j]? = some true := by
    intro j
    have hlen : i < s.table.usedMap.length := by rw [inv.size]; exact hi
    by_cases hij : j = i
    · simp [hij, hlen]
    · simp [hij, getElem?_set_ne (Ne.symm hij)]
  have hnew : Holds m (pteOf (m.frame i) writable) i := ⟨pteOf_present _ _, pteOf_addr hpage _⟩
  refine ⟨ok, inv.pids, inv.dirs, ?_, hkpages, ?_, ?_⟩
  · simp only [husedMap, length_set]
    exact inv.size
  · intro pd' hpd' va hva hpresent
    rw [changes pd' hpd' va hva] at hpresent ⊢
    simp only [husedMap, hused]
    split at hpresent
    · rename_i hsame
      rw [if_pos hsame]
      exact ⟨i, .inl rfl, hnew⟩
    · rename_i hother
      rw [if_neg hother]
      obtain ⟨j, hj, hholds⟩ := inv.mapped_used pd' hpd' va hva hpresent
      exact ⟨j, .inr hj, hholds⟩
  · intro j hj
    simp only [husedMap, hused] at hj
    rcases hj with rfl | hj
    · refine ⟨pd, hdir, upage, huser, ?_⟩
      rw [changes pd hdir upage huser, if_pos ⟨rfl, rfl⟩]
      exact hnew
    · obtain ⟨pd', hpd', va, hva, hholds⟩ := inv.used_mapped j hj
      refine ⟨pd', hpd', va, hva, ?_⟩
      rw [changes pd' hpd' va hva, if_neg]
      · exact hholds
      · -- the page that is set was not mapped
        rintro ⟨rfl, hsame⟩
        rw [view_congr hsame] at hholds
        exact hholds.1 (inv.sound.unmapped hdir huser hget)

/-- **One step.** -/
theorem FrameInv.step (inv : FrameInv m s) (allowed : Allowed s a) (conserves : Conserves s a)
    (hstep : step m s a = some s') : FrameInv m s' := by
  -- a step of a process is a step of one that has a directory
  have hlive : ∀ {α : Type} {pid : Nat} {f : Word → Option α} {x : α}, (s.pagedir pid).bind f = some x →
      ∃ pd, s.pagedir pid = some pd := by
    intro α pid f x h
    obtain ⟨pd, hpd, -⟩ := Option.bind_eq_some_iff.mp h
    exact ⟨pd, hpd⟩
  cases a with
  | load pid page => exact inv.load allowed.1 allowed.2 hstep
  | palloc pid upage writable page stray =>
    obtain ⟨pd, hpd⟩ := hlive hstep
    obtain ⟨i, hscan⟩ := Option.isSome_iff_exists.mp conserves.1
    obtain ⟨hget, htable⟩ := conserves.2 pd hpd
    exact inv.palloc hpd allowed hscan hget htable hstep
  | freeUpage pid upage =>
    obtain ⟨pd, hpd⟩ := hlive hstep
    exact inv.freeUpage hpd allowed (conserves pd hpd) hstep
  | exit pid =>
    obtain ⟨pd, hpd⟩ := hlive hstep
    exact inv.exit hpd (conserves pd hpd) hstep

theorem tableOk_init (m : Machine) : TableOk m (frameTableInit m) := by
  refine ⟨length_replicate, ?_⟩
  intro i hi
  have hlt : i < m.numFrames := Nat.lt_of_lt_of_le hi m.size_le
  simp [frameTableInit, hlt]

theorem boot_inv (m : Machine) : ∃ s, boot m = some s ∧ FrameInv m s := by
  obtain ⟨r, hinit, ok⟩ := pagingInit_ok m.toBoot
  have htable := tableOk_init m
  refine ⟨⟨r, frameTableInit m, []⟩, by rw [boot, hinit]; rfl, ok, nodup_nil, nodup_nil, htable.size,
    htable.kpages, ?_, ?_⟩
  · exact fun _ h => nomatch h
  · intro i h
    simp [frameTableInit, getElem?_replicate] at h

/-- Runs of processes from a booted kernel, all of whose steps meet a condition. -/
def Runs (G : State → Action → Prop) (m : Machine) (s : State) : Prop :=
  ∃ s₀, boot m = some s₀ ∧ Lts.Reaches (Frame.step m) (fun s a => Allowed s a ∧ G s a) s₀ s

/-- The invariant holds in every run whose steps all conserve. -/
theorem inv_of_runs {m : Machine} (hrun : Runs Conserves m s) : FrameInv m s := by
  obtain ⟨s₀, hboot, hreach⟩ := hrun
  refine hreach.invariant ?_ fun inv h hstep => inv.step h.1 h.2 hstep
  obtain ⟨s₁, hboot₁, inv⟩ := boot_inv m
  obtain rfl := Option.some.inj (hboot.symm.trans hboot₁)
  exact inv

/-- **Frames are conserved as long as nothing is given back and nothing fails.** In every run in which no process
    with mapped pages exits, no `palloc_free_upage` finds an entry and every `palloc_page` has a free frame, an
    unmapped page and a page table, a bit of `used_map` is set just when a live process has the frame mapped. -/
theorem frame_conservation {m : Machine} {s : State} (hrun : Runs Conserves m s) : FrameConservation m s :=
  (inv_of_runs hrun).conservation

/-- A machine with sixteen pages, four of them frames for user pages. -/
def sixteenPages : Machine where
  toBoot := { eightPages with initRamPages := 16, ram_le := by decide }
  poolBase := 0xc0009000#32
  poolSize := 4
  numFrames := 5
  base_page := ⟨by decide, by decide⟩
  size_le := by decide
  in_ram := by decide

/-- A process is loaded and gets one page. -/
def loads (pid : Nat) (pd pt : Word) : List Action :=
  [.load pid (some pd), .palloc pid 0x08048000#32 true (some pt) 0#32]

/-- The steps of processes that only grow. -/
def growing (s : State) : Action → Bool
  | .load _ _ => true
  | .palloc pid upage _ page _ => (scan s.table.usedMap).isSome && (s.pagedir pid).all fun pd =>
    pagedirGetPage s.ram pd upage == some none && (page.isSome || !decide (NoTable s.ram pd upage))
  | .freeUpage _ _ => false
  | .exit _ => false

theorem conserves_of_growing (h : growing s a = true) : Conserves s a := by
  cases a with
  | load pid page => trivial
  | palloc pid upage writable page stray =>
    simp only [growing, Bool.and_eq_true] at h
    refine ⟨h.1, fun pd hpd => ?_⟩
    have hpage : s.pagedir pid = some pd := hpd
    simpa [hpage] using h.2
  | freeUpage pid upage => cases h
  | exit pid => cases h

/-- A run of growing processes. -/
def grow (as : List Action) : Option State :=
  (boot sixteenPages).bind fun s₀ => Lts.run (step sixteenPages) (fun s a => Allowed s a ∧ growing s a = true) s₀ as

theorem runs_of_grow {as : List Action} (h : grow as = some s) : Runs Conserves sixteenPages s := by
  obtain ⟨s₀, hboot, hsteps⟩ := Option.bind_eq_some_iff.mp h
  have hreach := Lts.reaches_of_run _ Lts.Reaches.refl hsteps
  exact ⟨s₀, hboot, hreach.mono fun h => ⟨h.1, conserves_of_growing h.2⟩⟩

/-- Such a run that is evaluated, with what holds at its end. -/
theorem runs_growing (as : List Action) (p : State → Bool) (h : (grow as).any p = true) :
    ∃ s, Runs Conserves sixteenPages s ∧ p s = true := by
  obtain ⟨s, hs, hp⟩ := (Option.any_eq_true _ _).mp h
  exact ⟨s, runs_of_grow hs, hp⟩

/-- Two processes run; the frames 0 and 1 are theirs. -/
theorem frame_conservation_twoProcesses :
    ∃ s, Runs Conserves sixteenPages s ∧ s.table.usedMap = [true, true, false, false] ∧
      FrameConservation sixteenPages s := by
  obtain ⟨s, hruns, hbits⟩ := runs_growing (loads 1 0xc0003000#32 0xc0004000#32 ++ loads 2 0xc0005000#32 0xc0006000#32)
    (fun s => s.table.usedMap = [true, true, false, false]) (by decide +kernel)
  exact ⟨s, hruns, of_decide_eq_true hbits, frame_conservation hruns⟩

/-- **The frame of a process that has exited stays taken.** -/
theorem exit_keeps_frame :
    ∃ s, Runs (fun _ _ => True) sixteenPages s ∧ s.procs = [] ∧ s.table.usedMap = [true, false, false, false] ∧
      ¬ FrameConservation sixteenPages s := by
  have hrun : ((boot sixteenPages).bind fun s₀ =>
      Lts.run (step sixteenPages) (fun s a => Allowed s a ∧ True) s₀
        (loads 1 0xc0003000#32 0xc0004000#32 ++ [.exit 1])).any (fun s =>
      s.procs = [] ∧ s.table.usedMap = [true, false, false, false]) = true := by decide +kernel
  obtain ⟨s, hs, hfacts⟩ := (Option.any_eq_true _ _).mp hrun
  obtain ⟨hnone, hbits⟩ := of_decide_eq_true hfacts
  obtain ⟨s₀, hboot, hsteps⟩ := Option.bind_eq_some_iff.mp hs
  refine ⟨s, ⟨s₀, hboot, Lts.reaches_of_run _ Lts.Reaches.refl hsteps⟩, hnone, hbits, ?_⟩
  intro conserved
  have hfree := conserved.free_at_end hnone 0 (by decide)
  simp [hbits] at hfree

end Frame
end Asg1
