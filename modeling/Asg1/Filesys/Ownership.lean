import Asg1.Filesys.Format
import Asg1.Lib.Lts

/-!
# `Filesys.Ownership` — what holds in every run of the file system

A run starts with a formatted device and makes calls one after the other; `malloc` may fail in any of them. As long as
`file_write_at` is not called with a negative offset,

* every file has sectors of its own, which are marked in the free map (`sectors_owned`);
* the free map in memory is the one on the device (`free_map_persists`);
* the counters of open inodes count the open files and directories, and a file that somebody denies writes to keeps its
  bytes (`open_inodes_counted`).

`byte_to_sector` has a sector for a negative offset too, one before the file's first. A write to it destroys all of this,
as the runs at the end of each section show.
-/

namespace Asg1
namespace Volume

open Filesys Flat

/-! ## Runs -/

/-- A call, and what `malloc` returns while it runs. -/
def step (s : Vol) (a : Call × List Bool) : Option Vol := (call a.1 { s with mem := a.2 }).map (fun r => r.2)

/-- Runs from a formatted device whose steps all meet a condition. -/
def Runs (G : Call → Prop) (s : Vol) : Prop :=
  ∃ blocks device memory s₀, filesysInit blocks device memory true = some s₀ ∧
    Lts.Reaches step (fun s a => Valid s a.1 ∧ G a.1) s₀ s

section
variable {s s' : Vol} {c : Call} {mem : List Bool}

theorem Valid.setMem (h : Valid s c) (mem : List Bool) : Valid { s with mem } c := by
  cases c <;> exact h

theorem Effect.setMem (h : Effect { s with mem } c s') : Effect s c s' := { h with }

/-- **One step keeps the invariant.** -/
theorem Inv.step (h : Inv s []) (hvalid : Valid s c) (hahead : WritesAhead c) (hstep : step s (c, mem) = some s') :
    Inv s' [] ∧ Effect s c s' := by
  obtain ⟨⟨r, t⟩, hcall, rfl⟩ := Option.map_eq_some_iff.mp hstep
  obtain ⟨hinv, heffect⟩ := (h.setMem mem).call (hvalid.setMem mem) hahead r t hcall
  exact ⟨hinv, heffect.setMem⟩

/-- **The invariant holds in every run.** -/
theorem inv_of_runs (h : Runs WritesAhead s) : Inv s [] := by
  obtain ⟨blocks, device, memory, s₀, hinit, hreach⟩ := h
  refine hreach.invariant (I := fun t => Inv t []) (filesysInit_format hinit).1 ?_
  rintro t u ⟨c, mem⟩ ht ⟨hvalid, hahead⟩ hstep
  exact (ht.step hvalid hahead hstep).1

/-- Every call without a negative argument returns. -/
theorem Inv.returns (h : Inv s []) (hvalid : Valid s c) (hahead : WritesAhead c) (hnonneg : NonNeg c) (mem : List Bool) :
    ∃ s', Volume.step s (c, mem) = some s' := by
  obtain ⟨r, s', hcall, -⟩ := (h.setMem mem).call_ends (hvalid.setMem mem) hahead hnonneg
  exact ⟨s', by rw [Volume.step, hcall]; rfl⟩

end

/-! ## Owners of sectors -/

/-- Who has sectors: the free map file, the root directory, a file with an entry in the directory, and a file that has
    been removed but is still open. -/
inductive Owner
  | freeMap
  | root
  | named (k : Nat)
  | removed (i : Addr)

namespace Owner

/-- The owner is there. -/
def Exists (s : Vol) : Owner → Prop
  | freeMap => True
  | root => True
  | named k => k < SLOTS ∧ entryInUse (slot s.device k) = true
  | removed i => i ∈ s.openInodes ∧ s.removed i = true

/-- The sector of the inode. -/
def sector (s : Vol) : Owner → Nat
  | freeMap => FREE_MAP_SECTOR
  | root => ROOT_DIR_SECTOR
  | named k => entrySector (slot s.device k)
  | removed i => (s.inode i).sector

/-- The inode: on the device, or in memory once the file has been removed. -/
def data (s : Vol) : Owner → InodeDisk
  | freeMap => inodeDisk s.device FREE_MAP_SECTOR
  | root => inodeDisk s.device ROOT_DIR_SECTOR
  | named k => inodeDisk s.device (entrySector (slot s.device k))
  | removed i => (s.inode i).data

/-- The sectors of an owner: that of the inode, and those of the contents. -/
def Has (s : Vol) (o : Owner) (x : Nat) : Prop := x = o.sector s ∨ extent (o.data s) x

end Owner

section
variable {s : Vol} {o p : Owner} {x : Nat}

theorem Layout.live_owner (h : Layout s) (ho : o.Exists s) :
    Live s (o.sector s) ∧ o.data s = inodeDisk s.device (o.sector s) := by
  cases o with
  | freeMap => exact ⟨live_map s, rfl⟩
  | root => exact ⟨live_root s, rfl⟩
  | named k => exact ⟨live_slot ⟨ho.1, ho.2, rfl⟩, rfl⟩
  | removed i => exact ⟨live_open ho.1, h.opened i ho.1⟩

/-- Different owners have different inodes. -/
theorem Inv.owner_inj (h : Inv s []) (ho : o.Exists s) (hp : p.Exists s) (hsector : o.sector s = p.sector s) : o = p := by
  have hnamed : ∀ {k}, (Owner.named k).Exists s → Uses s.device k ((Owner.named k).sector s) :=
    fun hk => ⟨hk.1, hk.2, rfl⟩
  cases o with
  | freeMap =>
    cases p with
    | freeMap => rfl
    | root => cases hsector
    | named k => exact absurd hsector.symm (h.layout.slot_file k _ (hnamed hp)).1
    | removed i => exact absurd hsector.symm (h.layout.removed i hp.1 hp.2).1
  | root =>
    cases p with
    | freeMap => cases hsector
    | root => rfl
    | named k => exact absurd hsector.symm (h.layout.slot_file k _ (hnamed hp)).2
    | removed i => exact absurd hsector.symm (h.layout.removed i hp.1 hp.2).2.1
  | named k =>
    cases p with
    | freeMap => exact absurd hsector (h.layout.slot_file k _ (hnamed ho)).1
    | root => exact absurd hsector (h.layout.slot_file k _ (hnamed ho)).2
    | named l =>
      have hk := hnamed ho
      rw [hsector] at hk
      rw [h.layout.slot_inj k l _ hk (hnamed hp)]
    | removed i =>
      have hk := hnamed ho
      rw [hsector] at hk
      exact absurd hk ((h.layout.removed i hp.1 hp.2).2.2 k)
  | removed i =>
    cases p with
    | freeMap => exact absurd hsector (h.layout.removed i ho.1 ho.2).1
    | root => exact absurd hsector (h.layout.removed i ho.1 ho.2).2.1
    | named k =>
      have hk := hnamed hp
      rw [← hsector] at hk
      exact absurd hk ((h.layout.removed i ho.1 ho.2).2.2 k)
    | removed j => rw [h.accounts.sector_inj i ho.1 j hp.1 hsector]

/-- A sector of an owner is that of one of its two pieces. -/
theorem Layout.piece_of_has (h : Layout s) (ho : o.Exists s) (hx : o.Has s x) :
    ∃ q : Piece, q.sector = o.sector s ∧ foot s.device q x := by
  rcases hx with hx | hx
  · exact ⟨.header (o.sector s), rfl, hx⟩
  · rw [(h.live_owner ho).2] at hx
    exact ⟨.contents (o.sector s), rfl, hx⟩

/-- **Every sector has one owner.** In every run without negative offsets in `file_write_at`, the inodes and the contents
    of the free map, the root directory, the files with a name and the removed files that are still open are in sectors
    of the device that are marked in the free map; the contents of a file do not meet its inode, and no sector has two
    owners. Every call returns, so that `free_map_release` never finds a sector that is not marked. -/
theorem sectors_owned {s : Vol} (hrun : Runs WritesAhead s) :
    (∀ o : Owner, o.Exists s → ∀ x, o.Has s x → x < s.blocks ∧ s.freeMap.bit x = true) ∧
    (∀ o : Owner, o.Exists s → ¬ extent (o.data s) (o.sector s)) ∧
    (∀ o p : Owner, o.Exists s → p.Exists s → o ≠ p → ∀ x, o.Has s x → ¬ p.Has s x) ∧
    ∀ c mem, Valid s c → WritesAhead c → NonNeg c → ∃ s', step s (c, mem) = some s' := by
  have h := inv_of_runs hrun
  refine ⟨?_, ?_, ?_, ?_⟩
  · intro o ho x hx
    obtain ⟨q, hq, hfoot⟩ := h.layout.piece_of_has ho hx
    have hlive := (h.layout.live_owner ho).1
    rw [← hq] at hlive
    exact h.layout.owns.cover q hlive x hfoot
  · intro o ho
    obtain ⟨hlive, hdata⟩ := h.layout.live_owner ho
    rw [hdata]
    exact h.layout.header_free hlive hlive
  · intro o p ho hp hne x hox hpx
    obtain ⟨q, hq, hqx⟩ := h.layout.piece_of_has ho hox
    obtain ⟨r, hr, hrx⟩ := h.layout.piece_of_has hp hpx
    have hlq := (h.layout.live_owner ho).1
    have hlr := (h.layout.live_owner hp).1
    rw [← hq] at hlq
    rw [← hr] at hlr
    have hqr := h.layout.owns.disjoint q hlq r hlr x hqx hrx
    apply hne
    apply h.owner_inj ho hp
    rw [← hq, ← hr, hqr]
  · exact fun c mem hvalid hahead hnonneg => h.returns hvalid hahead hnonneg mem

end

/-! ## Runs on a small device -/

/-- A device of sixteen sectors, formatted: the free map is in sector 2 and the root directory in sector 3. -/
def sixteenSectors : Option Vol := filesysInit 16 (fun _ => 0) (fun _ => 0#32) true

def fileA : List UInt8 := [97]
def fileB : List UInt8 := [98]

/-- A run that is evaluated, with what holds at its end. -/
theorem runs_sixteen (G : Call → Prop) [DecidablePred G] (as : List (Call × List Bool)) (p : Vol → Bool)
    (h : (sixteenSectors.bind fun s₀ => Lts.run step (fun s a => Valid s a.1 ∧ G a.1) s₀ as).any p = true) :
    ∃ s, Runs G s ∧ p s = true := by
  obtain ⟨s, hs, hp⟩ := (Option.any_eq_true _ _).mp h
  obtain ⟨s₀, hinit, hsteps⟩ := Option.bind_eq_some_iff.mp hs
  exact ⟨s, ⟨16, _, _, s₀, hinit, Lts.reaches_of_run _ Lts.Reaches.refl hsteps⟩, hp⟩

/-- A file is removed while it is open, and its sectors are still its own. -/
theorem sectors_owned_removed :
    ∃ s, Runs WritesAhead s ∧ (Owner.removed 8).Exists s ∧
      ∀ x, (Owner.removed 8).Has s x → x < s.blocks ∧ s.freeMap.bit x = true := by
  obtain ⟨s, hrun, hfacts⟩ := runs_sixteen WritesAhead
    [(.create fileA 512, []), (.open fileA, []), (.remove fileA, [])]
    (fun s => decide (8 ∈ s.openInodes ∧ s.removed 8 = true))
    (by decide +kernel)
  have hopen := of_decide_eq_true hfacts
  have hexists : (Owner.removed 8).Exists s := hopen
  exact ⟨s, hrun, hexists, (sectors_owned hrun).1 _ hexists⟩

/-- **Inodes in memory agree with the device**: in every such run an open inode is the one that the device holds in its
    sector, and no name leads to one that was removed. -/
theorem open_inodes_coherent {s : Vol} (hrun : Runs WritesAhead s) {i : Addr} (hi : i ∈ s.openInodes) :
    (s.inode i).data = inodeDisk s.device (s.inode i).sector ∧
      (s.removed i = true → ∀ k, ¬ Uses s.device k (s.inode i).sector) := by
  have h := (inv_of_runs hrun).layout
  exact ⟨h.opened i hi, fun hremoved => (h.removed i hi hremoved).2.2⟩

theorem open_inodes_coherent_removed :
    ∃ s, Runs WritesAhead s ∧ s.removed 8 = true ∧ ∀ k, ¬ Uses s.device k (s.inode 8).sector := by
  obtain ⟨s, hrun, hfacts⟩ := runs_sixteen WritesAhead
    [(.create fileA 512, []), (.open fileA, []), (.remove fileA, [])]
    (fun s => decide (8 ∈ s.openInodes ∧ s.removed 8 = true)) (by decide +kernel)
  have hopen := of_decide_eq_true hfacts
  exact ⟨s, hrun, hopen.2, (open_inodes_coherent hrun hopen.1).2 hopen.2⟩

instance decideExtent (data : InodeDisk) (x : Nat) : Decidable (extent data x) :=
  inferInstanceAs (Decidable (data.start ≤ x ∧ x < data.start + bytesToSectors data.length))

/-- **A write before the start of one file makes two files share a sector.** The inode of the first file is overwritten
    with that of the second. -/
theorem negative_write_shares_sectors :
    ∃ s, Runs (fun _ => True) s ∧ (Owner.named 0).Exists s ∧ (Owner.named 1).Exists s ∧
      (Owner.named 0).Has s 7 ∧ (Owner.named 1).Has s 7 := by
  obtain ⟨s, hrun, hfacts⟩ := runs_sixteen (fun _ => True)
    [(.create fileA 512, []), (.create fileB 512, []), (.open fileB, []),
      (.writeAt 11 (inodeBytes 7 512) 512 (-1536), [])]
    (fun s => decide ((0 < SLOTS ∧ entryInUse (slot s.device 0) = true) ∧
      (1 < SLOTS ∧ entryInUse (slot s.device 1) = true) ∧
      extent (inodeDisk s.device (entrySector (slot s.device 0))) 7 ∧
      extent (inodeDisk s.device (entrySector (slot s.device 1))) 7))
    (by decide +kernel)
  obtain ⟨ha, hb, hxa, hxb⟩ := of_decide_eq_true hfacts
  exact ⟨s, hrun, ha, hb, .inr hxa, .inr hxb⟩

/-! ## The free map on the device -/

/-- **The free map persists.** In every run without negative offsets in `file_write_at`, in which the map could always be
    written, the bits in the free map file are those in memory, and the file system can be started again with the same
    free map. -/
theorem free_map_persists {s : Vol} (hrun : Runs WritesAhead s) (hwritten : s.mapLost = false) :
    (∀ j < s.blocks, Bitmap.fileBit
      (fun i => s.device ((inodeDisk s.device FREE_MAP_SECTOR).start * 512 + i)) j = s.freeMap.bit j) ∧
    ∀ memory, ∃ s', filesysInit s.blocks s.device memory false = some s' ∧
      ∀ j < s.blocks, s'.freeMap.bit j = s.freeMap.bit j := by
  have h := inv_of_runs hrun
  refine ⟨?_, ?_⟩
  · intro j hj
    exact h.stored hwritten j (by rw [h.layout.bitCnt]; exact hj)
  · intro memory
    obtain ⟨s', hinit, -, -, hbits⟩ := h.restart hwritten memory
    exact ⟨s', hinit, hbits⟩

/-- After a file has been made and another removed. -/
theorem free_map_persists_createRemove :
    ∃ s, Runs WritesAhead s ∧ s.mapLost = false ∧ s.freeMap.bit 7 = true ∧ s.freeMap.bit 4 = false ∧
      ∀ memory, ∃ s', filesysInit s.blocks s.device memory false = some s' ∧
        ∀ j < s.blocks, s'.freeMap.bit j = s.freeMap.bit j := by
  obtain ⟨s, hrun, hfacts⟩ := runs_sixteen WritesAhead
    [(.create fileA 512, []), (.create fileB 512, []), (.remove fileA, [])]
    (fun s => decide (s.mapLost = false ∧ s.freeMap.bit 7 = true ∧ s.freeMap.bit 4 = false))
    (by decide +kernel)
  obtain ⟨hwritten, h7, h4⟩ := of_decide_eq_true hfacts
  exact ⟨s, hrun, hwritten, h7, h4, (free_map_persists hrun hwritten).2⟩

/-- **A write before the start of a file clears the free map on the device.** -/
theorem negative_write_clears_map :
    ∃ s, Runs (fun _ => True) s ∧ s.mapLost = false ∧ s.freeMap.bit 4 = true ∧
      Bitmap.fileBit (fun i => s.device ((inodeDisk s.device FREE_MAP_SECTOR).start * 512 + i)) 4 = false ∧
      (filesysInit s.blocks s.device (fun _ => 0#32) false).any (fun s' => !s'.freeMap.bit 4) = true := by
  obtain ⟨s, hrun, hfacts⟩ := runs_sixteen (fun _ => True)
    [(.create fileA 512, []), (.open fileA, []), (.writeAt 9 (List.replicate 512 0) 512 (-1536), [])]
    (fun s => decide (s.mapLost = false ∧ s.freeMap.bit 4 = true ∧
      Bitmap.fileBit (fun i => s.device ((inodeDisk s.device FREE_MAP_SECTOR).start * 512 + i)) 4 = false ∧
      (filesysInit s.blocks s.device (fun _ => 0#32) false).any (fun s' => !s'.freeMap.bit 4) = true))
    (by decide +kernel)
  exact ⟨s, hrun, of_decide_eq_true hfacts⟩

/-! ## Open inodes -/

/-- The bytes of the file whose inode is in a sector. -/
def contents (d : Device) (sector : Nat) : List UInt8 :=
  slice d ((inodeDisk d sector).start * 512) (inodeDisk d sector).length

/-- Some open file denies writes to the file in this sector. -/
def DeniedAt (s : Vol) (sector : Nat) : Prop := ∃ f ∈ s.files, (s.file f).denyWrite = true ∧ s.sectorOf f = sector

/-- The number of open directories with an inode. -/
def dirOpeners (s : Vol) (i : Addr) : Nat := s.dirs.countP (fun a => (s.dir a).inode = i)

section
variable {s s' : Vol} {c : Call} {mem : List Bool} {sector : Nat}

theorem Intact.contents {d d' : Device} (h : Intact d d' sector) : contents d' sector = Volume.contents d sector := by
  unfold Volume.contents
  rw [h.inode]
  apply slice_congr
  intro x hle hlt
  apply h.bytes
  have hsectors := le_bytesToSectors (inodeDisk d sector).length_lt
  unfold extent
  omega

/-- The counter of an inode that somebody denies writes to is not zero. -/
theorem Inv.denied_of_deniedAt (h : Inv s []) (hdeny : DeniedAt s sector) {f : Addr} (hf : f ∈ s.files)
    (hsector : s.sectorOf f = sector) : s.Denied f := by
  obtain ⟨g, hg, hgdeny, hgsector⟩ := hdeny
  apply (h.accounts.denied_iff hf).mpr
  refine ⟨g, hg, hgdeny, ?_⟩
  show s.sectorOf g = s.sectorOf f
  rw [hgsector, hsector]

/-- **A step keeps the bytes of a file** that somebody denies writes to before and after. -/
theorem Inv.step_denied (h : Inv s []) (h' : Inv s' []) (heffect : Effect s c s') (hdeny : DeniedAt s sector)
    (hdeny' : DeniedAt s' sector) : contents s'.device sector = contents s.device sector := by
  obtain ⟨f, hf, hflag, rfl⟩ := hdeny
  obtain ⟨g, hg, hgflag, hgsector⟩ := hdeny'
  obtain ⟨m, hm⟩ := h.mapFile
  have hne : f ≠ m := by
    rintro rfl
    rw [hm.allows] at hflag
    cases hflag
  have hlive : Live s (s.sectorOf f) := h.live_file hf
  have hlive' : Live s' (s.sectorOf f) := by
    rw [← hgsector]
    exact h'.live_file hg
  obtain ⟨hmap, hroot⟩ := hm.others f hf hne
  rcases heffect.intact _ hlive hlive' hmap hroot with hintact | ⟨e, -, he, hsector, hallowed⟩
  · exact hintact.contents
  · exact absurd (h.denied_of_deniedAt ⟨f, hf, hflag, rfl⟩ he hsector) hallowed

/-- **Open inodes are counted, and a denied file keeps its bytes.** In every run without negative offsets in
    `file_write_at` there is one open inode for a sector, its counters count the open files and directories, and the
    assertions on them hold in every call. From then on, as long as some open file denies writes to it, the bytes of a
    file stay as they are; so they do from `file_deny_write` to `file_close` or `file_allow_write` of the same file. -/
theorem open_inodes_counted {s : Vol} (hrun : Runs WritesAhead s) :
    s.openInodes.Nodup ∧
    (∀ i ∈ s.openInodes, ∀ j ∈ s.openInodes, (s.inode i).sector = (s.inode j).sector → i = j) ∧
    (∀ i ∈ s.openInodes, (s.inode i).openCnt = openers s.toFs i + dirOpeners s i ∧
      (s.inode i).denyWriteCnt = deniers s.toFs i ∧ 0 ≤ (s.inode i).denyWriteCnt ∧
      (s.inode i).denyWriteCnt ≤ (s.inode i).openCnt) ∧
    (∀ c mem, Valid s c → WritesAhead c → NonNeg c → ∃ s', step s (c, mem) = some s') ∧
    (∀ sector t, Lts.Reaches step (fun u a => (Valid u a.1 ∧ WritesAhead a.1) ∧ DeniedAt u sector) s t →
      DeniedAt t sector → contents t.device sector = contents s.device sector) ∧
    (∀ f ∈ s.files, (s.file f).denyWrite = true → ∀ t, Lts.Reaches step (fun u a => (Valid u a.1 ∧ WritesAhead a.1) ∧
      a.1 ≠ .close f ∧ a.1 ≠ .allowWrite f) s t → f ∈ t.files ∧ (t.file f).denyWrite = true ∧
      t.sectorOf f = s.sectorOf f ∧ contents t.device (s.sectorOf f) = contents s.device (s.sectorOf f)) := by
  have h := inv_of_runs hrun
  refine ⟨h.accounts.nodup, h.accounts.sector_inj, ?_, ?_, ?_, ?_⟩
  · intro i hi
    have hdirs : s.dirRefs.count i = dirOpeners s i := by
      unfold Vol.dirRefs dirOpeners
      rw [List.count, List.countP_map]
      apply List.countP_congr
      intro a _
      simp
    have hdeny := h.accounts.denyWriteCnt i hi
    refine ⟨?_, hdeny, ?_, h.accounts.deny_le hi⟩
    · rw [h.accounts.openCnt i hi, List.nil_append, hdirs]
    · rw [hdeny]
      exact Int.natCast_nonneg _
  · exact fun c mem hvalid hahead hnonneg => h.returns hvalid hahead hnonneg mem
  · intro sector t hreach
    -- the bytes are the same at each state of the run at which writes are denied
    have hall : Inv t [] ∧ (DeniedAt t sector → contents t.device sector = contents s.device sector) := by
      refine hreach.invariant (I := fun t => Inv t [] ∧
        (DeniedAt t sector → contents t.device sector = contents s.device sector)) ⟨h, fun _ => rfl⟩ ?_
      rintro u v ⟨c, mem⟩ ⟨hu, hsame⟩ ⟨⟨hvalid, hahead⟩, hdeny⟩ hstep
      obtain ⟨hv, heffect⟩ := hu.step hvalid hahead hstep
      refine ⟨hv, ?_⟩
      intro hdeny'
      rw [hu.step_denied hv heffect hdeny hdeny']
      exact hsame hdeny
    exact hall.2
  · intro f hf hflag t hreach
    have hall : Inv t [] ∧ f ∈ t.files ∧ (t.file f).denyWrite = true ∧ t.sectorOf f = s.sectorOf f ∧
        contents t.device (s.sectorOf f) = contents s.device (s.sectorOf f) := by
      refine hreach.invariant (I := fun t => Inv t [] ∧ f ∈ t.files ∧ (t.file f).denyWrite = true ∧
        t.sectorOf f = s.sectorOf f ∧ contents t.device (s.sectorOf f) = contents s.device (s.sectorOf f))
        ⟨h, hf, hflag, rfl, rfl⟩ ?_
      rintro u v ⟨c, mem⟩ ⟨hu, hfu, hflagu, hsector, hsame⟩ ⟨⟨hvalid, hahead⟩, hclose, hallow⟩ hstep
      obtain ⟨hv, heffect⟩ := hu.step hvalid hahead hstep
      obtain ⟨hfv, hsector', hkept⟩ := heffect.keeps f hfu hclose hallow
      have hsectorv := hsector'.trans hsector
      refine ⟨hv, hfv, hkept hflagu, hsectorv, ?_⟩
      rw [hu.step_denied hv heffect ⟨f, hfu, hflagu, hsector⟩ ⟨f, hfv, hkept hflagu, hsectorv⟩]
      exact hsame
    exact hall.2

end

/-- A file is open twice, and once writes are denied; a write through the other handle changes nothing. -/
theorem open_inodes_counted_twice :
    ∃ s, Runs WritesAhead s ∧ s.openInodes = [8, 2] ∧ (s.inode 8).openCnt = 2 ∧ (s.inode 8).denyWriteCnt = 1 ∧
      (s.inode 8).openCnt = openers s.toFs 8 + dirOpeners s 8 := by
  obtain ⟨s, hrun, hfacts⟩ := runs_sixteen WritesAhead
    [(.create fileA 512, []), (.open fileA, []), (.reopen 9, []), (.denyWrite 9, []), (.write 10 [1, 2] 2, [])]
    (fun s => decide (s.openInodes = [8, 2] ∧ (s.inode 8).openCnt = 2 ∧ (s.inode 8).denyWriteCnt = 1))
    (by decide +kernel)
  obtain ⟨hopen, hcnt, hdeny⟩ := of_decide_eq_true hfacts
  have hlisted : 8 ∈ s.openInodes := by rw [hopen]; decide
  exact ⟨s, hrun, hopen, hcnt, hdeny, ((open_inodes_counted hrun).2.2.1 8 hlisted).1⟩

/-- **A write before the start of another file changes a file that is denied writes.** -/
theorem negative_write_changes_denied :
    ∃ s t, Runs (fun _ => True) s ∧ Valid s (.writeAt 15 (List.replicate 512 1) 512 (-1024)) ∧
      step s (.writeAt 15 (List.replicate 512 1) 512 (-1024), []) = some t ∧ DeniedAt s 4 ∧ DeniedAt t 4 ∧
      contents t.device 4 ≠ contents s.device 4 := by
  obtain ⟨s, hrun, hfacts⟩ := runs_sixteen (fun _ => True)
    [(.create fileA 512, []), (.create fileB 512, []), (.open fileA, []), (.denyWrite 11, []), (.open fileB, [])]
    (fun s => decide (Valid s (.writeAt 15 (List.replicate 512 1) 512 (-1024)) ∧
      (11 ∈ s.files ∧ (s.file 11).denyWrite = true ∧ s.sectorOf 11 = 4) ∧
      (step s (.writeAt 15 (List.replicate 512 1) 512 (-1024), [])).any (fun t =>
        decide ((11 ∈ t.files ∧ (t.file 11).denyWrite = true ∧ t.sectorOf 11 = 4) ∧
          contents t.device 4 ≠ contents s.device 4)) = true))
    (by decide +kernel)
  obtain ⟨hvalid, hdeny, hstep⟩ := of_decide_eq_true hfacts
  obtain ⟨t, ht, hafter⟩ := (Option.any_eq_true _ _).mp hstep
  obtain ⟨hdeny', hchanged⟩ := of_decide_eq_true hafter
  exact ⟨s, t, hrun, hvalid, ht, ⟨11, hdeny⟩, ⟨11, hdeny'⟩, hchanged⟩

end Volume
end Asg1
