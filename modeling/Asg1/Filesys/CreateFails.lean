import Asg1.Filesys.Ownership

/-!
# `Filesys.CreateFails` — what `filesys_create` leaves behind when it fails

`filesys_create` takes a sector for the inode, sectors for the contents and an entry of the root directory, in this
order. If it fails it gives the sector of the inode back, and closes the directory. The sectors of the contents are not
given back: if `inode_create` has succeeded and `dir_add` has not, they stay marked in the free map although nobody has
them. This is the only trace that a failed call leaves.
-/

namespace Asg1
namespace Volume

open Filesys Flat List

/-- A bit of the free map on the device. -/
def storedBit (s : Vol) (x : Nat) : Bool :=
  Bitmap.fileBit (fun j => s.device ((inodeDisk s.device FREE_MAP_SECTOR).start * 512 + j)) x

/-- The free map in memory, the root directory and the open inodes are as they were. -/
structure SameInMemory (s s' : Vol) : Prop where
  bitCnt : s'.freeMap.bitCnt = s.freeMap.bitCnt
  freeMap : ∀ x, s'.freeMap.bit x = s.freeMap.bit x
  root : Intact s.device s'.device ROOT_DIR_SECTOR
  openInodes : s'.openInodes = s.openInodes
  inode : ∀ i ∈ s.openInodes, s'.inode i = s.inode i

/-- **No trace.** The free map on the device is as it was, too. -/
structure NoTrace (s s' : Vol) : Prop extends SameInMemory s s' where
  mapFile : inodeDisk s'.device FREE_MAP_SECTOR = inodeDisk s.device FREE_MAP_SECTOR
  stored : ∀ x < s.blocks, storedBit s' x = storedBit s x

/-- With the root directory open, there are sectors for an inode and for `size` bytes. -/
def Takes (s : Vol) (size : Int) : Prop :=
  ∃ sector s₁ s₂, freeMapAllocate 1 s = some (some sector, s₁) ∧ inodeCreate sector size s₁ = some (true, s₂)

/-- **The leak.** The directory can be opened, and there are sectors for a file of `size` bytes; at least one of them is
    for its contents. -/
def Leaks (s : Vol) (size : Int) : Prop := 0 < size ∧ ∃ a s₁, dirOpenRoot s = some (some a, s₁) ∧ Takes s₁ size

/-! ## The list of open inodes -/

/-- If the elements are the same, so is the list. -/
theorem Relisted.eq {n : Addr} {l l' : List Addr} (h : Relisted n l l') (hperm : l'.Perm l) (hn : n ∉ l) : l' = l := by
  obtain ⟨l₁, i, rfl | rfl, rfl | rfl⟩ := h
  · rfl
  · by_cases hi : i ∈ l₁
    · have hlen := hperm.length_eq
      have hpos := length_pos_of_mem hi
      rw [length_erase_of_mem hi] at hlen
      omega
    · exact erase_of_not_mem hi
  · have hlen := hperm.length_eq
    rw [length_cons] at hlen
    omega
  · by_cases hni : n = i
    · rw [hni, erase_cons_head]
    · refine absurd (hperm.subset ?_) hn
      exact (mem_erase_of_ne hni).mpr mem_cons_self

section
variable {s s' : Vol} {held : List Addr}

/-- The open inodes are those that files and directories refer to. -/
theorem Mem.open_iff (h : Mem s []) (i : Addr) :
    i ∈ s.openInodes ↔ (∃ f ∈ s.files, (s.file f).inode = i) ∨ i ∈ s.dirRefs := by
  constructor
  · intro hi
    have hpos := h.accounts.opened i hi
    rw [h.accounts.openCnt i hi, nil_append] at hpos
    by_cases hdir : i ∈ s.dirRefs
    · exact .inr hdir
    · rw [count_eq_zero_of_not_mem hdir] at hpos
      have hopeners : 0 < openers s.toFs i := by omega
      obtain ⟨f, hf, hfi⟩ := List.countP_pos_iff.mp hopeners
      exact .inl ⟨f, hf, of_decide_eq_true hfi⟩
  · rintro (⟨f, hf, rfl⟩ | hdir)
    · exact h.listed hf
    · exact h.accounts.held_listed i (mem_append_right _ hdir)

/-- With the same files and directories, the same inodes are open, with the same counters. -/
theorem Still.open_same (hstill : Still s s') (h : Mem s []) (h' : Mem s' []) (hdirs : s'.dirs = s.dirs) :
    s'.openInodes.Perm s.openInodes ∧ ∀ i ∈ s.openInodes, s'.inode i = s.inode i := by
  have hfile : ∀ f ∈ s.files, s'.file f = s.file f := fun f hf => hstill.file f (h.file_lt f hf)
  have hrefs : s'.dirRefs = s.dirRefs := by
    unfold Vol.dirRefs
    rw [hdirs]
    refine map_congr_left fun a ha => ?_
    rw [hstill.dir a (h.dir_lt a ha)]
  have hmem : ∀ i, i ∈ s'.openInodes ↔ i ∈ s.openInodes := by
    intro i
    rw [h'.open_iff, h.open_iff, hrefs, hstill.files]
    refine or_congr (exists_congr fun f => ?_) Iff.rfl
    constructor
    · rintro ⟨hf, hi⟩
      exact ⟨hf, by rw [← hfile f hf]; exact hi⟩
    · rintro ⟨hf, hi⟩
      exact ⟨hf, by rw [hfile f hf]; exact hi⟩
  refine ⟨(perm_ext_iff_of_nodup h'.accounts.nodup h.accounts.nodup).mpr hmem, ?_⟩
  intro i hi
  have hcount : ∀ p : File → Bool, s'.files.countP (fun f => p (s'.file f)) = s.files.countP (fun f => p (s.file f)) := by
    intro p
    rw [hstill.files]
    refine countP_congr fun f hf => ?_
    rw [hfile f hf]
  obtain ⟨hsector, hdata⟩ := hstill.inode i (h.inode_lt i hi)
  have hopen : (s'.inode i).openCnt = (s.inode i).openCnt := by
    rw [h'.accounts.openCnt i ((hmem i).mpr hi), h.accounts.openCnt i hi, hrefs]
    exact congrArg (fun n : Nat => (n : Int) + _) (hcount fun F => F.inode = i)
  have hdeny : (s'.inode i).denyWriteCnt = (s.inode i).denyWriteCnt := by
    rw [h'.accounts.denyWriteCnt i ((hmem i).mpr hi), h.accounts.denyWriteCnt i hi]
    exact congrArg (fun n : Nat => (n : Int)) (hcount fun F => F.inode = i ∧ F.denyWrite)
  cases hI : s'.inode i
  cases hJ : s.inode i
  simp_all

/-! ## The sectors of a new file -/

/-- The map after `createEntry` has failed: the sector of the inode is marked unless there was none, and so are `cnt`
    sectors from `start` on, all of which were free. -/
structure Marks (s s' : Vol) (sector start cnt : Nat) : Prop where
  bitCnt : s'.freeMap.bitCnt = s.freeMap.bitCnt
  free : ∀ x, start ≤ x → x < start + cnt → s.freeMap.bit x = false ∧ x ≠ sector
  inode : sector ≠ 0 → s.freeMap.bit sector = false
  bit : ∀ x, s'.freeMap.bit x =
    if start ≤ x ∧ x < start + cnt then true else if sector ≠ 0 ∧ x = sector then true else s.freeMap.bit x

/-- Nothing is marked beyond the sector of the inode. -/
theorem Marks.none {sector : Nat} (hcnt : s'.freeMap.bitCnt = s.freeMap.bitCnt)
    (hfree : sector ≠ 0 → s.freeMap.bit sector = false)
    (hbit : ∀ x, s'.freeMap.bit x = if sector ≠ 0 ∧ x = sector then true else s.freeMap.bit x) : Marks s s' sector 0 0 where
  bitCnt := hcnt
  free := fun x _ hx => absurd hx (Nat.not_lt_zero x)
  inode := hfree
  bit := fun x => by rw [if_neg (show ¬ (0 ≤ x ∧ x < 0 + 0) by omega)]; exact hbit x

theorem bytesToSectors_pos {n : Nat} (hpos : 0 < n) (hlt : n < 2 ^ 31) : 0 < bytesToSectors n :=
  Nat.lt_of_lt_of_le (by omega) (le_bytesToSectors hlt)

variable {name : List UInt8} {size : Int}

/-- **The conditions of `filesys_create` that fail.** -/
theorem Inv.createEntry_failed (h : Inv s held) {a : Addr} (ha : a ∈ s.dirs)
    (hpos : 0 ≤ size) (hlt : size < 2147483648) :
    (Volume.createEntry a name size).Safe s fun r s' => r.1 = false → Quiet s s' ∧
      ∃ start cnt, Marks s s' r.2 start cnt ∧ (0 < cnt ↔ 0 < size ∧ Takes s size) := by
  refine .bind ((h.freeMapAllocate 1).safe.and Proc.Safe.run) ?_
  rintro r s₁ ⟨⟨hinv₁, hstill₁, hdirs₁, hstep₁, halloc⟩, hrun₁⟩
  cases r with
  | none =>
    refine .pure fun _ => ⟨hstep₁.quiet, 0, 0, .none hstep₁.bitCnt (fun hne => absurd rfl hne) ?_, ?_⟩
    · intro x
      exact halloc.none rfl x
    · refine iff_of_false (Nat.lt_irrefl 0) ?_
      rintro ⟨-, sector, t₁, t₂, ht, -⟩
      rw [hrun₁] at ht
      cases ht
  | some sector =>
    obtain ⟨hfresh₁, hfirst⟩ := fresh_of_allocated h.layout hstep₁ hstill₁ halloc
    have hfree : s.freeMap.bit sector = false := hfirst.run.2 sector (Nat.le_refl _) (Nat.lt_succ_self _)
    have hne : sector ≠ 0 := by
      rintro rfl
      exact hfresh₁.not_live (live_map s₁)
    have hbit₁ : ∀ x, s₁.freeMap.bit x = if sector ≠ 0 ∧ x = sector then true else s.freeMap.bit x := by
      intro x
      rw [hfirst.bit]
      refine if_congr ?_ rfl rfl
      omega
    -- the run decides whether the sectors are taken
    have htakes : ∀ {b t}, Volume.inodeCreate sector size s₁ = some (b, t) → (Takes s size ↔ b = true) := by
      intro b t hcreate
      constructor
      · rintro ⟨sector', t₁, t₂, ht₁, ht₂⟩
        rw [hrun₁] at ht₁
        cases ht₁
        rw [hcreate] at ht₂
        cases ht₂
        rfl
      · rintro rfl
        exact ⟨sector, s₁, t, hrun₁, hcreate⟩
    refine .bind ((hinv₁.inodeCreate hfresh₁ hpos hlt).safe.and Proc.Safe.run) ?_
    rintro created s₂ ⟨⟨hinv₂, hstill₂, hdirs₂, hfresh₂, hquiet₂, hmade, hkept, -⟩, hrun₂⟩
    have hquiet := hstep₁.quiet.trans hquiet₂
    have hcnt₂ : s₂.freeMap.bitCnt = s.freeMap.bitCnt := by
      rw [hinv₂.layout.bitCnt, h.layout.bitCnt, hstill₂.blocks, hstill₁.blocks]
    refine .ite ?_ ?_
    · intro hcreated
      obtain ⟨hfile, start, halloc₂⟩ := hmade hcreated
      obtain ⟨hdata, -, hbits₂⟩ := halloc₂.some start rfl
      have ha₂ : a ∈ s₂.dirs := by
        rw [hdirs₂, hdirs₁]
        exact ha
      refine .bind (hinv₂.dirAdd ha₂ hfile.file).safe ?_
      rintro added s₃ ⟨-, hadded, -⟩
      refine .pure fun hfail => ?_
      obtain ⟨mem, rfl⟩ := hadded.failed hfail
      refine ⟨hquiet.trans quiet_same, start, bytesToSectors size.toNat, ⟨?_, ?_, fun _ => hfree, ?_⟩, ?_⟩
      · exact hcnt₂
      · intro x hle hxlt
        have hunset := hdata.2 x hle hxlt
        rw [hbit₁] at hunset
        split at hunset
        · cases hunset
        · rename_i hx
          exact ⟨hunset, fun heq => hx ⟨hne, heq⟩⟩
      · intro x
        rw [hbits₂, hbit₁]
      · rw [htakes hrun₂]
        constructor
        · intro hcnt
          refine ⟨?_, hcreated⟩
          by_contra hzero
          have hsize : size.toNat = 0 := by omega
          rw [hsize] at hcnt
          exact absurd hcnt (by decide)
        · rintro ⟨hsize, -⟩
          exact bytesToSectors_pos (by omega) (by omega)
    · intro hcreated
      have hfalse : created = false := by simpa using hcreated
      refine .pure fun _ => ⟨hquiet, 0, 0, .none hcnt₂ (fun _ => hfree) ?_, ?_⟩
      · intro x
        rw [hkept hfalse, hbit₁]
      · refine iff_of_false (Nat.lt_irrefl 0) ?_
        rintro ⟨-, ht⟩
        rw [htakes hrun₂, hfalse] at ht
        cases ht

/-! ## `filesys_create` -/

/-- What a failed `filesys_create` leaves: the list of open inodes, and the marks of the sectors that have leaked. -/
def Leftover (s s' : Vol) (size : Int) : Prop :=
  Relisted s.next s.openInodes s'.openInodes ∧ (s'.mapLost = false → s.mapLost = false) ∧
    ∃ start cnt, (∀ x, start ≤ x → x < start + cnt → s.freeMap.bit x = false) ∧
      (∀ x, s'.freeMap.bit x = if start ≤ x ∧ x < start + cnt then true else s.freeMap.bit x) ∧
      (0 < cnt ↔ Leaks s size)

/-- **A failed `filesys_create`**: what it leaves open, and what it leaves marked. -/
theorem Inv.filesysCreate_failed (h : Inv s held) (hpos : 0 ≤ size) (hlt : size < 2147483648) :
    (Volume.filesysCreate name size).Safe s fun r s' => r = false → Leftover s s' size := by
  refine .bind (h.dirOpenRoot.safe.and Proc.Safe.run) ?_
  rintro dir s₁ ⟨⟨hinv₁, hstill₁, hmap₁, hlost₁, hnone, hsome⟩, hrun₁⟩
  cases dir with
  | none =>
    refine .step rfl (Proc.Safe.ite (fun hne => absurd rfl hne.2) fun _ => ?_)
    refine .step rfl (Proc.Safe.pure fun _ => ⟨(hnone rfl).2.2, fun hl => hlost₁ ▸ hl, 0, 0, ?_, ?_, ?_⟩)
    · exact fun x _ hx => absurd hx (Nat.not_lt_zero x)
    · intro x
      rw [if_neg (by omega), hmap₁]
    · refine iff_of_false (Nat.lt_irrefl 0) ?_
      rintro ⟨-, a, t, ht, -⟩
      rw [hrun₁] at ht
      cases ht
  | some a =>
    obtain ⟨ha₁, -, -, hlist₁⟩ := hsome a rfl
    have hleaks : Leaks s size ↔ 0 < size ∧ Takes s₁ size := by
      constructor
      · rintro ⟨hsize, b, t, ht, htakes⟩
        rw [hrun₁] at ht
        cases ht
        exact ⟨hsize, htakes⟩
      · rintro ⟨hsize, htakes⟩
        exact ⟨hsize, a, s₁, hrun₁, htakes⟩
    refine .bind ((hinv₁.createEntry ha₁ hpos hlt).safe.and (hinv₁.createEntry_failed ha₁ hpos hlt)) ?_
    rintro ⟨success, sector⟩ s₂ ⟨⟨hinv₂, hdirs₂, -, hfresh⟩, hfailed⟩
    cases success with
    | true =>
      refine .ite (fun hfalse => absurd hfalse.1 (by decide)) fun _ => ?_
      refine .bind (hinv₂.dirClose hdirs₂ ha₁).safe fun _ _ _ => Proc.Safe.pure ?_
      intro hr
      cases hr
    | false =>
      obtain ⟨hquiet₂, start, cnt, hmarks, hcnt⟩ := hfailed rfl
      have hfree : ∀ x, start ≤ x → x < start + cnt → s.freeMap.bit x = false := by
        intro x hle hx
        rw [← hmap₁]
        exact (hmarks.free x hle hx).1
      -- closing the directory, once the sector of the inode is free again
      have htail : ∀ t : Vol, Inv t held → t.dirs = s₂.dirs → Quiet s₂ t →
          (∀ x, t.freeMap.bit x = if start ≤ x ∧ x < start + cnt then true else s.freeMap.bit x) →
          Proc.Safe (Volume.dirClose (some a) >>= fun _ => Pure.pure false) t fun r s' =>
            r = false → Leftover s s' size := by
        intro t ht hdirs₃ hquiet₃ hbits
        refine .bind (ht.dirClose (hdirs₃.trans hdirs₂) ha₁).safe ?_
        rintro _ s₄ ⟨-, -, -, -, hmap₄, hlost₄, i, hlist₄⟩
        have hquiet := hquiet₂.trans hquiet₃
        refine .pure fun _ => ⟨⟨_, i, hlist₁, ?_⟩, ?_, start, cnt, hfree, ?_, hcnt.trans hleaks.symm⟩
        · rw [← hquiet.openInodes]
          exact hlist₄
        · intro hl
          rw [← hlost₁]
          exact hquiet.lost (hlost₄ ▸ hl)
        · rw [hmap₄]
          exact hbits
      refine .ite ?_ ?_
      · rintro ⟨-, hne⟩
        have hsector := hfresh rfl hne
        refine .bind (hinv₂.freeMapRelease_fresh hsector).safe ?_
        rintro _ s₃ ⟨hinv₃, -, hdirs₃, hstep₃, hbit₃⟩
        refine htail s₃ hinv₃ hdirs₃ hstep₃.quiet ?_
        intro x
        rw [hbit₃, hmarks.bit, ← hmap₁]
        by_cases hxs : x = sector
        · rw [if_pos (by omega), if_neg, hxs, hmarks.inode hne]
          rintro ⟨hle, hx⟩
          exact (hmarks.free x hle hx).2 hxs
        · rw [if_neg (by omega), if_neg (c := sector ≠ 0 ∧ x = sector) (fun hx => hxs hx.2)]
      · intro hzero
        refine htail s₂ hinv₂ rfl ⟨rfl, id⟩ ?_
        intro x
        rw [hmarks.bit, ← hmap₁, if_neg (c := sector ≠ 0 ∧ x = sector) (fun hx => hzero ⟨rfl, hx.1⟩)]

/-- The leak is seen in the map. -/
theorem bits_same_iff {b b' : Bitmap} {start cnt : Nat} (hfree : ∀ x, start ≤ x → x < start + cnt → b.bit x = false)
    (hbit : ∀ x, b'.bit x = if start ≤ x ∧ x < start + cnt then true else b.bit x) :
    (∀ x, b'.bit x = b.bit x) ↔ ¬ 0 < cnt := by
  constructor
  · intro hsame hcnt
    have hset := hsame start
    rw [hbit, if_pos ⟨Nat.le_refl _, by omega⟩, hfree start (Nat.le_refl _) (by omega)] at hset
    cases hset
  · intro hcnt x
    rw [hbit, if_neg (by omega)]

/-- **A failed `filesys_create` leaves no trace unless it leaks.** The first part says that the free map in memory, the
    root directory and the open inodes are as before just when no sectors leak. The second part adds the free map on the
    device, for a run in which it could always be written. -/
theorem failed_create_leaves_no_trace_iff (hrun : Runs WritesAhead s) {mem : List Bool} {name : List UInt8} {size : Int}
    (hpos : 0 ≤ size) (hlt : size < 2147483648) (hfail : filesysCreate name size { s with mem } = some (false, s')) :
    (SameInMemory s s' ↔ ¬ Leaks { s with mem } size) ∧
      (s'.mapLost = false → (NoTrace s s' ↔ ¬ Leaks { s with mem } size)) := by
  have h := inv_of_runs hrun
  obtain ⟨hinv, hdirs, hcreated⟩ := ((h.setMem mem).filesysCreate hpos hlt).of_run hfail
  have hstill : Still { s with mem } s' := hcreated.failed rfl
  obtain ⟨hlist, hlost, start, cnt, hfree, hbit, hcnt⟩ :=
    (h.setMem mem).filesysCreate_failed hpos hlt false s' hfail rfl
  obtain ⟨hperm, hinode⟩ := hstill.open_same (h.setMem mem).toMem hinv.toMem hdirs
  have hnew : s.next ∉ s.openInodes := fun hmem => Nat.lt_irrefl _ (h.inode_lt _ hmem)
  have hsame := bits_same_iff hfree hbit
  have hmemory : ¬ Leaks { s with mem } size → SameInMemory s s' := by
    intro hleak
    refine ⟨?_, hsame.mpr (fun hpos' => hleak (hcnt.mp hpos')), ?_, hlist.eq hperm hnew, hinode⟩
    · rw [hinv.layout.bitCnt, h.layout.bitCnt]
      exact hstill.blocks
    · exact hstill.intact _ (live_root s') (by decide)
  have hleak : SameInMemory s s' → ¬ Leaks { s with mem } size :=
    fun hs hl => hsame.mp hs.freeMap (hcnt.mpr hl)
  refine ⟨⟨hleak, hmemory⟩, fun hwritten => ⟨fun hn => hleak hn.toSameInMemory, ?_⟩⟩
  intro hl
  refine ⟨hmemory hl, hstill.map, ?_⟩
  intro x hx
  -- both maps on the device are those in memory
  have hstored := h.stored (hlost hwritten) x (by rw [h.layout.bitCnt]; exact hx)
  have hstored' := hinv.stored hwritten x (by rw [hinv.layout.bitCnt, hstill.blocks]; exact hx)
  exact hstored'.trans (((hmemory hl).freeMap x).trans hstored.symm)

end

/-- An empty file cannot be created a second time, and nothing changes. -/
theorem failed_create_leaves_no_trace_iff_empty :
    ∃ s s', Runs WritesAhead s ∧ filesysCreate fileA 0 { s with mem := [] } = some (false, s') ∧ NoTrace s s' := by
  obtain ⟨s, hrun, hfacts⟩ := runs_sixteen WritesAhead [(.create fileA 0, [])]
    (fun s => (filesysCreate fileA 0 { s with mem := [] }).any fun x : Bool × Vol =>
      decide (x.1 = false ∧ x.2.mapLost = false))
    (by decide +kernel)
  obtain ⟨⟨r, s'⟩, hcall, hx⟩ := (Option.any_eq_true _ _).mp hfacts
  obtain ⟨hr, hlost⟩ := of_decide_eq_true hx
  subst hr
  refine ⟨s, s', hrun, hcall, ?_⟩
  refine ((failed_create_leaves_no_trace_iff hrun (by decide) (by decide) hcall).2 hlost).mpr ?_
  exact fun hleak => absurd hleak.1 (by decide)

/-- **A file of 512 bytes cannot be created a second time**, and sector 7 stays marked. -/
theorem failed_create_keeps_sector :
    ∃ s s', Runs WritesAhead s ∧ filesysCreate fileA 512 { s with mem := [] } = some (false, s') ∧
      s.freeMap.bit 7 = false ∧ s'.freeMap.bit 7 = true ∧ ¬ NoTrace s s' := by
  obtain ⟨s, hrun, hfacts⟩ := runs_sixteen WritesAhead [(.create fileA 512, [])]
    (fun s => (filesysCreate fileA 512 { s with mem := [] }).any fun x : Bool × Vol =>
      decide (x.1 = false ∧ s.freeMap.bit 7 = false ∧ x.2.freeMap.bit 7 = true))
    (by decide +kernel)
  obtain ⟨⟨r, s'⟩, hcall, hx⟩ := (Option.any_eq_true _ _).mp hfacts
  obtain ⟨hr, hfree, hset⟩ := of_decide_eq_true hx
  subst hr
  refine ⟨s, s', hrun, hcall, hfree, hset, ?_⟩
  intro hsame
  have hbit := hsame.freeMap 7
  rw [hset, hfree] at hbit
  cases hbit

end Volume
end Asg1
