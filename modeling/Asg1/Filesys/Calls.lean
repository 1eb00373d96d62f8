import Asg1.Filesys.Files

/-!
# `Filesys.Calls` — the functions of `filesys.c`, and every call of a user

`inode_create` writes to sectors that have just been allocated and that nobody has, so it is not seen by the users of
other files. `filesys_create` enters such a file in the directory or gives its inode's sector back. Every call of a user
ends, and keeps the invariant.
-/

namespace Asg1
namespace Volume

open Filesys Flat

section
variable {s s' : Vol} {held : List Addr} {sector : Nat}

/-! ## `inode_create` -/

/-- The sector is marked, but nobody has it. -/
structure Fresh (s : Vol) (sector : Nat) : Prop where
  marked : Marked s sector
  nobody : ∀ q : Piece, Live s q.sector → ¬ foot s.device q sector

theorem Fresh.not_live (h : Fresh s sector) : ¬ Live s sector := fun hl => h.nobody (.header sector) hl rfl

theorem Still.fresh (h : Still s s') (hf : Fresh s sector) (hbit : s'.freeMap.bit sector = true) : Fresh s' sector where
  marked := by
    refine ⟨?_, hbit⟩
    rw [h.blocks]
    exact hf.marked.1
  nobody := fun q hq hx => hf.nobody q (h.live _ hq) (h.foot hq hx)

/-- Writing to sectors that nobody has. -/
theorem Inv.writeFree (h : Inv s held) {p : Nat → Prop} {d' : Device} (honly : Only p s.device d')
    (hfree : ∀ x, p x → ∀ q : Piece, Live s q.sector → ¬ foot s.device q x) :
    Inv { s with device := d' } held ∧ Still s { s with device := d' } := by
  have hintact : ∀ k, Live s k → Intact s.device d' k := by
    intro k hk
    apply intact_of_only honly
    · exact fun hp => hfree k hp (.header k) hk rfl
    · exact fun x hx hp => hfree x hp (.contents k) hk hx
  have hopen : OpenOk s { s with device := d' } := h.layout.openOk
  have hlive : ∀ k, Live { s with device := d' } k → Live s k :=
    fun k hk => live_of_openOk h.layout hopen (hintact _ (live_root s)) hk
  refine ⟨⟨h.toMem.setDevice d' s.mem, ?_, ?_⟩, ?_⟩
  · exact h.layout.keep rfl rfl hopen (hintact _ (live_root s)) (fun k hk => (hintact k (hlive k hk)).inode)
      (fun q hq x hx => h.layout.bit_foot (hlive _ hq) hx)
  · exact fun hlost => h.layout.stored_intact (hintact _ (live_map s)) (h.stored hlost)
  · exact
      { Still.refl s with
        live := hlive
        map := (hintact _ (live_map s)).inode
        intact := fun k hk _ => hintact k (hlive k hk) }

/-- The loop that writes zeros. -/
theorem zeroSectors_spec (cnt start : Nat) (s : Vol) (hend : start + cnt ≤ s.blocks) (hblocks : s.blocks < 2 ^ 32) :
    (zeroSectors cnt start).Ends s fun _ s' => ∃ d', s' = { s with device := d' } ∧
      Only (fun x => start ≤ x ∧ x < start + cnt) s.device d' ∧
      ∀ x, start ≤ x / 512 → x / 512 < start + cnt → d' x = 0 := by
  induction cnt generalizing start s with
  | zero => exact .pure ⟨s.device, rfl, Only.refl, fun x hle hlt => by omega⟩
  | succ cnt ih =>
    have hzeros : (List.replicate BLOCK_SECTOR_SIZE (0 : UInt8)).length = 512 := List.length_replicate
    have hwrite : writeSector (start % 2 ^ 32) (List.replicate BLOCK_SECTOR_SIZE 0) s = some ((),
        { s with device := patch s.device (start * 512) (List.replicate BLOCK_SECTOR_SIZE 0) }) := by
      unfold writeSector
      rw [Nat.mod_eq_of_lt (by omega), if_pos (by omega), blockWrite_eq hzeros]
    apply Proc.Ends.step hwrite
    refine (ih (start + 1) { s with device := patch s.device (start * 512) (List.replicate BLOCK_SECTOR_SIZE 0) }
      (by show start + 1 + cnt ≤ s.blocks; omega) hblocks).mono ?_
    rintro _ _ ⟨d', rfl, honly, hzero⟩
    refine ⟨d', rfl, ?_, ?_⟩
    · intro x hx
      rw [honly x (by omega)]
      apply patch_outside
      omega
    · intro x hle hlt
      by_cases hfirst : x / 512 = start
      · rw [honly x (by omega)]
        show patch s.device (start * 512) (List.replicate BLOCK_SECTOR_SIZE 0) x = 0
        rw [patch_getD (by omega) (by rw [hzeros]; omega) 0, List.getD_eq_getElem?_getD, List.getElem?_replicate]
        split <;> rfl
      · exact hzero x (by omega) (by omega)

variable {start length : Nat} {data : InodeDisk} {name : List UInt8}

/-- What `inode_create` writes once it has its sectors. -/
theorem writeInode_spec (s : Vol) (hend : start + bytesToSectors length ≤ s.blocks)
    (hblocks : s.blocks < 2 ^ 32) (hsector : sector < s.blocks) (hlength : length < 2 ^ 31)
    (hout : ¬ (start ≤ sector ∧ sector < start + bytesToSectors length)) :
    Proc.Ends (do
      writeSector sector (inodeBytes start length)
      zeroSectors (bytesToSectors length) start
      return true) s fun r s' => r = true ∧ ∃ d', s' = { s with device := d' } ∧
        Only (fun x => x = sector ∨ (start ≤ x ∧ x < start + bytesToSectors length)) s.device d' ∧
        inodeDisk d' sector = ⟨start, length, hlength⟩ ∧
        ∀ x, start ≤ x / 512 → x / 512 < start + bytesToSectors length → d' x = 0 := by
  set d₁ := patch s.device (sector * 512) (inodeBytes start length) with hd₁
  have hwrite : writeSector sector (inodeBytes start length) s = some ((), { s with device := d₁ }) := by
    unfold writeSector
    rw [if_pos hsector, blockWrite_eq (length_inodeBytes _ _)]
  apply Proc.Ends.step hwrite
  refine .bind (zeroSectors_spec (bytesToSectors length) start { s with device := d₁ } hend hblocks) ?_
  rintro _ _ ⟨d₂, rfl, honly₂, hzero₂⟩
  refine .pure ⟨rfl, d₂, rfl, ?_, ?_, hzero₂⟩
  · intro x hx
    obtain ⟨hx₁, hx₂⟩ := not_or.mp hx
    rw [honly₂ x hx₂]
    apply patch_outside
    rw [length_inodeBytes]
    omega
  · rw [inodeDisk_congr (d := d₁) (fun x hx => honly₂ x (by rw [hx]; exact hout))]
    exact inodeDisk_patch (by omega) hlength

/-- The same, when the sector of the inode may be beyond the device. -/
theorem writeInode_safe (s : Vol) (sector : Nat) (hend : start + bytesToSectors length ≤ s.blocks)
    (hblocks : s.blocks < 2 ^ 32) (hlength : length < 2 ^ 31)
    (hout : ¬ (start ≤ sector ∧ sector < start + bytesToSectors length)) :
    Proc.Safe (do
      writeSector sector (inodeBytes start length)
      zeroSectors (bytesToSectors length) start
      return true) s fun r s' => r = true ∧ sector < s.blocks ∧ ∃ d', s' = { s with device := d' } ∧
        Only (fun x => x = sector ∨ (start ≤ x ∧ x < start + bytesToSectors length)) s.device d' ∧
        inodeDisk d' sector = ⟨start, length, hlength⟩ ∧
        ∀ x, start ≤ x / 512 → x / 512 < start + bytesToSectors length → d' x = 0 := by
  by_cases hsector : sector < s.blocks
  · refine .mono (writeInode_spec s hend hblocks hsector hlength hout).safe ?_
    rintro r s' ⟨hr, hwritten⟩
    exact ⟨hr, hsector, hwritten⟩
  · apply Proc.Safe.stuck
    have hstuck : writeSector sector (inodeBytes start length) s = none := if_neg hsector
    show (writeSector sector (inodeBytes start length) s).bind _ = none
    rw [hstuck]
    rfl

/-- The file has been made, with zeros in it. -/
structure Made (s : Vol) (sector length : Nat) : Prop where
  file : NewFile s s.device sector
  length : (inodeDisk s.device sector).length = length
  zeros : ∀ x, extent (inodeDisk s.device sector) (x / 512) → s.device x = 0

/-- What is neither the list of open inodes nor lost. -/
structure Quiet (s s' : Vol) : Prop where
  openInodes : s'.openInodes = s.openInodes
  lost : s'.mapLost = false → s.mapLost = false

theorem Quiet.trans (h : Quiet s s') (h' : Quiet s' s'') : Quiet s s'' :=
  ⟨h'.openInodes.trans h.openInodes, fun hlost => h.lost (h'.lost hlost)⟩

theorem MapStep.quiet (h : MapStep data s s') : Quiet s s' :=
  ⟨by rw [h.fs], fun hlost => (h.stored hlost).1⟩

variable {size : Int} {mem : List Bool} {a : Addr}

theorem quiet_same {device : Device} : Quiet s { s with device, mem } := ⟨rfl, id⟩

/-- **`inode_create`** in a fresh sector. It opens nothing, and marks no sector if it fails. -/
theorem Inv.inodeCreate (h : Inv s held) (hfresh : Fresh s sector) {length : Int} (hpos : 0 ≤ length)
    (hlt : length < 2147483648) :
    (inodeCreate sector length).Ends s fun r s' => Inv s' held ∧ Still s s' ∧ s'.dirs = s.dirs ∧ Fresh s' sector ∧
      Quiet s s' ∧
      (r = true → Made s' sector length.toNat ∧ ∃ start, Allocated s s' (bytesToSectors length.toNat) (some start)) ∧
      (r = false → ∀ x, s'.freeMap.bit x = s.freeMap.bit x) ∧
      (s.mem = [] → r = false → ∀ k, ¬ s.freeMap.Run false k (bytesToSectors length.toNat)) := by
  have hfalse : ∀ {p : Prop}, false = true → p := fun hr => by cases hr
  apply Proc.Ends.assert hpos
  refine .bind (malloc_spec s) ?_
  rintro memory _ ⟨mem, rfl, hcalm⟩
  have hstill₁ := still_setMem s fun hmem => (hcalm hmem).2
  have hfresh₁ := hstill₁.fresh hfresh hfresh.marked.2
  refine .ite ?_ ?_
  · intro _
    refine .bind ((h.setMem mem).freeMapAllocate (bytesToSectors length.toNat)) ?_
    rintro r s₂ ⟨hinv₂, hstill₂, hdirs₂, hstep₂, halloc⟩
    have hstill := hstill₁.trans hstill₂
    have hquiet : Quiet s s₂ := quiet_same.trans hstep₂.quiet
    have hbit₂ : s₂.freeMap.bit sector = true := by
      cases r with
      | none => rw [halloc.none rfl]; exact hfresh.marked.2
      | some k =>
        rw [(halloc.some k rfl).2.2]
        split
        · rfl
        · exact hfresh.marked.2
    have hfresh₂ := hstill₂.fresh hfresh₁ hbit₂
    cases r with
    | none =>
      refine .pure ⟨hinv₂, hstill, hdirs₂, hfresh₂, hquiet, hfalse, fun _ => halloc.none rfl, ?_⟩
      intro hmem _
      exact (halloc.full (hcalm hmem).2 rfl).2
    | some start =>
      obtain ⟨hrun, hmin, hbits⟩ := halloc.some start rfl
      have hblocks := hinv₂.layout.blocks_lt
      have hend : start + bytesToSectors length.toNat ≤ s₂.blocks := by
        have hle := hrun.1
        rw [(h.setMem mem).layout.bitCnt] at hle
        rw [hstill₂.blocks]
        exact hle
      have hsector : sector < s₂.blocks := hfresh₂.marked.1
      -- the extent is new, so the inode's sector is not in it
      have hout : ¬ (start ≤ sector ∧ sector < start + bytesToSectors length.toNat) := by
        rintro ⟨hle, hlt'⟩
        have hunset := hrun.2 sector hle hlt'
        rw [show s.freeMap.bit sector = true from hfresh.marked.2] at hunset
        cases hunset
      have hextent : ∀ x, start ≤ x → x < start + bytesToSectors length.toNat →
          ∀ q : Piece, Live s₂ q.sector → ¬ foot s₂.device q x := by
        intro x hle hlt' q hq hx
        have hbit := h.layout.bit_foot (hstill₁.live _ (hstill₂.live _ hq))
          (hstill₁.foot (hstill₂.live _ hq) (hstill₂.foot hq hx))
        rw [show s.freeMap.bit x = false from hrun.2 x hle hlt'] at hbit
        cases hbit
      refine (writeInode_spec s₂ hend (by omega) hsector (by omega) hout).mono ?_
      rintro _ _ ⟨rfl, d₄, rfl, honly, hinode, hzero₄⟩
      obtain ⟨hinv₄, hstill₄⟩ := hinv₂.writeFree honly (by
        rintro x (rfl | ⟨hle, hlt'⟩)
        · exact hfresh₂.nobody
        · exact hextent x hle hlt')
      have hfresh₄ := hstill₄.fresh hfresh₂ hbit₂
      refine ⟨hinv₄, hstill.trans hstill₄, hdirs₂, hfresh₄, hquiet.trans quiet_same, ?_, ?_, ?_⟩
      · intro _
        refine ⟨⟨⟨hfresh₄.not_live, ⟨hfresh₄.marked, hfresh₄.nobody⟩, ?_, ?_, ?_⟩, ?_, ?_⟩, start, ?_⟩
        · intro x hx
          rw [hinode] at hx
          refine ⟨⟨?_, ?_⟩, ?_⟩
          · exact Nat.lt_of_lt_of_le hx.2 hend
          · rw [hbits, if_pos ⟨hx.1, hx.2⟩]
          · exact fun q hq hfoot => hextent x hx.1 hx.2 q (hstill₄.live _ hq) (hstill₄.foot hq hfoot)
        · rw [hinode]
          exact hout
        · rw [hinode]
          exact Nat.le_trans (Nat.le_add_right _ _) hend
        · rw [hinode]
        · rw [hinode]
          exact fun x hx => hzero₄ x hx.1 hx.2
        · exact .found hrun (fun j _ => hmin j) hbits
      · intro hr
        cases hr
      · intro _ hr
        cases hr
  · intro hnone
    refine .pure ⟨h.setMem mem, hstill₁, rfl, hfresh₁, quiet_same, hfalse, fun _ _ => rfl, ?_⟩
    intro hmem
    exact absurd (hcalm hmem).1 hnone

/-! ## `filesys_create` -/

/-- The map with one more sector marked, the first that was free. -/
structure FirstFree (b b₁ : Bitmap) (sector : Nat) : Prop where
  run : b.Run false sector 1
  least : ∀ j < sector, ¬ b.Run false j 1
  bitCnt : b₁.bitCnt = b.bitCnt
  bit : ∀ j, b₁.bit j = if sector ≤ j ∧ j < sector + 1 then true else b.bit j

theorem FirstFree.not_live {b₁ : Bitmap} (hfirst : FirstFree s.freeMap b₁ sector) (h : Layout s) : ¬ Live s sector := by
  intro hl
  have hbit := h.bit_foot (p := .header sector) hl rfl
  rw [hfirst.run.2 sector (Nat.le_refl _) (Nat.lt_succ_self _)] at hbit
  cases hbit

/-- A new file, in a sector that was free, has been entered in the directory. -/
structure Entered (s s' : Vol) (name : List UInt8) (size sector : Nat) : Prop where
  fresh : ¬ Live s sector
  steady : Steady (fun x => x = sector) s s'
  nonempty : name ≠ []
  short : name.length ≤ NAME_MAX
  entry : ∃ k < SLOTS, (entryInUse (slot s'.device k) = true ∧ (0 ∉ name → entryName (slot s'.device k) = name) ∧
    entrySector (slot s'.device k) = sector) ∧ (∀ l < SLOTS, l ≠ k → slot s'.device l = slot s.device l) ∧
    (s.mem = [] → entryInUse (slot s.device k) = false ∧ ¬ Named s.device name)
  length : (inodeDisk s'.device sector).length = size
  zeros : ∀ x, extent (inodeDisk s'.device sector) (x / 512) → s'.device x = 0
  bits : ∃ b₁, FirstFree s.freeMap b₁ sector ∧ ∃ start, b₁.Run false start (bytesToSectors size) ∧
    (∀ j < start, ¬ b₁.Run false j (bytesToSectors size)) ∧
    ∀ j, s'.freeMap.bit j = if start ≤ j ∧ j < start + bytesToSectors size then true else b₁.bit j

/-- What `filesys_create` does. -/
structure Created (s s' : Vol) (name : List UInt8) (size : Nat) (r : Bool) : Prop where
  failed : r = false → Still s s'
  created : r = true → ∃ sector, Entered s s' name size sector
  full : s.mem = [] → r = false → name = [] ∨ NAME_MAX < name.length ∨ Named s.device name ∨
    (∀ k < SLOTS, entryInUse (slot s.device k) = true) ∨ (∀ k, ¬ s.freeMap.Run false k 1) ∨
    ∃ b₁ sector, FirstFree s.freeMap b₁ sector ∧ ∀ k, ¬ b₁.Run false k (bytesToSectors size)

/-- A sector that has just been allocated is nobody's. -/
theorem fresh_of_allocated (h : Layout s) (hstep : MapStep data s s') (hstill : Still s s')
    (halloc : Allocated s s' 1 (some sector)) : Fresh s' sector ∧ FirstFree s.freeMap s'.freeMap sector := by
  obtain ⟨hrun, hleast, hbits⟩ := halloc.some sector rfl
  have hfree : s.freeMap.bit sector = false := hrun.2 sector (Nat.le_refl _) (Nat.lt_succ_self _)
  refine ⟨⟨⟨?_, ?_⟩, ?_⟩, hrun, hleast, hstep.bitCnt, hbits⟩
  · have hle := hrun.1
    rw [h.bitCnt] at hle
    rw [hstill.blocks]
    omega
  · rw [hbits, if_pos ⟨Nat.le_refl _, Nat.lt_succ_self _⟩]
  · intro q hq hx
    have hbit := h.bit_foot (hstill.live _ hq) (hstill.foot hq hx)
    rw [hfree] at hbit
    cases hbit

/-- The part of `filesys_create` between opening and closing the directory. -/
theorem Inv.createEntry (h : Inv s held) (ha : a ∈ s.dirs) (hpos : 0 ≤ size) (hlt : size < 2147483648) :
    (createEntry a name size).Ends s fun r s' => Inv s' held ∧ s'.dirs = s.dirs ∧ Created s s' name size.toNat r.1 ∧
      (r.1 = false → r.2 ≠ 0 → Fresh s' r.2) := by
  have hcreated : ∀ {p : Prop}, false = true → p := fun hr => by cases hr
  refine .bind (h.freeMapAllocate 1) ?_
  rintro r s₁ ⟨hinv₁, hstill₁, hdirs₁, hstep₁, halloc⟩
  cases r with
  | none =>
    refine .pure ⟨hinv₁, hdirs₁, ⟨fun _ => hstill₁, hcreated, ?_⟩, fun _ hne => absurd rfl hne⟩
    intro hmem _
    exact .inr (.inr (.inr (.inr (.inl (halloc.full hmem rfl).2))))
  | some sector =>
    obtain ⟨hfresh₁, hfirst⟩ := fresh_of_allocated h.layout hstep₁ hstill₁ halloc
    refine .bind (hinv₁.inodeCreate hfresh₁ hpos hlt) ?_
    rintro r s₂ ⟨hinv₂, hstill₂, hdirs₂, hfresh₂, -, hmade, -, hfull⟩
    have hstill := hstill₁.trans hstill₂
    refine .ite ?_ ?_
    · intro hr
      obtain ⟨hfile, start, halloc₂⟩ := hmade hr
      obtain ⟨hrun₂, hleast₂, hbits₂⟩ := halloc₂.some start rfl
      have ha₂ : a ∈ s₂.dirs := by
        rw [hdirs₂, hdirs₁]
        exact ha
      have hslots : ∀ l < SLOTS, slot s₂.device l = slot s.device l :=
        fun l hl => (hstill.intact _ (live_root s₂) (by decide)).slot h.layout hl
      have hnamed : Named s₂.device name ↔ Named s.device name := by
        constructor
        · rintro ⟨k, hk, hn⟩
          exact ⟨k, hk, by rw [← hslots k hk]; exact hn⟩
        · rintro ⟨k, hk, hn⟩
          exact ⟨k, hk, by rw [hslots k hk]; exact hn⟩
      refine .bind (hinv₂.dirAdd ha₂ hfile.file) ?_
      rintro added s₃ ⟨hinv₃, hadded, hsteady₃⟩
      cases added with
      | false =>
        obtain ⟨mem, rfl⟩ := hadded.failed rfl
        have hstill₃ := hstill.trans (still_setMem s₂ hadded.calm)
        refine .pure ⟨hinv₃, hdirs₂.trans hdirs₁, ⟨fun _ => hstill₃, hcreated, ?_⟩, ?_⟩
        · intro hmem _
          rcases hadded.full (hstill.calm hmem) rfl with hn | hn | hn | hn
          · exact .inl hn
          · exact .inr (.inl hn)
          · exact .inr (.inr (.inl (hnamed.mp hn)))
          · exact .inr (.inr (.inr (.inl fun k hk => by rw [← hslots k hk]; exact hn k hk)))
        · exact fun _ _ => (still_setMem s₂ hadded.calm).fresh hfresh₂ hfresh₂.marked.2
      | true =>
        obtain ⟨k, hk, e, mem, he, hne, hshort, rfl, hcalm⟩ := hadded.added rfl
        have hlen : (newEntry e name sector).length = ENTRY_SIZE := length_newEntry he hshort
        have hslot := slot_setSlot hinv₂.layout hk hlen
        have honly := only_setSlot hinv₂.layout hk hlen
        have hblocks := hinv₂.layout.blocks_lt
        have hsector := hfresh₂.marked.1
        have hself : slot (setSlot s₂.device k (newEntry e name sector)) k = newEntry e name sector := by
          rw [hslot, if_pos rfl]
        -- the entry is written outside the new file
        have hinode : inodeDisk (setSlot s₂.device k (newEntry e name sector)) sector = inodeDisk s₂.device sector :=
          inodeDisk_congr fun x hx => honly x (by
            rw [hx]
            exact hfresh₂.nobody (.contents ROOT_DIR_SECTOR) (live_root s₂))
        have hentered : Entered s { s₂ with device := setSlot s₂.device k (newEntry e name sector), mem := mem }
            name size.toNat sector := by
          constructor
          case fresh => exact hfirst.not_live h.layout
          case steady => exact hstill.andThen hsteady₃
          case nonempty => exact hne
          case short => exact hshort
          case entry =>
            refine ⟨k, hk, ⟨?_, ?_, ?_⟩, ?_, ?_⟩
            · rw [hself]
              exact entryInUse_newEntry he hshort
            · intro hzero
              rw [hself]
              exact entryName_newEntry hshort hzero
            · rw [hself]
              exact entrySector_newEntry (by omega)
            · intro l hl hlk
              rw [hslot, if_neg hlk]
              exact hslots l hl
            · intro hmem
              obtain ⟨hfree, hnone⟩ := hcalm (hstill.calm hmem)
              rw [hslots k hk] at hfree
              exact ⟨hfree, fun hn => hnone (hnamed.mpr hn)⟩
          case length =>
            rw [hinode]
            exact hfile.length
          case zeros =>
            show ∀ x, extent (inodeDisk (setSlot s₂.device k (newEntry e name sector)) sector) (x / 512) →
              setSlot s₂.device k (newEntry e name sector) x = 0
            rw [hinode]
            intro x hx
            rw [honly x ((hfile.file.contents _ hx).2 (.contents ROOT_DIR_SECTOR) (live_root s₂))]
            exact hfile.zeros x hx
          case bits => exact ⟨s₁.freeMap, hfirst, start, hrun₂, hleast₂, hbits₂⟩
        refine .pure ⟨hinv₃, hdirs₂.trans hdirs₁, ⟨?_, fun _ => ⟨sector, hentered⟩, ?_⟩, ?_⟩
        · intro hr
          cases hr
        · intro _ hr
          cases hr
        · intro hr
          cases hr
    · intro hr
      have hr' : r = false := by simpa using hr
      refine .pure ⟨hinv₂, hdirs₂.trans hdirs₁, ⟨fun _ => hstill, hcreated, ?_⟩, fun _ _ => hfresh₂⟩
      intro hmem _
      exact .inr (.inr (.inr (.inr (.inr ⟨s₁.freeMap, sector, hfirst, hfull (hstill₁.calm hmem) hr'⟩))))

/-- The sector of an inode that has not been entered can be given back. -/
theorem Inv.freeMapRelease_fresh (h : Inv s held) (hfresh : Fresh s sector) :
    (Volume.freeMapRelease sector 1).Ends s fun _ s' => Inv s' held ∧ Still s s' ∧ s'.dirs = s.dirs ∧
      MapStep (inodeDisk s.device FREE_MAP_SECTOR) s s' ∧
      ∀ j, s'.freeMap.bit j = if sector ≤ j ∧ j < sector + 1 then false else s.freeMap.bit j := by
  apply h.freeMapRelease
  · refine ⟨by rw [h.layout.bitCnt]; exact hfresh.marked.1, ?_⟩
    intro j hle hj
    have hjs : j = sector := by omega
    rw [hjs]
    exact hfresh.marked.2
  · rintro p hp x hx ⟨hle, hxlt⟩
    have hxs : x = sector := by omega
    rw [hxs] at hx
    exact hfresh.nobody p hp hx

/-- **`filesys_create`** -/
theorem Inv.filesysCreate (h : Inv s held) (hpos : 0 ≤ size) (hlt : size < 2147483648) :
    (filesysCreate name size).Ends s fun r s' => Inv s' held ∧ s'.dirs = s.dirs ∧ Created s s' name size.toNat r := by
  refine .bind h.dirOpenRoot ?_
  rintro dir s₁ ⟨hinv₁, hstill₁, hmap₁, -, hnone, hsome⟩
  cases dir with
  | none =>
    obtain ⟨hdirs₁, hmem, -⟩ := hnone rfl
    apply Proc.Ends.step rfl
    refine .pure ⟨hinv₁, hdirs₁, fun _ => hstill₁, ?_, fun h0 => absurd h0 hmem⟩
    intro hr
    cases hr
  | some a =>
    obtain ⟨ha₁, hback, hdev₁, -⟩ := hsome a rfl
    refine .bind (hinv₁.createEntry ha₁ hpos hlt) ?_
    rintro ⟨success, sector⟩ s₂ ⟨hinv₂, hdirs₂, hcreated, hfresh⟩
    cases success with
    | false =>
      have hstill₂ := hstill₁.trans (hcreated.failed rfl)
      have hfull : s.mem = [] → false = false → _ := fun hmem => hcreated.full (hstill₁.calm hmem)
      rw [hdev₁, hmap₁] at hfull
      have htail : ∀ t : Vol, Inv t held → Still s₂ t → t.dirs = s₂.dirs →
          Proc.Ends (Volume.dirClose (some a) >>= fun _ => Pure.pure false) t fun r s' =>
            Inv s' held ∧ s'.dirs = s.dirs ∧ Created s s' name size.toNat r := by
        intro t ht hstill₃ hdirs₃
        refine .bind (ht.dirClose (hdirs₃.trans hdirs₂) ha₁) ?_
        rintro _ s₄ ⟨hinv₄, hstill₄, hdirs₄, -⟩
        refine .pure ⟨hinv₄, hdirs₄.trans hback, fun _ => (hstill₂.trans hstill₃).trans hstill₄, ?_, hfull⟩
        intro hr
        cases hr
      refine .ite ?_ ?_
      · rintro ⟨-, hne⟩
        refine .bind (hinv₂.freeMapRelease_fresh (hfresh rfl hne)) ?_
        rintro _ s₃ ⟨hinv₃, hstill₃, hdirs₃, -⟩
        exact htail s₃ hinv₃ hstill₃ hdirs₃
      · exact fun _ => htail s₂ hinv₂ (Still.refl s₂) rfl
    | true =>
      refine .ite (fun hfalse => absurd hfalse.1 (by decide)) ?_
      intro _
      obtain ⟨sector, hentered⟩ := hcreated.created rfl
      refine .bind (hinv₂.dirClose hdirs₂ ha₁) ?_
      rintro _ s₃ ⟨hinv₃, hstill₃, hdirs₃, hdev₃, hmap₃, -⟩
      refine .pure ⟨hinv₃, hdirs₃.trans hback, ?_, fun _ => ⟨sector, ?_⟩, ?_⟩
      · intro hr
        cases hr
      · obtain ⟨k, hk, hentry, hother, hcalm⟩ := hentered.entry
        constructor
        case fresh =>
          obtain ⟨b₁, hfirst, -⟩ := hentered.bits
          rw [hmap₁] at hfirst
          exact hfirst.not_live h.layout
        case steady => exact hstill₁.andThen (hentered.steady.andThen hstill₃)
        case nonempty => exact hentered.nonempty
        case short => exact hentered.short
        case entry =>
          rw [hdev₃]
          rw [hdev₁] at hother hcalm
          exact ⟨k, hk, hentry, hother, fun hmem => hcalm (hstill₁.calm hmem)⟩
        case length => rw [hdev₃]; exact hentered.length
        case zeros => rw [hdev₃]; exact hentered.zeros
        case bits => rw [hmap₃, ← hmap₁]; exact hentered.bits
      · intro _ hr
        cases hr

/-! ## `filesys_open` and `filesys_remove` -/

/-- **`filesys_open`** -/
theorem Inv.filesysOpen (h : Inv s held) (name : List UInt8) :
    (filesysOpen name).Ends s fun r s' => Inv s' held ∧ s'.dirs = s.dirs ∧
      (r = none → Still s s' ∧ (s.mem = [] → ¬ Named s.device name)) ∧
      ∀ f, r = some f → ∃ k < SLOTS, entryInUse (slot s.device k) = true ∧ entryName (slot s.device k) = name ∧
        ∃ s₁ i mem, Still s s₁ ∧ s₁.device = s.device ∧ s₁.freeMap = s.freeMap ∧
          (s₁.inode i).sector = entrySector (slot s.device k) ∧ f = s₁.next ∧ s' = s₁.withFile i mem ∧ (s₁.mem = [] → mem = []) := by
  refine .bind h.dirOpenRoot ?_
  rintro dir s₁ ⟨hinv₁, hstill₁, hmap₁, -, hnone, hsome⟩
  cases dir with
  | none =>
    obtain ⟨hdirs₁, hmem, -⟩ := hnone rfl
    apply Proc.Ends.step rfl
    refine hinv₁.fileOpen_none.mono ?_
    rintro r s₂ ⟨rfl, hinv₂, hstill₂, hdirs₂⟩
    refine ⟨hinv₂, hdirs₂.trans hdirs₁, fun _ => ⟨hstill₁.trans hstill₂, fun h0 => absurd h0 hmem⟩, ?_⟩
    intro f hf
    cases hf
  | some a =>
    obtain ⟨ha₁, hback, hdev₁, -⟩ := hsome a rfl
    refine .bind (hinv₁.dirLookup ha₁ name) ?_
    rintro inode s₂ ⟨hstill₂, hdirs₂, hdev₂, hmap₂, hnone₂, hsome₂⟩
    have hstill := hstill₁.trans hstill₂
    cases inode with
    | none =>
      obtain ⟨hinv₂, hmissing⟩ := hnone₂ rfl
      refine .bind (hinv₂.dirClose hdirs₂ ha₁) ?_
      rintro _ s₃ ⟨hinv₃, hstill₃, hdirs₃, -⟩
      refine hinv₃.fileOpen_none.mono ?_
      rintro r s₄ ⟨rfl, hinv₄, hstill₄, hdirs₄⟩
      refine ⟨hinv₄, hdirs₄.trans (hdirs₃.trans hback), fun _ => ⟨(hstill.trans hstill₃).trans hstill₄, ?_⟩, ?_⟩
      · intro hmem
        rw [← hdev₁]
        exact hmissing (hstill₁.calm hmem)
      · intro f hf
        cases hf
    | some i =>
      obtain ⟨hinv₂, k, hk, huse, hname, hsector₂⟩ := hsome₂ i rfl
      rw [hdev₁] at huse hname hsector₂
      refine .bind (hinv₂.dirClose hdirs₂ ha₁) ?_
      rintro _ s₃ ⟨hinv₃, hstill₃, hdirs₃, hdev₃, hmap₃, -⟩
      have hi₃ : (s₃.inode i).sector = entrySector (slot s.device k) := by
        have hlt := hinv₂.inode_lt i (hinv₂.accounts.held_listed i List.mem_cons_self)
        rw [(hstill₃.inode i hlt).1]
        exact hsector₂
      refine (hinv₃.fileOpen ?_).mono ?_
      · rw [hi₃]
        exact h.layout.slot_file k _ ⟨hk, huse, rfl⟩
      · rintro r s₄ ⟨hinv₄, hnone₄, hsome₄⟩
        have hstill' := hstill.trans hstill₃
        cases r with
        | none =>
          obtain ⟨hstill₄, hdirs₄, hmem⟩ := hnone₄ rfl
          refine ⟨hinv₄, hdirs₄.trans (hdirs₃.trans hback), fun _ => ⟨hstill'.trans hstill₄, ?_⟩, ?_⟩
          · exact fun h0 => absurd (hstill'.calm h0) hmem
          · intro f hf
            cases hf
        | some f =>
          obtain ⟨rfl, mem, rfl, hcalm⟩ := hsome₄ f rfl
          refine ⟨hinv₄, hdirs₃.trans hback, ?_, ?_⟩
          · intro hr
            cases hr
          · intro g hg
            cases hg
            exact ⟨k, hk, huse, hname, s₃, i, mem, hstill', hdev₃.trans (hdev₂.trans hdev₁),
              hmap₃.trans (hmap₂.trans hmap₁), hi₃, rfl, rfl, hcalm⟩

/-- **`filesys_remove`** -/
theorem Inv.filesysRemove (h : Inv s held) (name : List UInt8) :
    (filesysRemove name).Ends s fun r s' => Inv s' held ∧ s'.dirs = s.dirs ∧ Steady (fun _ => False) s s' ∧
      Removed s s' name r := by
  refine .bind h.dirOpenRoot ?_
  rintro dir s₁ ⟨hinv₁, hstill₁, hmap₁, -, hnone, hsome⟩
  cases dir with
  | none =>
    obtain ⟨hdirs₁, hmem, -⟩ := hnone rfl
    apply Proc.Ends.step rfl
    refine .pure ⟨hinv₁, hdirs₁, hstill₁.steady _, fun _ => hstill₁, fun h0 => absurd h0 hmem, ?_⟩
    intro hr
    cases hr
  | some a =>
    obtain ⟨ha₁, hback, hdev₁, -⟩ := hsome a rfl
    refine .bind (hinv₁.dirRemove ha₁ name) ?_
    rintro success s₂ ⟨hinv₂, hdirs₂, hsteady₂, hremoved⟩
    refine .bind (hinv₂.dirClose hdirs₂ ha₁) ?_
    rintro _ s₃ ⟨hinv₃, hstill₃, hdirs₃, hdev₃, -⟩
    refine .pure ⟨hinv₃, hdirs₃.trans hback, hstill₁.andThen (hsteady₂.andThen hstill₃), ?_, ?_, ?_⟩
    · exact fun hr => (hstill₁.trans (hremoved.failed hr)).trans hstill₃
    · intro hmem hr
      rw [← hdev₁]
      exact hremoved.missing (hstill₁.calm hmem) hr
    · intro hr
      rw [hdev₃, ← hdev₁]
      exact hremoved.removed hr

end

/-! ## Every call -/

/-- What a call may be made with: arguments that fit their types, buffers that are long enough, and files and directories
    that are open. -/
def Valid (s : Vol) : Call → Prop
  | .create name initialSize => 0 ∉ name ∧ initialSize < 2147483648
  | .open name => 0 ∉ name
  | .remove name => 0 ∉ name
  | .close f => User s f
  | .reopen f => User s f
  | .read f size => User s f ∧ size < 2147483648
  | .readAt f size offset => User s f ∧ size < 2147483648 ∧ offset < 2147483648
  | .write f buffer size => User s f ∧ size < 2147483648 ∧ size.toNat ≤ buffer.length
  | .writeAt f buffer size offset =>
    User s f ∧ size < 2147483648 ∧ size.toNat ≤ buffer.length ∧ offset < 2147483648
  | .denyWrite f => User s f
  | .allowWrite f => User s f
  | .seek f pos => User s f ∧ pos < 2147483648
  | .tell f => User s f
  | .length f => User s f
  | .openRoot => True
  | .reopenDir a => a ∈ s.dirs
  | .closeDir a => a ∈ s.dirs
  | .readdir a => a ∈ s.dirs

instance decideValid (s : Vol) : (c : Call) → Decidable (Valid s c)
  | .create .. | .read .. | .seek .. => inferInstanceAs (Decidable (_ ∧ _))
  | .open _ | .remove _ => inferInstanceAs (Decidable (_ ∉ _))
  | .close f | .reopen f | .denyWrite f | .allowWrite f | .tell f | .length f => decideUser s f
  | .readAt .. | .write .. => inferInstanceAs (Decidable (_ ∧ _ ∧ _))
  | .writeAt .. => inferInstanceAs (Decidable (_ ∧ _ ∧ _ ∧ _))
  | .openRoot => isTrue trivial
  | .reopenDir _ | .closeDir _ | .readdir _ => inferInstanceAs (Decidable (_ ∈ _))

/-- `file_write_at` is not called with a negative offset. -/
def WritesAhead : Call → Prop
  | .writeAt _ _ _ offset => 0 ≤ offset
  | _ => True

instance decideWritesAhead : (c : Call) → Decidable (WritesAhead c)
  | .writeAt _ _ _ offset => inferInstanceAs (Decidable (0 ≤ offset))
  | .create .. | .open _ | .remove _ | .close _ | .reopen _ | .read .. | .readAt .. | .write .. | .denyWrite _
  | .allowWrite _ | .seek .. | .tell _ | .length _ | .openRoot | .reopenDir _ | .closeDir _ | .readdir _ => isTrue trivial

/-- No size, position or offset is negative. The code asserts this of the size of a new file and of the position of
    `file_seek`. -/
def NonNeg : Call → Prop
  | .create _ initialSize => 0 ≤ initialSize
  | .seek _ pos => 0 ≤ pos
  | .readAt _ _ offset => 0 ≤ offset
  | _ => True

/-- The call is a write to the file. -/
def Call.WritesTo (c : Call) (f : Addr) : Prop :=
  (∃ buffer size, c = .write f buffer size) ∨ ∃ buffer size offset, c = .writeAt f buffer size offset

/-- What users of other files can rely on during a call. -/
structure Effect (s : Vol) (c : Call) (s' : Vol) : Prop where
  blocks : s'.blocks = s.blocks
  freeMapFile : s'.freeMapFile = s.freeMapFile
  intact : ∀ x, Live s x → Live s' x → x ≠ FREE_MAP_SECTOR → x ≠ ROOT_DIR_SECTOR →
    Intact s.device s'.device x ∨ ∃ f, c.WritesTo f ∧ f ∈ s.files ∧ s.sectorOf f = x ∧ ¬ s.Denied f
  keeps : ∀ f ∈ s.files, c ≠ .close f → c ≠ .allowWrite f → f ∈ s'.files ∧ s'.sectorOf f = s.sectorOf f ∧
    ((s.file f).denyWrite = true → (s'.file f).denyWrite = true)

section
variable {s s' : Vol} {held : List Addr} {c : Call}

theorem Steady.effect {new : Nat → Prop} (h : Steady new s s') (hm : Mem s held) (hnew : ∀ x, new x → ¬ Live s x) :
    Effect s c s' where
  blocks := h.blocks
  freeMapFile := h.freeMapFile
  intact := fun x hl hl' hmap hroot => .inl (h.intact x hl' (fun hx => hnew x hx hl) hmap hroot)
  keeps := by
    intro f hf _ _
    have hlt := hm.file_lt f hf
    have hi := hm.inode_lt _ (hm.listed hf)
    unfold Vol.sectorOf
    rw [h.files, h.file f hlt, (h.inode _ hi).1]
    exact ⟨hf, rfl, fun hdeny => hdeny⟩

theorem Still.effect (h : Still s s') (hm : Mem s held) : Effect s c s' :=
  (h.steady (fun _ => False)).effect hm (fun _ hfalse => hfalse.elim)

/-- A new file is opened after a step that nobody sees. -/
theorem Still.effect_withFile (h : Still s s') (hm : Mem s held) (i : Addr) (mem : List Bool) :
    Effect s c (s'.withFile i mem) := by
  have he : Effect s c s' := h.effect hm
  constructor
  case blocks => exact he.blocks
  case freeMapFile => exact he.freeMapFile
  case intact => exact fun x hl hl' => he.intact x hl hl'
  case keeps =>
    intro f hf hclose hallow
    obtain ⟨hf', hsector, hdeny⟩ := he.keeps f hf hclose hallow
    have hne : f ≠ s'.next := Nat.ne_of_lt (Nat.lt_of_lt_of_le (hm.file_lt f hf) h.next)
    have hfile : (s'.withFile i mem).file f = s'.file f := by rw [withFile_file, if_neg hne]
    refine ⟨List.mem_cons_of_mem _ hf', ?_, ?_⟩
    · unfold Vol.sectorOf
      rw [hfile]
      exact hsector
    · rw [hfile]
      exact hdeny

variable {f : Addr}

theorem Closes.effect (h : Closes f s s') (hm : Mem s held) : Effect s (.close f) s' where
  blocks := h.blocks
  freeMapFile := h.freeMapFile
  intact := fun x _ hl' hmap _ => .inl (h.intact x hl' hmap)
  keeps := by
    intro g hg hclose _
    have hgf : g ≠ f := fun heq => hclose (by rw [heq])
    have hlt := hm.file_lt g hg
    have hi := hm.inode_lt _ (hm.listed hg)
    unfold Vol.sectorOf
    rw [h.files, h.file g hlt hgf, (h.inode _ hi).1]
    exact ⟨(List.mem_erase_of_ne hgf).mpr hg, rfl, fun hdeny => hdeny⟩

/-- Flags change, for one file. -/
theorem Flagged.effect {fs : Fs} (h : Flagged s.toFs fs f)
    (hflag : c = .allowWrite f ∨ ((s.file f).denyWrite = true → (fs.file f).denyWrite = true)) :
    Effect s c { s with toFs := fs } where
  blocks := rfl
  freeMapFile := rfl
  intact := by
    intro x _ _ _ _
    left
    rw [h.device]
    exact Intact.refl
  keeps := by
    intro g hg _ hallow
    refine ⟨by rw [h.files]; exact hg, ?_, ?_⟩
    · show (fs.inode (fs.file g).inode).sector = _
      rw [(h.file g).1, (h.inode _).1]
      rfl
    · by_cases hgf : g = f
      · rw [hgf]
        rcases hflag with hc | hkept
        · exact absurd (by rw [hc, hgf]) hallow
        · exact hkept
      · rw [h.others g hgf]
        exact fun hdeny => hdeny

/-- The position of a file and the device change. -/
theorem effect_moved {pos : Nat} (device : Device) (mem : List Bool)
    (hintact : ∀ x, Live s x → x ≠ FREE_MAP_SECTOR → x ≠ ROOT_DIR_SECTOR → Intact s.device device x ∨
      ∃ f, c.WritesTo f ∧ f ∈ s.files ∧ s.sectorOf f = x ∧ ¬ s.Denied f) :
    Effect s c { s with toFs := s.toFs.moved f pos device, mem := mem } where
  blocks := rfl
  freeMapFile := rfl
  intact := fun x hl _ hmap hroot => hintact x hl hmap hroot
  keeps := by
    intro g hg _ _
    have hfile : ∀ F : File, F = (if g = f then { s.file f with pos } else s.file g) →
        F.inode = (s.file g).inode ∧ F.denyWrite = (s.file g).denyWrite := by
      rintro F rfl
      split
      · rename_i hgf
        rw [hgf]
        exact ⟨rfl, rfl⟩
      · exact ⟨rfl, rfl⟩
    obtain ⟨hi, hd⟩ := hfile _ rfl
    refine ⟨hg, ?_, ?_⟩
    · show (s.inode (if g = f then { s.file f with pos } else s.file g : File).inode).sector = _
      rw [hi]
      rfl
    · show _ → (if g = f then { s.file f with pos } else s.file g : File).denyWrite = true
      rw [hd]
      exact fun hdeny => hdeny

/-- Bytes are written to a user's file. -/
theorem Inv.intact_write (h : Inv s held) (hf : User s f) (buffer : List UInt8) {offset : Int} {n : Nat}
    (hn : n ≤ avail (s.dataOf f) size offset) (hdeny : s.Denied f → n = 0) (hc : c.WritesTo f) (x : Nat)
    (hl : Live s x) : Intact s.device (patch s.device ((s.dataOf f).start * 512 + offset.toNat) (buffer.take n)) x ∨
      ∃ f, c.WritesTo f ∧ f ∈ s.files ∧ s.sectorOf f = x ∧ ¬ s.Denied f := by
  by_cases hx : x = s.sectorOf f
  · by_cases hd : s.Denied f
    · left
      rw [hdeny hd, List.take_zero, patch_nil]
      exact Intact.refl
    · exact .inr ⟨f, hc, hf.1, hx.symm, hd⟩
  · left
    have honly := only_write (d := s.device) buffer hn
    rw [h.dataOf_eq hf.1] at honly ⊢
    exact h.layout.intact_other (h.live_file hf.1) hl hx honly

/-- The device and what is open stay. -/
theorem effect_same {dir : Addr → Dir} : Effect s c { s with dir, mem } where
  blocks := rfl
  freeMapFile := rfl
  intact := fun _ _ _ _ _ => .inl Intact.refl
  keeps := fun _ hf _ _ => ⟨hf, rfl, fun hdeny => hdeny⟩

/-- A procedure whose result is wrapped. -/
theorem ends_map {α β : Type} {x : K α} {g : α → β} {Q : β → Vol → Prop}
    (h : x.Ends s fun a s' => Q (g a) s') : Proc.Ends (do return g (← x)) s Q := by
  refine .bind h ?_
  exact fun a s' hq => Proc.Ends.pure hq

/-- **Every call ends and keeps the invariant**, if no argument is negative. -/
theorem Inv.call_ends (h : Inv s held) (hvalid : Valid s c) (hahead : WritesAhead c) (hnonneg : NonNeg c) :
    (call c).Ends s fun _ s' => Inv s' held ∧ Effect s c s' := by
  cases c with
  | create name initialSize =>
    apply ends_map
    refine (h.filesysCreate hnonneg hvalid.2).mono ?_
    rintro r s' ⟨hinv, -, hcreated⟩
    refine ⟨hinv, ?_⟩
    cases r with
    | false => exact (hcreated.failed rfl).effect h.toMem
    | true =>
      obtain ⟨sector, hentered⟩ := hcreated.created rfl
      refine hentered.steady.effect h.toMem ?_
      rintro x rfl
      exact hentered.fresh
  | «open» name =>
    apply ends_map
    refine (h.filesysOpen name).mono ?_
    rintro r s' ⟨hinv, -, hnone, hsome⟩
    refine ⟨hinv, ?_⟩
    cases r with
    | none => exact (hnone rfl).1.effect h.toMem
    | some f =>
      obtain ⟨-, -, -, -, s₁, i, mem, hstill, -, -, -, -, rfl, -⟩ := hsome f rfl
      exact hstill.effect_withFile h.toMem i mem
  | remove name =>
    apply ends_map
    refine (h.filesysRemove name).mono ?_
    rintro r s' ⟨hinv, -, hsteady, -⟩
    exact ⟨hinv, hsteady.effect h.toMem (fun _ hfalse => hfalse.elim)⟩
  | close f =>
    refine .bind (h.fileClose hvalid) ?_
    rintro _ s' ⟨hinv, hcloses⟩
    exact .pure ⟨hinv, hcloses.effect h.toMem⟩
  | reopen f =>
    apply ends_map
    refine (h.fileReopen hvalid).mono ?_
    rintro r s' ⟨hinv, hnone, hsome⟩
    refine ⟨hinv, ?_⟩
    cases r with
    | none => exact (hnone rfl).1.effect h.toMem
    | some g =>
      obtain ⟨s₁, mem, hstill, -, -, -, rfl, -⟩ := hsome g rfl
      exact hstill.effect_withFile h.toMem _ mem
  | read f size =>
    apply ends_map
    refine (h.fileRead hvalid.1.1 hvalid.2).mono ?_
    rintro buffer s' ⟨hinv, m, mem, rfl, -, -, -⟩
    exact ⟨hinv, effect_moved s.device mem fun _ _ _ _ => .inl Intact.refl⟩
  | readAt f size offset =>
    apply ends_map
    refine (h.fileReadAt hvalid.1.1 hnonneg hvalid.2.2 hvalid.2.1).mono ?_
    rintro buffer s' ⟨m, mem, rfl, -, -, -⟩
    exact ⟨h.setMem mem, effect_same⟩
  | write f buffer size =>
    apply ends_map
    refine (h.fileWrite hvalid.1 hvalid.2.1 hvalid.2.2).mono ?_
    rintro n s' ⟨hinv, mem, rfl, hle, hdeny, -⟩
    refine ⟨hinv, effect_moved _ mem fun x hl _ _ => ?_⟩
    have hwrite := h.intact_write hvalid.1 buffer hle hdeny (.inl ⟨buffer, size, rfl⟩) x hl
    exact hwrite
  | writeAt f buffer size offset =>
    apply ends_map
    refine (h.fileWriteAt hvalid.1 hahead hvalid.2.2.2 hvalid.2.1 hvalid.2.2.1).mono ?_
    rintro n s' ⟨hinv, mem, rfl, hle, hdeny, -⟩
    refine ⟨hinv, rfl, rfl, ?_, fun g hg _ _ => ⟨hg, rfl, fun hd => hd⟩⟩
    intro x hl _ _ _
    exact h.intact_write hvalid.1 buffer hle hdeny (.inr ⟨buffer, size, offset, rfl⟩) x hl
  | denyWrite f =>
    refine .bind (h.fileDenyWrite hvalid) ?_
    rintro _ _ ⟨hinv, fs, rfl, hflag, hdeny⟩
    exact .pure ⟨hinv, hflag.effect (.inr fun _ => hdeny)⟩
  | allowWrite f =>
    refine .bind (h.fileAllowWrite hvalid) ?_
    rintro _ _ ⟨hinv, fs, rfl, hflag, -⟩
    exact .pure ⟨hinv, hflag.effect (.inl rfl)⟩
  | seek f pos =>
    refine .bind (h.fileSeek hvalid.1.1 hnonneg hvalid.2) ?_
    rintro _ _ ⟨hinv, rfl⟩
    exact .pure ⟨hinv, effect_moved s.device s.mem fun _ _ _ _ => .inl Intact.refl⟩
  | tell f =>
    have htell := h.accounts.fileTell hvalid.1
    exact ⟨_, s, by show (fileTell s.toFs f).map _ = _; rw [htell]; rfl, h, effect_same⟩
  | length f =>
    have hlength := h.accounts.fileLength hvalid.1
    exact ⟨_, s, by show (fileLength s.toFs f).map _ = _; rw [hlength]; rfl, h, effect_same⟩
  | openRoot =>
    apply ends_map
    refine h.dirOpenRoot.mono ?_
    rintro r s' ⟨hinv, hstill, -⟩
    exact ⟨hinv, hstill.effect h.toMem⟩
  | reopenDir a =>
    apply ends_map
    refine (h.dirReopen hvalid).mono ?_
    rintro r s' ⟨hinv, hstill, -⟩
    exact ⟨hinv, hstill.effect h.toMem⟩
  | closeDir a =>
    refine .bind (h.dirClose rfl hvalid) ?_
    rintro _ s' ⟨hinv, hstill, -⟩
    exact .pure ⟨hinv, hstill.effect h.toMem⟩
  | readdir a =>
    apply ends_map
    refine (h.dirReaddir hvalid).mono ?_
    rintro r _ ⟨hinv, dir, mem, rfl, -⟩
    exact ⟨hinv, effect_same⟩

/-- With a negative size, an entry is not created: there is no sector for the inode, or `inode_create` stops. -/
theorem createEntry_negative (name : List UInt8) (hneg : size < 0) {r : Option Nat}
    (halloc : freeMapAllocate 1 s = some (r, s')) :
    (r = none → createEntry a name size s = some ((false, 0), s')) ∧ (r ≠ none → createEntry a name size s = none) := by
  rw [createEntry, Proc.bind_run halloc]
  cases r with
  | none => exact ⟨fun _ => rfl, fun hne => absurd rfl hne⟩
  | some sector =>
    refine ⟨by simp, fun _ => ?_⟩
    have hassert : Volume.inodeCreate sector size s' = none := by
      show (Proc.assert (0 ≤ size) s').bind _ = none
      rw [Proc.assert, if_neg (by omega)]
      rfl
    show (Volume.inodeCreate sector size s').bind _ = none
    rw [hassert]
    rfl

/-- With the root directory open, there is a free sector: `filesys_create` gets as far as `inode_create`. -/
def Creates (s : Vol) : Prop :=
  ∃ a s₁ sector s₂, Volume.dirOpenRoot s = some (some a, s₁) ∧ freeMapAllocate 1 s₁ = some (some sector, s₂)

/-- `filesys_create` with a negative size stops in `inode_create`, if it gets that far. -/
theorem filesysCreate_stuck (name : List UInt8) (hneg : size < 0) (hcreates : Creates s) :
    filesysCreate name size s = none := by
  obtain ⟨a, s₁, sector, s₂, hopen, halloc⟩ := hcreates
  have hentry := (createEntry_negative (a := a) name hneg halloc).2 (by simp)
  rw [filesysCreate, Proc.bind_run hopen]
  show (createEntry a name size s₁).bind _ = none
  rw [hentry]
  rfl

/-- Otherwise it fails. -/
theorem Inv.filesysCreate_refused (h : Inv s held) (name : List UInt8) (hneg : size < 0) (hcreates : ¬ Creates s) :
    (Volume.filesysCreate name size).Ends s fun r s' => r = false ∧ Inv s' held ∧ Still s s' := by
  obtain ⟨dir, s₁, hopen, hinv₁, hstill₁, -, -, -, hsome⟩ := h.dirOpenRoot
  refine .step hopen ?_
  cases dir with
  | none =>
    apply Proc.Ends.step rfl
    exact .pure ⟨rfl, hinv₁, hstill₁⟩
  | some a =>
    obtain ⟨ha₁, -⟩ := hsome a rfl
    obtain ⟨r, s₂, halloc, hinv₂, hstill₂, hdirs₂, -⟩ := hinv₁.freeMapAllocate 1
    obtain rfl : r = none := by
      cases r with
      | none => rfl
      | some sector => exact absurd ⟨a, s₁, sector, s₂, hopen, halloc⟩ hcreates
    refine .step ((createEntry_negative name hneg halloc).1 rfl) ?_
    refine .ite (fun hne => absurd rfl hne.2) ?_
    intro _
    refine .bind (hinv₂.dirClose hdirs₂ ha₁) ?_
    rintro _ s₃ ⟨hinv₃, hstill₃, -⟩
    exact .pure ⟨rfl, hinv₃, (hstill₁.trans hstill₂).trans hstill₃⟩

/-- `filesys_create` with a negative size returns before `inode_create`, or stops there. -/
theorem Inv.filesysCreate_negative (h : Inv s held) (name : List UInt8) (hneg : size < 0) :
    (Volume.filesysCreate name size).Safe s fun _ s' => Inv s' held ∧ Still s s' := by
  by_cases hcreates : Creates s
  · exact .stuck (filesysCreate_stuck name hneg hcreates)
  · refine (h.filesysCreate_refused name hneg hcreates).safe.mono ?_
    rintro r s' ⟨-, hinv, hstill⟩
    exact ⟨hinv, hstill⟩

/-- `file_read_at` uses memory, and changes nothing else. -/
theorem fileReadAt_mem (s : Vol) (f : Addr) (size offset : Int) :
    (fileReadAt f size offset).Safe s fun _ s' => ∃ mem, s' = { s with mem } := by
  show Proc.Safe (Proc.assert (f ∈ s.files) >>= fun _ => inodeReadAt (s.file f).inode size offset) s _
  apply Proc.Safe.assert
  intro _ buffer s' hrun
  unfold inodeReadAt at hrun
  split at hrun
  · obtain ⟨⟨bytes, asked⟩, -, heq⟩ := Option.map_eq_some_iff.mp hrun
    cases asked with
    | true =>
      cases heq
      exact ⟨_, rfl⟩
    | false =>
      cases heq
      exact ⟨s.mem, rfl⟩
  · cases hrun

/-- **Every call that returns keeps the invariant.** -/
theorem Inv.call (h : Inv s held) (hvalid : Valid s c) (hahead : WritesAhead c) :
    (call c).Safe s fun _ s' => Inv s' held ∧ Effect s c s' := by
  by_cases hnonneg : NonNeg c
  · exact (h.call_ends hvalid hahead hnonneg).safe
  · cases c with
    | create name initialSize =>
      have hneg : initialSize < 0 := Int.not_le.mp hnonneg
      refine .bind (h.filesysCreate_negative name hneg) ?_
      rintro r s' ⟨hinv, hstill⟩
      exact .pure ⟨hinv, hstill.effect h.toMem⟩
    | seek f pos =>
      apply Proc.Safe.stuck
      have hneg : ¬ 0 ≤ pos := hnonneg
      have hseek : Filesys.fileSeek s.toFs f pos = none := by
        simp only [Filesys.fileSeek, h.accounts.deref hvalid.1.1, Option.bind_eq_bind, Option.bind_some]
        exact if_neg hneg
      show (onFs (Filesys.fileSeek · f pos) s).bind _ = none
      rw [onFs, hseek]
      rfl
    | readAt f size offset =>
      -- whatever it reads, it changes nothing but the supply of memory
      refine .bind (fileReadAt_mem s f size offset) ?_
      rintro _ _ ⟨mem, rfl⟩
      exact .pure ⟨h.setMem mem, effect_same⟩
    | «open» _ | remove _ | close _ | reopen _ | read _ _ | write _ _ _ | writeAt _ _ _ _ | denyWrite _ | allowWrite _
    | tell _ | length _ | openRoot | reopenDir _ | closeDir _ | readdir _ => exact absurd trivial hnonneg

end

end Volume
end Asg1
