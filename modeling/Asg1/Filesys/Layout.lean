import Asg1.Filesys.FreeMap
import Asg1.Lib.Owns

/-!
# `Filesys.Layout` — who owns which sector

The sector of an inode is live if the inode is that of the free map, of the root directory, of a file with a name, or of
an open file. `Layout` says that the sectors of live inodes, and the sectors of their contents, are marked in the free
map and belong to one file each; that every entry of the directory has an inode of its own; and that open inodes are as
they are on the device. It is kept when inodes are opened, closed and marked as removed, when the device changes in
sectors that nobody or one file owns, and when an entry of the directory is written.
-/

namespace Asg1
namespace Volume

open Filesys Flat

/-! ## Definitions -/

/-- The number of entries in the root directory. -/
def SLOTS : Nat := 16

/-- The bytes of an entry of the root directory. -/
def slot (d : Device) (k : Nat) : List UInt8 :=
  slice d ((inodeDisk d ROOT_DIR_SECTOR).start * 512 + k * ENTRY_SIZE) ENTRY_SIZE

/-- Entry `k` is in use, for the inode in the given sector. -/
def Uses (d : Device) (k sector : Nat) : Prop :=
  k < SLOTS ∧ entryInUse (slot d k) = true ∧ entrySector (slot d k) = sector

/-- The sector has the inode of the free map, the root directory, a file with a name or an open file. -/
def Live (s : Vol) (sector : Nat) : Prop :=
  sector = FREE_MAP_SECTOR ∨ sector = ROOT_DIR_SECTOR ∨ (∃ k, Uses s.device k sector) ∨
    ∃ i ∈ s.openInodes, (s.inode i).sector = sector

/-- What a file has of the device: the sector of its inode, and the sectors of its contents. -/
inductive Piece
  | header (sector : Nat)
  | contents (sector : Nat)

def Piece.sector : Piece → Nat
  | .header sector => sector
  | .contents sector => sector

def foot (d : Device) : Piece → Nat → Prop
  | .header sector, x => x = sector
  | .contents sector, x => extent (inodeDisk d sector) x

/-- The sector is on the device and marked in the free map. -/
def Marked (s : Vol) (x : Nat) : Prop := x < s.blocks ∧ s.freeMap.bit x = true

/-- **The layout of the device.** -/
structure Layout (s : Vol) : Prop where
  bitCnt : s.freeMap.bitCnt = s.blocks
  owns : Owns (Marked s) (fun p : Piece => Live s p.sector) (foot s.device)
  start_le : ∀ sector, Live s sector → (inodeDisk s.device sector).start ≤ s.blocks
  mapLength : (inodeDisk s.device FREE_MAP_SECTOR).length = byteCnt s.blocks
  rootLength : (inodeDisk s.device ROOT_DIR_SECTOR).length = SLOTS * ENTRY_SIZE
  slot_inj : ∀ k l sector, Uses s.device k sector → Uses s.device l sector → k = l
  slot_file : ∀ k sector, Uses s.device k sector → sector ≠ FREE_MAP_SECTOR ∧ sector ≠ ROOT_DIR_SECTOR
  slot_name : ∀ k < SLOTS, entryInUse (slot s.device k) = true → (entryName (slot s.device k)).length ≤ NAME_MAX
  opened : ∀ i ∈ s.openInodes, (s.inode i).data = inodeDisk s.device (s.inode i).sector
  removed : ∀ i ∈ s.openInodes, s.removed i = true → (s.inode i).sector ≠ FREE_MAP_SECTOR ∧
    (s.inode i).sector ≠ ROOT_DIR_SECTOR ∧ ∀ k, ¬ Uses s.device k (s.inode i).sector

/-- The file is the same on both devices. -/
structure Intact (d d' : Device) (sector : Nat) : Prop where
  inode : inodeDisk d' sector = inodeDisk d sector
  bytes : ∀ x, extent (inodeDisk d sector) (x / 512) → d' x = d x

/-! ## What the layout gives -/

section
variable {s s' : Vol} {d d' : Device} {sector : Nat}

theorem live_map (s : Vol) : Live s FREE_MAP_SECTOR := .inl rfl

theorem live_root (s : Vol) : Live s ROOT_DIR_SECTOR := .inr (.inl rfl)

theorem live_open {i : Addr} (hi : i ∈ s.openInodes) : Live s (s.inode i).sector :=
  .inr (.inr (.inr ⟨i, hi, rfl⟩))

variable {k : Nat}

theorem live_slot (h : Uses s.device k sector) : Live s sector := .inr (.inr (.inl ⟨k, h⟩))

theorem Layout.blocks_lt (h : Layout s) : s.blocks + 31 < 2 ^ 32 := by
  rw [← h.bitCnt]
  exact s.freeMap.fits

section
variable (h : Layout s) (hlive : Live s sector)
include h hlive

/-- The sectors of a live file are on the device. -/
theorem Layout.fits : Fits s.blocks (inodeDisk s.device sector) := by
  have hblocks := h.blocks_lt
  refine ⟨?_, by omega⟩
  intro hpos
  have hle := le_bytesToSectors (inodeDisk s.device sector).length_lt
  have hlast := (h.owns.cover (.contents sector) hlive
    ((inodeDisk s.device sector).start + ((inodeDisk s.device sector).length + 511) / 512 - 1)
    ⟨by omega, by omega⟩).1
  omega

/-- Sectors of an extent are marked. -/
theorem Layout.run_extent :
    s.freeMap.Run true (inodeDisk s.device sector).start (bytesToSectors (inodeDisk s.device sector).length) := by
  have hcover := h.owns.cover (.contents sector) hlive
  have hstart := h.start_le sector hlive
  refine ⟨?_, fun j hle hlt => (hcover j ⟨hle, hlt⟩).2⟩
  rw [h.bitCnt]
  by_contra hbeyond
  have hin := (hcover (max s.blocks (inodeDisk s.device sector).start) ⟨by omega, by omega⟩).1
  omega

theorem Layout.run_header : s.freeMap.Run true sector 1 := by
  obtain ⟨hlt, hbit⟩ := h.owns.cover (.header sector) hlive sector rfl
  refine ⟨by rw [h.bitCnt]; omega, ?_⟩
  intro j hle hj
  have hjs : j = sector := by omega
  rw [hjs]
  exact hbit

variable {other x : Nat}

/-- The contents of one file do not meet the inode of another, nor its own. -/
theorem Layout.header_free (hother : Live s other) : ¬ extent (inodeDisk s.device sector) other := by
  intro hin
  have heq := h.owns.disjoint (.contents sector) hlive (.header other) hother other hin rfl
  cases heq

theorem Layout.contents_free (hother : Live s other)
    (hne : sector ≠ other) (hin : extent (inodeDisk s.device sector) x) : ¬ extent (inodeDisk s.device other) x := by
  intro hin'
  have heq := h.owns.disjoint (.contents sector) hlive (.contents other) hother x hin hin'
  cases heq
  exact hne rfl

end

/-! ## Files that stay the same -/

theorem Intact.refl : Intact d d sector := ⟨rfl, fun _ _ => rfl⟩

theorem Intact.trans {d'' : Device} (h : Intact d d' sector) (h' : Intact d' d'' sector) : Intact d d'' sector where
  inode := h'.inode.trans h.inode
  bytes := fun x hx => (h'.bytes x (by rw [h.inode]; exact hx)).trans (h.bytes x hx)

/-- A device that changes outside a file leaves it as it is. -/
theorem intact_of_only {p : Nat → Prop} (honly : Only p d d') (hheader : ¬ p sector)
    (hcontents : ∀ x, extent (inodeDisk d sector) x → ¬ p x) : Intact d d' sector where
  inode := inodeDisk_congr fun x hx => honly x (by rw [hx]; exact hheader)
  bytes := fun x hx => honly x (hcontents _ hx)

/-- Writing to one live file leaves the others as they are. -/
theorem Layout.intact_other (h : Layout s) (hlive : Live s sector) (hother : Live s other)
    (hne : other ≠ sector) (honly : Only (extent (inodeDisk s.device sector)) s.device d') : Intact s.device d' other :=
  intact_of_only honly (h.header_free hlive hother)
    (fun _ hx hin => h.contents_free hlive hother (fun heq => hne heq.symm) hin hx)

/-- Writing to a live file leaves all inodes as they are. -/
theorem Layout.inode_same (h : Layout s) (hlive : Live s sector) (hother : Live s other)
    (honly : Only (extent (inodeDisk s.device sector)) s.device d') : inodeDisk d' other = inodeDisk s.device other :=
  inodeDisk_congr fun x hx => honly x (by rw [hx]; exact h.header_free hlive hother)

theorem bytes_slot (h : Layout s) (hk : k < SLOTS)
    (hle : (inodeDisk s.device ROOT_DIR_SECTOR).start * 512 + k * ENTRY_SIZE ≤ x)
    (hlt : x < (inodeDisk s.device ROOT_DIR_SECTOR).start * 512 + k * ENTRY_SIZE + ENTRY_SIZE) :
    extent (inodeDisk s.device ROOT_DIR_SECTOR) (x / 512) := by
  have hsectors := le_bytesToSectors (inodeDisk s.device ROOT_DIR_SECTOR).length_lt
  rw [h.rootLength] at hsectors
  unfold extent
  rw [h.rootLength]
  unfold SLOTS ENTRY_SIZE at *
  omega

/-- A root directory that stays as it is has the same entries. -/
theorem Intact.slot (h : Layout s) (hroot : Intact s.device d' ROOT_DIR_SECTOR) (hk : k < SLOTS) :
    slot d' k = slot s.device k := by
  unfold Volume.slot
  rw [hroot.inode]
  apply slice_congr
  intro x hle hlt
  exact hroot.bytes x (bytes_slot h hk hle hlt)

theorem Intact.uses (h : Layout s) (hroot : Intact s.device d' ROOT_DIR_SECTOR) (k sector : Nat) :
    Uses d' k sector ↔ Uses s.device k sector := by
  unfold Uses
  constructor
  · rintro ⟨hk, huse, hsector⟩
    rw [hroot.slot h hk] at huse hsector
    exact ⟨hk, huse, hsector⟩
  · rintro ⟨hk, huse, hsector⟩
    rw [hroot.slot h hk]
    exact ⟨hk, huse, hsector⟩

end

/-! ## Keeping the layout -/

section
variable {s s' : Vol}

/-- What is known of the inodes that are open after a step, in terms of the state before it. -/
def OpenOk (s s' : Vol) : Prop :=
  ∀ i ∈ s'.openInodes, Live s (s'.inode i).sector ∧ (s'.inode i).data = inodeDisk s.device (s'.inode i).sector ∧
    (s'.removed i = true → (s'.inode i).sector ≠ FREE_MAP_SECTOR ∧ (s'.inode i).sector ≠ ROOT_DIR_SECTOR ∧
      ∀ k, ¬ Uses s.device k (s'.inode i).sector)

theorem Layout.openOk (h : Layout s) : OpenOk s s := fun i hi => ⟨live_open hi, h.opened i hi, h.removed i hi⟩

/-- While the directory stays as it is, nothing becomes live. -/
theorem live_of_openOk (h : Layout s) (hopen : OpenOk s s')
    (hroot : Intact s.device s'.device ROOT_DIR_SECTOR) {sector : Nat} (hlive : Live s' sector) : Live s sector := by
  rcases hlive with rfl | rfl | ⟨k, hk⟩ | ⟨i, hi, rfl⟩
  · exact live_map s
  · exact live_root s
  · exact live_slot ((hroot.uses h k sector).mp hk)
  · exact (hopen i hi).1

/-- **The layout is kept** by a step that leaves the directory as it is, changes no inode that is still live, and keeps
    the marks of what is still live. -/
theorem Layout.keep (h : Layout s) (hblocks : s'.blocks = s.blocks) (hcnt : s'.freeMap.bitCnt = s.freeMap.bitCnt)
    (hopen : OpenOk s s') (hroot : Intact s.device s'.device ROOT_DIR_SECTOR)
    (hinode : ∀ sector, Live s' sector → inodeDisk s'.device sector = inodeDisk s.device sector)
    (hbits : ∀ p : Piece, Live s' p.sector → ∀ x, foot s.device p x → s'.freeMap.bit x = true) : Layout s' := by
  have huses := hroot.uses h
  constructor
  case bitCnt => rw [hcnt, hblocks]; exact h.bitCnt
  case owns =>
    apply h.owns.shrink (fun p hp => live_of_openOk h hopen hroot hp)
    · intro p hp x hx
      cases p with
      | header sector => exact hx
      | contents sector =>
        show extent _ x
        rw [← hinode sector hp]
        exact hx
    · intro p hp x hx
      refine ⟨?_, hbits p hp x hx⟩
      rw [hblocks]
      exact (h.owns.cover p (live_of_openOk h hopen hroot hp) x hx).1
  case start_le =>
    intro sector hlive
    rw [hinode sector hlive, hblocks]
    exact h.start_le sector (live_of_openOk h hopen hroot hlive)
  case mapLength => rw [hinode _ (live_map s'), hblocks]; exact h.mapLength
  case rootLength => rw [hinode _ (live_root s')]; exact h.rootLength
  case slot_inj =>
    intro k l sector hk hl
    exact h.slot_inj k l sector ((huses k sector).mp hk) ((huses l sector).mp hl)
  case slot_file =>
    intro k sector hk
    exact h.slot_file k sector ((huses k sector).mp hk)
  case slot_name =>
    intro k hk huse
    rw [hroot.slot h hk] at huse ⊢
    exact h.slot_name k hk huse
  case opened =>
    intro i hi
    rw [(hopen i hi).2.1, hinode _ (live_open hi)]
  case removed =>
    intro i hi hremoved
    obtain ⟨hmap, hrootne, hslot⟩ := (hopen i hi).2.2 hremoved
    exact ⟨hmap, hrootne, fun k hk => hslot k ((huses k _).mp hk)⟩

/-- What an entry that comes into use must have: an inode that nobody has yet, in marked sectors of its own. -/
structure NewFile (s : Vol) (d' : Device) (sector : Nat) : Prop where
  fresh : ¬ Live s sector
  header : Marked s sector ∧ ∀ q : Piece, Live s q.sector → ¬ foot s.device q sector
  contents : ∀ x, extent (inodeDisk d' sector) x → Marked s x ∧ ∀ q : Piece, Live s q.sector → ¬ foot s.device q x
  apart : ¬ extent (inodeDisk d' sector) sector
  start_le : (inodeDisk d' sector).start ≤ s.blocks

/-- **Writing an entry of the directory** keeps the layout, if an entry in use gets a new file. -/
theorem Layout.setSlot (h : Layout s) {d' : Device}
    (hinode : ∀ sector, Live s sector → inodeDisk d' sector = inodeDisk s.device sector)
    (hother : ∀ l < SLOTS, l ≠ k → slot d' l = slot s.device l)
    (hnew : ∀ sector, Uses d' k sector → NewFile s d' sector)
    (hname : entryInUse (slot d' k) = true → (entryName (slot d' k)).length ≤ NAME_MAX) :
    Layout { s with device := d' } := by
  have huses : ∀ l sector, Uses d' l sector → l ≠ k → Uses s.device l sector := by
    rintro l sector ⟨hl, huse, hsector⟩ hne
    rw [hother l hl hne] at huse hsector
    exact ⟨hl, huse, hsector⟩
  have hlive : ∀ sector, Live { s with device := d' } sector → Live s sector ∨ Uses d' k sector := by
    rintro sector (rfl | rfl | ⟨l, hl⟩ | ⟨i, hi, rfl⟩)
    · exact .inl (live_map s)
    · exact .inl (live_root s)
    · by_cases hlk : l = k
      · rw [hlk] at hl
        exact .inr hl
      · exact .inl (live_slot (huses l sector hl hlk))
    · exact .inl (live_open hi)
  have hnewfile : ∀ sector, Live { s with device := d' } sector → ¬ Live s sector → NewFile s d' sector := by
    intro sector hl hnot
    rcases hlive sector hl with hl | hl
    · exact absurd hl hnot
    · exact hnew sector hl
  have hsame : ∀ {x y sector}, Uses d' x sector → Uses d' y sector → x ≠ k → y = k → False := by
    intro x y sector hx hy hxk hyk
    rw [hyk] at hy
    exact (hnew sector hy).fresh (live_slot (huses x sector hx hxk))
  constructor
  case bitCnt => exact h.bitCnt
  case owns =>
    apply Owns.extend h.owns
    · intro p hp x hx
      cases p with
      | header sector => exact hx
      | contents sector =>
        show extent (inodeDisk s.device sector) x
        rw [← hinode sector hp]
        exact hx
    · intro p hp hnot x hx
      have hfile := hnewfile p.sector hp hnot
      cases p with
      | header sector =>
        obtain rfl : x = sector := hx
        exact hfile.header
      | contents sector => exact hfile.contents x hx
    · intro p hp hpnot q hq hqnot x hpx hqx
      have hp' := (hlive p.sector hp).resolve_left hpnot
      have hq' := (hlive q.sector hq).resolve_left hqnot
      have hsector : p.sector = q.sector := hp'.2.2.symm.trans hq'.2.2
      have hfile := hnewfile p.sector hp hpnot
      cases p with
      | header a =>
        obtain rfl : x = a := hpx
        cases q with
        | header b =>
          obtain rfl : x = b := hqx
          rfl
        | contents b =>
          obtain rfl : x = b := hsector
          exact absurd hqx hfile.apart
      | contents a =>
        cases q with
        | header b =>
          obtain rfl : x = b := hqx
          obtain rfl : a = x := hsector
          exact absurd hpx hfile.apart
        | contents b =>
          obtain rfl : a = b := hsector
          rfl
  case start_le =>
    intro sector hl
    by_cases hold : Live s sector
    · rw [hinode sector hold]
      exact h.start_le sector hold
    · exact (hnewfile sector hl hold).start_le
  case mapLength =>
    rw [hinode _ (live_map s)]
    exact h.mapLength
  case rootLength =>
    rw [hinode _ (live_root s)]
    exact h.rootLength
  case slot_inj =>
    intro x y sector hx hy
    by_cases hxk : x = k <;> by_cases hyk : y = k
    · rw [hxk, hyk]
    · exact (hsame hy hx hyk hxk).elim
    · exact (hsame hx hy hxk hyk).elim
    · exact h.slot_inj x y sector (huses x sector hx hxk) (huses y sector hy hyk)
  case slot_file =>
    intro x sector hx
    by_cases hxk : x = k
    · rw [hxk] at hx
      have hfresh := (hnew sector hx).fresh
      refine ⟨?_, ?_⟩
      · rintro rfl
        exact hfresh (live_map s)
      · rintro rfl
        exact hfresh (live_root s)
    · exact h.slot_file x sector (huses x sector hx hxk)
  case slot_name =>
    intro x hx huse
    have huse' : entryInUse (slot d' x) = true := huse
    by_cases hxk : x = k
    · rw [hxk] at huse' ⊢
      exact hname huse'
    · rw [hother x hx hxk] at huse' ⊢
      exact h.slot_name x hx huse'
  case opened =>
    intro i hi
    rw [hinode _ (live_open hi)]
    exact h.opened i hi
  case removed =>
    intro i hi hremoved
    obtain ⟨hmap, hroot, hslot⟩ := h.removed i hi hremoved
    refine ⟨hmap, hroot, ?_⟩
    intro x hx
    by_cases hxk : x = k
    · rw [hxk] at hx
      exact (hnew _ hx).fresh (live_open hi)
    · exact hslot x (huses x _ hx hxk)

end

end Volume
end Asg1
