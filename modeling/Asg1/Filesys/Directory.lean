import Asg1.Filesys.Entries

/-!
# `Filesys.Directory` — the functions of `directory.c`

`lookup`, `dir_add`, `dir_remove` and `dir_readdir` on an open root directory. Each keeps the invariant whatever
`malloc` returns; with enough memory the results are what the entries say.
-/

namespace Asg1
namespace Volume

open Filesys Flat

section
variable {s s' : Vol} {held : List Addr} {a : Addr} {name : List UInt8}

/-- **`lookup`** -/
theorem Inv.lookup (h : Inv s held) (ha : a ∈ s.dirs) (name : List UInt8) :
    (lookup a name).Ends s fun r s' => ∃ mem, s' = { s with mem } ∧ (s.mem = [] → mem = []) ∧ Found s name 0 r := by
  have hroot := h.rootOk ha
  apply Proc.Ends.get
  apply Proc.Ends.assert ha
  have hfuel : SLOTS < entryFuel s (s.dir a).inode + 0 := by
    unfold entryFuel
    rw [hroot.data, h.layout.rootLength]
    decide
  have hloop := hroot.lookupLoop name _ 0 (Nat.zero_le _) hfuel
  exact hloop

/-- The name is that of some entry. -/
def Named (d : Device) (name : List UInt8) : Prop :=
  ∃ k < SLOTS, entryInUse (slot d k) = true ∧ entryName (slot d k) = name

/-- What `dir_add` does. -/
structure Added (s s' : Vol) (name : List UInt8) (sector : Nat) (r : Bool) : Prop where
  failed : r = false → ∃ mem, s' = { s with mem }
  added : r = true → ∃ k < SLOTS, ∃ e mem, e.length = ENTRY_SIZE ∧ name ≠ [] ∧ name.length ≤ NAME_MAX ∧
    s' = { s with device := setSlot s.device k (newEntry e name sector), mem := mem } ∧
    (s.mem = [] → entryInUse (slot s.device k) = false ∧ ¬ Named s.device name)
  calm : s.mem = [] → s'.mem = []
  full : s.mem = [] → r = false → name = [] ∨ NAME_MAX < name.length ∨ Named s.device name ∨
    ∀ k < SLOTS, entryInUse (slot s.device k) = true

theorem not_named (hfound : Found s name 0 none) (hmem : s.mem = []) : ¬ Named s.device name := by
  rintro ⟨k, hk, huse, hname⟩
  exact hfound.none hmem rfl k hk (Nat.zero_le _) huse hname

/-- **`dir_add`** of a new file. -/
theorem Inv.dirAdd (h : Inv s held) (ha : a ∈ s.dirs) {sector : Nat} (hnew : NewFile s s.device sector) :
    (dirAdd a name sector).Ends s fun r s' => Inv s' held ∧ Added s s' name sector r ∧
      Steady (fun x => x = sector) s s' := by
  have hsector : sector < 2 ^ 32 := by
    have hlt := hnew.header.1.1
    have hblocks := h.layout.blocks_lt
    omega
  have hfail : ∀ mem, (s.mem = [] → mem = []) → (s.mem = [] → name = [] ∨ NAME_MAX < name.length ∨
      Named s.device name ∨ ∀ k < SLOTS, entryInUse (slot s.device k) = true) →
      Inv { s with mem } held ∧ Added s { s with mem } name sector false ∧
        Steady (fun x => x = sector) s { s with mem } := by
    intro mem hcalm hwhy
    refine ⟨h.setMem mem, ⟨fun _ => ⟨mem, rfl⟩, ?_, hcalm, fun hmem _ => hwhy hmem⟩, ?_⟩
    · intro hr
      cases hr
    · exact (still_setMem s hcalm).steady _
  apply Proc.Ends.get
  apply Proc.Ends.assert ha
  refine .ite ?_ ?_
  · intro hbad
    exact .pure (hfail s.mem (fun hmem => hmem) (fun _ => hbad.imp id .inl))
  · intro hgood
    obtain ⟨hne, hlen⟩ := not_or.mp hgood
    refine .bind (h.lookup ha name) ?_
    rintro r _ ⟨mem, rfl, hcalm, hfound⟩
    refine .ite ?_ ?_
    · intro hsome
      obtain ⟨⟨e, ofs⟩, rfl⟩ := Option.isSome_iff_exists.mp hsome
      obtain ⟨l, hl, -, rfl, huse, hname⟩ := hfound.slot e ofs rfl
      exact .pure (hfail mem hcalm (fun _ => .inr (.inr (.inl ⟨l, hl, huse, hname⟩))))
    · intro hnone
      obtain rfl : r = none := by simpa using hnone
      have h₁ := h.setMem mem
      have hroot := h₁.rootOk (a := a) ha
      have hfuel : SLOTS < entryFuel { s with mem } (s.dir a).inode + 0 := by
        unfold entryFuel
        rw [hroot.data, h₁.layout.rootLength]
        decide
      have hloop := hroot.slotLoop _ 0 (Nat.zero_le _) hfuel (e := List.replicate ENTRY_SIZE 0xcc) List.length_replicate
      apply Proc.Ends.get
      refine .bind hloop ?_
      rintro ⟨e, ofs⟩ _ ⟨mem₂, rfl, hcalm₂, hlength, l, -, hl, rfl, hslots⟩
      have he : (newEntry e name sector).length = ENTRY_SIZE := length_newEntry hlength (by omega)
      refine .bind ((hroot.setMem mem₂).writeEntry hl he) ?_
      rintro n s' ⟨mem₃, hwrite, hcalm₃⟩
      have hcalm' : s.mem = [] → mem₃ = [] := fun hmem => (hcalm₃ (hcalm₂ (hcalm hmem))).1
      apply Proc.Ends.pure
      rcases hwrite with ⟨hn, rfl⟩ | ⟨rfl, hlt, rfl⟩
      · rw [decide_eq_false hn]
        apply hfail mem₃ hcalm'
        intro hmem
        refine .inr (.inr (.inr ?_))
        have hlast : ¬ l < SLOTS := fun hlt => hn ((hcalm₃ (hcalm₂ (hcalm hmem))).2 hlt)
        intro k hk
        exact (hslots (hcalm hmem)).2 k (Nat.zero_le _) (by omega)
      · obtain ⟨hinv, hsteady⟩ := h.writeSlot hlt he (fun x => x = sector) (by
          intro x _ hx
          rw [entrySector_newEntry hsector] at hx
          rw [← hx]
          exact ⟨rfl, hnew⟩) (fun _ => length_entryName_newEntry (by omega)) hcalm'
        refine ⟨hinv, ⟨?_, ?_, hcalm', ?_⟩, hsteady⟩
        · intro hr
          cases hr
        · intro _
          refine ⟨l, hlt, e, mem₃, hlength, hne, by omega, rfl, ?_⟩
          intro hmem
          exact ⟨(hslots (hcalm hmem)).1 hlt, not_named hfound hmem⟩
        · intro _ hr
          cases hr

/-- **`dir_lookup`** -/
theorem Inv.dirLookup (h : Inv s held) (ha : a ∈ s.dirs) (name : List UInt8) :
    (dirLookup a name).Ends s fun r s' => Still s s' ∧ s'.dirs = s.dirs ∧ s'.device = s.device ∧
      s'.freeMap = s.freeMap ∧
      (r = none → Inv s' held ∧ (s.mem = [] → ¬ Named s.device name)) ∧
      ∀ i, r = some i → Inv s' (i :: held) ∧ ∃ k < SLOTS, entryInUse (slot s.device k) = true ∧
        entryName (slot s.device k) = name ∧ (s'.inode i).sector = entrySector (slot s.device k) := by
  refine .bind (h.lookup ha name) ?_
  rintro r _ ⟨mem, rfl, hcalm, hfound⟩
  have hstill := still_setMem s hcalm
  cases r with
  | none =>
    refine .pure ⟨hstill, rfl, rfl, rfl, fun _ => ⟨h.setMem mem, not_named hfound⟩, ?_⟩
    intro i hi
    cases hi
  | some r =>
    obtain ⟨e, ofs⟩ := r
    obtain ⟨k, hk, -, rfl, huse, hname⟩ := hfound.slot e ofs rfl
    have hlive : Live { s with mem } (entrySector (slot s.device k)) := live_slot ⟨hk, huse, rfl⟩
    refine ((h.setMem mem).inodeOpen hlive).mono ?_
    rintro r s' ⟨hstill', hdirs, -, hdev, hmap, -, -, hnone, hsome⟩
    refine ⟨hstill.trans hstill', hdirs, hdev, hmap, ?_, ?_⟩
    · intro hr
      obtain ⟨hinv, hmem⟩ := hnone hr
      exact ⟨hinv, fun h0 => absurd (hcalm h0) hmem⟩
    · intro i hi
      obtain ⟨hinv, hsector⟩ := hsome i hi
      exact ⟨hinv, k, hk, huse, hname, hsector⟩

/-! ## Removing an entry -/

variable {i : Addr}

/-- A file without an entry may be marked as removed. -/
theorem Layout.setRemoved (h : Layout s) (hmap : (s.inode i).sector ≠ FREE_MAP_SECTOR)
    (hroot : (s.inode i).sector ≠ ROOT_DIR_SECTOR) (hslot : ∀ k, ¬ Uses s.device k (s.inode i).sector) :
    Layout { s with removed := fun j => if j = i then true else s.removed j } :=
  { h with
    removed := by
      intro x hx hremoved
      by_cases hxi : x = i
      · rw [hxi]
        exact ⟨hmap, hroot, hslot⟩
      · have hremoved' : (if x = i then true else s.removed x) = true := hremoved
        rw [if_neg hxi] at hremoved'
        exact h.removed x hx hremoved' }

theorem Inv.setRemoved (h : Inv s held) (hmap : (s.inode i).sector ≠ FREE_MAP_SECTOR)
    (hroot : (s.inode i).sector ≠ ROOT_DIR_SECTOR) (hslot : ∀ k, ¬ Uses s.device k (s.inode i).sector) :
    Inv { s with removed := fun j => if j = i then true else s.removed j } held :=
  { h with
    layout := h.layout.setRemoved hmap hroot hslot
    mapFile := by
      obtain ⟨f, hf⟩ := h.mapFile
      exact ⟨f, { hf with }⟩ }

/-- What `dir_remove` does. -/
structure Removed (s s' : Vol) (name : List UInt8) (r : Bool) : Prop where
  failed : r = false → Still s s'
  missing : s.mem = [] → r = false → ¬ Named s.device name
  removed : r = true → ∃ k < SLOTS, entryInUse (slot s.device k) = true ∧ entryName (slot s.device k) = name ∧
    ∀ l < SLOTS, slot s'.device l = if l = k then clearEntry (slot s.device k) else slot s.device l

/-- **`dir_remove`** clears an entry; the file goes with the last reference to it. -/
theorem Inv.dirRemove (h : Inv s held) (ha : a ∈ s.dirs) (name : List UInt8) :
    (dirRemove a name).Ends s fun r s' => Inv s' held ∧ s'.dirs = s.dirs ∧ Steady (fun _ => False) s s' ∧
      Removed s s' name r := by
  refine .bind (h.lookup ha name) ?_
  rintro r _ ⟨mem, rfl, hcalm, hfound⟩
  have hstill := still_setMem s hcalm
  cases r with
  | none =>
    refine .pure ⟨h.setMem mem, rfl, hstill.steady _, fun _ => hstill, fun hmem _ => not_named hfound hmem, ?_⟩
    intro hr
    cases hr
  | some r =>
    obtain ⟨e, ofs⟩ := r
    obtain ⟨k, hk, rfl, rfl, huse, hname⟩ := hfound.slot e ofs rfl
    set sector := entrySector (slot s.device k) with hsector
    have huses : Uses s.device k sector := ⟨hk, huse, rfl⟩
    refine .bind ((h.setMem mem).inodeOpen (live_slot huses)) ?_
    rintro r s₁ ⟨hstill₁, hdirs₁, -, hdev₁, -, -, -, hnone, hsome⟩
    have hstill' : Still s s₁ := hstill.trans hstill₁
    cases r with
    | none =>
      obtain ⟨hinv, hmem⟩ := hnone rfl
      refine .pure ⟨hinv, hdirs₁, hstill'.steady _, fun _ => hstill', ?_, ?_⟩
      · exact fun h0 _ => absurd (hcalm h0) hmem
      · intro hr
        cases hr
    | some i =>
      obtain ⟨hinv, hsector₁⟩ := hsome i rfl
      have ha₁ : a ∈ s₁.dirs := by
        rw [hdirs₁]
        exact ha
      have hlen : (clearEntry (slot s.device k)).length = ENTRY_SIZE := length_clearEntry length_slice
      have hclear : entryInUse (clearEntry (slot s.device k)) = false := entryInUse_clearEntry length_slice
      apply Proc.Ends.get
      refine .bind ((hinv.rootOk ha₁).writeEntry (Nat.le_of_lt hk) hlen) ?_
      rintro n s₂ ⟨mem₂, hwrite, hcalm₂⟩
      have hcalm₂' : s₁.mem = [] → mem₂ = [] := fun hmem => (hcalm₂ hmem).1
      rcases hwrite with ⟨hn, rfl⟩ | ⟨rfl, -, rfl⟩
      · -- the entry could not be written: the reference is given back
        refine .ite (fun hn' => absurd hn' hn) ?_
        intro _
        refine .bind (hinv.setMem mem₂).inodeClose ?_
        rintro _ s₃ ⟨hinv₃, hstill₃, hdirs₃, -⟩
        have hall := (hstill'.trans (still_setMem s₁ hcalm₂')).trans hstill₃
        refine .pure ⟨hinv₃, hdirs₃.trans hdirs₁, hall.steady _, fun _ => hall, ?_, ?_⟩
        · intro hmem _
          exact absurd ((hcalm₂ (hstill'.calm hmem)).2 hk) hn
        · intro hr
          cases hr
      · refine .ite ?_ (fun hn => absurd rfl hn)
        intro _
        obtain ⟨hinv₂, hsteady₂⟩ := hinv.writeSlot hk hlen (fun _ => False) (by
          intro x hx
          cases hx) (by
          intro hx
          cases hx) hcalm₂'
        -- the file has no entry any more
        have hslot : ∀ l, ¬ Uses (setSlot s₁.device k (clearEntry (slot s.device k))) l (s₁.inode i).sector := by
          rintro l ⟨hl, huse', hsector'⟩
          rw [slot_setSlot hinv.layout hk hlen] at huse' hsector'
          by_cases hlk : l = k
          · rw [if_pos hlk, hclear] at huse'
            cases huse'
          · rw [if_neg hlk, hdev₁] at huse' hsector'
            rw [hsector₁] at hsector'
            exact hlk (h.layout.slot_inj l k sector ⟨hl, huse', hsector'⟩ huses)
        obtain ⟨hmap, hroot⟩ := h.layout.slot_file k sector huses
        have hinv₃ := hinv₂.setRemoved (i := i) (fun heq => hmap (hsector₁.symm.trans heq))
          (fun heq => hroot (hsector₁.symm.trans heq)) hslot
        apply Proc.Ends.modify
        refine .bind hinv₃.inodeClose ?_
        rintro _ s₄ ⟨hinv₄, hstill₄, hdirs₄, -⟩
        have hsteady₃ : Steady (fun _ => False) s₁ { s₁ with
            device := setSlot s₁.device k (clearEntry (slot s.device k)), mem := mem₂
            removed := fun j => if j = i then true else s₁.removed j } := { hsteady₂ with }
        refine .pure ⟨hinv₄, hdirs₄.trans hdirs₁, hstill'.andThen (hsteady₃.andThen hstill₄), ?_, ?_, ?_⟩
        · intro hr
          cases hr
        · intro _ hr
          cases hr
        · intro _
          refine ⟨k, hk, huse, hname, ?_⟩
          intro l hl
          have hkeep : Intact _ s₄.device ROOT_DIR_SECTOR := hstill₄.intact _ (live_root s₄) (by decide)
          rw [hkeep.slot hinv₃.layout hl]
          rw [slot_setSlot hinv.layout hk hlen, hdev₁]

/-! ## Reading the entries in turn -/

/-- The positions of directories play no part beyond their bound. -/
theorem Inv.setDir (h : Inv s held) {dir : Addr → Dir} (mem : List Bool)
    (hinode : ∀ b, (dir b).inode = (s.dir b).inode) (hpos : ∀ b ∈ s.dirs, (dir b).pos ≤ SLOTS * ENTRY_SIZE) :
    Inv { s with dir, mem } held := by
  have hrefs : s.dirs.map (fun b => (dir b).inode) = s.dirRefs := List.map_congr_left fun b _ => hinode b
  refine ⟨?_, { h.layout with }, h.stored⟩
  constructor
  case accounts =>
    show Accounts s.toFs (held ++ s.dirs.map (fun b => (dir b).inode))
    rw [hrefs]
    exact h.accounts
  case mapFile =>
    obtain ⟨f, hf⟩ := h.mapFile
    exact ⟨f, { hf with }⟩
  case dirs_nodup => exact h.dirs_nodup
  case dir_root =>
    intro b hb
    rw [hinode]
    exact h.dir_root b hb
  case dir_pos => exact hpos
  case inode_lt => exact h.inode_lt
  case file_lt => exact h.file_lt
  case dir_lt => exact h.dir_lt

/-- **`dir_readdir`** moves the position of its directory. -/
theorem Inv.readdirLoop (h : Inv s held) (ha : a ∈ s.dirs) (fuel : Nat)
    (hfuel : SLOTS * ENTRY_SIZE < (s.dir a).pos + fuel * ENTRY_SIZE) :
    (readdirLoop a fuel).Ends s fun _ s' => Inv s' held ∧ ∃ dir mem, s' = { s with dir, mem } ∧
      (s.mem = [] → mem = []) := by
  induction fuel generalizing s with
  | zero =>
    have hpos := h.dir_pos a ha
    omega
  | succ fuel ih =>
    have hroot := h.rootOk ha
    have hpos := h.dir_pos a ha
    have hoff : ((s.dir a).pos : Int) < 2147483648 := by
      unfold SLOTS ENTRY_SIZE at hpos
      omega
    apply Proc.Ends.get
    refine .bind (inodeReadAt_spec hroot.opened hroot.fits (Int.natCast_nonneg _) hoff (by decide)) ?_
    rintro e _ ⟨m, mem, rfl, rfl, hle, hcalm, -⟩
    refine .ite ?_ ?_
    · intro hlen
      rw [length_slice] at hlen
      have hend : (s.dir a).pos + ENTRY_SIZE ≤ SLOTS * ENTRY_SIZE := by
        rw [hlen, avail, hroot.data, h.layout.rootLength, Int.toNat_natCast] at hle
        omega
      apply Proc.Ends.modify
      have hinv : Inv { s with
          dir := fun b => if b = a then { s.dir a with pos := (s.dir a).pos + ENTRY_SIZE } else s.dir b
          mem := mem } held := by
        apply h.setDir mem
        · intro b
          split
          · rename_i hba
            rw [hba]
          · rfl
        · intro b hb
          split
          · exact hend
          · exact h.dir_pos b hb
      refine .ite ?_ ?_
      · intro _
        exact .pure ⟨hinv, _, mem, rfl, fun hmem => (hcalm hmem).2⟩
      · intro _
        refine (ih hinv ha ?_).mono ?_
        · show SLOTS * ENTRY_SIZE < (if a = a then { s.dir a with pos := (s.dir a).pos + ENTRY_SIZE } else s.dir a).pos + _
          rw [if_pos rfl]
          show SLOTS * ENTRY_SIZE < (s.dir a).pos + ENTRY_SIZE + fuel * ENTRY_SIZE
          rw [Nat.add_mul, Nat.one_mul] at hfuel
          omega
        · rintro _ _ ⟨hinv', dir', mem', rfl, hcalm'⟩
          exact ⟨hinv', dir', mem', rfl, fun hmem => hcalm' (hcalm hmem).2⟩
    · intro _
      exact .pure ⟨h.setMem mem, s.dir, mem, rfl, fun hmem => (hcalm hmem).2⟩

theorem Inv.dirReaddir (h : Inv s held) (ha : a ∈ s.dirs) :
    (dirReaddir a).Ends s fun _ s' => Inv s' held ∧ ∃ dir mem, s' = { s with dir, mem } ∧
      (s.mem = [] → mem = []) := by
  apply Proc.Ends.get
  apply Proc.Ends.assert ha
  apply h.readdirLoop ha
  unfold entryFuel
  rw [(h.rootOk ha).data, h.layout.rootLength]
  unfold SLOTS ENTRY_SIZE
  omega

end

end Volume
end Asg1
