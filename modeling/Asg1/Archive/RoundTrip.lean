import Asg1.Archive.Fsutil
import Mathlib.Data.List.Nodup

/-!
# `Archive.RoundTrip` — an archive that is written and read back

`appendAll_ends` is what a series of appends leaves on the scratch device, and `fsutilExtract_ends` what an extraction
makes of an archive on it, in a file system without files. `archive_round_trip` puts the two together. Whether it works
depends on the last write of the last append, which takes along a byte that is not in the buffer, and on the sector after
it, which is never written: the archive ends as it should exactly if both were zero already.

The extraction is followed in the model of `Filesys.Refine`, where a file is an array of bytes.
-/

namespace Asg1
namespace Fsutil

open Filesys Flat Volume Ustar List

/-! ## Series of appends -/

/-- A file to append, with what is in it and the byte after the buffer when it is appended. -/
structure Item where
  name : List UInt8
  bytes : List UInt8
  after : UInt8

/-- `fsutil_append` for each of the files. -/
def appendAll : List Item → P Unit
  | [] => return ()
  | e :: es => do
      fsutilAppend e.name e.after
      appendAll es

/-- The headers and the data of the files, one after the other. -/
def archive : List Item → List UInt8
  | [] => []
  | e :: es => archived e.name e.bytes ++ archive es

/-- The number of sectors of the archive, without its end. -/
def archiveSectors : List Item → Nat
  | [] => 0
  | e :: es => 1 + dataSectors e.bytes.length + archiveSectors es

/-- What the last append has written as the end of the archive. -/
def ending : List Item → List UInt8
  | [] => []
  | [e] => endBytes e.after
  | _ :: e :: es => ending (e :: es)

/-- A file that the file system can take. -/
structure Fit (e : Item) : Prop where
  strip : stripAntisocialPrefixes e.name = e.name
  short : e.name.length ≤ NAME_MAX
  zero : 0 ∉ e.name
  length_lt : e.bytes.length < 2 ^ 31

/-- The file is in the file system, and could be in another. -/
structure Archivable (d : Device) (e : Item) : Prop extends Fit e where
  holds : HoldsFile d e.name e.bytes
variable {es : List Item} {v : Vol} {b : List UInt8} {e : Item} {file : Nat}


theorem length_ending (h : es ≠ []) : (ending es).length = 512 := by
  induction es with
  | nil => exact absurd rfl h
  | cons e es ih =>
    cases es with
    | nil => exact length_endBytes _
    | cons e' es => exact ih (cons_ne_nil _ _)

theorem Fit.header (h : Fit e) : (headerOf e.name e.bytes.length).length = 512 ∧
    ustarParseHeader (headerOf e.name e.bytes.length) = .ok ⟨some e.name, .regular, e.bytes.length⟩ := by
  obtain ⟨header, hmake, hlen, hparse⟩ := parse_make (show UstarType.regular ≠ .eof by decide)
    (h.strip.symm ▸ Nat.le_trans h.short (by decide)) h.zero h.length_lt
  rw [h.strip, if_pos rfl] at hparse
  have hof : headerOf e.name e.bytes.length = header := by
    unfold headerOf
    simp only [hmake]
  rw [hof]
  exact ⟨hlen, hparse⟩

theorem Fit.length_archived (h : Fit e) :
    (archived e.name e.bytes).length = 512 * (1 + dataSectors e.bytes.length) := by
  rw [archived, length_append, h.header.1, length_padded]
  omega

theorem length_archive (h : ∀ e ∈ es, Fit e) : (archive es).length = 512 * archiveSectors es := by
  induction es with
  | nil => rfl
  | cons e es ih =>
    rw [archive, archiveSectors, length_append, (h e mem_cons_self).length_archived,
      ih (fun e' he' => h e' (mem_cons_of_mem _ he'))]
    omega

/-- Files of the file system are fit for an archive, if their names are. -/
theorem archivable (hinv : Inv v []) (hholds : HoldsFile v.device e.name e.bytes)
    (hstrip : stripAntisocialPrefixes e.name = e.name) : Archivable v.device e := by
  refine ⟨⟨hstrip, ?_, ?_, ?_⟩, hholds⟩
  · obtain ⟨k, hk, huse, hname, -⟩ := hholds
    rw [← hname]
    exact hinv.layout.slot_name k hk huse
  · obtain ⟨k, -, -, hname, -⟩ := hholds
    rw [← hname]
    exact (entryName_bounds _).2
  · obtain ⟨k, -, -, -, hbytes, -⟩ := hholds
    rw [← hbytes, contents, length_slice]
    exact InodeDisk.length_lt _

variable {u : Util} {t : Vol} {d : Device}

/-- **A series of appends** leaves the archive on the scratch device, from the cursor on, and nothing else changes there. -/
theorem appendAll_ends (hinv : Inv u.vol []) (hmem : u.vol.mem = [])
    (hes : ∀ e ∈ es, Archivable u.vol.device e) (hroom : u.appendSector + archiveSectors es < u.blocks) :
    (appendAll es).Ends u fun _ u' => ∃ v, Inv v [] ∧ v.mem = [] ∧ u' = { u with
      vol := v
      scratch := patch u.scratch (u.appendSector * 512) (archive es ++ ending es)
      appendSector := u.appendSector + archiveSectors es } := by
  induction es generalizing u with
  | nil =>
    refine .pure ⟨u.vol, hinv, hmem, ?_⟩
    rw [archive, ending, append_nil, patch_nil, archiveSectors, Nat.add_zero]
  | cons e es ih =>
    have he := hes e mem_cons_self
    rw [archiveSectors] at hroom
    refine .bind (fsutilAppend_ends hinv hmem he.holds he.strip (by omega)) ?_
    rintro _ _ ⟨v, hinv', hmem', hkeep, rfl⟩
    refine (ih hinv' hmem' ?_ ?_).mono ?_
    · intro e' he'
      have hold := hes e' (mem_cons_of_mem _ he')
      exact ⟨hold.toFit, hkeep _ _ hold.holds⟩
    · show u.appendSector + 1 + dataSectors e.bytes.length + archiveSectors es < u.blocks
      omega
    rintro _ _ ⟨w, hinv'', hmem'', rfl⟩
    refine ⟨w, hinv'', hmem'', ?_⟩
    have hstart : (u.appendSector + 1 + dataSectors e.bytes.length) * 512 =
        u.appendSector * 512 + (archived e.name e.bytes).length := by
      rw [he.length_archived]
      omega
    have hsectors : u.appendSector + archiveSectors (e :: es) =
        u.appendSector + 1 + dataSectors e.bytes.length + archiveSectors es := by
      rw [archiveSectors]
      omega
    rw [hstart, hsectors, archive, List.append_assoc]
    cases es with
    | nil =>
      rw [archive, ending, ending, append_nil, patch_nil, nil_append]
    | cons e' es =>
      -- the next file is written over the end of the archive
      have hcover : (endBytes e.after).length ≤ (archive (e' :: es) ++ ending (e' :: es)).length := by
        rw [length_append, length_endBytes, length_ending (cons_ne_nil _ _)]
        exact Nat.le_add_left _ _
      rw [patch_append_cover hcover, ending]

/-- The archive from the start of the scratch device. -/
theorem appendAll_start (scratch : Device) (blocks : Nat) (hinv : Inv v []) (hmem : v.mem = [])
    (hes : ∀ e ∈ es, Archivable v.device e) (hroom : archiveSectors es < blocks) :
    (appendAll es).Ends ⟨v, scratch, blocks, 0, 0⟩ fun _ u => u.scratch = patch scratch 0 (archive es ++ ending es) ∧
      u.blocks = blocks ∧ u.extractSector = 0 := by
  have hroom' : 0 + archiveSectors es < blocks := by omega
  refine (appendAll_ends (u := ⟨v, scratch, blocks, 0, 0⟩) hinv hmem hes hroom').mono ?_
  rintro _ u ⟨w, -, -, hu⟩
  simp only [Nat.zero_mul] at hu
  rw [hu]
  exact ⟨rfl, rfl, rfl⟩

/-! ## Extracting one file -/

/-- The next bytes on the scratch device. -/
structure Coming (u : Util) (l : List UInt8) : Prop where
  bytes : slice u.scratch (u.extractSector * 512) l.length = l
  room : u.extractSector * 512 + l.length ≤ u.blocks * 512

section
variable {u : Util} {ident : Nat → Nat} {M : Model} {f : Addr} {rest : List UInt8}

theorem extractBlock_ends (h : Coming u (b ++ rest)) (hb : b.length = 512) :
    extractBlock.Ends u fun r u' => r = b ∧ u' = { u with extractSector := u.extractSector + 1 } ∧ Coming u' rest := by
  have hroom := h.room
  rw [length_append, hb] at hroom
  have hlt : u.extractSector < u.blocks := by omega
  have hroom' : (u.extractSector + 1) * 512 + rest.length ≤ u.blocks * 512 := by
    rw [Nat.add_mul, Nat.one_mul, Nat.add_assoc]
    exact hroom
  have hbytes := h.bytes
  rw [length_append, hb, slice_add] at hbytes
  obtain ⟨hfirst, hrest⟩ := append_inj hbytes (by rw [length_slice, hb])
  refine ⟨_, _, if_pos hlt, hfirst, rfl, ?_, hroom'⟩
  rw [Nat.add_mul, Nat.one_mul]
  exact hrest

/-- The array of a file and the position of a handle on it are set. -/
def put (M : Model) (file : Nat) (f : Addr) (bytes : List UInt8) (pos : Nat) : Model :=
  (M.setBytes file bytes).setHandle f (some (file, pos))

theorem put_put (file : Nat) (bytes bytes' : List UInt8) (pos pos' : Nat) :
    put (put M file f bytes pos) file f bytes' pos' = put M file f bytes' pos' := by
  unfold put Model.setBytes Model.setHandle
  congr 1
  · funext n
    show (if n = file then bytes' else if n = file then bytes else M.bytes n) = if n = file then bytes' else M.bytes n
    split <;> rfl
  · funext g
    show (if g = f then some (file, pos') else if g = f then some (file, pos) else M.handles g) =
      if g = f then some (file, pos') else M.handles g
    split <;> rfl

theorem put_self {file pos : Nat} (h : M.handles f = some (file, pos)) : put M file f (M.bytes file) pos = M := by
  unfold put Model.setBytes Model.setHandle
  have hbytes : (fun n => if n = file then M.bytes file else M.bytes n) = M.bytes := by
    funext n
    split
    · rename_i hn
      rw [hn]
    · rfl
  have hhandles : (fun g => if g = f then some (file, pos) else M.handles g) = M.handles := by
    funext g
    split
    · rename_i hg
      rw [hg, h]
    · rfl
  simp only [hbytes, hhandles]

/-- Nothing is left to copy. -/
theorem copyIn_done {front : List UInt8} (hmatch : Match ident u.vol M) (hmem : u.vol.mem = [])
    (hhandle : M.handles f = some (file, front.length)) (hbytes : M.bytes file = front ++ []) (hcoming : Coming u rest) :
    ∃ v, Match ident v (put M file f (front ++ []) (front ++ []).length) ∧ v.mem = [] ∧ v.freeMap = u.vol.freeMap ∧
      u = { u with vol := v, extractSector := u.extractSector + dataSectors 0 } ∧ Coming u rest := by
  refine ⟨u.vol, ?_, hmem, rfl, rfl, hcoming⟩
  rw [append_nil] at hbytes ⊢
  rw [← hbytes] at hhandle ⊢
  rw [put_self hhandle]
  exact hmatch

/-- **The loop of `fsutil_extract` that copies a file.** What is left of the file is zeros, and the data comes next. -/
theorem copyIn_ends (n : Nat) (front : List UInt8) {l : List UInt8} (hmatch : Match ident u.vol M) (hmem : u.vol.mem = [])
    (hhandle : M.handles f = some (file, front.length)) (hbytes : M.bytes file = front ++ List.replicate l.length 0)
    (hlt : l.length < 2 ^ 31) (hn : l.length ≤ n) (hcoming : Coming u (padded l ++ rest)) :
    (copyIn f n l.length).Ends u fun _ u' => ∃ v, Match ident v (put M file f (front ++ l) (front ++ l).length) ∧
      v.mem = [] ∧ v.freeMap = u.vol.freeMap ∧
      u' = { u with vol := v, extractSector := u.extractSector + dataSectors l.length } ∧ Coming u' rest := by
  induction n generalizing u M front l with
  | zero =>
    obtain rfl : l = [] := List.length_eq_zero_iff.mp (by omega)
    exact .pure (copyIn_done hmatch hmem hhandle hbytes hcoming)
  | succ n ih =>
    refine .ite ?_ ?_
    · intro hpos
      obtain ⟨hchunk, hchunk512⟩ := chunkSize_le l.length
      have hchunkpos : 0 < chunkSize l.length := chunkSize_pos hpos
      have hsectors := dataSectors_step hpos
      have hblock : (l.take (chunkSize l.length) ++ List.replicate (512 - chunkSize l.length) 0).length = 512 := by
        rw [length_append, length_take, length_replicate]
        omega
      have htake : (l.take (chunkSize l.length) ++ List.replicate (512 - chunkSize l.length) 0).take
          (chunkSize l.length) = l.take (chunkSize l.length) := by
        rw [take_left']
        rw [length_take]
        omega
      rw [padded_step hpos, List.append_assoc] at hcoming
      refine .bind (extractBlock_ends hcoming hblock) ?_
      rintro _ _ ⟨rfl, rfl, hcoming'⟩
      have huser : User u.vol f := hmatch.user_of_legal (by rw [hhandle]; rfl)
      have hopened := hmatch.handles.opened f huser
      rw [hhandle, Option.some.injEq, Prod.mk.injEq] at hopened
      obtain ⟨hfile, hfront⟩ := hopened
      refine .bind (onVol_ends (hmatch.fileWrite hmem huser (by omega) (by
        rw [Int.toNat_natCast, hblock]
        exact hchunk512))) ?_
      rintro written _ ⟨v, rfl, hroom, hmatch', hmap', hmem'⟩
      have hwritten : written = chunkSize l.length := by
        rw [hroom, ← hfile, ← hfront, hbytes]
        unfold Model.room
        rw [if_neg (by omega), length_append, length_replicate]
        omega
      apply Proc.Ends.assert hwritten
      have hlen : (l.take (chunkSize l.length)).length = chunkSize l.length := by
        rw [length_take]
        omega
      rw [hwritten, ← hfile, ← hfront, hbytes, htake, overwrite_append, drop_replicate, hlen] at hmatch'
      have hput : (M.setBytes file (front ++ l.take (chunkSize l.length) ++
          List.replicate (l.length - chunkSize l.length) 0)).setHandle f
          (some (file, front.length + chunkSize l.length)) = put M file f
            (front ++ l.take (chunkSize l.length) ++ List.replicate (l.length - chunkSize l.length) 0)
            (front ++ l.take (chunkSize l.length)).length := by
        rw [length_append, hlen]
        rfl
      rw [hput] at hmatch'
      have hhandle' : (put M file f (front ++ l.take (chunkSize l.length) ++
          List.replicate (l.length - chunkSize l.length) 0) (front ++ l.take (chunkSize l.length)).length).handles f =
          some (file, (front ++ l.take (chunkSize l.length)).length) := if_pos rfl
      have hrun := ih (u := { u with vol := v, extractSector := u.extractSector + 1 })
        (l := l.drop (chunkSize l.length)) _ hmatch' hmem' hhandle' ?_ ?_ ?_ { hcoming' with }
      · rw [length_drop] at hrun
        refine hrun.mono ?_
        rintro _ _ ⟨w, hmatch'', hmem'', hmap'', rfl, hcoming''⟩
        rw [put_put, List.append_assoc, take_append_drop] at hmatch''
        refine ⟨w, hmatch'', hmem'', hmap''.trans hmap', ?_, hcoming''⟩
        rw [hsectors, ← Nat.add_assoc]
      · rw [length_drop]
        exact if_pos rfl
      · rw [length_drop]
        omega
      · rw [length_drop]
        omega
    · intro hpos
      obtain rfl : l = [] := List.length_eq_zero_iff.mp (by omega)
      exact .pure (copyIn_done hmatch hmem hhandle hbytes hcoming)

/-- The sectors that the file system needs for the files. -/
def space : List Item → Nat
  | [] => 0
  | e :: es => 1 + (bytesToSectors e.bytes.length + space es)

/-- The files in `done` are there, no others, and there is space for those in `todo`. -/
structure Target (ident : Nat → Nat) (v : Vol) (M : Model) (done todo : List Item) : Prop where
  agree : Match ident v M
  mem : v.mem = []
  stored : ∀ e ∈ done, ∃ file, M.names e.name = some file ∧ M.bytes file = e.bytes
  only : ∀ name, (M.names name).isSome = true → ∃ e ∈ done, e.name = name
  room : ∃ a, v.freeMap.Run false a (space todo)

theorem strip_ne_nil (name : List UInt8) : stripAntisocialPrefixes name ≠ [] := by
  unfold stripAntisocialPrefixes
  simp only
  split
  · exact cons_ne_nil _ _
  · rename_i hnot
    exact fun hnil => hnot (.inl hnil)

/-- The file that a name stands for. -/
theorem named_file {name : List UInt8} (h : Match ident v M) (hname : M.names name = some file) :
    ∃ k < SLOTS, entryInUse (slot v.device k) = true ∧ entryName (slot v.device k) = name ∧
      ident (entrySector (slot v.device k)) = file ∧ IsFile v (entrySector (slot v.device k)) := by
  obtain ⟨k, hk, huse, rfl⟩ := (h.names.isSome_iff name).mp (by rw [hname]; rfl)
  have hfile := h.names.named k hk huse
  rw [hname, Option.some.injEq] at hfile
  exact ⟨k, hk, huse, rfl, hfile.symm, h.inv.isFile_slot hk huse⟩

/-- A file with a name is not marked as removed. -/
theorem not_removed (h : Match ident v M) (hf : User v f) (name : List UInt8)
    (hname : M.names name = some (ident (v.sectorOf f))) : v.removed (v.file f).inode = false := by
  obtain ⟨k, hk, huse, -, hident, hisFile⟩ := named_file h hname
  have hsector := h.bytes.inj _ _ hisFile (h.inv.isFile_user hf) hident
  by_contra htrue
  have hnot := (h.inv.layout.removed _ (h.inv.listed hf.1) (by simpa using htrue)).2.2 k
  exact hnot ⟨hk, huse, hsector⟩

section
variable {v : Vol} {e : Item} {done todo : List Item}

/-- Not all entries of the directory are in use. -/
theorem Target.vacant (h : Target ident v M done todo) (hcount : done.length < SLOTS) :
    ¬ ∀ k < SLOTS, entryInUse (slot v.device k) = true := by
  intro hall
  have hnodup : ((List.range SLOTS).map fun k => entryName (slot v.device k)).Nodup := by
    refine List.Nodup.map_on ?_ nodup_range
    intro k hk l hl heq
    rw [mem_range] at hk hl
    exact h.agree.names.unique k hk l hl (hall k hk) (hall l hl) heq
  have hsubset : ((List.range SLOTS).map fun k => entryName (slot v.device k)) ⊆ done.map Item.name := by
    intro name hname
    obtain ⟨k, hk, rfl⟩ := List.mem_map.mp hname
    rw [mem_range] at hk
    obtain ⟨e, he, hn⟩ := h.only _ ((h.agree.names.isSome_iff _).mpr ⟨k, hk, hall k hk, rfl⟩)
    exact List.mem_map.mpr ⟨e, he, hn⟩
  have hle := (subperm_of_subset hnodup hsubset).length_le
  rw [length_map, length_range, length_map] at hle
  omega

/-- The next file is made. -/
theorem Target.create (h : Target ident v M done (e :: todo)) (hfit : Fit e) (hnew : ∀ e' ∈ done, e'.name ≠ e.name)
    (hcount : done.length < SLOTS) : (filesysCreate e.name e.bytes.length).Ends v fun r v' => r = true ∧ v'.mem = [] ∧
      M.names e.name = none ∧ (∃ ident', Match ident' v' (M.create e.name e.bytes.length)) ∧
      ∃ a, v'.freeMap.Run false a (space todo) := by
  obtain ⟨a, hrun⟩ := h.room
  have hlt := hfit.length_lt
  refine (h.agree.inv.filesysCreate (Int.natCast_nonneg _) (by omega)).mono ?_
  rintro r v' ⟨hinv, -, hcreated⟩
  rw [Int.toNat_natCast] at hcreated
  cases r with
  | false =>
    exfalso
    have hone : v.freeMap.Run false a 1 := ⟨by have := hrun.1; rw [space] at this; omega, fun j hj hj' =>
      hrun.2 j hj (by rw [space]; omega)⟩
    rcases hcreated.full h.mem rfl with hnil | hlong | hnamed | hfull | hnone | ⟨b₁, sector, hfirst, hnone⟩
    · exact strip_ne_nil e.name (hfit.strip.trans hnil)
    · exact absurd hfit.short (Nat.not_le.mpr hlong)
    · obtain ⟨e', he', hn⟩ := h.only _ ((h.agree.names.isSome_iff _).mpr hnamed)
      exact hnew e' he' hn
    · exact h.vacant hcount hfull
    · exact hnone a hone
    · obtain ⟨a', hrun'⟩ := hrun.firstFit hfirst.least hfirst.bitCnt hfirst.bit
      exact hnone a' ⟨by have := hrun'.1; omega, fun j hj hj' => hrun'.2 j hj (by omega)⟩
  | true =>
    obtain ⟨sector, hentered⟩ := hcreated.created rfl
    obtain ⟨hnone, hmatch⟩ := h.agree.create h.mem hfit.zero hinv hentered
    obtain ⟨b₁, hfirst, start, -, hleast, hbits⟩ := hentered.bits
    obtain ⟨a', hrun'⟩ := hrun.firstFit hfirst.least hfirst.bitCnt hfirst.bit
    have hcnt : v'.freeMap.bitCnt = b₁.bitCnt := by
      rw [hinv.layout.bitCnt, hentered.steady.blocks, ← h.agree.inv.layout.bitCnt, hfirst.bitCnt]
    exact ⟨rfl, hentered.steady.calm h.mem, hnone, ⟨_, hmatch⟩, hrun'.firstFit hleast hcnt hbits⟩

/-- **One file is extracted.** -/
theorem putFile_ends (h : Target ident u.vol M done (e :: todo)) (hfit : Fit e) (hnew : ∀ e' ∈ done, e'.name ≠ e.name)
    (hcount : done.length < SLOTS) (hcoming : Coming u (padded e.bytes ++ rest)) :
    (putFile e.name e.bytes.length).Ends u fun _ u' => ∃ ident' v M', Target ident' v M' (done ++ [e]) todo ∧
      u' = { u with vol := v, extractSector := u.extractSector + dataSectors e.bytes.length } ∧ Coming u' rest := by
  refine .bind (onVol_ends (h.create hfit hnew hcount)) ?_
  rintro _ _ ⟨v₁, rfl, rfl, hmem₁, hnone, ⟨ident', hmatch₁⟩, a, hroom⟩
  apply Proc.Ends.assert rfl
  have hname₁ : (M.create e.name e.bytes.length).names e.name = some M.next := if_pos rfl
  refine .bind (onVol_ends (hmatch₁.inv.filesysOpen e.name)) ?_
  rintro r _ ⟨v₂, rfl, hinv₂, -, hmissing, hfound⟩
  cases r with
  | none =>
    obtain ⟨k, hk, huse, hkname, -⟩ := named_file hmatch₁ hname₁
    exact absurd ⟨k, hk, huse, hkname⟩ ((hmissing rfl).2 hmem₁)
  | some f =>
    obtain ⟨k, hk, huse, hkname, s₁, i, mem, hstill, -, hmap₂, hsector, rfl, rfl, hcalm⟩ := hfound f rfl
    obtain ⟨hfresh, hmatch₂⟩ := hmatch₁.open hstill hinv₂
    have hfile := hmatch₁.names.named k hk huse
    rw [hkname, hname₁, Option.some.injEq] at hfile
    rw [hsector, ← hfile] at hmatch₂
    refine .bind (copyIn_ends (u := { u with vol := s₁.withFile i mem }) e.bytes.length [] hmatch₂
      (hcalm (hstill.calm hmem₁)) (if_pos rfl) (if_pos rfl) hfit.length_lt (Nat.le_refl _) { hcoming with }) ?_
    rintro _ _ ⟨v₃, hmatch₃, hmem₃, hmap₃, rfl, hcoming₃⟩
    have huser : User v₃ s₁.next := hmatch₃.user_of_legal (by
      show ((if s₁.next = s₁.next then some _ else _ : Option (Nat × Nat))).isSome = true
      rw [if_pos rfl]
      rfl)
    refine (onVol_ends (hmatch₃.inv.fileClose huser)).mono ?_
    rintro _ _ ⟨v₄, rfl, hinv₄, hcloses⟩
    have hmatch₄ := hmatch₃.close hinv₄ hcloses
    -- the file has its name, so closing it gives no sectors back
    have hopened := hmatch₃.handles.opened s₁.next huser
    have hself : ident' (v₃.sectorOf s₁.next) = M.next := by
      have hhandle : some (M.next, e.bytes.length) = some (ident' (v₃.sectorOf s₁.next), (v₃.file s₁.next).pos) :=
        (if_pos rfl).symm.trans hopened
      rw [Option.some.injEq, Prod.mk.injEq] at hhandle
      exact hhandle.1.symm
    obtain ⟨-, hmap₄⟩ := hcloses.kept (not_removed hmatch₃ huser e.name (by
      rw [hself]
      exact hname₁))
    refine ⟨ident', v₄, _, ⟨hmatch₄, hcloses.calm hmem₃, ?_, ?_, a, ?_⟩, rfl, { hcoming₃ with }⟩
    · intro e' he'
      rcases List.mem_append.mp he' with hdone | hlast
      · obtain ⟨file, hfile', hbytes⟩ := h.stored e' hdone
        obtain ⟨j, -, -, -, hident, hisFile⟩ := named_file h.agree hfile'
        have hlt := h.agree.bytes.fresh _ hisFile
        rw [hident] at hlt
        refine ⟨file, (if_neg (hnew e' hdone)).trans hfile', ?_⟩
        show (if file = M.next then e.bytes else if file = M.next then _ else M.bytes file) = e'.bytes
        rw [if_neg (Nat.ne_of_lt hlt), if_neg (Nat.ne_of_lt hlt)]
        exact hbytes
      · obtain rfl := List.mem_singleton.mp hlast
        exact ⟨M.next, if_pos rfl, if_pos rfl⟩
    · intro name hsome
      have hsome' : ((if name = e.name then some M.next else M.names name) : Option Nat).isSome = true := hsome
      by_cases hname : name = e.name
      · exact ⟨e, mem_append_right _ mem_cons_self, hname.symm⟩
      · rw [if_neg hname] at hsome'
        obtain ⟨e', he', hn⟩ := h.only name hsome'
        exact ⟨e', mem_append_left _ he', hn⟩
    · rw [hmap₄, hmap₃]
      show s₁.freeMap.Run false a (space todo)
      rw [hmap₂]
      exact hroom

/-! ## Extracting the archive -/

theorem parse_zeros : ustarParseHeader (List.replicate 512 0) = .ok ⟨none, .eof, 0⟩ := by
  have hzeros : isAllZeros (List.replicate 512 0) = true := by
    unfold isAllZeros
    rw [List.all_eq_true]
    intro b hb
    rw [eq_of_mem_replicate hb]
    rfl
  unfold ustarParseHeader
  rw [if_pos hzeros]

theorem new_name (hnames : ((done ++ e :: todo).map Item.name).Nodup) : ∀ e' ∈ done, e'.name ≠ e.name := by
  intro e' he' heq
  rw [map_append, map_cons] at hnames
  exact (List.nodup_append.mp hnames).2.2 _ (List.mem_map_of_mem he') _ mem_cons_self heq

theorem append_cons_assoc : done ++ [e] ++ todo = done ++ e :: todo := by
  rw [List.append_assoc, singleton_append]

/-- One round of the loop puts the next file into the file system. -/
theorem extractLoop_step (n : Nat) (h : Target ident u.vol M done (e :: todo)) (hfit : Fit e)
    (hnames : ((done ++ e :: todo).map Item.name).Nodup) (hcount : (done ++ e :: todo).length ≤ SLOTS)
    (hcoming : Coming u (archive (e :: todo) ++ b)) :
    ∃ ident' u' M', extractLoop (n + 1) u = extractLoop n u' ∧ Target ident' u'.vol M' (done ++ [e]) todo ∧
      Coming u' (archive todo ++ b) ∧ u'.blocks = u.blocks := by
  obtain ⟨hlen, hparse⟩ := hfit.header
  rw [archive, archived, List.append_assoc, List.append_assoc] at hcoming
  obtain ⟨_, _, hrun, rfl, rfl, hcoming₁⟩ := extractBlock_ends hcoming hlen
  rw [length_append, length_cons] at hcount
  obtain ⟨_, _, hput, ident', v, M', htarget, rfl, hcoming₂⟩ := putFile_ends
    (u := { u with extractSector := u.extractSector + 1 }) h hfit (new_name hnames) (by omega) hcoming₁
  refine ⟨ident', _, M', ?_, htarget, hcoming₂, rfl⟩
  refine (Proc.bind_run hrun).trans ?_
  rw [hparse]
  exact Proc.bind_run hput

/-- **The loop of `fsutil_extract`** puts the files into the file system, one after the other, up to the zeros. -/
theorem extractLoop_ends (n : Nat) (h : Target ident u.vol M done todo) (hfits : ∀ e ∈ todo, Fit e)
    (hnames : ((done ++ todo).map Item.name).Nodup) (hcount : (done ++ todo).length ≤ SLOTS)
    (hcoming : Coming u (archive todo ++ List.replicate 512 0)) (hn : todo.length < n) :
    (extractLoop n).Ends u fun _ u' => u'.blocks = u.blocks ∧ ∃ ident' M', Target ident' u'.vol M' (done ++ todo) [] := by
  induction n generalizing u ident M done todo with
  | zero => exact absurd hn (Nat.not_lt_zero _)
  | succ n ih =>
    cases todo with
    | nil =>
      rw [archive, nil_append, ← append_nil (List.replicate 512 0)] at hcoming
      refine .bind (extractBlock_ends hcoming length_replicate) ?_
      rintro _ _ ⟨rfl, rfl, -⟩
      rw [parse_zeros, append_nil]
      exact .pure ⟨rfl, ident, M, h⟩
    | cons e todo =>
      obtain ⟨ident', u', M', hstep, htarget, hcoming', hblocks⟩ :=
        extractLoop_step n h (hfits e mem_cons_self) hnames hcount hcoming
      rw [← append_cons_assoc] at hnames hcount ⊢
      obtain ⟨r, u'', hrun, hblocks', hdone⟩ := ih htarget (fun e' he' => hfits e' (mem_cons_of_mem _ he')) hnames
        hcount hcoming' (Nat.lt_of_succ_lt_succ hn)
      exact ⟨r, u'', hstep.trans hrun, hblocks'.trans hblocks, hdone⟩

variable {msg : String}

/-- After the files there is a sector that is no header. -/
theorem extractLoop_stuck (n : Nat) (h : Target ident u.vol M done todo)
    (hfits : ∀ e ∈ todo, Fit e) (hnames : ((done ++ todo).map Item.name).Nodup) (hcount : (done ++ todo).length ≤ SLOTS)
    (hcoming : Coming u (archive todo ++ b)) (hb : b.length = 512) (hbad : ustarParseHeader b = .error msg) :
    extractLoop n u = none := by
  induction n generalizing u ident M done todo with
  | zero => rfl
  | succ n ih =>
    cases todo with
    | nil =>
      rw [archive, nil_append, ← append_nil b] at hcoming
      obtain ⟨_, u', hrun, rfl, -, -⟩ := extractBlock_ends hcoming hb
      refine (Proc.bind_run hrun).trans ?_
      rw [hbad]
      rfl
    | cons e todo =>
      obtain ⟨ident', u', M', hstep, htarget, hcoming', -⟩ :=
        extractLoop_step n h (hfits e mem_cons_self) hnames hcount hcoming
      rw [← append_cons_assoc] at hnames hcount
      exact hstep.trans (ih htarget (fun e' he' => hfits e' (mem_cons_of_mem _ he')) hnames hcount hcoming')

/-- The file system has these files, and no others. -/
structure Holding (v : Vol) (es : List Item) : Prop where
  holds : ∀ e ∈ es, HoldsFile v.device e.name e.bytes
  only : ∀ k < SLOTS, entryInUse (slot v.device k) = true → ∃ e ∈ es, e.name = entryName (slot v.device k)

theorem Target.holding (h : Target ident v M done todo) : Holding v done := by
  constructor
  case holds =>
    intro e he
    obtain ⟨file, hname, hbytes⟩ := h.stored e he
    obtain ⟨k, hk, huse, hkname, rfl, hisFile⟩ := named_file h.agree hname
    refine ⟨k, hk, huse, hkname, ?_, ?_⟩
    · rw [← h.agree.bytes.bytes _ hisFile]
      exact hbytes
    · intro j hj hjuse hjname
      exact h.agree.names.unique j hj k hk hjuse huse (hjname.trans hkname.symm)
  case only =>
    intro k hk huse
    exact h.only _ ((h.agree.names.isSome_iff _).mpr ⟨k, hk, huse, rfl⟩)

/-- **`fsutil_extract`** of an archive that ends with zeros. -/
theorem fsutilExtract_ends (h : Target ident u.vol M [] todo) (hfits : ∀ e ∈ todo, Fit e)
    (hnames : (todo.map Item.name).Nodup) (hcount : todo.length ≤ SLOTS) (hblocks : 1 < u.blocks)
    (hcoming : Coming u (archive todo ++ List.replicate 512 0)) (hfuel : todo.length + u.extractSector ≤ u.blocks) :
    fsutilExtract.Ends u fun _ u' => Holding u'.vol todo := by
  have hzeros : (List.replicate BLOCK_SECTOR_SIZE (0 : UInt8)).length = 512 := length_replicate
  refine .bind (onVol_ends (malloc_ends h.mem)) ?_
  rintro _ _ ⟨_, rfl, rfl, rfl⟩
  refine .bind (onVol_ends (malloc_ends h.mem)) ?_
  rintro _ _ ⟨_, rfl, rfl, rfl⟩
  apply Proc.Ends.assert ⟨rfl, rfl⟩
  apply Proc.Ends.get
  refine .bind (extractLoop_ends _ h hfits hnames hcount hcoming ?_) ?_
  · show todo.length < u.blocks + 1 - u.extractSector
    omega
  rintro _ u' ⟨hblocks', ident', M', htarget⟩
  have hblocks'' : u'.blocks = u.blocks := hblocks'
  apply Proc.Ends.step (writeScratch_run (by omega) hzeros)
  exact ⟨(), _, writeScratch_run (show 1 < u'.blocks by omega) hzeros, htarget.holding⟩

theorem fsutilExtract_stuck (h : Target ident u.vol M [] todo) (hfits : ∀ e ∈ todo, Fit e)
    (hnames : (todo.map Item.name).Nodup) (hcount : todo.length ≤ SLOTS) (hcoming : Coming u (archive todo ++ b))
    (hb : b.length = 512) (hbad : ustarParseHeader b = .error msg) : fsutilExtract u = none := by
  obtain ⟨_, _, hmalloc, _, rfl, rfl, rfl⟩ := onVol_ends (malloc_ends h.mem)
  refine (Proc.bind_run hmalloc).trans ((Proc.bind_run hmalloc).trans ?_)
  show (extractLoop (u.blocks + 1 - u.extractSector) u).bind _ = none
  rw [extractLoop_stuck _ h hfits hnames hcount hcoming hb hbad]
  rfl

end

end

/-- What the model has for a file system without names. -/
def unnamed (t : Vol) : Model where
  names := fun _ => none
  bytes := contents t.device
  handles := fun f => if User t f then some (t.sectorOf f, (t.file f).pos) else none
  next := t.blocks

theorem match_unnamed (hinv : Inv t []) (hunused : ∀ k < SLOTS, entryInUse (slot t.device k) = false)
    (hallows : ∀ f ∈ t.files, (t.file f).denyWrite = false) : Match id t (unnamed t) where
  inv := hinv
  handles := ⟨hallows, fun _ hf => if_pos hf, fun _ hf => if_neg hf⟩
  names := by
    have hnot : ∀ k < SLOTS, entryInUse (slot t.device k) ≠ true := by
      intro k hk
      rw [hunused k hk]
      decide
    exact ⟨fun k hk _ _ huse => absurd huse (hnot k hk), fun k hk huse => absurd huse (hnot k hk), fun _ _ => rfl⟩
  bytes := ⟨fun _ _ => rfl, fun _ _ _ _ heq => heq,
    fun x hx => (hinv.layout.owns.cover (.header x) hx.live x rfl).1⟩

/-! ## Appending and extracting -/

/-- The files are appended to an empty archive, which is then as it should be, and is extracted into another file
    system. -/
def RoundTrip (s t : Vol) (scratch : Device) (blocks : Nat) (es : List Item) : Prop :=
  ∃ u, appendAll es ⟨{ s with mem := [] }, scratch, blocks, 0, 0⟩ = some ((), u) ∧
    slice u.scratch 0 (archive es).length = archive es ∧
    slice u.scratch (archive es).length 1024 = List.replicate 1024 0 ∧
    ∃ w, fsutilExtract { u with vol := { t with mem := [] } } = some ((), w) ∧ Holding w.vol es

/-- What the end of the archive depends on: the byte after the buffer at the last append, and the second of the two
    sectors, which nobody writes. -/
structure EndsInZeros (scratch : Device) (es : List Item) : Prop where
  none : es = [] → slice scratch 0 512 = List.replicate 512 0
  last : ∀ e, es.getLast? = some e → e.after = 0
  next : slice scratch ((archive es).length + 512) 512 = List.replicate 512 0

theorem ending_eq (es : List Item) :
    (es = [] ∧ ending es = []) ∨ ∃ e, es.getLast? = some e ∧ es ≠ [] ∧ ending es = endBytes e.after := by
  induction es with
  | nil => exact .inl ⟨rfl, rfl⟩
  | cons e es ih =>
    right
    rcases ih with ⟨rfl, -⟩ | ⟨e', hlast, hne, hending⟩
    · exact ⟨e, rfl, cons_ne_nil _ _, rfl⟩
    · cases es with
      | nil => exact absurd rfl hne
      | cons a es =>
        refine ⟨e', ?_, cons_ne_nil _ _, hending⟩
        exact hlast

theorem endBytes_zeros (after : UInt8) : endBytes after = List.replicate 512 0 ↔ after = 0 := by
  have hzeros : List.replicate 512 (0 : UInt8) = endBytes 0 := by
    rw [endBytes, show BLOCK_SECTOR_SIZE - 1 = 511 from rfl, List.replicate_succ' (n := 511)]
  rw [hzeros]
  constructor
  · intro h
    have hsingle := append_cancel_left h
    exact (List.cons.inj hsingle).1
  · rintro rfl
    rfl

/-- The two sectors after the archive, once it has been written. -/
theorem twoZeros_iff (scratch : Device) (es : List Item) :
    slice (patch scratch 0 (archive es ++ ending es)) (archive es).length 1024 = List.replicate 1024 0 ↔
      EndsInZeros scratch es := by
  have hsplit : List.replicate 1024 (0 : UInt8) = List.replicate 512 0 ++ List.replicate 512 0 := by
    rw [replicate_append_replicate]
  have hpatch : patch scratch 0 (archive es ++ ending es) =
      patch (patch scratch 0 (archive es)) (archive es).length (ending es) := by
    rw [← patch_append, Nat.zero_add]
  have hshort : (ending es).length ≤ 512 := by
    rcases ending_eq es with ⟨-, hending⟩ | ⟨e, -, -, hending⟩
    · rw [hending]
      exact Nat.zero_le _
    · rw [hending, length_endBytes]
  have hsecond : slice (patch scratch 0 (archive es ++ ending es)) ((archive es).length + 512) 512 =
      slice scratch ((archive es).length + 512) 512 := by
    rw [hpatch, slice_patch_other (.inr (by omega)), slice_patch_other (.inr (by omega))]
  have hfirst : slice (patch scratch 0 (archive es ++ ending es)) (archive es).length 512 = List.replicate 512 0 ↔
      (es = [] → slice scratch 0 512 = List.replicate 512 0) ∧ ∀ e, es.getLast? = some e → e.after = 0 := by
    rcases ending_eq es with ⟨rfl, hending⟩ | ⟨e, hlast, hne, hending⟩
    · constructor
      · intro h
        refine ⟨fun _ => h, ?_⟩
        intro e he
        cases he
      · exact fun h => h.1 rfl
    · have hself : slice (patch (patch scratch 0 (archive es)) (archive es).length (endBytes e.after)) _ _ = _ :=
        slice_patch_self
      rw [length_endBytes] at hself
      rw [hpatch, hending, hself, endBytes_zeros]
      constructor
      · intro h
        refine ⟨fun hnil => absurd hnil hne, ?_⟩
        intro e' he'
        rw [hlast, Option.some.injEq] at he'
        rw [← he']
        exact h
      · exact fun h => h.2 e hlast
  have hadd : slice (patch scratch 0 (archive es ++ ending es)) (archive es).length 1024 =
      slice (patch scratch 0 (archive es ++ ending es)) (archive es).length 512 ++
        slice scratch ((archive es).length + 512) 512 := by
    rw [← hsecond]
    exact slice_add (n := 512) (m := 512)
  rw [hadd, hsplit]
  constructor
  · intro h
    obtain ⟨h₁, h₂⟩ := append_inj h (by rw [length_slice, length_replicate])
    exact ⟨(hfirst.mp h₁).1, (hfirst.mp h₁).2, h₂⟩
  · intro h
    rw [hfirst.mpr ⟨h.none, h.last⟩, h.next]

/-- Distinct files have entries of their own. -/
theorem length_le_slots (hholds : ∀ e ∈ es, HoldsFile d e.name e.bytes)
    (hnames : (es.map Item.name).Nodup) : es.length ≤ SLOTS := by
  have hsubset : es.map Item.name ⊆ (List.range SLOTS).map fun k => entryName (slot d k) := by
    intro name hname
    obtain ⟨e, he, rfl⟩ := List.mem_map.mp hname
    obtain ⟨k, hk, -, hkname, -⟩ := hholds e he
    exact List.mem_map.mpr ⟨k, List.mem_range.mpr hk, hkname⟩
  have hle := (subperm_of_subset hnames hsubset).length_le
  rw [length_map, length_map, length_range] at hle
  exact hle

theorem length_le_archiveSectors (es : List Item) : es.length ≤ archiveSectors es := by
  induction es with
  | nil => exact Nat.le_refl _
  | cons e es ih =>
    rw [length_cons, archiveSectors]
    omega

/-- The archive and a sector after it come next. -/
theorem coming_of_slice {blocks : Nat} (hscratch : u.scratch = d)
    (hsize : u.blocks = blocks) (hcursor : u.extractSector = 0) (hfirst : slice d 0 (archive es).length = archive es)
    (hnext : slice d (archive es).length b.length = b) (hroom : (archive es).length + b.length ≤ blocks * 512) (v : Vol) :
    Coming { u with vol := v } (archive es ++ b) := by
  constructor
  case bytes =>
    rw [hscratch, hcursor, Nat.zero_mul, length_append, slice_add, hfirst, Nat.zero_add, hnext]
  case room =>
    rw [hcursor, hsize, Nat.zero_mul, length_append, Nat.zero_add]
    exact hroom

/-- What is written first is there, and then its end. -/
theorem slice_archive (scratch : Device) (es : List Item) :
    slice (patch scratch 0 (archive es ++ ending es)) 0 (archive es).length = archive es := by
  rw [← patch_append, slice_patch_other (.inl (Nat.le_refl _)), slice_patch_self]

theorem slice_ending (scratch : Device) (es : List Item) :
    slice (patch scratch 0 (archive es ++ ending es)) (archive es).length (ending es).length = ending es := by
  rw [← patch_append, Nat.zero_add, slice_patch_self]

/-- A file system without files, to extract an archive into. -/
theorem target_empty (ht : Runs WritesAhead t)
    (hempty : ∀ k < SLOTS, entryInUse (slot t.device k) = false) (hallows : ∀ f ∈ t.files, (t.file f).denyWrite = false)
    (hspace : ∃ a, t.freeMap.Run false a (space es)) :
    Target id { t with mem := [] } (unnamed { t with mem := [] }) [] es :=
  ⟨match_unnamed ((inv_of_runs ht).setMem []) hempty hallows, rfl, fun _ he => absurd he not_mem_nil,
    fun _ hsome => absurd hsome Bool.false_ne_true, hspace⟩

/-- **An archive is written and read back** exactly if the sectors at its end are zero because they were zero before. -/
theorem archive_round_trip {s t : Vol} {scratch : Device} {blocks : Nat} {es : List Item} (hs : Runs WritesAhead s)
    (hholds : ∀ e ∈ es, HoldsFile s.device e.name e.bytes) (hnames : (es.map Item.name).Nodup)
    (hstrip : ∀ e ∈ es, stripAntisocialPrefixes e.name = e.name) (hblocks : archiveSectors es + 2 ≤ blocks)
    (ht : Runs WritesAhead t) (hempty : ∀ k < SLOTS, entryInUse (slot t.device k) = false)
    (hallows : ∀ f ∈ t.files, (t.file f).denyWrite = false) (hspace : ∃ a, t.freeMap.Run false a (space es)) :
    RoundTrip s t scratch blocks es ↔ EndsInZeros scratch es := by
  have hinv := (inv_of_runs hs).setMem []
  have harchivable : ∀ e ∈ es, Archivable s.device e := fun e he =>
    archivable (inv_of_runs hs) (hholds e he) (hstrip e he)
  have hlength := length_archive (fun e he => (harchivable e he).toFit)
  have hends := appendAll_start scratch blocks hinv rfl harchivable (by omega)
  constructor
  · rintro ⟨u, hrun, -, hzeros, -⟩
    obtain ⟨hscratch, -⟩ := hends.of_run hrun
    rw [hscratch] at hzeros
    exact (twoZeros_iff scratch es).mp hzeros
  · intro h
    have htwo := (twoZeros_iff scratch es).mpr h
    obtain ⟨_, u, hrun, hscratch, hsize, hcursor⟩ := hends
    refine ⟨u, hrun, ?_, ?_, ?_⟩
    · rw [hscratch]
      exact slice_archive scratch es
    · rw [hscratch]
      exact htwo
    · have hone : slice (patch scratch 0 (archive es ++ ending es)) (archive es).length (List.replicate 512 (0 : UInt8)).length =
          List.replicate 512 0 := by
        have htake := congrArg (List.take 512) htwo
        rw [take_slice, take_replicate] at htake
        rw [length_replicate]
        exact htake
      have hroom : (archive es).length + (List.replicate 512 (0 : UInt8)).length ≤ blocks * 512 := by
        rw [length_replicate]
        omega
      have hcoming : Coming { u with vol := { t with mem := [] } } (archive es ++ List.replicate 512 0) :=
        coming_of_slice hscratch hsize hcursor (slice_archive scratch es) hone hroom _
      have hle := length_le_archiveSectors es
      obtain ⟨_, w, hextract, hholding⟩ := fsutilExtract_ends (u := { u with vol := { t with mem := [] } })
        (target_empty ht hempty hallows hspace)
        (fun e he => (harchivable e he).toFit) hnames (length_le_slots hholds hnames)
        (show 1 < u.blocks by omega) hcoming (show es.length + u.extractSector ≤ u.blocks by omega)
      exact ⟨w, hextract, hholding⟩

/-! ## One file -/

instance decideHoldsFile (d : Device) (name l : List UInt8) : Decidable (HoldsFile d name l) :=
  inferInstanceAs (Decidable (∃ k < SLOTS, _ ∧ _ ∧ _ ∧ ∀ j < SLOTS, _ → _ → j = k))

/-- The calls that make a file of three bytes. -/
def makeA : List (Call × List Bool) := [(.create fileA 3, []), (.open fileA, []), (.write 9 [1, 2, 3] 3, []), (.close 9, [])]

/-- It is appended with this byte after the buffer. -/
def itemA (after : UInt8) : Item := ⟨fileA, [1, 2, 3], after⟩

theorem slice_const {β : Type} (z : β) (a n : Nat) : slice (fun _ => z) a n = List.replicate n z := by
  unfold slice
  rw [map_const', length_range]

/-- A device with that file on it. -/
theorem sixteen_holdsA : ∃ s, Runs WritesAhead s ∧ HoldsFile s.device fileA [1, 2, 3] := by
  obtain ⟨s, hs, hholds⟩ := runs_sixteen WritesAhead makeA (fun s => decide (HoldsFile s.device fileA [1, 2, 3]))
    (by decide +kernel)
  exact ⟨s, hs, of_decide_eq_true hholds⟩

/-- A device without files. -/
theorem sixteen_empty : ∃ t, Runs WritesAhead t ∧ (∀ k < SLOTS, entryInUse (slot t.device k) = false) ∧
    (∀ f ∈ t.files, (t.file f).denyWrite = false) ∧ t.freeMap.Run false 4 2 := by
  obtain ⟨t, ht, hfacts⟩ := runs_sixteen WritesAhead [] (fun t =>
    decide (∀ k < SLOTS, entryInUse (slot t.device k) = false) && (t.files.all (fun f => !(t.file f).denyWrite) &&
      decide (t.freeMap.bitCnt = 16 ∧ t.freeMap.bit 4 = false ∧ t.freeMap.bit 5 = false))) (by decide +kernel)
  simp only [Bool.and_eq_true] at hfacts
  obtain ⟨hempty, hall, hmap⟩ := hfacts
  obtain ⟨hcnt, hfour, hfive⟩ := of_decide_eq_true hmap
  refine ⟨t, ht, of_decide_eq_true hempty, ?_, ?_, ?_⟩
  · exact fun f hf => (Bool.not_eq_true' _).mp (List.all_eq_true.mp hall f hf)
  · omega
  · intro j hj hj'
    rcases show j = 4 ∨ j = 5 by omega with rfl | rfl
    · exact hfour
    · exact hfive

theorem fitA (after : UInt8) : Fit (itemA after) where
  strip := show stripAntisocialPrefixes fileA = fileA by decide
  short := show fileA.length ≤ NAME_MAX by decide
  zero := show (0 : UInt8) ∉ fileA by decide
  length_lt := show 3 < 2 ^ 31 by decide

theorem archive_round_trip_oneFile :
    ∃ s t, HoldsFile s.device fileA [1, 2, 3] ∧ RoundTrip s t (fun _ => 0) 4 [itemA 0] := by
  obtain ⟨s, hs, hholds⟩ := sixteen_holdsA
  obtain ⟨t, ht, hempty, hallows, hrun⟩ := sixteen_empty
  have hiff : RoundTrip s t (fun _ => 0) 4 [itemA 0] ↔ EndsInZeros (fun _ => 0) [itemA 0] := by
    refine archive_round_trip hs ?_ (nodup_singleton _) ?_ (by decide) ht hempty hallows ⟨4, hrun⟩
    · intro e he
      rw [List.mem_singleton.mp he]
      exact hholds
    · intro e he
      rw [List.mem_singleton.mp he]
      exact (fitA 0).strip
  refine ⟨s, t, hholds, hiff.mpr ⟨?_, ?_, slice_const _ _ _⟩⟩
  · intro hnil
    cases hnil
  · intro e he
    cases he
    rfl

/-- **The end of the archive is not what it should be.** With a byte other than zero after the buffer the archive cannot
    be extracted; and the second sector of the end is what it was on the scratch device before. -/
theorem append_misses_end_marker :
    ∃ s t, Runs WritesAhead s ∧ Runs WritesAhead t ∧ HoldsFile s.device fileA [1, 2, 3] ∧
      (∀ k < SLOTS, entryInUse (slot t.device k) = false) ∧
      (∃ u, appendAll [itemA 7] ⟨{ s with mem := [] }, fun _ => 0, 4, 0, 0⟩ = some ((), u) ∧ u.scratch 1535 = 7 ∧
        fsutilExtract { u with vol := { t with mem := [] } } = none) ∧
      ∃ u, appendAll [itemA 0] ⟨{ s with mem := [] }, fun _ => 1, 4, 0, 0⟩ = some ((), u) ∧ u.scratch 1536 = 1 := by
  obtain ⟨s, hs, hholds⟩ := sixteen_holdsA
  obtain ⟨t, ht, hempty, hallows, hrun⟩ := sixteen_empty
  have hinv := (inv_of_runs hs).setMem []
  have harchivable : ∀ after, ∀ e ∈ [itemA after], Archivable s.device e := by
    intro after e he
    rw [List.mem_singleton.mp he]
    exact ⟨fitA after, hholds⟩
  have hlength : ∀ after, (archive [itemA after]).length = 1024 := fun after =>
    (length_archive fun e he => (harchivable after e he).toFit).trans (show 512 * archiveSectors [itemA 0] = 1024 by decide)
  have hending : ∀ after, (ending [itemA after]).length = 512 := length_endBytes
  refine ⟨s, t, hs, ht, hholds, hempty, ?_, ?_⟩
  · obtain ⟨_, u, happend, hscratch, hsize, hcursor⟩ := appendAll_start (fun _ => 0) 4 hinv rfl (harchivable 7) (by decide)
    refine ⟨u, happend, ?_, ?_⟩
    · rw [hscratch, ← patch_append, hlength, Nat.zero_add, patch_getD (by decide) (by rw [hending]; decide) 0]
      decide +kernel
    · have hcoming : Coming { u with vol := { t with mem := [] } } (archive [itemA 7] ++ endBytes 7) :=
        coming_of_slice hscratch hsize hcursor (slice_archive _ _) (slice_ending _ _)
          (by rw [hlength, hending]; decide) _
      have htarget : Target id { t with mem := [] } (unnamed { t with mem := [] }) [] [itemA 7] :=
        target_empty ht hempty hallows ⟨4, hrun⟩
      have hbad : ustarParseHeader (endBytes 7) = .error "not a ustar archive" := by decide +kernel
      exact fsutilExtract_stuck (u := { u with vol := { t with mem := [] } }) htarget
        (fun e he => (harchivable 7 e he).toFit) (nodup_singleton _) (by decide) hcoming (length_endBytes 7) hbad
  · obtain ⟨_, u, happend, hscratch, -, -⟩ := appendAll_start (fun _ => 1) 4 hinv rfl (harchivable 0) (by decide)
    refine ⟨u, happend, ?_⟩
    rw [hscratch, patch_outside]
    rw [length_append, hlength, hending]
    exact .inr (Nat.le_refl _)

end Fsutil
end Asg1
