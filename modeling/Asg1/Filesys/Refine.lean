import Asg1.Filesys.Ownership

/-!
# `Filesys.Refine` — files are byte arrays

The abstract model has an array of bytes for every file that was ever made, a map from names to files, and for every open
handle a file and a position. There are no sectors in it: a removed file loses its name and nothing else, and a file that
is made later under the same name is another array. `files_are_byte_arrays` says that, whatever calls are made on a
formatted device, each of them returns what the model allows.

`Match` relates the two. `ident` gives the array for the sector of an inode; it is one-to-one on the sectors that are in
use by files, so when a sector is used again it gets a new array.
-/

namespace Asg1
namespace Volume

open Filesys Flat

/-! ## The abstract model -/

/-- The files by number: who has a name, what is in them, and where the handles are. -/
structure Model where
  names : List UInt8 → Option Nat
  bytes : Nat → List UInt8
  handles : Addr → Option (Nat × Nat)
  next : Nat

namespace Model

/-- No file, no handle. -/
def empty : Model := ⟨fun _ => none, fun _ => [], fun _ => none, 0⟩

def setName (M : Model) (name : List UInt8) (file : Option Nat) : Model :=
  { M with names := fun n => if n = name then file else M.names n }

def setBytes (M : Model) (file : Nat) (l : List UInt8) : Model :=
  { M with bytes := fun n => if n = file then l else M.bytes n }

def setHandle (M : Model) (f : Addr) (handle : Option (Nat × Nat)) : Model :=
  { M with handles := fun g => if g = f then handle else M.handles g }

/-- A new file, with zeros in it. -/
def create (M : Model) (name : List UInt8) (size : Nat) : Model :=
  { (M.setName name (some M.next)).setBytes M.next (List.replicate size 0) with next := M.next + 1 }

/-- What is read from an array at an offset. -/
def readAt (l : List UInt8) (size offset : Int) : List UInt8 :=
  if offset < 0 then [] else (l.drop offset.toNat).take size.toNat

/-- How much can be written to an array at an offset. -/
def room (l : List UInt8) (size offset : Int) : Nat :=
  if offset < 0 then 0 else min size.toNat (l.length - offset.toNat)

/-- The model after a call with this result, if the result is one that the model allows. -/
def step (M : Model) : Call → Result → Option Model
  | .create name initialSize, .success true =>
    if name ≠ [] ∧ name.length ≤ NAME_MAX ∧ M.names name = none then some (M.create name initialSize.toNat) else none
  | .create _ _, .success false => some M
  | .open name, .handle none => if M.names name = none then some M else none
  | .open name, .handle (some f) =>
    if M.handles f = none then (M.names name).map (fun file => M.setHandle f (some (file, 0))) else none
  | .remove name, .success b => if b = (M.names name).isSome then some (M.setName name none) else none
  | .close f, .unit => some (M.setHandle f none)
  | .read f size, .bytes l =>
    (M.handles f).bind fun h =>
      if l = readAt (M.bytes h.1) size h.2 then some (M.setHandle f (some (h.1, h.2 + l.length))) else none
  | .readAt f size offset, .bytes l =>
    (M.handles f).bind fun h => if l = readAt (M.bytes h.1) size offset then some M else none
  | .write f buffer size, .size n =>
    (M.handles f).bind fun h =>
      if n = room (M.bytes h.1) size h.2 then
        some ((M.setBytes h.1 (overwrite (M.bytes h.1) h.2 (buffer.take n))).setHandle f (some (h.1, h.2 + n)))
      else none
  | .writeAt f buffer size offset, .size n =>
    (M.handles f).bind fun h =>
      if n = room (M.bytes h.1) size offset then
        some (M.setBytes h.1 (overwrite (M.bytes h.1) offset.toNat (buffer.take n)))
      else none
  | .seek f pos, .unit => (M.handles f).map fun h => M.setHandle f (some (h.1, pos.toNat))
  | _, _ => none

/-- The calls that the model is about, with handles that are open in it. -/
def Legal (M : Model) : Call → Prop
  | .create name initialSize => 0 ∉ name ∧ 0 ≤ initialSize ∧ initialSize < 2147483648
  | .open name => 0 ∉ name
  | .remove name => 0 ∉ name
  | .close f => (M.handles f).isSome = true
  | .read f size => (M.handles f).isSome = true ∧ size < 2147483648
  | .readAt f size offset => (M.handles f).isSome = true ∧ size < 2147483648 ∧ offset < 2147483648
  | .write f buffer size => (M.handles f).isSome = true ∧ size < 2147483648 ∧ size.toNat ≤ buffer.length
  | .writeAt f buffer size offset =>
    (M.handles f).isSome = true ∧ size < 2147483648 ∧ size.toNat ≤ buffer.length ∧ offset < 2147483648
  | .seek f pos => (M.handles f).isSome = true ∧ 0 ≤ pos ∧ pos < 2147483648
  | _ => False

instance decideLegal (M : Model) : (c : Call) → Decidable (M.Legal c)
  | .create .. | .readAt .. | .write .. | .seek .. => inferInstanceAs (Decidable (_ ∧ _ ∧ _))
  | .open _ | .remove _ => inferInstanceAs (Decidable (_ ∉ _))
  | .close _ => inferInstanceAs (Decidable (_ = _))
  | .read .. => inferInstanceAs (Decidable (_ ∧ _))
  | .writeAt .. => inferInstanceAs (Decidable (_ ∧ _ ∧ _ ∧ _))
  | .reopen _ | .denyWrite _ | .allowWrite _ | .tell _ | .length _ | .openRoot | .reopenDir _ | .closeDir _
  | .readdir _ => isFalse fun h => h

end Model

/-- The calls are made one after the other, with enough memory, and the model follows. The answer is whether all of them
    return and the model allows every result. The sequence ends at a call that may not be made. -/
def agrees (G : Call → Prop) [DecidablePred G] : Vol → Model → List Call → Bool
  | _, _, [] => true
  | s, M, c :: cs =>
    if M.Legal c ∧ G c then
      match call c { s with mem := [] } with
      | none => false
      | some (r, s') =>
        match M.step c r with
        | none => false
        | some M' => agrees G s' M' cs
    else true

/-- Neither `file_read_at` nor `file_write_at` is called with a negative offset. -/
def Ahead : Call → Prop
  | .readAt _ _ offset => 0 ≤ offset
  | .writeAt _ _ _ offset => 0 ≤ offset
  | _ => True

instance decideAhead : (c : Call) → Decidable (Ahead c)
  | .readAt .. | .writeAt .. => inferInstanceAs (Decidable (0 ≤ _))
  | .create .. | .open _ | .remove _ | .close _ | .reopen _ | .read .. | .write .. | .denyWrite _
  | .allowWrite _ | .seek .. | .tell _ | .length _ | .openRoot | .reopenDir _ | .closeDir _ | .readdir _ => isTrue trivial

/-! ## The relation -/

/-- The sector has the inode of a file: neither the free map nor the root directory. -/
structure IsFile (s : Vol) (x : Nat) : Prop where
  live : Live s x
  notMap : x ≠ FREE_MAP_SECTOR
  notRoot : x ≠ ROOT_DIR_SECTOR

/-- The handles of the model are the open files of the users. -/
structure HandlesMatch (ident : Nat → Nat) (s : Vol) (handles : Addr → Option (Nat × Nat)) : Prop where
  allows : ∀ f ∈ s.files, (s.file f).denyWrite = false
  opened : ∀ f, User s f → handles f = some (ident (s.sectorOf f), (s.file f).pos)
  closed : ∀ f, ¬ User s f → handles f = none

/-- The names of the model are those in the root directory, and each is there once. -/
structure NamesMatch (ident : Nat → Nat) (d : Device) (names : List UInt8 → Option Nat) : Prop where
  unique : ∀ k < SLOTS, ∀ l < SLOTS, entryInUse (slot d k) = true → entryInUse (slot d l) = true →
    entryName (slot d k) = entryName (slot d l) → k = l
  named : ∀ k < SLOTS, entryInUse (slot d k) = true → names (entryName (slot d k)) = some (ident (entrySector (slot d k)))
  absent : ∀ name, ¬ Named d name → names name = none

/-- Every file has its own array in the model, with the bytes that are on the device. -/
structure BytesMatch (ident : Nat → Nat) (s : Vol) (bytes : Nat → List UInt8) (next : Nat) : Prop where
  bytes : ∀ x, IsFile s x → bytes (ident x) = contents s.device x
  inj : ∀ x y, IsFile s x → IsFile s y → ident x = ident y → x = y
  fresh : ∀ x, IsFile s x → ident x < next

/-- **The file system and the model match.** -/
structure Match (ident : Nat → Nat) (s : Vol) (M : Model) : Prop where
  inv : Inv s []
  handles : HandlesMatch ident s M.handles
  names : NamesMatch ident s.device M.names
  bytes : BytesMatch ident s M.bytes M.next

section
variable {s s' : Vol} {M : Model} {ident ident' : Nat → Nat} {f : Addr} {handles : Addr → Option (Nat × Nat)}
  {names : List UInt8 → Option Nat} {bytes : Nat → List UInt8} {next : Nat}

theorem Inv.isFile_user (h : Inv s []) (hf : User s f) : IsFile s (s.sectorOf f) :=
  ⟨h.live_file hf.1, (h.user_sector hf).1, (h.user_sector hf).2⟩

variable {k sector size : Nat} {offset : Int} {new : Nat → Prop} {d : Device} {mem : List Bool}

theorem Inv.isFile_slot (h : Inv s []) (hk : k < SLOTS) (huse : entryInUse (slot s.device k) = true) :
    IsFile s (entrySector (slot s.device k)) := by
  have hu : Uses s.device k (entrySector (slot s.device k)) := ⟨hk, huse, rfl⟩
  exact ⟨live_slot hu, (h.layout.slot_file k _ hu).1, (h.layout.slot_file k _ hu).2⟩

/-! ### Steps that change nothing -/

/-- A step that keeps the open files keeps the handles. The new array of a sector matters only if a file is open there. -/
theorem HandlesMatch.steady (h : HandlesMatch ident s handles) (hm : Mem s [])
    (hstep : Steady new s s') (hident : ∀ g, User s g → ident' (s.sectorOf g) = ident (s.sectorOf g)) :
    HandlesMatch ident' s' handles := by
  have huser : ∀ g, User s' g ↔ User s g := by
    intro g
    unfold User
    rw [hstep.files, hstep.freeMapFile]
  have hfile : ∀ g ∈ s.files, s'.file g = s.file g := fun g hg => hstep.file g (hm.file_lt g hg)
  have hsector : ∀ g ∈ s.files, s'.sectorOf g = s.sectorOf g := by
    intro g hg
    unfold Vol.sectorOf
    rw [hfile g hg]
    exact (hstep.inode _ (hm.inode_lt _ (hm.listed hg))).1
  constructor
  case allows =>
    intro g hg
    rw [hstep.files] at hg
    rw [hfile g hg]
    exact h.allows g hg
  case opened =>
    intro g hg
    have hg' := (huser g).mp hg
    rw [hfile g hg'.1, hsector g hg'.1, hident g hg']
    exact h.opened g hg'
  case closed => exact fun g hg => h.closed g (fun hg' => hg ((huser g).mpr hg'))
variable {name : List UInt8} {d d' : Device} {i : Addr} {s : Vol}


theorem named_congr (h : ∀ k < SLOTS, slot d' k = slot d k) (name : List UInt8) : Named d' name ↔ Named d name := by
  constructor
  · rintro ⟨k, hk, hn⟩
    exact ⟨k, hk, by rw [← h k hk]; exact hn⟩
  · rintro ⟨k, hk, hn⟩
    exact ⟨k, hk, by rw [h k hk]; exact hn⟩

theorem NamesMatch.congr (h : NamesMatch ident d names) (hslots : ∀ k < SLOTS, slot d' k = slot d k) :
    NamesMatch ident d' names := by
  constructor
  case unique =>
    intro k hk l hl
    rw [hslots k hk, hslots l hl]
    exact h.unique k hk l hl
  case named =>
    intro k hk
    rw [hslots k hk]
    exact h.named k hk
  case absent => exact fun name hn => h.absent name (fun hn' => hn ((named_congr hslots name).mpr hn'))

/-- Files may go, as long as the others stay as they are. -/
theorem BytesMatch.keep (h : BytesMatch ident s bytes next)
    (hkeep : ∀ x, IsFile s' x → IsFile s x ∧ contents s'.device x = contents s.device x) :
    BytesMatch ident s' bytes next := by
  constructor
  case bytes =>
    intro x hx
    obtain ⟨hx', hsame⟩ := hkeep x hx
    rw [hsame]
    exact h.bytes x hx'
  case inj => exact fun x y hx hy => h.inj x y (hkeep x hx).1 (hkeep y hy).1
  case fresh => exact fun x hx => h.fresh x (hkeep x hx).1

theorem Steady.isFile (h : Steady new s s') {x : Nat} (hx : IsFile s' x) (hold : ¬ new x) :
    IsFile s x ∧ contents s'.device x = contents s.device x := by
  have hlive : Live s x := (h.live x hx.live).resolve_left hold
  exact ⟨⟨hlive, hx.notMap, hx.notRoot⟩, (h.intact x hx.live hold hx.notMap hx.notRoot).contents⟩

/-- A new file has zeros in it. -/
theorem Entered.contents (h : Entered s s' name size sector) : contents s'.device sector = List.replicate size 0 := by
  have hsectors := le_bytesToSectors (inodeDisk s'.device sector).length_lt
  unfold Volume.contents
  rw [List.eq_replicate_iff, length_slice]
  refine ⟨h.length, ?_⟩
  intro b hb
  obtain ⟨i, hi, rfl⟩ := List.mem_map.mp hb
  rw [List.mem_range] at hi
  apply h.zeros
  unfold extent
  omega

theorem Still.slots (h : Still s s') (hlayout : Layout s) (k : Nat) (hk : k < SLOTS) :
    slot s'.device k = slot s.device k :=
  (h.intact _ (live_root s') (by decide)).slot hlayout hk

theorem Match.still (h : Match ident s M) (hinv : Inv s' []) (hstill : Still s s') : Match ident s' M where
  inv := hinv
  handles := h.handles.steady h.inv.toMem (hstill.steady (fun _ => False)) (fun _ _ => rfl)
  names := h.names.congr (hstill.slots h.inv.layout)
  bytes := h.bytes.keep (fun _ hx => (hstill.steady (fun _ => False)).isFile hx (fun hfalse => hfalse))

/-! ### Names -/

theorem NamesMatch.isSome_iff (h : NamesMatch ident d names) (name : List UInt8) :
    (names name).isSome = true ↔ Named d name := by
  constructor
  · intro hsome
    by_contra hnot
    rw [h.absent name hnot] at hsome
    cases hsome
  · rintro ⟨k, hk, huse, rfl⟩
    rw [h.named k hk huse]
    rfl

/-- A new entry for a name that was not there. -/
theorem NamesMatch.add (h : NamesMatch ident d names) {file : Nat}
    (hfree : ¬ Named d name) (hempty : entryInUse (slot d k) = false) (huse : entryInUse (slot d' k) = true) (hname : entryName (slot d' k) = name)
    (hother : ∀ l < SLOTS, l ≠ k → slot d' l = slot d l) (hk : k < SLOTS)
    (hnew : ident' (entrySector (slot d' k)) = file)
    (hold : ∀ l < SLOTS, entryInUse (slot d l) = true → ident' (entrySector (slot d l)) = ident (entrySector (slot d l))) :
    NamesMatch ident' d' (fun n => if n = name then some file else names n) := by
  have hne : ∀ l < SLOTS, l ≠ k → entryInUse (slot d' l) = true → entryName (slot d' l) ≠ name := by
    intro l hl hlk hul hnl
    rw [hother l hl hlk] at hul hnl
    exact hfree ⟨l, hl, hul, hnl⟩
  constructor
  case unique =>
    intro l hl m hm hul hum hsame
    by_cases hlk : l = k
    · by_contra hlm
      have hmk : m ≠ k := fun hmk => hlm (hlk.trans hmk.symm)
      rw [hlk, hname] at hsame
      exact hne m hm hmk hum hsame.symm
    · by_cases hmk : m = k
      · rw [hmk, hname] at hsame
        exact absurd hsame (hne l hl hlk hul)
      · rw [hother l hl hlk] at hul hsame
        rw [hother m hm hmk] at hum hsame
        exact h.unique l hl m hm hul hum hsame
  case named =>
    intro l hl hul
    by_cases hlk : l = k
    · rw [hlk, hname, if_pos rfl, hnew]
    · rw [if_neg (hne l hl hlk hul)]
      rw [hother l hl hlk] at hul ⊢
      rw [hold l hl hul]
      exact h.named l hl hul
  case absent =>
    intro n hn
    have hnn : n ≠ name := by
      rintro rfl
      exact hn ⟨k, hk, huse, hname⟩
    rw [if_neg hnn]
    apply h.absent
    rintro ⟨l, hl, hul, hnl⟩
    have hlk : l ≠ k := by
      rintro rfl
      rw [hempty] at hul
      cases hul
    exact hn ⟨l, hl, by rw [hother l hl hlk]; exact ⟨hul, hnl⟩⟩

/-- An entry is cleared. -/
theorem NamesMatch.clear (h : NamesMatch ident d names) (hk : k < SLOTS) (huse : entryInUse (slot d k) = true)
    (hslots : ∀ l < SLOTS, slot d' l = if l = k then clearEntry (slot d k) else slot d l) :
    NamesMatch ident d' (fun n => if n = entryName (slot d k) then none else names n) := by
  have hcleared : entryInUse (slot d' k) = false := by
    rw [hslots k hk, if_pos rfl]
    exact entryInUse_clearEntry length_slice
  have hused : ∀ l < SLOTS, entryInUse (slot d' l) = true → l ≠ k ∧ slot d' l = slot d l := by
    intro l hl hul
    have hlk : l ≠ k := by
      rintro rfl
      rw [hcleared] at hul
      cases hul
    exact ⟨hlk, (hslots l hl).trans (if_neg hlk)⟩
  constructor
  case unique =>
    intro l hl m hm hul hum
    have hl' := (hused l hl hul).2
    have hm' := (hused m hm hum).2
    rw [hl'] at hul ⊢
    rw [hm'] at hum ⊢
    exact h.unique l hl m hm hul hum
  case named =>
    intro l hl hul
    obtain ⟨hlk, hsame⟩ := hused l hl hul
    rw [hsame] at hul ⊢
    rw [if_neg (fun hn => hlk (h.unique l hl k hk hul huse hn))]
    exact h.named l hl hul
  case absent =>
    intro n hn
    split
    · rfl
    · rename_i hne
      apply h.absent
      rintro ⟨l, hl, hul, rfl⟩
      have hlk : l ≠ k := by
        rintro rfl
        exact hne rfl
      have hsame : slot d' l = slot d l := (hslots l hl).trans (if_neg hlk)
      exact hn ⟨l, hl, by rw [hsame]; exact ⟨hul, rfl⟩⟩

/-! ### The calls -/

/-- A new file gets a new array. -/
theorem Match.create (h : Match ident s M) (hmem : s.mem = []) (hzero : 0 ∉ name)
    (hinv : Inv s' []) (hentered : Entered s s' name size sector) :
    M.names name = none ∧ Match (fun x => if x = sector then M.next else ident x) s' (M.create name size) := by
  have hold : ∀ x, IsFile s x → (if x = sector then M.next else ident x) = ident x := by
    intro x hx
    rw [if_neg]
    rintro rfl
    exact hentered.fresh hx.live
  obtain ⟨k, hk, ⟨huse, hname, hsector⟩, hother, hfree⟩ := hentered.entry
  obtain ⟨hempty, hnot⟩ := hfree hmem
  refine ⟨h.names.absent name hnot, hinv, ?_, ?_, ?_⟩
  · exact h.handles.steady h.inv.toMem hentered.steady (fun g hg => hold _ (h.inv.isFile_user hg))
  · apply h.names.add hnot hempty huse (hname hzero) hother hk
    · rw [hsector, if_pos rfl]
    · exact fun l hl hul => hold _ (h.inv.isFile_slot hl hul)
  · -- the files other than the new one were there before
    have hcases : ∀ x, IsFile s' x → x = sector ∨ x ≠ sector ∧ IsFile s x ∧ contents s'.device x = contents s.device x := by
      intro x hx
      by_cases hxs : x = sector
      · exact .inl hxs
      · exact .inr ⟨hxs, hentered.steady.isFile hx hxs⟩
    constructor
    case bytes =>
      intro x hx
      rcases hcases x hx with rfl | ⟨hxs, hx', hsame⟩
      · show (if (if x = x then M.next else ident x) = M.next then _ else _) = _
        rw [if_pos rfl, if_pos rfl]
        exact (hentered.contents).symm
      · show (if (if x = sector then M.next else ident x) = M.next then _ else _) = _
        have hlt := h.bytes.fresh x hx'
        rw [if_neg hxs, if_neg (Nat.ne_of_lt hlt), hsame]
        exact h.bytes.bytes x hx'
    case inj =>
      intro x y hx hy
      rcases hcases x hx with rfl | ⟨hxs, hx', -⟩
      · rcases hcases y hy with rfl | ⟨hys, hy', -⟩
        · exact fun _ => rfl
        · have hlt := h.bytes.fresh y hy'
          rw [if_pos rfl, if_neg hys]
          omega
      · have hlt := h.bytes.fresh x hx'
        rcases hcases y hy with rfl | ⟨hys, hy', -⟩
        · rw [if_pos rfl, if_neg hxs]
          omega
        · rw [if_neg hxs, if_neg hys]
          exact h.bytes.inj x y hx' hy'
    case fresh =>
      intro x hx
      show _ < M.next + 1
      rcases hcases x hx with rfl | ⟨hxs, hx', -⟩
      · rw [if_pos rfl]
        omega
      · have hlt := h.bytes.fresh x hx'
        rw [if_neg hxs]
        omega

/-- A removed file keeps its array, as long as it is open. -/
theorem Match.remove (h : Match ident s M) (hinv : Inv s' []) (hsteady : Steady (fun _ => False) s s')
    (hremoved : Removed s s' name true) : Named s.device name ∧ Match ident s' (M.setName name none) := by
  obtain ⟨k, hk, huse, hname, hslots⟩ := hremoved.removed rfl
  have hnames := h.names.clear hk huse hslots
  rw [hname] at hnames
  exact ⟨⟨k, hk, huse, hname⟩, hinv, h.handles.steady h.inv.toMem hsteady (fun _ _ => rfl), hnames,
    h.bytes.keep (fun _ hx => hsteady.isFile hx (fun hfalse => hfalse))⟩

/-- A name that is not there can be taken away. -/
theorem Match.remove_absent (h : Match ident s M) (hnot : ¬ Named s.device name) :
    Match ident s (M.setName name none) := by
  have hsame : (M.setName name none).names = M.names := by
    funext n
    show (if n = name then none else M.names n) = M.names n
    split
    · rename_i hn
      rw [hn, h.names.absent name hnot]
    · rfl
  exact ⟨h.inv, h.handles, hsame ▸ h.names, h.bytes⟩

/-- A new handle is at the start of its file. -/
theorem HandlesMatch.withFile (h : HandlesMatch ident s handles) (hfresh : s.next ∉ s.files)
    (hmap : s.freeMapFile ≠ some s.next) : HandlesMatch ident (s.withFile i mem)
      (fun g => if g = s.next then some (ident (s.inode i).sector, 0) else handles g) := by
  have hold : ∀ g, g ≠ s.next → (s.withFile i mem).file g = s.file g := fun g hg => by rw [withFile_file, if_neg hg]
  have hnew : (s.withFile i mem).file s.next = ⟨i, 0, false⟩ := if_pos rfl
  have hsector : ∀ g, g ≠ s.next → (s.withFile i mem).sectorOf g = s.sectorOf g := by
    intro g hg
    unfold Vol.sectorOf
    rw [hold g hg]
    rfl
  have huser : ∀ g, g ≠ s.next → (User (s.withFile i mem) g ↔ User s g) := by
    intro g hg
    show (g ∈ s.next :: s.files ∧ s.freeMapFile ≠ some g) ↔ _
    rw [List.mem_cons]
    exact ⟨fun hu => ⟨hu.1.resolve_left hg, hu.2⟩, fun hu => ⟨.inr hu.1, hu.2⟩⟩
  constructor
  case allows =>
    intro g hg
    rcases List.mem_cons.mp hg with rfl | hg'
    · rw [hnew]
    · rw [hold g (by rintro rfl; exact hfresh hg')]
      exact h.allows g hg'
  case opened =>
    intro g hg
    by_cases hgn : g = s.next
    · unfold Vol.sectorOf
      rw [if_pos hgn, hgn, hnew]
      rfl
    · rw [if_neg hgn, hold g hgn, hsector g hgn]
      exact h.opened g ((huser g hgn).mp hg)
  case closed =>
    intro g hg
    have hgn : g ≠ s.next := by
      rintro rfl
      exact hg ⟨List.mem_cons_self, hmap⟩
    rw [if_neg hgn]
    exact h.closed g (fun hu => hg ((huser g hgn).mpr hu))

/-- A handle is opened after a step that nobody sees. -/
theorem Match.open (h : Match ident s M) (hstill : Still s s')
    (hinv : Inv (s'.withFile i mem) []) : M.handles s'.next = none ∧
      Match ident (s'.withFile i mem) (M.setHandle s'.next (some (ident (s'.inode i).sector, 0))) := by
  have hsteady := hstill.steady (fun _ => False)
  have hfresh : s'.next ∉ s.files := by
    intro hmem
    exact Nat.lt_irrefl _ (Nat.lt_of_lt_of_le (h.inv.file_lt _ hmem) hstill.next)
  have hmap : s'.freeMapFile ≠ some s'.next := by
    obtain ⟨m, hm⟩ := h.inv.mapFile
    intro heq
    rw [hstill.freeMapFile, hm.file, Option.some.injEq] at heq
    exact hfresh (heq ▸ hm.listed)
  have hhandles : HandlesMatch ident s' M.handles := h.handles.steady h.inv.toMem hsteady (fun _ _ => rfl)
  refine ⟨h.handles.closed _ (fun hu => hfresh hu.1), hinv, ?_, ?_, ?_⟩
  · exact hhandles.withFile (hstill.files ▸ hfresh) hmap
  · exact h.names.congr (hstill.slots h.inv.layout)
  · exact h.bytes.keep fun x hx => hsteady.isFile { hx with } (fun hfalse => hfalse)

/-- Closing a handle takes only that handle away. -/
theorem Match.close (h : Match ident s M) (hinv : Inv s' []) (hcloses : Closes f s s') :
    Match ident s' (M.setHandle f none) := by
  have hnodup : s.files.Nodup := h.inv.accounts.files_nodup
  have hmem : ∀ g, g ∈ s'.files ↔ g ≠ f ∧ g ∈ s.files := by
    intro g
    rw [hcloses.files]
    exact hnodup.mem_erase_iff
  have hfile : ∀ g ∈ s'.files, s'.file g = s.file g ∧ s'.sectorOf g = s.sectorOf g := by
    intro g hg
    obtain ⟨hgf, hg'⟩ := (hmem g).mp hg
    have hsame := hcloses.file g (h.inv.file_lt g hg') hgf
    unfold Vol.sectorOf
    rw [hsame]
    exact ⟨rfl, (hcloses.inode _ (h.inv.inode_lt _ (h.inv.listed hg'))).1⟩
  have hroot := hcloses.intact _ (live_root s') (by decide)
  refine ⟨hinv, ?_, h.names.congr (fun k hk => hroot.slot h.inv.layout hk), h.bytes.keep ?_⟩
  · constructor
    case allows =>
      intro g hg
      rw [(hfile g hg).1]
      exact h.handles.allows g ((hmem g).mp hg).2
    case opened =>
      intro g hg
      obtain ⟨hgf, hg'⟩ := (hmem g).mp hg.1
      show (if g = f then _ else M.handles g) = _
      rw [if_neg hgf, (hfile g hg.1).1, (hfile g hg.1).2]
      exact h.handles.opened g ⟨hg', hcloses.freeMapFile ▸ hg.2⟩
    case closed =>
      intro g hg
      show (if g = f then _ else M.handles g) = _
      split
      · rfl
      · rename_i hgf
        apply h.handles.closed
        intro hu
        exact hg ⟨(hmem g).mpr ⟨hgf, hu.1⟩, hcloses.freeMapFile ▸ hu.2⟩
  · intro x hx
    exact ⟨⟨hcloses.live x hx.live, hx.notMap, hx.notRoot⟩, (hcloses.intact x hx.live hx.notMap).contents⟩

/-- The position of a handle changes. -/
theorem HandlesMatch.setPos (h : HandlesMatch ident s handles) (hf : User s f) (pos : Nat) (device : Device)
    (mem : List Bool) : HandlesMatch ident { s with toFs := s.toFs.moved f pos device, mem := mem }
      (fun g => if g = f then some (ident (s.sectorOf f), pos) else handles g) := by
  have hother : ∀ g, g ≠ f → (s.toFs.moved f pos device).file g = s.file g := fun g hg => if_neg hg
  have hself : (s.toFs.moved f pos device).file f = { s.file f with pos } := if_pos rfl
  constructor
  case allows =>
    intro g hg
    by_cases hgf : g = f
    · rw [hgf, hself]
      exact h.allows f hf.1
    · rw [hother g hgf]
      exact h.allows g hg
  case opened =>
    intro g hg
    show _ = some (ident (s.inode ((s.toFs.moved f pos device).file g).inode).sector,
      ((s.toFs.moved f pos device).file g).pos)
    by_cases hgf : g = f
    · rw [if_pos hgf, hgf, hself]
      rfl
    · rw [if_neg hgf, hother g hgf]
      exact h.opened g hg
  case closed =>
    intro g hg
    rw [if_neg]
    · exact h.closed g hg
    · rintro rfl
      exact hg hf

/-- A write inside a file overwrites part of it. -/
theorem contents_patch {m : Nat} {cells : List UInt8}
    (hinode : inodeDisk (patch d ((inodeDisk d sector).start * 512 + m) cells) sector = inodeDisk d sector)
    (hinside : cells = [] ∨ m + cells.length ≤ (inodeDisk d sector).length) :
    contents (patch d ((inodeDisk d sector).start * 512 + m) cells) sector = overwrite (contents d sector) m cells := by
  unfold contents
  rw [hinode]
  rcases hinside with rfl | hin
  · rw [overwrite_nil, patch_nil]
  · exact slice_patch_within hin

/-- What the model has for an open handle. -/
theorem Match.bytes_user (h : Match ident s M) (hf : User s f) :
    M.bytes (ident (s.sectorOf f)) = slice s.device ((s.dataOf f).start * 512) (s.dataOf f).length := by
  rw [h.bytes.bytes _ (h.inv.isFile_user hf), h.inv.dataOf_eq hf.1]
  rfl

/-- Reading the device is reading the array. -/
theorem Match.readAt_eq (h : Match ident s M) (hf : User s f) (size : Int) (hoff : 0 ≤ offset) :
    slice s.device ((s.dataOf f).start * 512 + offset.toNat) (avail (s.dataOf f) size offset) =
      Model.readAt (M.bytes (ident (s.sectorOf f))) size offset := by
  unfold Model.readAt avail
  rw [if_neg (by omega), h.bytes_user hf, drop_slice, take_slice]

theorem Match.room_eq (h : Match ident s M) (hf : User s f) (size : Int) (hoff : 0 ≤ offset) :
    avail (s.dataOf f) size offset = Model.room (M.bytes (ident (s.sectorOf f))) size offset := by
  unfold Model.room avail
  rw [if_neg (by omega), h.bytes_user hf, length_slice]

/-- Writing to the device is writing to the array, and to no other. -/
theorem Match.patch (h : Match ident s M) (hf : User s f) (buffer : List UInt8) {size : Int} {n : Nat}
    (hn : n ≤ avail (s.dataOf f) size offset) (mem : List Bool) :
    Match ident { s with
        device := patch s.device ((s.dataOf f).start * 512 + offset.toNat) (buffer.take n), mem := mem }
      (M.setBytes (ident (s.sectorOf f))
        (overwrite (M.bytes (ident (s.sectorOf f))) offset.toNat (buffer.take n))) := by
  obtain ⟨hmap, hroot⟩ := h.inv.user_sector hf
  have hlive := h.inv.live_file hf.1
  have hinv := h.inv.written hf buffer hn mem
  have honly := only_write (d := s.device) buffer hn
  rw [h.inv.dataOf_eq hf.1] at honly
  have hdata := h.inv.dataOf_eq hf.1
  have hintact : ∀ x, Live s x → x ≠ s.sectorOf f → Intact s.device
      (Flat.patch s.device ((s.dataOf f).start * 512 + offset.toNat) (buffer.take n)) x := by
    intro x hx hne
    rw [hdata]
    exact h.inv.layout.intact_other hlive hx hne honly
  have hroot' := hintact _ (live_root s) hroot.symm
  have hopen : OpenOk s { s with
      device := Flat.patch s.device ((s.dataOf f).start * 512 + offset.toNat) (buffer.take n), mem := mem } :=
    h.inv.layout.openOk
  have hisFile : ∀ x, IsFile { s with
      device := Flat.patch s.device ((s.dataOf f).start * 512 + offset.toNat) (buffer.take n), mem := mem } x →
      IsFile s x :=
    fun x hx => ⟨live_of_openOk h.inv.layout hopen hroot' hx.live, hx.notMap, hx.notRoot⟩
  have hself : contents (Flat.patch s.device ((s.dataOf f).start * 512 + offset.toNat) (buffer.take n)) (s.sectorOf f) =
      overwrite (contents s.device (s.sectorOf f)) offset.toNat (buffer.take n) := by
    have hinside := avail_inside hn
    rw [hdata] at hinside ⊢
    apply contents_patch (h.inv.layout.inode_same hlive hlive honly)
    rw [List.length_take]
    rcases hinside with rfl | hin
    · exact .inl List.take_zero
    · exact .inr (by omega)
  refine ⟨hinv, ⟨h.handles.allows, h.handles.opened, h.handles.closed⟩,
    h.names.congr (fun k hk => hroot'.slot h.inv.layout hk), ?_⟩
  constructor
  case bytes =>
    intro x hx
    show (if ident x = ident (s.sectorOf f) then _ else M.bytes (ident x)) = _
    by_cases hxf : x = s.sectorOf f
    · rw [if_pos (by rw [hxf]), hxf, h.bytes.bytes _ (h.inv.isFile_user hf)]
      exact hself.symm
    · rw [if_neg (fun heq => hxf (h.bytes.inj _ _ (hisFile x hx) (h.inv.isFile_user hf) heq)),
        h.bytes.bytes x (hisFile x hx)]
      exact (hintact x (hisFile x hx).live hxf).contents.symm
  case inj => exact fun x y hx hy => h.bytes.inj x y (hisFile x hx) (hisFile y hy)
  case fresh => exact fun x hx => h.bytes.fresh x (hisFile x hx)

theorem Match.setMem (h : Match ident s M) (mem : List Bool) : Match ident { s with mem } M where
  inv := h.inv.setMem mem
  handles := ⟨h.handles.allows, h.handles.opened, h.handles.closed⟩
  names := h.names
  bytes := h.bytes.keep (fun _ hx => ⟨{ hx with }, rfl⟩)

theorem Match.user_of_legal (h : Match ident s M) (hlegal : (M.handles f).isSome = true) : User s f := by
  by_contra hnot
  rw [h.handles.closed f hnot] at hlegal
  cases hlegal

theorem Match.not_denied (h : Match ident s M) (hf : f ∈ s.files) : ¬ s.Denied f := by
  intro hdeny
  obtain ⟨g, hg, hflag, -⟩ := (h.inv.accounts.denied_iff hf).mp hdeny
  have hallows := h.handles.allows g hg
  rw [hallows] at hflag
  cases hflag

/-- `file_write` writes to the array at the position of the handle. -/
theorem Match.fileWrite (h : Match ident s M) (hmem : s.mem = []) (hf : User s f) {buffer : List UInt8} {size : Int}
    (hsize : size < 2147483648) (hbuffer : size.toNat ≤ buffer.length) :
    (fileWrite f buffer size).Ends s fun n s' =>
      n = Model.room (M.bytes (ident (s.sectorOf f))) size (s.file f).pos ∧
      Match ident s' ((M.setBytes (ident (s.sectorOf f)) (overwrite (M.bytes (ident (s.sectorOf f))) (s.file f).pos
        (buffer.take n))).setHandle f (some (ident (s.sectorOf f), (s.file f).pos + n))) ∧
      s'.freeMap = s.freeMap ∧ s'.mem = [] := by
  refine (h.inv.fileWrite hf hsize hbuffer).mono ?_
  rintro n _ ⟨hinv, mem, rfl, hle, -, hcalm⟩
  have hroom := h.room_eq hf size (Int.natCast_nonneg (s.file f).pos)
  rw [← (hcalm hmem).2 (h.not_denied hf.1)] at hroom
  have hpatch := h.patch hf buffer hle mem
  exact ⟨hroom, ⟨hinv, h.handles.setPos hf _ _ _, hpatch.names, hpatch.bytes.keep (fun _ hx => ⟨{ hx with }, rfl⟩)⟩, rfl,
    (hcalm hmem).1⟩

/-- **One call**: it returns, the model allows the result, and the two match again. -/
theorem Match.call {c : Call} (h : Match ident s M) (hmem : s.mem = []) (hlegal : M.Legal c) (hahead : Ahead c) :
    (call c).Ends s fun r s' => ∃ M' ident', M.step c r = some M' ∧ Match ident' s' M' := by
  cases c with
  | create name initialSize =>
    obtain ⟨hzero, hpos, hlt⟩ := hlegal
    apply ends_map
    refine (h.inv.filesysCreate hpos hlt).mono ?_
    rintro r s' ⟨hinv, -, hcreated⟩
    cases r with
    | false => exact ⟨M, ident, rfl, h.still hinv (hcreated.failed rfl)⟩
    | true =>
      obtain ⟨sector, hentered⟩ := hcreated.created rfl
      obtain ⟨hnone, hmatch⟩ := h.create hmem hzero hinv hentered
      exact ⟨_, _, if_pos ⟨hentered.nonempty, hentered.short, hnone⟩, hmatch⟩
  | «open» name =>
    apply ends_map
    refine (h.inv.filesysOpen name).mono ?_
    rintro r s' ⟨hinv, -, hnone, hsome⟩
    cases r with
    | none =>
      obtain ⟨hstill, hnot⟩ := hnone rfl
      exact ⟨M, ident, if_pos (h.names.absent name (hnot hmem)), h.still hinv hstill⟩
    | some f =>
      obtain ⟨k, hk, huse, rfl, s₁, i, mem, hstill, -, -, hsector, rfl, rfl, -⟩ := hsome f rfl
      obtain ⟨hnew, hmatch⟩ := h.open hstill hinv
      refine ⟨_, ident, ?_, hmatch⟩
      rw [Model.step, if_pos hnew, h.names.named k hk huse, hsector]
      rfl
  | remove name =>
    apply ends_map
    refine (h.inv.filesysRemove name).mono ?_
    rintro r s' ⟨hinv, -, hsteady, hremoved⟩
    cases r with
    | false =>
      have hnot := hremoved.missing hmem rfl
      have hstill := h.still hinv (hremoved.failed rfl)
      refine ⟨_, ident, if_pos ?_, hstill.remove_absent ?_⟩
      · rw [h.names.absent name hnot]
        rfl
      · exact fun hn => hnot ((named_congr ((hremoved.failed rfl).slots h.inv.layout) name).mp hn)
    | true =>
      obtain ⟨hnamed, hmatch⟩ := h.remove hinv hsteady hremoved
      exact ⟨_, ident, if_pos ((h.names.isSome_iff name).mpr hnamed).symm, hmatch⟩
  | close f =>
    have hf := h.user_of_legal hlegal
    refine .bind (h.inv.fileClose hf) ?_
    rintro _ s' ⟨hinv, hcloses⟩
    exact .pure ⟨_, ident, rfl, h.close hinv hcloses⟩
  | read f size =>
    have hf := h.user_of_legal hlegal.1
    apply ends_map
    refine (h.inv.fileRead hf.1 hlegal.2).mono ?_
    rintro _ _ ⟨hinv, m, mem, rfl, rfl, -, hcalm⟩
    have hread := h.readAt_eq hf size (Int.natCast_nonneg (s.file f).pos)
    rw [Int.toNat_natCast, ← (hcalm hmem).1] at hread
    refine ⟨M.setHandle f (some (ident (s.sectorOf f), (s.file f).pos + m)), ident, ?_, hinv,
      h.handles.setPos hf _ _ _, h.names, h.bytes.keep (fun _ hx => ⟨{ hx with }, rfl⟩)⟩
    rw [Model.step, h.handles.opened f hf, Option.bind_some, if_pos hread, length_slice]
  | readAt f size offset =>
    obtain ⟨hopen, hsize, hoff⟩ := hlegal
    have hf := h.user_of_legal hopen
    apply ends_map
    refine (h.inv.fileReadAt hf.1 hahead hoff hsize).mono ?_
    rintro _ _ ⟨m, mem, rfl, rfl, -, hcalm⟩
    have hread := h.readAt_eq hf size hahead
    rw [← (hcalm hmem).1] at hread
    refine ⟨M, ident, ?_, h.setMem mem⟩
    rw [Model.step, h.handles.opened f hf, Option.bind_some, if_pos hread]
  | write f buffer size =>
    obtain ⟨hopen, hsize, hbuffer⟩ := hlegal
    have hf := h.user_of_legal hopen
    apply ends_map
    refine (h.fileWrite hmem hf hsize hbuffer).mono ?_
    rintro n s' ⟨hroom, hmatch, -⟩
    refine ⟨_, ident, ?_, hmatch⟩
    rw [Model.step, h.handles.opened f hf, Option.bind_some, if_pos hroom]
  | writeAt f buffer size offset =>
    obtain ⟨hopen, hsize, hbuffer, hoff⟩ := hlegal
    have hf := h.user_of_legal hopen
    apply ends_map
    refine (h.inv.fileWriteAt hf hahead hoff hsize hbuffer).mono ?_
    rintro n _ ⟨-, mem, rfl, hle, -, hcalm⟩
    have hroom := h.room_eq hf size hahead
    rw [← (hcalm hmem).2 (h.not_denied hf.1)] at hroom
    refine ⟨_, ident, ?_, h.patch hf buffer hle mem⟩
    rw [Model.step, h.handles.opened f hf, Option.bind_some, if_pos hroom]
  | seek f pos =>
    obtain ⟨hopen, hnonneg, hpos⟩ := hlegal
    have hf := h.user_of_legal hopen
    refine .bind (h.inv.fileSeek hf.1 hnonneg hpos) ?_
    rintro _ _ ⟨hinv, rfl⟩
    refine .pure ⟨M.setHandle f (some (ident (s.sectorOf f), pos.toNat)), ident, ?_, hinv,
      h.handles.setPos hf pos.toNat s.device s.mem, h.names, h.bytes.keep (fun _ hx => ⟨{ hx with }, rfl⟩)⟩
    rw [Model.step, h.handles.opened f hf]
    rfl
  | reopen | denyWrite | allowWrite | tell | length | openRoot | reopenDir | closeDir | readdir => exact hlegal.elim

end

/-! ## Whole sequences -/

theorem Match.agrees {ident : Nat → Nat} {M : Model} (h : Match ident s M) (calls : List Call) :
    agrees Ahead s M calls = true := by
  -- the arrays of the sectors change from call to call
  induction calls generalizing ident s M with
  | nil => rfl
  | cons c cs ih =>
    unfold Volume.agrees
    by_cases hc : M.Legal c ∧ Ahead c
    · obtain ⟨r, s', hrun, M', ident', hstep, hmatch⟩ := (h.setMem []).call rfl hc.1 hc.2
      simp only [if_pos hc, hrun, hstep]
      exact ih hmatch
    · rw [if_neg hc]

/-- An inode is open because of a file, if no directory is open. -/
theorem Inv.opener (h : Inv s []) (hdirs : s.dirs = []) (hi : i ∈ s.openInodes) :
    ∃ f ∈ s.files, (s.file f).inode = i := by
  have hcnt := h.accounts.openCnt i hi
  have hpos := h.accounts.opened i hi
  have hrefs : s.dirRefs = [] := by rw [Vol.dirRefs, hdirs, List.map_nil]
  rw [hrefs, List.append_nil, List.count_nil] at hcnt
  have hopeners : 0 < openers s.toFs i := by omega
  obtain ⟨f, hf, hinode⟩ := List.countP_pos_iff.mp hopeners
  exact ⟨f, hf, of_decide_eq_true hinode⟩

/-- A formatted device has no files. -/
theorem match_formatted (hinv : Inv s []) (hformat : Formatted s) (hdirs : s.dirs = [])
    (hfiles : ∀ f ∈ s.files, s.freeMapFile = some f) : Match id s Model.empty := by
  obtain ⟨m, hm⟩ := hinv.mapFile
  have honly : ∀ f ∈ s.files, f = m := by
    intro f hf
    have hfile := hfiles f hf
    rw [hm.file, Option.some.injEq] at hfile
    exact hfile.symm
  have hunused : ∀ k < SLOTS, entryInUse (slot s.device k) ≠ true := by
    intro k hk
    rw [hformat.entryInUse hk]
    decide
  have hnone : ∀ x, ¬ IsFile s x := by
    rintro x ⟨hlive, hmap, hroot⟩
    rcases hlive with hx | hx | ⟨k, hk, huse, -⟩ | ⟨i, hi, hsector⟩
    · exact hmap hx
    · exact hroot hx
    · exact hunused k hk huse
    · obtain ⟨f, hf, rfl⟩ := hinv.opener hdirs hi
      rw [honly f hf] at hsector
      exact hmap (hsector.symm.trans hm.sector)
  refine ⟨hinv, ?_, ?_, ?_⟩
  · refine ⟨?_, fun f hf => absurd (hfiles f hf.1) hf.2, fun _ _ => rfl⟩
    intro f hf
    rw [honly f hf]
    exact hm.allows
  · exact ⟨fun k hk _ _ huse => absurd huse (hunused k hk), fun k hk huse => absurd huse (hunused k hk), fun _ _ => rfl⟩
  · exact ⟨fun x hx => absurd hx (hnone x), fun x _ hx => absurd hx (hnone x), fun x hx => absurd hx (hnone x)⟩

/-- **Files are byte arrays.** After a device has been formatted, any sequence of calls has results that the model allows,
    if no offset is negative. -/
theorem files_are_byte_arrays {blocks : Nat} {device : Device} {memory : Nat → BitVec 32} {s : Vol}
    (hinit : filesysInit blocks device memory true = some s) (calls : List Call) :
    agrees Ahead s Model.empty calls = true := by
  obtain ⟨hinv, hformat, -, hdirs, -, -, hfiles⟩ := filesysInit_format hinit
  exact (match_formatted hinv hformat hdirs hfiles).agrees calls

/-- The results of calls that are made one after the other. -/
def results : Vol → List Call → List Result
  | _, [] => []
  | s, c :: cs =>
    match call c { s with mem := [] } with
    | none => []
    | some (r, s') => r :: results s' cs

/-- A removed file is written and read after another has been made under its name. -/
def afterRemoval : List Call :=
  [.create fileA 600, .open fileA, .remove fileA, .create fileA 512, .open fileA, .write 9 [1, 2, 3] 3, .readAt 9 4 0,
    .read 17 4]

theorem files_are_byte_arrays_removed :
    ∃ s, sixteenSectors = some s ∧ agrees Ahead s Model.empty afterRemoval = true ∧
      results s afterRemoval = [.success true, .handle (some 9), .success true, .success true, .handle (some 17), .size 3,
        .bytes [1, 2, 3, 0], .bytes [0, 0, 0, 0]] := by
  have hresults : sixteenSectors.any (fun s => decide (results s afterRemoval = [.success true, .handle (some 9),
      .success true, .success true, .handle (some 17), .size 3, .bytes [1, 2, 3, 0], .bytes [0, 0, 0, 0]])) = true := by
    decide +kernel
  obtain ⟨s, hs, hlist⟩ := (Option.any_eq_true _ _).mp hresults
  exact ⟨s, hs, files_are_byte_arrays hs _, of_decide_eq_true hlist⟩

/-- Two files of zeros; the second is written to, at a negative offset, and the first is read. -/
def writeBefore : List Call :=
  [.create fileA 512, .create fileB 512, .open fileA, .open fileB, .writeAt 15 [1, 2, 3, 4] 4 (-1024), .read 11 4]

/-- **A write before the start of one file changes another.** Nothing is written through handle 11, and yet it reads
    what was written through the other. -/
theorem negative_write_mixes_files :
    ∃ s, sixteenSectors = some s ∧ agrees (fun _ => True) s Model.empty writeBefore = false ∧
      results s writeBefore = [.success true, .success true, .handle (some 11), .handle (some 15), .size 4,
        .bytes [1, 2, 3, 4]] := by
  have hboth : sixteenSectors.any (fun s => decide (agrees (fun _ => True) s Model.empty writeBefore = false ∧
      results s writeBefore = [.success true, .success true, .handle (some 11), .handle (some 15), .size 4,
        .bytes [1, 2, 3, 4]])) = true := by decide +kernel
  obtain ⟨s, hs, hfacts⟩ := (Option.any_eq_true _ _).mp hboth
  exact ⟨s, hs, of_decide_eq_true hfacts⟩

end Volume
end Asg1
