import Asg1.Lib.Field

/-!
# `Archive.Ustar` — headers of a ustar archive

`lib/ustar.c`: what `ustar_make_header` writes for a file, and what `ustar_parse_header` makes of 512 bytes. A header is
packed, so it is a record of `Field`s. `parse_make` says that a header that was made is parsed as the file it was made
for.

File names are byte strings without their final zero byte.
-/

namespace Asg1
namespace Ustar

open List

/-- `enum ustar_type` -/
inductive UstarType
  | regular
  | directory
  | eof
  deriving DecidableEq

/-- The value of the type, as a `char`. -/
def UstarType.flag : UstarType → UInt8
  | .regular => 48
  | .directory => 53
  | .eof => 255

def USTAR_HEADER_SIZE : Nat := 512

/-- `struct ustar_header` -/
structure UstarHeader where
  name : Field 100
  mode : Field 8
  uid : Field 8
  gid : Field 8
  size : Field 12
  mtime : Field 12
  chksum : Field 8
  typeflag : Field 1
  linkname : Field 100
  magic : Field 6
  version : Field 2
  uname : Field 32
  gname : Field 32
  devmajor : Field 8
  devminor : Field 8
  pathPrefix : Field 155
  padding : Field 12

namespace UstarHeader

/-- The bytes before the checksum. -/
def front (h : UstarHeader) : List UInt8 :=
  h.name.1 ++ (h.mode.1 ++ (h.uid.1 ++ (h.gid.1 ++ (h.size.1 ++ h.mtime.1))))

/-- The bytes after the checksum. -/
def back (h : UstarHeader) : List UInt8 :=
  h.typeflag.1 ++ (h.linkname.1 ++ (h.magic.1 ++ (h.version.1 ++ (h.uname.1 ++ (h.gname.1 ++ (h.devmajor.1 ++
    (h.devminor.1 ++ (h.pathPrefix.1 ++ h.padding.1))))))))

/-- The header in memory. -/
def bytes (h : UstarHeader) : List UInt8 := h.front ++ (h.chksum.1 ++ h.back)

/-- Memory as a header. -/
def ofBytes (l : List UInt8) : UstarHeader where
  name := .take 100 l
  mode := .take 8 (l.drop 100)
  uid := .take 8 (l.drop 108)
  gid := .take 8 (l.drop 116)
  size := .take 12 (l.drop 124)
  mtime := .take 12 (l.drop 136)
  chksum := .take 8 (l.drop 148)
  typeflag := .take 1 (l.drop 156)
  linkname := .take 100 (l.drop 157)
  magic := .take 6 (l.drop 257)
  version := .take 2 (l.drop 263)
  uname := .take 32 (l.drop 265)
  gname := .take 32 (l.drop 297)
  devmajor := .take 8 (l.drop 329)
  devminor := .take 8 (l.drop 337)
  pathPrefix := .take 155 (l.drop 345)
  padding := .take 12 (l.drop 500)

end UstarHeader

/-- `calculate_chksum`: the sum of the bytes, with spaces for those of the checksum. -/
def calculateChksum (header : List UInt8) : Nat :=
  ((List.range USTAR_HEADER_SIZE).map fun i => if 148 ≤ i ∧ i < 156 then 32 else (header.getD i 0).toNat).sum

/-- The loop of `strip_antisocial_prefixes`, which goes past the first slash each time. -/
def stripLoop : Nat → List UInt8 → List UInt8
  | 0, fileName => fileName
  | n + 1, fileName =>
    -- "/", "./" and "../"
    if [47].isPrefixOf fileName ∨ [46, 47].isPrefixOf fileName ∨ [46, 46, 47].isPrefixOf fileName then
      stripLoop n ((fileName.dropWhile (fun c => c ≠ 47)).drop 1)
    else fileName

/-- `strip_antisocial_prefixes`: each round takes at least one character away. -/
def stripAntisocialPrefixes (fileName : List UInt8) : List UInt8 :=
  let fileName := stripLoop fileName.length fileName
  if fileName = [] ∨ fileName = [46, 46] then [46] else fileName

/-- "ustar" -/
def MAGIC : List UInt8 := [117, 115, 116, 97, 114]

/-- "root" -/
def ROOT : List UInt8 := [114, 111, 111, 116]

/-- The header before its checksum is filled in. -/
def blankHeader (fileName : List UInt8) (type : UstarType) (size : Int) : UstarHeader where
  name := .text 100 fileName
  mode := .text 8 (octal 7 (if type = .regular then 0o644 else 0o755))
  uid := .text 8 (List.replicate 7 48)
  gid := .text 8 (List.replicate 7 48)
  size := .text 12 (octal 11 (size % 2 ^ 32).toNat)
  mtime := .text 12 (octal 11 1136102400)
  chksum := .zero 8
  typeflag := .take 1 [type.flag]
  linkname := .zero 100
  magic := .text 6 MAGIC
  version := .take 2 [48, 48]
  uname := .text 32 ROOT
  gname := .text 32 ROOT
  devmajor := .zero 8
  devminor := .zero 8
  pathPrefix := .zero 155
  padding := .zero 12

/-- The header with its checksum filled in. -/
def UstarHeader.withChksum (h : UstarHeader) : UstarHeader :=
  { h with chksum := .text 8 (octal 7 (calculateChksum h.bytes)) }

/-- `ustar_make_header`: the header, or `none` if the name is too long. The type is asserted to be that of a file or a
    directory. -/
def ustarMakeHeader (fileName : List UInt8) (type : UstarType) (size : Int) : Option (Option (List UInt8)) :=
  if type = .eof then none
  else
    let fileName := stripAntisocialPrefixes fileName
    if 99 < fileName.length then some none
    else some (some (blankHeader fileName type size).withChksum.bytes)

/-- The loop of `parse_octal_field`, with `*value` in an `unsigned long`. -/
def parseOctalLoop : List UInt8 → Nat → Nat → Option Nat
  | [], _, _ => none
  | c :: cs, ofs, value =>
    if 48 ≤ c ∧ c ≤ 55 then
      if (2 ^ 32 - 1) / 8 < value then none else parseOctalLoop cs (ofs + 1) (c.toNat - 48 + value * 8)
    else if c = 32 ∨ c = 0 then (if 0 < ofs then some value else none)
    else none

/-- `parse_octal_field` -/
def parseOctalField {n : Nat} (f : Field n) : Option Nat := parseOctalLoop f.1 0 0

/-- `is_all_zeros` -/
def isAllZeros (block : List UInt8) : Bool := block.all (fun b => b == 0)

/-- What `ustar_parse_header` stores through its pointers. -/
structure Entry where
  fileName : Option (List UInt8)
  type : UstarType
  size : Nat
  deriving DecidableEq

/-- `ustar_parse_header` -/
def ustarParseHeader (header : List UInt8) : Except String Entry :=
  let h := UstarHeader.ofBytes header
  if isAllZeros header then .ok ⟨none, .eof, 0⟩
  else if h.magic.1 ≠ MAGIC ++ [0] then .error "not a ustar archive"
  else if h.version.1 ≠ [48, 48] then .error "invalid ustar version"
  else
    match parseOctalField h.chksum with
    | none => .error "corrupt chksum field"
    | some chksum =>
      if chksum ≠ calculateChksum header then .error "checksum mismatch"
      else if h.name.1.getD 99 0 ≠ 0 ∨ h.pathPrefix.1.getD 0 0 ≠ 0 then .error "file name too long"
      else if h.typeflag.1 = [UstarType.regular.flag] then
        match parseOctalField h.size with
        | none => .error "corrupt file size field"
        | some size =>
          if 2147483647 < size then .error "file too large"
          else .ok ⟨some (stripAntisocialPrefixes h.name.cstring), .regular, size⟩
      else if h.typeflag.1 = [UstarType.directory.flag] then
        .ok ⟨some (stripAntisocialPrefixes h.name.cstring), .directory, 0⟩
      else .error "unimplemented file type"

/-! ## Headers in memory -/

namespace UstarHeader

theorem length_front (h : UstarHeader) : h.front.length = 148 := by
  simp [front, Field.length_val]

theorem length_back (h : UstarHeader) : h.back.length = 356 := by
  simp [back, Field.length_val]

theorem length_bytes (h : UstarHeader) : h.bytes.length = 512 := by
  simp [bytes, length_front, length_back, Field.length_val]

/-- **A header is read back field by field.** -/
theorem ofBytes_bytes (h : UstarHeader) : ofBytes h.bytes = h := by
  unfold ofBytes bytes front back
  simp only [List.append_assoc, Field.drop_append, Nat.reduceLeDiff, Nat.reduceSub, drop_zero, Field.take_append,
    Field.take_val]

end UstarHeader

theorem UstarHeader.front_withChksum (h : UstarHeader) : h.withChksum.front = h.front := by
  simp only [front, withChksum]

theorem UstarHeader.back_withChksum (h : UstarHeader) : h.withChksum.back = h.back := by
  simp only [back, withChksum]

/-- The checksum does not depend on what is in its own field. -/
theorem calculateChksum_withChksum (h : UstarHeader) : calculateChksum h.withChksum.bytes = calculateChksum h.bytes := by
  have houtside : ∀ f : Field 8, ∀ i, ¬ (148 ≤ i ∧ i < 156) →
      (h.front ++ (f.1 ++ h.back)).getD i 0 = (h.front ++ h.back).getD (if i < 148 then i else i - 8) 0 := by
    intro f i hi
    simp only [getD_eq_getElem?_getD]
    by_cases hlt : i < 148
    · rw [if_pos hlt, getElem?_append_left (by rw [h.length_front]; exact hlt),
        getElem?_append_left (by rw [h.length_front]; exact hlt)]
    · rw [if_neg hlt, getElem?_append_right (by rw [h.length_front]; omega),
        getElem?_append_right (by rw [f.length_val, h.length_front]; omega),
        getElem?_append_right (by rw [h.length_front]; omega), f.length_val, h.length_front]
      have hindex : i - 148 - 8 = i - 8 - 148 := by omega
      rw [hindex]
  refine congrArg List.sum (map_congr_left ?_)
  intro i _
  split
  · rfl
  · rename_i hi
    unfold UstarHeader.bytes
    rw [UstarHeader.front_withChksum, UstarHeader.back_withChksum, houtside _ i hi, houtside _ i hi]

/-- The sum of at most 512 bytes has seven octal digits. -/
theorem calculateChksum_lt (header : List UInt8) : calculateChksum header < 8 ^ 7 := by
  unfold calculateChksum
  have hle : ∀ l : List Nat, (l.map fun i => if 148 ≤ i ∧ i < 156 then 32 else (header.getD i 0).toNat).sum ≤
      255 * l.length := by
    intro l
    induction l with
    | nil => exact Nat.le_refl _
    | cons i l ih =>
      have hbyte := (header.getD i 0).toNat_lt
      rw [map_cons, sum_cons, length_cons]
      split <;> omega
  have hbound := hle (List.range USTAR_HEADER_SIZE)
  have hsize : USTAR_HEADER_SIZE = 512 := rfl
  rw [length_range] at hbound
  omega

/-! ## Octal fields -/

/-- A numeral is read as the number, if that fits an `unsigned long`. -/
theorem parseOctalLoop_numeral (k n ofs value : Nat) (rest : List UInt8) (h : value * 8 ^ k + n % 8 ^ k < 2 ^ 32) :
    parseOctalLoop (numeral k n ++ rest) ofs value = parseOctalLoop rest (ofs + k) (value * 8 ^ k + n % 8 ^ k) := by
  induction k generalizing n rest with
  | zero => rw [numeral, nil_append, Nat.pow_zero, Nat.mul_one, Nat.mod_one, Nat.add_zero, Nat.add_zero]
  | succ k ih =>
    -- the last digit comes after the numeral of what is above it
    have hmod : n % 8 ^ (k + 1) = n % 8 + 8 * (n / 8 % 8 ^ k) := by
      rw [Nat.pow_succ, Nat.mul_comm, Nat.mod_mul]
    have hpow : value * 8 ^ (k + 1) = 8 * (value * 8 ^ k) := by
      rw [Nat.pow_succ, ← Nat.mul_assoc, Nat.mul_comm]
    have hchar : (UInt8.ofNat (48 + n % 8)).toNat = 48 + n % 8 := by
      rw [UInt8.toNat_ofNat']
      omega
    rw [numeral, List.append_assoc, ih (n / 8) _ (by omega), singleton_append, parseOctalLoop, if_pos, if_neg, hchar,
      hmod, hpow]
    · congr 1
      omega
    · omega
    · rw [UInt8.le_iff_toNat_le, UInt8.le_iff_toNat_le, hchar]
      show 48 ≤ 48 + n % 8 ∧ 48 + n % 8 ≤ 55
      omega

/-- What `snprintf` writes as `%0wo` is parsed as the number. -/
theorem parseOctalField_text {m w n : Nat} (hm : m = w + 1) (hpos : 0 < w) (hw : w ≤ 11) (hn : n < 8 ^ w)
    (hlt : n < 2 ^ 32) : parseOctalField (.text m (octal w n)) = some n := by
  have hmod : n % 8 ^ w = n := Nat.mod_eq_of_lt hn
  unfold parseOctalField
  rw [octal_eq hw hn, Field.val_text (by rw [length_numeral]; omega), length_numeral, hm, Nat.add_sub_cancel_left,
    parseOctalLoop_numeral _ _ _ _ _ (by rw [hmod]; omega), hmod, Nat.zero_mul, Nat.zero_add, Nat.zero_add]
  show (if _ then _ else if _ then (if 0 < w then some n else none) else none) = some n
  rw [if_neg (by decide), if_pos (by decide), if_pos hpos]

/-! ## Names -/

/-- The name starts with "/", "./" or "../". -/
def Antisocial (name : List UInt8) : Prop :=
  [47].isPrefixOf name ∨ [46, 47].isPrefixOf name ∨ [46, 46, 47].isPrefixOf name

instance (name : List UInt8) : Decidable (Antisocial name) := inferInstanceAs (Decidable (_ ∨ _ ∨ _))

/-- A name that stays in the directory. -/
structure Social (name : List UInt8) : Prop where
  nonempty : name ≠ []
  down : ¬ Antisocial name
  not_up : name ≠ [46, 46]

theorem stripLoop_succ (n : Nat) (name : List UInt8) : stripLoop (n + 1) name =
    if Antisocial name then stripLoop n ((name.dropWhile (fun c => c ≠ 47)).drop 1) else name := rfl

/-- The loop runs until no prefix is left. -/
theorem stripLoop_down (n : Nat) (name : List UInt8) (hlen : name.length ≤ n) : ¬ Antisocial (stripLoop n name) := by
  induction n generalizing name with
  | zero =>
    rw [List.length_eq_zero_iff.mp (Nat.le_zero.mp hlen)]
    decide
  | succ n ih =>
    rw [stripLoop_succ]
    split
    · refine ih _ ?_
      have hle := (dropWhile_sublist (fun c : UInt8 => decide (c ≠ 47)) (l := name)).length_le
      rw [length_drop]
      omega
    · assumption

theorem mem_of_mem_stripLoop {c : UInt8} (n : Nat) (name : List UInt8) (h : c ∈ stripLoop n name) : c ∈ name := by
  induction n generalizing name with
  | zero => exact h
  | succ n ih =>
    rw [stripLoop_succ] at h
    split at h
    · exact (dropWhile_sublist _).subset (mem_of_mem_drop (ih _ h))
    · exact h

variable {name : List UInt8}

theorem mem_of_mem_strip {c : UInt8} (hc : c ≠ 46) (h : c ∈ stripAntisocialPrefixes name) : c ∈ name := by
  unfold stripAntisocialPrefixes at h
  simp only at h
  split at h
  · exact absurd (List.mem_singleton.mp h) hc
  · exact mem_of_mem_stripLoop _ _ h

theorem strip_social (name : List UInt8) : Social (stripAntisocialPrefixes name) := by
  unfold stripAntisocialPrefixes
  simp only
  split
  · exact ⟨by decide, by decide, by decide⟩
  · rename_i h
    exact ⟨fun he => h (.inl he), stripLoop_down _ _ (Nat.le_refl _), fun hu => h (.inr hu)⟩

theorem Social.strip (h : Social name) : stripAntisocialPrefixes name = name := by
  have hloop : stripLoop name.length name = name := by
    cases hlen : name.length with
    | zero => rfl
    | succ n => rw [stripLoop_succ, if_neg h.down]
  unfold stripAntisocialPrefixes
  simp only [hloop]
  exact if_neg (fun hbad => hbad.elim h.nonempty h.not_up)

/-! ## Making and parsing -/

variable {header : List UInt8}

theorem not_isAllZeros {b : UInt8} (hb : b ∈ header) (hne : b ≠ 0) : isAllZeros header = false := by
  unfold isAllZeros
  rw [List.all_eq_false]
  exact ⟨b, hb, by simpa using hne⟩

/-- A header with a checksum that is right, for a file or a directory. -/
theorem parse_checked {h : UstarHeader} {type : UstarType} {size : Nat} (hmagic : h.magic.1 = MAGIC ++ [0])
    (hversion : h.version.1 = [48, 48]) (hchksum : parseOctalField h.chksum = some (calculateChksum h.bytes))
    (hname : h.name.1.getD 99 0 = 0) (hpath : h.pathPrefix.1.getD 0 0 = 0) (hne : type ≠ .eof)
    (htype : h.typeflag.1 = [type.flag]) (hsize : parseOctalField h.size = some size) (hlt : size < 2 ^ 31) :
    ustarParseHeader h.bytes =
      .ok ⟨some (stripAntisocialPrefixes h.name.cstring), type, if type = .regular then size else 0⟩ := by
  have hzeros : isAllZeros h.bytes = false := by
    refine not_isAllZeros (b := 117) ?_ (by decide)
    unfold UstarHeader.bytes UstarHeader.back
    rw [hmagic]
    simp [MAGIC]
  unfold ustarParseHeader
  rw [UstarHeader.ofBytes_bytes]
  simp only [hzeros, Bool.false_eq_true, if_false, hmagic, hversion, hchksum, hname, hpath, htype, hsize, ne_eq,
    not_true_eq_false, or_self]
  cases type with
  | regular => rw [if_pos rfl, if_neg (by omega), if_pos rfl]
  | directory => rw [if_neg (by decide), if_pos rfl, if_neg (by decide)]
  | eof => exact absurd rfl hne

/-- **What is made for a name is parsed as the stripped name.** -/
theorem parse_make {fileName : List UInt8} {type : UstarType} {size : Nat} (hne : type ≠ .eof)
    (hlen : (stripAntisocialPrefixes fileName).length ≤ 99) (hzero : 0 ∉ fileName) (hsize : size < 2 ^ 31) :
    ∃ header, ustarMakeHeader fileName type size = some (some header) ∧ header.length = 512 ∧
      ustarParseHeader header =
        .ok ⟨some (stripAntisocialPrefixes fileName), type, if type = .regular then size else 0⟩ := by
  have hstrip := (strip_social fileName).strip
  have hzero' : 0 ∉ stripAntisocialPrefixes fileName := fun h => hzero (mem_of_mem_strip (by decide) h)
  generalize hstripped : stripAntisocialPrefixes fileName = stripped at *
  have hmake : ustarMakeHeader fileName type size = some (some (blankHeader stripped type size).withChksum.bytes) := by
    unfold ustarMakeHeader
    rw [if_neg hne, hstripped, if_neg (by omega)]
  have hsize32 : ((size : Int) % 2 ^ 32).toNat = size := by omega
  refine ⟨_, hmake, UstarHeader.length_bytes _, ?_⟩
  have hparse := @parse_checked (blankHeader stripped type size).withChksum type size rfl rfl ?_ ?_ rfl hne rfl ?_ hsize
  · rw [hparse]
    have hname : (blankHeader stripped type size).withChksum.name.cstring = stripped :=
      Field.cstring_text (by omega) hzero'
    rw [hname, hstrip]
  · rw [calculateChksum_withChksum]
    have hlt := calculateChksum_lt (blankHeader stripped type size).bytes
    exact parseOctalField_text rfl (by decide) (by decide) hlt (by omega)
  · have hval := Field.val_text (n := 100) (s := stripped) (by omega)
    show (Field.text 100 stripped).1.getD 99 0 = 0
    rw [hval, getD_eq_getElem?_getD, getElem?_append_right hlen, getElem?_replicate]
    split <;> rfl
  · have hfield : (blankHeader stripped type size).withChksum.size =
        .text 12 (octal 11 ((size : Int) % 2 ^ 32).toNat) := rfl
    rw [hfield, hsize32]
    exact parseOctalField_text rfl (by decide) (by decide) (by omega) (by omega)

/-- The checksum in the header of a file or a directory is right. -/
theorem parse_chksum {e : Entry} (h : ustarParseHeader header = .ok e) (he : e.type ≠ .eof) :
    parseOctalField (UstarHeader.ofBytes header).chksum = some (calculateChksum header) := by
  unfold ustarParseHeader at h
  by_cases hzeros : isAllZeros header = true
  · rw [if_pos hzeros] at h
    cases h
    exact absurd rfl he
  · rw [if_neg hzeros] at h
    repeat' split at h
    all_goals simp_all

/-- **One damaged byte is noticed**, if it is not one of the checksum's. -/
theorem damaged_byte_rejected {e : Entry} {i : Nat} {c : UInt8} (hi : i < header.length) (hend : i < 512)
    (hout : i < 148 ∨ 156 ≤ i) (hc : c ≠ header.getD i 0) (h : ustarParseHeader header = .ok e) (he : e.type ≠ .eof) :
    ¬ ∃ e', ustarParseHeader (header.set i c) = .ok e' ∧ e'.type ≠ .eof := by
  rintro ⟨e', h', he'⟩
  have hfield : (UstarHeader.ofBytes (header.set i c)).chksum = (UstarHeader.ofBytes header).chksum := by
    apply Subtype.ext
    rcases hout with hlt | hle
    · simp [UstarHeader.ofBytes, Field.take, drop_set_of_lt hlt]
    · simp [UstarHeader.ofBytes, Field.take, drop_set, show ¬ i < 148 by omega, take_set_of_le (show 8 ≤ i - 148 by omega)]
  have heq : calculateChksum (header.set i c) = calculateChksum header := by
    rw [← Option.some_inj, ← parse_chksum h' he', hfield, parse_chksum h he]
  have hsum (f : Nat → Nat) : ((range 512).map f).sum = f i + (((range 512).erase i).map f).sum := by
    rw [((perm_cons_erase (mem_range.2 hend)).map f).sum_nat]
    rfl
  -- all other bytes are the same
  rw [calculateChksum, calculateChksum, USTAR_HEADER_SIZE, hsum, hsum, map_congr_left fun j hj => by
    rw [getD_eq_getElem?_getD, getElem?_set_ne fun hij => nodup_range.not_mem_erase (hij ▸ hj), ← getD_eq_getElem?_getD]] at heq
  have hbyte : c.toNat = (header.getD i 0).toNat := by
    simpa [hi, show ¬ (148 ≤ i ∧ i < 156) by omega] using heq
  exact hc (UInt8.toNat_inj.1 hbyte)

/-- The header of the directory `a`, with its first byte damaged. -/
theorem damaged_byte_rejected_first : ∃ header e, ustarParseHeader header = .ok e ∧
    ¬ ∃ e', ustarParseHeader (header.set 0 (header.getD 0 0 + 1)) = .ok e' ∧ e'.type ≠ .eof := by
  obtain ⟨header, -, hlen, h⟩ := @parse_make [97] .directory 0 (by decide) (by decide) (by decide) (by decide)
  exact ⟨header, _, h, damaged_byte_rejected (by omega) (by decide) (by decide) (by simp) h (by decide)⟩

end Ustar
end Asg1
