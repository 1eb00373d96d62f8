import Asg1.Lib.Bytes
import Mathlib.Data.List.Basic

/-!
# `Kernel.Bitmap` — `lib/kernel/bitmap.c`

A bitmap is an array of 32-bit elements, of which the last may have bits that belong to no index. `none` is an
assertion that fails. `Bitmap.bit` reads the array as a vector of bits, and each operation is described on it.
-/

namespace Asg1

open List Option BitVec

/-- `elem_cnt`; sizes are 32-bit. -/
def elemCnt (bitCnt : Nat) : Nat := (bitCnt + 31) % 2 ^ 32 / 32

/-- `byte_cnt` -/
def byteCnt (bitCnt : Nat) : Nat := 4 * elemCnt bitCnt

/-- `struct bitmap`. `bitmap_create` makes none so large that the number of elements wraps around. -/
structure Bitmap where
  bitCnt : Nat
  bits : List (BitVec 32)
  fits : bitCnt + 31 < 2 ^ 32
  length_eq : bits.length = elemCnt bitCnt

namespace Bitmap

/-- `elem_idx` -/
def elemIdx (bitIdx : Nat) : Nat := bitIdx / 32

/-- `bit_mask` -/
def bitMask (bitIdx : Nat) : BitVec 32 := 1#32 <<< (bitIdx % 32)

/-- `last_mask` -/
def lastMask (b : Bitmap) : BitVec 32 :=
  let lastBits := b.bitCnt % 32
  if lastBits ≠ 0 then (1#32 <<< lastBits) - 1#32 else BitVec.allOnes 32

/-- An instruction on the element of a bit. -/
def update (b : Bitmap) (idx : Nat) (g : BitVec 32 → BitVec 32) : Bitmap :=
  { b with
    bits := b.bits.set idx (g (b.bits.getD idx 0#32))
    length_eq := by rw [length_set]; exact b.length_eq }

/-- `bitmap_mark` -/
def mark (b : Bitmap) (bitIdx : Nat) : Bitmap := b.update (elemIdx bitIdx) (· ||| bitMask bitIdx)

/-- `bitmap_reset` -/
def reset (b : Bitmap) (bitIdx : Nat) : Bitmap := b.update (elemIdx bitIdx) (· &&& ~~~ bitMask bitIdx)

/-- `bitmap_set` -/
def set (b : Bitmap) (idx : Nat) (value : Bool) : Option Bitmap :=
  if idx < b.bitCnt then some (if value then b.mark idx else b.reset idx) else none

/-- `bitmap_test` -/
def test (b : Bitmap) (idx : Nat) : Option Bool :=
  if idx < b.bitCnt then some (b.bits.getD (elemIdx idx) 0#32 &&& bitMask idx != 0#32) else none

/-- The loop of `bitmap_set_multiple`, with `cnt` bits to go from `idx` on. -/
def setLoop (value : Bool) : Nat → Nat → Bitmap → Option Bitmap
  | 0, _, b => some b
  | cnt + 1, idx, b => (b.set (idx % 2 ^ 32) value).bind (setLoop value cnt (idx + 1))

/-- The two assertions on a range of bits. -/
def InRange (b : Bitmap) (start cnt : Nat) : Prop := start ≤ b.bitCnt ∧ (start + cnt) % 2 ^ 32 ≤ b.bitCnt

instance (b : Bitmap) (start cnt : Nat) : Decidable (b.InRange start cnt) := inferInstanceAs (Decidable (_ ∧ _))

/-- `bitmap_set_multiple` -/
def setMultiple (b : Bitmap) (start cnt : Nat) (value : Bool) : Option Bitmap :=
  if b.InRange start cnt then setLoop value cnt start b else none

/-- `bitmap_set_all` -/
def setAll (b : Bitmap) (value : Bool) : Option Bitmap := b.setMultiple 0 b.bitCnt value

/-- The loop of `bitmap_contains`. -/
def containsLoop (b : Bitmap) (value : Bool) : Nat → Nat → Option Bool
  | 0, _ => some false
  | cnt + 1, idx =>
    (b.test (idx % 2 ^ 32)).bind (fun v => if v = value then some true else containsLoop b value cnt (idx + 1))

/-- `bitmap_contains` -/
def contains (b : Bitmap) (start cnt : Nat) (value : Bool) : Option Bool :=
  if b.InRange start cnt then containsLoop b value cnt start else none

/-- `bitmap_all` -/
def all (b : Bitmap) (start cnt : Nat) : Option Bool := (b.contains start cnt false).map (!·)

/-- `bitmap_any` -/
def any (b : Bitmap) (start cnt : Nat) : Option Bool := b.contains start cnt true

/-- `bitmap_none` -/
def bitmapNone (b : Bitmap) (start cnt : Nat) : Option Bool := (b.contains start cnt true).map (!·)

/-- The loop of `bitmap_count`. -/
def countLoop (b : Bitmap) (value : Bool) : Nat → Nat → Nat → Option Nat
  | 0, _, valueCnt => some valueCnt
  | cnt + 1, idx, valueCnt =>
    (b.test (idx % 2 ^ 32)).bind
      (fun v => countLoop b value cnt (idx + 1) (if v = value then valueCnt + 1 else valueCnt))

/-- `bitmap_count` -/
def count (b : Bitmap) (start cnt : Nat) (value : Bool) : Option Nat :=
  if b.InRange start cnt then countLoop b value cnt start 0 else none

/-- The loop of `bitmap_scan`, with `todo` indices to go from `i` on. -/
def scanLoop (b : Bitmap) (cnt : Nat) (value : Bool) : Nat → Nat → Option (Option Nat)
  | 0, _ => some none
  | todo + 1, i =>
    (b.contains i cnt (!value)).bind (fun other => if other then scanLoop b cnt value todo (i + 1) else some (some i))

/-- `bitmap_scan`; `BITMAP_ERROR` is `none`. -/
def scan (b : Bitmap) (start cnt : Nat) (value : Bool) : Option (Option Nat) :=
  if start ≤ b.bitCnt then
    if cnt ≤ b.bitCnt then scanLoop b cnt value (b.bitCnt - cnt + 1 - start) start else some none
  else none

/-- `bitmap_scan_and_flip` -/
def scanAndFlip (b : Bitmap) (start cnt : Nat) (value : Bool) : Option (Bitmap × Option Nat) := do
  match ← b.scan start cnt value with
  | none => return (b, none)
  | some idx => return (← b.setMultiple idx cnt (!value), some idx)

/-- `bitmap_create`, with what `malloc` found in memory. The size 0, which no device has, is left out. -/
def create (bitCnt : Nat) (memory : Nat → BitVec 32) : Option Bitmap :=
  if h : bitCnt + 31 < 2 ^ 32 then
    setAll ⟨bitCnt, (List.range (elemCnt bitCnt)).map memory, h, by simp⟩ false
  else none

/-- The elements in memory, byte by byte. -/
def bytes (b : Bitmap) : List UInt8 :=
  (List.range (byteCnt b.bitCnt)).map (fun j => Bytes.byteOf (b.bits.getD (j / 4) 0#32) (j % 4))

/-- The elements that `bitmap_read` has got from the file, the last of them masked. -/
def ofBytes (b : Bitmap) (l : List UInt8) : Bitmap :=
  let read : Bitmap :=
    { b with bits := (List.range (elemCnt b.bitCnt)).map (fun q => Bytes.word32 (l.drop (4 * q))), length_eq := by simp }
  read.update (elemCnt b.bitCnt - 1) (· &&& b.lastMask)

/-! ## Bits -/

/-- Bit `i` of the array. -/
def bit (b : Bitmap) (i : Nat) : Bool := (b.bits.getD (i / 32) 0#32).getLsbD (i % 32)

variable {b b' : Bitmap} {i idx start cnt : Nat} {value : Bool}

theorem elemIdx_lt (h : i < b.bitCnt) : i / 32 < b.bits.length := by
  have hfits := b.fits
  rw [b.length_eq, elemCnt, Nat.mod_eq_of_lt hfits]
  omega

theorem getLsbD_bitMask (i j : Nat) (hj : j < 32) : (bitMask i).getLsbD j = decide (j = i % 32) := by
  show (BitVec.twoPow 32 (i % 32)).getLsbD j = _
  by_cases h : j = i % 32
  · simp [h]
    omega
  · simp [h]
    omega

theorem test_eq (h : i < b.bitCnt) : b.test i = some (b.bit i) := by
  unfold test
  rw [if_pos h]
  show some (_ &&& BitVec.twoPow 32 (i % 32) != 0#32) = _
  rw [and_twoPow]
  show some ((if b.bit i then _ else _) != 0#32) = _
  cases b.bit i with
  | false => rfl
  | true =>
    have hne : BitVec.twoPow 32 (i % 32) ≠ 0#32 := by
      intro heq
      have hbit := congrArg (fun w => BitVec.getLsbD w (i % 32)) heq
      have hlt : i % 32 < 32 := Nat.mod_lt _ (by decide)
      simp [hlt] at hbit
    simpa using hne

theorem test_mod (h : i < b.bitCnt) : b.test (i % 2 ^ 32) = some (b.bit i) := by
  have hfits := b.fits
  rw [Nat.mod_eq_of_lt (by omega)]
  exact test_eq h

/-- An instruction that changes one bit of an element changes that bit of the array. -/
theorem bit_update {g : BitVec 32 → BitVec 32} (h : i / 32 < b.bits.length)
    (hg : ∀ w j, j < 32 → (g w).getLsbD j = if j = i % 32 then value else w.getLsbD j) (j : Nat) :
    (b.update (elemIdx i) g).bit j = if j = i then value else b.bit j := by
  unfold bit update elemIdx
  simp only [getD_eq_getElem?_getD, getElem?_set]
  by_cases hsame : i / 32 = j / 32
  · rw [if_pos hsame, if_pos h]
    simp only [getD_some]
    rw [hg _ _ (Nat.mod_lt _ (by decide)), hsame]
    by_cases hj : j = i
    · rw [if_pos (by rw [hj]), if_pos hj]
    · rw [if_neg (by omega), if_neg hj]
  · have hj : j ≠ i := by
      rintro rfl
      exact hsame rfl
    rw [if_neg hsame, if_neg hj]

theorem bit_mark (h : i / 32 < b.bits.length) (j : Nat) : (b.mark i).bit j = if j = i then true else b.bit j := by
  refine bit_update h ?_ j
  intro w j hj
  rw [getLsbD_or, getLsbD_bitMask i j hj]
  by_cases hji : j = i % 32 <;> simp [hji]

theorem bit_reset (h : i / 32 < b.bits.length) (j : Nat) : (b.reset i).bit j = if j = i then false else b.bit j := by
  refine bit_update h ?_ j
  intro w j hj
  rw [getLsbD_and, getLsbD_not, getLsbD_bitMask i j hj]
  by_cases hji : j = i % 32 <;> simp [hji, hj]

theorem set_eq (value : Bool) (h : i < b.bitCnt) :
    ∃ b', b.set i value = some b' ∧ b'.bitCnt = b.bitCnt ∧ ∀ j, b'.bit j = if j = i then value else b.bit j := by
  unfold set
  rw [if_pos h]
  cases value with
  | true => exact ⟨b.mark i, rfl, rfl, bit_mark (elemIdx_lt h)⟩
  | false => exact ⟨b.reset i, rfl, rfl, bit_reset (elemIdx_lt h)⟩

theorem setLoop_eq (value : Bool) : ∀ (cnt start : Nat) (b : Bitmap), start + cnt ≤ b.bitCnt →
    ∃ b', setLoop value cnt start b = some b' ∧ b'.bitCnt = b.bitCnt ∧
      ∀ j, b'.bit j = if start ≤ j ∧ j < start + cnt then value else b.bit j := by
  intro cnt
  induction cnt with
  | zero =>
    intro start b _
    refine ⟨b, rfl, rfl, ?_⟩
    intro j
    rw [if_neg (by omega)]
  | succ cnt ih =>
    intro start b h
    have hfits := b.fits
    obtain ⟨b₁, hset, hcnt₁, hbit₁⟩ := set_eq (i := start) value (show start < b.bitCnt by omega)
    obtain ⟨b₂, hloop, hcnt₂, hbit₂⟩ := ih (start + 1) b₁ (by omega)
    refine ⟨b₂, ?_, hcnt₂.trans hcnt₁, ?_⟩
    · show (b.set (start % 2 ^ 32) value).bind _ = _
      rw [Nat.mod_eq_of_lt (by omega), hset]
      exact hloop
    · intro j
      rw [hbit₂, hbit₁]
      by_cases hin : start + 1 ≤ j ∧ j < start + 1 + cnt
      · rw [if_pos hin, if_pos (by omega)]
      · rw [if_neg hin]
        by_cases hj : j = start
        · rw [if_pos hj, if_pos (by omega)]
        · rw [if_neg hj, if_neg (by omega)]

theorem inRange (h : start + cnt ≤ b.bitCnt) : b.InRange start cnt := by
  have hfits := b.fits
  refine ⟨by omega, ?_⟩
  rw [Nat.mod_eq_of_lt (by omega)]
  exact h

/-- `bitmap_set_multiple` writes a range. -/
theorem setMultiple_eq (value : Bool) (h : start + cnt ≤ b.bitCnt) :
    ∃ b', b.setMultiple start cnt value = some b' ∧ b'.bitCnt = b.bitCnt ∧
      ∀ j, b'.bit j = if start ≤ j ∧ j < start + cnt then value else b.bit j := by
  unfold setMultiple
  rw [if_pos (inRange h)]
  exact setLoop_eq value cnt start b h

theorem containsLoop_eq (value : Bool) : ∀ (cnt start : Nat), start + cnt ≤ b.bitCnt →
    containsLoop b value cnt start = some ((range' start cnt).any (b.bit · == value)) := by
  intro cnt
  induction cnt with
  | zero =>
    intro start _
    rfl
  | succ cnt ih =>
    intro start h
    simp only [containsLoop, test_mod (show start < b.bitCnt by omega), bind_some, range'_succ, any_cons]
    by_cases hv : b.bit start = value
    · simp [hv]
    · rw [if_neg hv, ih (start + 1) (by omega)]
      simp [hv]

/-- `bitmap_contains` looks at a range. -/
theorem contains_any (value : Bool) (h : start + cnt ≤ b.bitCnt) :
    b.contains start cnt value = some ((range' start cnt).any (b.bit · == value)) := by
  unfold contains
  rw [if_pos (inRange h)]
  exact containsLoop_eq value cnt start h

theorem contains_eq (value : Bool) (h : start + cnt ≤ b.bitCnt) :
    ∃ r, b.contains start cnt value = some r ∧ (r = true ↔ ∃ j, start ≤ j ∧ j < start + cnt ∧ b.bit j = value) := by
  refine ⟨_, contains_any value h, ?_⟩
  simp only [List.any_eq_true, mem_range'_1, beq_iff_eq]
  constructor
  · rintro ⟨j, ⟨hle, hlt⟩, hj⟩
    exact ⟨j, hle, hlt, hj⟩
  · rintro ⟨j, hle, hlt, hj⟩
    exact ⟨j, ⟨hle, hlt⟩, hj⟩

/-- `bitmap_all` -/
theorem all_eq (h : start + cnt ≤ b.bitCnt) :
    ∃ r, b.all start cnt = some r ∧ (r = true ↔ ∀ j, start ≤ j → j < start + cnt → b.bit j = true) := by
  obtain ⟨r, hcontains, hr⟩ := contains_eq false h
  refine ⟨!r, by rw [all, hcontains]; rfl, ?_⟩
  rw [Bool.not_eq_true', ← Bool.not_eq_true, hr]
  constructor
  · intro hnone j hle hlt
    by_contra hj
    exact hnone ⟨j, hle, hlt, by simpa using hj⟩
  · rintro hall ⟨j, hle, hlt, hj⟩
    rw [hall j hle hlt] at hj
    cases hj

/-- All bits of a range have a value. -/
def Run (b : Bitmap) (value : Bool) (start cnt : Nat) : Prop :=
  start + cnt ≤ b.bitCnt ∧ ∀ j, start ≤ j → j < start + cnt → b.bit j = value

theorem scanLoop_eq (cnt : Nat) (value : Bool) : ∀ (todo i : Nat), i + todo + cnt ≤ b.bitCnt + 1 →
    ∃ r, scanLoop b cnt value todo i = some r ∧
      (∀ k, r = some k → i ≤ k ∧ b.Run value k cnt ∧ ∀ j, i ≤ j → j < k → ¬ b.Run value j cnt) ∧
      (r = none → ∀ j, i ≤ j → j < i + todo → ¬ b.Run value j cnt) := by
  intro todo
  induction todo with
  | zero =>
    intro i _
    refine ⟨none, rfl, ?_, ?_⟩
    · intro k hk
      cases hk
    · intro _ j hle hlt
      omega
  | succ todo ih =>
    intro i h
    obtain ⟨other, hcontains, hother⟩ := contains_eq (!value) (show i + cnt ≤ b.bitCnt by omega)
    simp only [scanLoop, hcontains, bind_some]
    have hrun : other = false ↔ b.Run value i cnt := by
      rw [← Bool.not_eq_true, hother]
      constructor
      · intro hnone
        refine ⟨by omega, ?_⟩
        intro j hle hlt
        by_contra hj
        refine hnone ⟨j, hle, hlt, ?_⟩
        revert hj
        cases b.bit j <;> cases value <;> simp
      · rintro ⟨_, hall⟩ ⟨j, hle, hlt, hj⟩
        rw [hall j hle hlt] at hj
        cases value <;> cases hj
    cases other with
    | false =>
      refine ⟨some i, rfl, ?_, ?_⟩
      · intro k hk
        cases hk
        exact ⟨Nat.le_refl _, hrun.mp rfl, fun j hle hlt => by omega⟩
      · intro hnone
        cases hnone
    | true =>
      obtain ⟨r, hloop, hsome, hnone⟩ := ih (i + 1) (by omega)
      have hnot : ¬ b.Run value i cnt := by
        intro hi
        exact absurd (hrun.mpr hi) (by decide)
      refine ⟨r, hloop, ?_, ?_⟩
      · intro k hk
        obtain ⟨hle, hk, hmin⟩ := hsome k hk
        refine ⟨by omega, hk, ?_⟩
        intro j hj hlt
        by_cases hji : j = i
        · rw [hji]
          exact hnot
        · exact hmin j (by omega) hlt
      · intro hr j hj hlt
        by_cases hji : j = i
        · rw [hji]
          exact hnot
        · exact hnone hr j (by omega) (by omega)

/-- **`bitmap_scan` finds the first run.** -/
theorem scan_eq (value : Bool) (cnt : Nat) (h : start ≤ b.bitCnt) :
    ∃ r, b.scan start cnt value = some r ∧
      (∀ k, r = some k → start ≤ k ∧ b.Run value k cnt ∧ ∀ j, start ≤ j → j < k → ¬ b.Run value j cnt) ∧
      (r = none → ∀ j, start ≤ j → ¬ b.Run value j cnt) := by
  unfold scan
  rw [if_pos h]
  split
  · by_cases hlast : start ≤ b.bitCnt - cnt + 1
    · obtain ⟨r, hloop, hsome, hnone⟩ :=
        scanLoop_eq (b := b) cnt value (b.bitCnt - cnt + 1 - start) start (by omega)
      refine ⟨r, hloop, hsome, ?_⟩
      intro hr j hj hrun
      exact hnone hr j hj (by have := hrun.1; omega) hrun
    · have hzero : b.bitCnt - cnt + 1 - start = 0 := by omega
      refine ⟨none, by rw [hzero]; rfl, ?_, ?_⟩
      · intro k hk
        cases hk
      · intro _ j hj hrun
        have := hrun.1
        omega
  · refine ⟨none, rfl, ?_, ?_⟩
    · intro k hk
      cases hk
    · intro _ j _ hrun
      have := hrun.1
      omega

/-- **`bitmap_scan_and_flip`** flips the first run, or finds none. -/
theorem scanAndFlip_eq (value : Bool) (cnt : Nat) (h : start ≤ b.bitCnt) :
    (∃ k b', b.scanAndFlip start cnt value = some (b', some k) ∧ start ≤ k ∧ b.Run value k cnt ∧
      (∀ j, start ≤ j → j < k → ¬ b.Run value j cnt) ∧ b'.bitCnt = b.bitCnt ∧
      ∀ j, b'.bit j = if k ≤ j ∧ j < k + cnt then !value else b.bit j) ∨
    (b.scanAndFlip start cnt value = some (b, none) ∧ ∀ j, start ≤ j → ¬ b.Run value j cnt) := by
  obtain ⟨r, hscan, hsome, hnone⟩ := scan_eq value cnt h
  cases r with
  | some k =>
    obtain ⟨hle, hrun, hmin⟩ := hsome k rfl
    obtain ⟨b', hset, hcnt, hbit⟩ := setMultiple_eq (!value) hrun.1
    refine .inl ⟨k, b', ?_, hle, hrun, hmin, hcnt, hbit⟩
    simp only [scanAndFlip, hscan, hset, bind_eq_bind, bind_some]
    rfl
  | none =>
    refine .inr ⟨?_, hnone rfl⟩
    simp only [scanAndFlip, hscan, bind_eq_bind, bind_some]
    rfl

theorem countLoop_eq (value : Bool) : ∀ (cnt start valueCnt : Nat), start + cnt ≤ b.bitCnt →
    countLoop b value cnt start valueCnt = some (valueCnt + (range' start cnt).countP (b.bit · == value)) := by
  intro cnt
  induction cnt with
  | zero =>
    intro start valueCnt _
    rfl
  | succ cnt ih =>
    intro start valueCnt h
    simp only [countLoop, test_mod (show start < b.bitCnt by omega), bind_some, range'_succ, countP_cons]
    rw [ih (start + 1) _ (by omega)]
    by_cases hv : b.bit start = value
    · simp [hv, Nat.add_assoc, Nat.add_comm 1]
    · simp [hv]

/-- **A bitmap is a vector of bits**, in which runs are found first fit and ranges are written, counted and tested. -/
theorem bitmap_vector (b : Bitmap) (value : Bool) (cnt : Nat) (h : start ≤ b.bitCnt) :
    ((∃ k b', b.scanAndFlip start cnt value = some (b', some k) ∧ start ≤ k ∧ b.Run value k cnt ∧
        (∀ j, start ≤ j → j < k → ¬ b.Run value j cnt) ∧ b'.bitCnt = b.bitCnt ∧
        ∀ j, b'.bit j = if k ≤ j ∧ j < k + cnt then !value else b.bit j) ∨
      (b.scanAndFlip start cnt value = some (b, none) ∧ ∀ j, start ≤ j → ¬ b.Run value j cnt)) ∧
    (start + cnt ≤ b.bitCnt →
      (∃ b', b.setMultiple start cnt value = some b' ∧ b'.bitCnt = b.bitCnt ∧
        ∀ j, b'.bit j = if start ≤ j ∧ j < start + cnt then value else b.bit j) ∧
      b.count start cnt value = some ((range' start cnt).countP (b.bit · == value)) ∧
      b.contains start cnt value = some ((range' start cnt).any (b.bit · == value)) ∧
      b.any start cnt = some ((range' start cnt).any b.bit) ∧
      b.bitmapNone start cnt = some ((range' start cnt).all (!b.bit ·)) ∧
      b.all start cnt = some ((range' start cnt).all b.bit)) := by
  refine ⟨scanAndFlip_eq value cnt h, ?_⟩
  intro hend
  have hcount : b.count start cnt value = _ := (if_pos (inRange hend)).trans (countLoop_eq value cnt start 0 hend)
  rw [Nat.zero_add] at hcount
  refine ⟨setMultiple_eq value hend, hcount, contains_any value hend, ?_, ?_, ?_⟩
  · simp [any, contains_any true hend]
  · simp [bitmapNone, contains_any true hend, List.not_any_eq_all_not]
  · simp [all, contains_any false hend, List.not_any_eq_all_not]

/-- Of three bits two are set, at both ends. -/
theorem bitmap_vector_three : let b : Bitmap := ⟨3, [5#32], by decide, by decide⟩
    b.count 0 3 true = some 2 ∧ b.contains 0 3 false = some true := by
  have h := ((@bitmap_vector 0 ⟨3, [5#32], by decide, by decide⟩ true 3 (by decide)).2 (by decide)).2
  exact ⟨h.1, by decide⟩

/-! ## Bytes -/

/-- Bit `i` of an array of bytes. -/
def fileBit (byte : Nat → UInt8) (i : Nat) : Bool := (byte (i / 8)).toBitVec.getLsbD (i % 8)

theorem length_bytes : b.bytes.length = byteCnt b.bitCnt := by
  simp [bytes]

theorem byteCnt_ge (h : i < b.bitCnt) : i / 8 < byteCnt b.bitCnt := by
  have hfits := b.fits
  unfold byteCnt elemCnt
  omega

/-- The bytes in memory hold the bits in order. -/
theorem fileBit_bytes {byte : Nat → UInt8} (hbyte : ∀ j < byteCnt b.bitCnt, byte j = b.bytes.getD j 0)
    (h : i < b.bitCnt) : fileBit byte i = b.bit i := by
  have hj := byteCnt_ge h
  unfold fileBit
  rw [hbyte _ hj, bytes, getD_eq_getElem?_getD, getElem?_map, getElem?_range hj]
  simp only [map_some, getD_some]
  rw [Bytes.getLsbD_byteOf, bit]
  have hword : i / 8 / 4 = i / 32 := by omega
  have hbit : 8 * (i / 8 % 4) + i % 8 = i % 32 := by omega
  have hlt : i % 8 < 8 := Nat.mod_lt _ (by decide)
  rw [hword, hbit, decide_eq_true hlt, Bool.true_and]

theorem getLsbD_lastMask (h : i < b.bitCnt) (hlast : i / 32 = elemCnt b.bitCnt - 1) :
    b.lastMask.getLsbD (i % 32) = true := by
  have hfits := b.fits
  rw [elemCnt, Nat.mod_eq_of_lt hfits] at hlast
  have hlt : i % 32 < 32 := Nat.mod_lt _ (by decide)
  unfold lastMask
  simp only
  split
  · -- `1 << k` less one has the bits below `k`
    have hk : i % 32 < b.bitCnt % 32 := by omega
    have hk32 : b.bitCnt % 32 < 32 := Nat.mod_lt _ (by decide)
    have hnat : ((1#32 <<< (b.bitCnt % 32)) - 1#32).toNat = 2 ^ (b.bitCnt % 32) - 1 := by
      have hpow : 2 ^ (b.bitCnt % 32) < 2 ^ 32 := Nat.pow_lt_pow_right (by decide) hk32
      have hpos : 0 < 2 ^ (b.bitCnt % 32) := Nat.two_pow_pos _
      rw [toNat_sub, toNat_shiftLeft, Nat.shiftLeft_eq]
      simp only [toNat_ofNat]
      omega
    rw [← testBit_toNat, hnat, Nat.testBit_two_pow_sub_one]
    exact decide_eq_true hk
  · rw [getLsbD_allOnes]
    exact decide_eq_true hlt

/-- **What `bitmap_read` puts into memory** are the bits of the file. -/
theorem bit_ofBytes {l : List UInt8} (h : i < b.bitCnt) : (b.ofBytes l).bit i = fileBit (fun j => l.getD j 0) i := by
  have hq : i / 32 < elemCnt b.bitCnt := by
    rw [← b.length_eq]
    exact elemIdx_lt h
  have hword : (Bytes.word32 (l.drop (4 * (i / 32)))).getLsbD (i % 32) = fileBit (fun j => l.getD j 0) i := by
    have hsplit : i % 32 = 8 * (i % 32 / 8) + i % 8 := by omega
    rw [hsplit, Bytes.getLsbD_word32 _ (by omega) (Nat.mod_lt _ (by decide))]
    unfold fileBit
    have hindex : 4 * (i / 32) + i % 32 / 8 = i / 8 := by omega
    rw [getD_eq_getElem?_getD, getElem?_drop, hindex, ← getD_eq_getElem?_getD]
  unfold bit ofBytes update
  simp only [getD_eq_getElem?_getD, getElem?_set]
  by_cases hlast : elemCnt b.bitCnt - 1 = i / 32
  · rw [if_pos hlast, if_pos (by rw [length_map, length_range, hlast]; exact hq)]
    simp only [getD_some, getLsbD_and, getLsbD_lastMask h hlast.symm, Bool.and_true]
    rw [hlast, getElem?_map, getElem?_range hq]
    exact hword
  · rw [if_neg hlast, getElem?_map, getElem?_range hq]
    exact hword

/-- **`bitmap_read` restores what `bitmap_write` wrote**, whatever the bitmap held that it is read into. -/
theorem read_write (hcnt : b'.bitCnt = b.bitCnt) (hi : i < b.bitCnt) : (b'.ofBytes b.bytes).bit i = b.bit i := by
  rw [bit_ofBytes (hcnt ▸ hi)]
  exact fileBit_bytes (fun _ _ => rfl) hi

theorem read_write_three : let b : Bitmap := ⟨3, [5#32], by decide, by decide⟩
    (Bitmap.ofBytes ⟨3, [2#32], by decide, by decide⟩ b.bytes).bit 2 = b.bit 2 :=
  read_write rfl (by decide)

/-- `bitmap_create` gives a bitmap with no bit set. -/
theorem create_eq {bitCnt : Nat} {memory : Nat → BitVec 32} (h : bitCnt + 31 < 2 ^ 32) :
    ∃ b, create bitCnt memory = some b ∧ b.bitCnt = bitCnt ∧ ∀ i < bitCnt, b.bit i = false := by
  unfold create
  rw [dif_pos h]
  obtain ⟨b', hset, hcnt, hbit⟩ := setMultiple_eq
    (b := ⟨bitCnt, (List.range (elemCnt bitCnt)).map memory, h, by simp⟩) false (show 0 + bitCnt ≤ bitCnt by omega)
  refine ⟨b', hset, hcnt, ?_⟩
  intro i hi
  rw [hbit, if_pos (by omega)]

/-- The bits below `e` are set, and no others. -/
def Prefix (b : Bitmap) (e : Nat) : Prop := ∀ j < b.bitCnt, b.bit j = decide (j < e)

namespace Prefix

variable {e k : Nat}

theorem run (h : b.Prefix e) (hend : e + cnt ≤ b.bitCnt) : b.Run false e cnt := by
  refine ⟨hend, ?_⟩
  intro j hle hlt
  rw [h j (by omega)]
  exact decide_eq_false (by omega)

/-- The first run of clear bits comes after the prefix. -/
theorem first (h : b.Prefix e) (hcnt : 0 < cnt) (hrun : b.Run false k cnt) (hleast : ∀ j < k, ¬ b.Run false j cnt) :
    k = e := by
  have hle : e ≤ k := by
    have hbit := hrun.2 k (Nat.le_refl _) (by omega)
    rw [h k (by have := hrun.1; omega)] at hbit
    exact Nat.le_of_not_lt (of_decide_eq_false hbit)
  by_contra hne
  have hend := hrun.1
  exact hleast e (by omega) (h.run (by omega))

theorem extend (h : b.Prefix e) (hcnt : b'.bitCnt = b.bitCnt)
    (hbit : ∀ j, b'.bit j = if e ≤ j ∧ j < e + cnt then true else b.bit j) : b'.Prefix (e + cnt) := by
  intro j hj
  rw [hcnt] at hj
  rw [hbit, h j hj]
  split
  · rename_i hin
    exact (decide_eq_true hin.2).symm
  · exact decide_eq_decide.mpr (by omega)

end Prefix

/-- The first clear run of `cnt` bits is set. Of a clear run that is longer by `n`, there is still a part of `n`. -/
theorem Run.firstFit {a k n : Nat} (h : b.Run false a (cnt + n)) (hleast : ∀ j < k, ¬ b.Run false j cnt)
    (hcnt : b'.bitCnt = b.bitCnt) (hbit : ∀ j, b'.bit j = if k ≤ j ∧ j < k + cnt then true else b.bit j) :
    ∃ a', b'.Run false a' n := by
  have hend := h.1
  have hle : k ≤ a := by
    by_contra hlt
    exact hleast a (by omega) ⟨by omega, fun j hj hj' => h.2 j hj (by omega)⟩
  -- the run that is set ends before the longer one, or takes the beginning of it
  refine ⟨max a (k + cnt), ?_, ?_⟩
  · omega
  · intro j hj hj'
    rw [hbit, if_neg (by omega)]
    exact h.2 j (by omega) (by omega)

end Bitmap
end Asg1
