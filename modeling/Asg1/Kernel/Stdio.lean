import Mathlib.Data.List.Basic

/-!
# `Kernel.Stdio` — the scan of a format string

`lib/stdio.c`: `__vprintf` and `parse_conversion`. A pointer into the format is the rest of the string with its NUL, so
`[]` is the pointer behind the NUL: once the scan is there it stays there, up to the next byte the main loop reads.
What is printed and which arguments are taken has no influence on the scan, so both are a `Printer`.
-/

namespace Asg1
namespace Stdio

open List

structure Flags where
  minus : Bool := false
  plus : Bool := false
  space : Bool := false
  pound : Bool := false
  zero : Bool := false
  group : Bool := false

inductive IntType
  | char
  | short
  | int
  | intmax
  | long
  | longlong
  | ptrdifft
  | sizet

structure PrintfConversion where
  flags : Flags
  width : Int
  precision : Int
  type : IntType

/-- The output written and the arguments left are in the state; `convert` is the switch over the conversions. -/
structure Printer (σ : Type) where
  output : UInt8 → σ → σ
  vaArg : σ → Int × σ
  convert : UInt8 → PrintfConversion → σ → σ

def isFlag (c : UInt8) : Bool := c ∈ [45, 43, 32, 35, 48, 39]

def setFlag (flags : Flags) (c : UInt8) : Flags where
  minus := flags.minus || c = 45
  plus := flags.plus || c = 43
  space := flags.space || c = 32
  pound := flags.pound || c = 35
  zero := flags.zero || c = 48
  group := flags.group || c = 39

def isdigit (c : UInt8) : Bool := 48 ≤ c && c ≤ 57

def digitsValue (format : List UInt8) : Int := (format.takeWhile isdigit).foldl (fun n c => n * 10 + c.toNat - 48) 0

/-- Behind a width or a precision, given by `*` or written out. -/
def skipNumber (format : List UInt8) : List UInt8 :=
  if format.head? = some 42 then format.tail else format.dropWhile isdigit

def skipPrecision (format : List UInt8) : List UInt8 :=
  if format.head? = some 46 then skipNumber format.tail else format

def skipLetter (c : UInt8) (format : List UInt8) : List UInt8 := if format.head? = some c then format.tail else format

def skipType (format : List UInt8) : List UInt8 :=
  if format.head? = some 104 then skipLetter 104 format.tail
  else if format.head? = some 106 then format.tail
  else if format.head? = some 108 then skipLetter 108 format.tail
  else if format.head? = some 116 then format.tail
  else if format.head? = some 122 then format.tail
  else format

def parseType : List UInt8 → IntType
  | 104 :: 104 :: _ => .char
  | 104 :: _ => .short
  | 106 :: _ => .intmax
  | 108 :: 108 :: _ => .longlong
  | 108 :: _ => .long
  | 116 :: _ => .ptrdifft
  | 122 :: _ => .sizet
  | _ => .int

/-- Behind flags, width, precision and type: the letter of the conversion, if there is one. -/
def skipOptions (format : List UInt8) : List UInt8 := skipType (skipPrecision (skipNumber (format.dropWhile isFlag)))

variable {σ : Type} (P : Printer σ)

def parseNumber (format : List UInt8) (st : σ) : Int × σ :=
  if format.head? = some 42 then P.vaArg st else (digitsValue format, st)

def parsePrecision (format : List UInt8) (st : σ) : Int × σ :=
  if format.head? = some 46 then
    let (precision, st) := parseNumber P format.tail st
    (if precision < 0 then -1 else precision, st)
  else (-1, st)

/-- `parse_conversion`; it returns `skipOptions format`. -/
def parseConversion (format : List UInt8) (st : σ) : PrintfConversion × σ :=
  let flags := (format.takeWhile isFlag).foldl setFlag {}
  let format := format.dropWhile isFlag
  let flags := { flags with zero := flags.zero && !flags.minus, space := flags.space && !flags.plus }
  let (width, st) := parseNumber P format st
  let format := skipNumber format
  -- `ZERO` may be set by now
  let flags := { flags with minus := flags.minus || width < 0 }
  let (precision, st) := parsePrecision P format st
  let flags := { flags with zero := flags.zero && precision < 0 }
  (⟨flags, width.natAbs, precision, parseType (skipPrecision format)⟩, st)

/-- `__vprintf`: the state at the end, or `some none` when a byte behind the NUL is read; `none` when the fuel runs
out. -/
def vprintf : Nat → List UInt8 → σ → Option (Option σ)
  | 0, _, _ => none
  | _ + 1, [], _ => some none
  | fuel + 1, c :: format, st =>
    if c = 0 then some (some st)
    else if c ≠ 37 then vprintf fuel format (P.output c st)
    else if format.head? = some 37 then vprintf fuel format.tail (P.output 37 st)
    else
      match skipOptions format with
      | [] => some none
      -- the loop's increment steps over the letter, whatever it is
      | k :: rest => vprintf fuel rest (P.convert k (parseConversion P format st).1 (parseConversion P format st).2)

/-- Every conversion of the string has its letter: the string does not end behind a `%` or inside the options. -/
inductive Complete : List UInt8 → Prop
  | nil : Complete []
  | literal {c : UInt8} {l : List UInt8} (hc : c ≠ 37) (h : Complete l) : Complete (c :: l)
  | percent {l : List UInt8} (h : Complete l) : Complete (37 :: 37 :: l)
  | conversion {k : UInt8} {l rest : List UInt8} (hl : l.head? ≠ some 37) (hk : skipOptions l = k :: rest)
      (h : Complete rest) : Complete (37 :: l)

/-- A part of the parser that stops at the NUL. -/
structure Skips (f : List UInt8 → List UInt8) : Prop where
  nul (l : List UInt8) : f (l ++ [0]) = f l ++ [0]
  suffix (l : List UInt8) : f l <:+ l

namespace Skips

variable {f g : List UInt8 → List UInt8}

theorem self : Skips fun l => l := ⟨fun _ => rfl, fun _ => suffix_rfl⟩

theorem comp (hf : Skips f) (hg : Skips g) : Skips fun l => f (g l) where
  nul l := by rw [hg.nul, hf.nul]
  suffix l := (hf.suffix _).trans (hg.suffix l)

theorem dropWhile {p : UInt8 → Bool} (hp : p 0 = false) : Skips (List.dropWhile p) where
  nul l := by
    induction l with
    | nil => simp [hp]
    | cons c l ih => cases h : p c <;> simp [h, ih]
  suffix l := dropWhile_suffix p

/-- One letter is looked at, and skipped if it is `c`. -/
theorem letter {c : UInt8} (hc : c ≠ 0) (hf : Skips f) (hg : Skips g) :
    Skips fun l => if l.head? = some c then f l.tail else g l where
  nul l := by
    cases l with
    | nil => simpa [hc.symm] using hg.nul []
    | cons d l =>
      have hg : g (d :: (l ++ [0])) = g (d :: l) ++ [0] := hg.nul (d :: l)
      by_cases hd : d = c <;> simp [hd, hf.nul, hg]
  suffix l := by
    split
    · exact (hf.suffix _).trans (tail_suffix l)
    · exact hg.suffix l

theorem number : Skips skipNumber := letter (by decide) self (dropWhile rfl)

theorem type : Skips skipType := by
  have twice (c : UInt8) (hc : c ≠ 0) : Skips (skipLetter c) := letter hc self self
  exact letter (by decide) (twice 104 (by decide)) (letter (by decide) self (letter (by decide)
    (twice 108 (by decide)) (letter (by decide) self (letter (by decide) self self))))

theorem options : Skips skipOptions := type.comp ((letter (by decide) number self).comp (number.comp (dropWhile rfl)))

end Skips

namespace Complete

variable {c : UInt8} {l : List UInt8}

theorem literal_iff (hc : c ≠ 37) : Complete (c :: l) ↔ Complete l := by
  refine ⟨fun h => ?_, .literal hc⟩
  cases h with
  | literal _ h => exact h
  | percent => exact absurd rfl hc
  | conversion => exact absurd rfl hc

theorem percent_iff : Complete (37 :: 37 :: l) ↔ Complete l := by
  refine ⟨fun h => ?_, .percent⟩
  cases h with
  | literal hc => exact absurd rfl hc
  | percent h => exact h
  | conversion hl => exact absurd rfl hl

theorem conversion_iff (hl : l.head? ≠ some 37) :
    Complete (37 :: l) ↔ ∃ k rest, skipOptions l = k :: rest ∧ Complete rest := by
  refine ⟨fun h => ?_, fun ⟨k, rest, hk, h⟩ => .conversion hl hk h⟩
  cases h with
  | literal hc => exact absurd rfl hc
  | percent => exact absurd rfl hl
  | conversion _ hk h => exact ⟨_, _, hk, h⟩

end Complete

/-- The scan of a string ends, and it has read no byte behind the NUL exactly if every conversion is complete. -/
theorem vprintf_within (l : List UInt8) (hl : ∀ c ∈ l, c ≠ 0) (fuel : Nat) (hfuel : l.length < fuel) (st : σ) :
    ∃ r, vprintf P fuel (l ++ [0]) st = some r ∧ (r.isSome ↔ Complete l) := by
  induction fuel generalizing l st with
  | zero => omega
  | succ fuel ih =>
    cases l with
    | nil => exact ⟨some st, rfl, by simp [Complete.nil]⟩
    | cons c l =>
      obtain ⟨hc, hl⟩ := forall_mem_cons.1 hl
      have hlen : l.length < fuel := by simpa using hfuel
      rw [cons_append, vprintf, if_neg hc]
      by_cases hc : c = 37
      · rw [if_neg (not_not.2 hc), hc, Skips.options.nul]
        have hhead : (l ++ [0]).head? = some 37 ↔ l.head? = some 37 := by cases l <;> simp
        by_cases hp : l.head? = some 37
        · obtain ⟨l, rfl⟩ := head?_eq_some_iff.1 hp
          rw [if_pos (hhead.2 hp), Complete.percent_iff]
          exact ih l (forall_mem_cons.1 hl).2 (Nat.lt_of_succ_lt hlen) _
        · rw [if_neg (mt hhead.1 hp), Complete.conversion_iff hp]
          cases hd : skipOptions l with
          | nil =>
            -- the letter is the NUL, and the increment leads behind it
            obtain ⟨fuel, rfl⟩ : ∃ n, fuel = n + 1 := ⟨fuel - 1, by omega⟩
            exact ⟨none, rfl, by simp⟩
          | cons k rest =>
            have hrest : rest <:+ l := (suffix_cons k rest).trans (hd ▸ Skips.options.suffix l)
            obtain ⟨r, hr, hiff⟩ := ih rest (fun d h => hl d (hrest.mem h))
              (Nat.lt_of_le_of_lt hrest.length_le hlen) _
            exact ⟨r, hr, by simpa using hiff⟩
      · rw [if_pos hc, Complete.literal_iff hc]
        exact ih l hl hlen _

/-- The scan of `%d`, by a printer that prints nothing. -/
theorem vprintf_within_decimal :
    ∃ r, vprintf ⟨fun _ st => st, fun st => (0, st), fun _ _ st => st⟩ 3 ([37, 100] ++ [0]) () = some r ∧
      (r.isSome ↔ Complete [37, 100]) :=
  vprintf_within _ _ (by simp) 3 (by decide) ()

/-- A string that ends in `%` is read beyond its NUL. -/
theorem percent_reads_behind :
    vprintf ⟨fun _ st => st, fun st => (0, st), fun _ _ st => st⟩ 3 ([37] ++ [0]) () = some none := rfl

end Stdio
end Asg1
