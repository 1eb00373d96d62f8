import Asg1.Lib.Loop

/-!
# `Devices.Rtc` — the real-time clock of `devices/rtc.c`

`rtc_get_time` reads the registers until the second is the same at both ends of a reading, and counts the seconds since
1970. It counts the current month as if it had passed, and takes 1970, 1974, … for leap years inside the year and 1973,
1977, … for those behind one. `Parts.seconds` is the count of the calendar; `excess` is by how many days the code is off.
-/

namespace Asg1
namespace Rtc

/-! ## The code -/

/-- The parts of a date: bytes in the registers, numbers in the variables of `rtc_get_time`. -/
structure Parts (α : Type) where
  sec : α
  min : α
  hour : α
  mday : α
  mon : α
  year : α

/-- What the clock shows. -/
abbrev Registers := Parts (BitVec 8)

/-- `bcd_to_bin` -/
def bcdToBin (x : BitVec 8) : Int := (x &&& 0x0f#8).toNat + (x >>> 4).toNat * 10

/-- One round of the reading, from the `n`th call of `cmos_read` on; `cmos i` are the registers at the `i`th call. -/
def readParts (cmos : Nat → Registers) (n : Nat) : Option (Nat ⊕ Parts Int) :=
  let sec := bcdToBin (cmos n).sec
  let min := bcdToBin (cmos (n + 1)).min
  let hour := bcdToBin (cmos (n + 2)).hour
  let mday := bcdToBin (cmos (n + 3)).mday
  let mon := bcdToBin (cmos (n + 4)).mon
  let year := bcdToBin (cmos (n + 5)).year
  if sec ≠ bcdToBin (cmos (n + 6)).sec then some (.inl (n + 7)) else some (.inr ⟨sec, min, hour, mday, mon, year⟩)

/-- `days_per_month` -/
def daysPerMonth : List Nat := [31, 28, 31, 30, 31, 30, 31, 31, 30, 31, 30, 31]

/-- `time += x`; a `time_t` is an unsigned word. -/
def addTime (time : Nat) (x : Int) : Nat := ((time + x) % 4294967296).toNat

/-- The time at the beginning of the month, as the code counts it. -/
def monthTime (mon year : Int) : Nat :=
  let year := (if year < 70 then year + 100 else year) - 70
  let time := addTime 0 ((year * 365 + (year - 1).tdiv 4) * 24 * 60 * 60)
  let time := (List.range mon.toNat).foldl (fun time i => addTime time (daysPerMonth.getD i 0 * 24 * 60 * 60)) time
  if mon > 2 ∧ year.tmod 4 = 0 then addTime time (24 * 60 * 60) else time

/-- What `rtc_get_time` makes of a reading. -/
def partsTime (p : Parts Int) : Nat :=
  let time := monthTime p.mon p.year
  let time := addTime time ((p.mday - 1) * 24 * 60 * 60)
  let time := addTime time (p.hour * 60 * 60)
  let time := addTime time (p.min * 60)
  addTime time p.sec

/-- `rtc_get_time` -/
def rtcGetTime (cmos : Nat → Registers) (fuel : Nat) : Option Nat := (Loop.run (readParts cmos) fuel 0).map partsTime

/-! ## The calendar -/

/-- The Gregorian leap years. -/
def Leap (year : Nat) : Prop := year % 4 = 0 ∧ (year % 100 ≠ 0 ∨ year % 400 = 0)

instance (year : Nat) : Decidable (Leap year) := inferInstanceAs (Decidable (_ ∧ _))

def daysInMonth (year month : Nat) : Nat := if month = 2 ∧ Leap year then 29 else daysPerMonth.getD (month - 1) 0

/-- Days from 1970 to the beginning of the month. -/
def daysBefore (year month : Nat) : Nat :=
  ((List.range (year - 1970)).map (fun i => if Leap (1970 + i) then 366 else 365)).sum +
    ((List.range (month - 1)).map (fun i => daysInMonth year (i + 1))).sum

/-- Seconds since the beginning of 1970. -/
def Parts.seconds (p : Parts Nat) : Nat :=
  (((daysBefore p.year p.mon + (p.mday - 1)) * 24 + p.hour) * 60 + p.min) * 60 + p.sec

/-- A date and time that 31 bits can count. -/
structure Date extends Parts Nat where
  year_mem : 1970 ≤ year ∧ year ≤ 2038
  mon_mem : 1 ≤ mon ∧ mon ≤ 12
  mday_mem : 1 ≤ mday ∧ mday ≤ daysInMonth year mon
  time_lt : hour < 24 ∧ min < 60 ∧ sec < 60
  fits : toParts.seconds < 2147483648

/-- A number below 100 in binary-coded decimal. -/
def bcd (n : Nat) : BitVec 8 := BitVec.ofNat 8 (n / 10 * 16 + n % 10)

def Parts.map {α β : Type} (f : α → β) (p : Parts α) : Parts β :=
  ⟨f p.sec, f p.min, f p.hour, f p.mday, f p.mon, f p.year⟩

/-- The date with the two digits of the year that the clock keeps. -/
def Date.shown (d : Date) : Parts Nat := { d.toParts with year := d.year % 100 }

def Date.registers (d : Date) : Registers := d.shown.map bcd

/-- The first round in which the second stays the same, round `k`, reads the date `d` throughout. -/
structure Reads (cmos : Nat → Registers) (k : Nat) (d : Date) : Prop where
  torn : ∀ j < k, bcdToBin (cmos (7 * j)).sec ≠ bcdToBin (cmos (7 * j + 6)).sec
  whole : ∀ i < 7, cmos (7 * k + i) = d.registers

/-- How many days the code counts too many: the current month, the day put into the wrong years, less the leap day of an
    earlier year that is not counted yet and that of this year. -/
def excess (year month : Nat) : Nat :=
  let y := year - 1970
  daysPerMonth.getD (month - 1) 0 + (if 2 < month ∧ y % 4 = 0 then 1 else 0) -
    (if y % 4 = 3 ∨ (y % 4 = 0 ∧ 0 < y) then 1 else 0) - (if 2 < month ∧ y % 4 = 2 then 1 else 0)

/-! ## The conversion -/

theorem bcdToBin_bcd : ∀ n < 100, bcdToBin (bcd n) = n := by decide

/-- The months are counted from a table and the years by a formula, so that all of them are gone through. -/
theorem monthTime_eq : ∀ y < 69, ∀ m < 12,
    monthTime (m + 1 : Nat) ((1970 + y) % 100 : Nat) =
        86400 * (daysBefore (1970 + y) (m + 1) + excess (1970 + y) (m + 1)) ∧
      27 ≤ excess (1970 + y) (m + 1) ∧ excess (1970 + y) (m + 1) ≤ 32 := by
  decide +kernel

variable {cmos cmos' : Nat → Registers} {k k' : Nat} {d e : Date}

theorem addTime_natCast {time n : Nat} (h : time + n < 4294967296) : addTime time n = time + n := by
  unfold addTime
  omega

theorem daysInMonth_le (year month : Nat) : daysInMonth year month ≤ 31 := by
  have htable : ∀ i < 12, daysPerMonth.getD i 0 ≤ 31 := by decide
  unfold daysInMonth
  split
  · omega
  · by_cases hi : month - 1 < 12
    · exact htable _ hi
    · rw [List.getD_eq_getElem?_getD, List.getElem?_eq_none (Nat.le_of_not_lt hi)]
      exact Nat.zero_le 31

theorem Date.excess_mem (d : Date) :
    monthTime d.mon (d.year % 100 : Nat) = 86400 * (daysBefore d.year d.mon + excess d.year d.mon) ∧
      27 ≤ excess d.year d.mon ∧ excess d.year d.mon ≤ 32 := by
  have hyear := d.year_mem
  have hmon := d.mon_mem
  have h := monthTime_eq (d.year - 1970) (by omega) (d.mon - 1) (by omega)
  rwa [show 1970 + (d.year - 1970) = d.year by omega, show d.mon - 1 + 1 = d.mon by omega] at h

/-- **The code counts too many days**, and is right about the time of the day. -/
theorem partsTime_shown (d : Date) : partsTime (d.shown.map Nat.cast) = d.seconds + 86400 * excess d.year d.mon := by
  obtain ⟨hmonth, -, hle⟩ := d.excess_mem
  have hfits := d.fits
  have hmem := d.mday_mem
  have htime := d.time_lt
  have hmday : ((d.mday : Int) - 1) * 24 * 60 * 60 = ((d.mday - 1) * 86400 : Nat) := by omega
  have hhour : (d.hour : Int) * 60 * 60 = (d.hour * 3600 : Nat) := by omega
  have hmin : (d.min : Int) * 60 = (d.min * 60 : Nat) := by omega
  unfold Parts.seconds at hfits ⊢
  unfold partsTime Parts.map Date.shown
  simp (disch := omega) only [hmonth, hmday, hhour, hmin, addTime_natCast]
  omega

/-- A whole round leaves the loop with the parts of the date. -/
theorem readParts_whole {n : Nat} (h : ∀ i < 7, cmos (n + i) = d.registers) :
    readParts cmos n = some (.inr (d.shown.map Nat.cast)) := by
  have hmday := d.mday_mem
  have hmax := daysInMonth_le d.year d.mon
  have hmon := d.mon_mem
  have htime := d.time_lt
  have h0 : cmos n = d.registers := h 0 (by omega)
  unfold readParts
  simp only [h0, h 1 (by omega), h 2 (by omega), h 3 (by omega), h 4 (by omega), h 5 (by omega), h 6 (by omega),
    Date.registers, Date.shown, Parts.map, ne_eq, not_true_eq_false, if_false]
  simp (disch := omega) only [bcdToBin_bcd]

theorem run_torn (h : ∀ j < k, bcdToBin (cmos (7 * j)).sec ≠ bcdToBin (cmos (7 * j + 6)).sec) : ∀ j ≤ k,
    Loop.run (readParts cmos) (k + 1) 0 = Loop.run (readParts cmos) (k - j + 1) (7 * j) := by
  intro j
  induction j with
  | zero =>
    intro _
    rfl
  | succ j ih =>
    intro hj
    have hround : readParts cmos (7 * j) = some (.inl (7 * j + 7)) := if_pos (h j hj)
    rw [ih (by omega), show k - j + 1 = k - (j + 1) + 1 + 1 by omega, Loop.run_continue _ hround]
    rfl

theorem Reads.rtcGetTime_eq (h : Reads cmos k d) :
    rtcGetTime cmos (k + 1) = some (d.seconds + 86400 * excess d.year d.mon) := by
  unfold rtcGetTime
  rw [run_torn h.torn k (Nat.le_refl _), Nat.sub_self, Loop.run_exit 0 (readParts_whole h.whole)]
  exact congrArg some (partsTime_shown d)

/-- **`rtc_get_time` runs ahead**, by 27 to 32 days for every date. The order of two dates is kept inside a month, and
    when they are more than five days apart. -/
theorem rtc_get_time_ahead (hd : Reads cmos k d) (he : Reads cmos' k' e) :
    ∃ t u, rtcGetTime cmos (k + 1) = some t ∧ rtcGetTime cmos' (k' + 1) = some u ∧
      t = d.seconds + 86400 * excess d.year d.mon ∧ 27 ≤ excess d.year d.mon ∧ excess d.year d.mon ≤ 32 ∧
      (d.seconds < e.seconds → (d.year = e.year ∧ d.mon = e.mon) ∨ d.seconds + 5 * 86400 < e.seconds → t < u) := by
  obtain ⟨-, hlow, hhigh⟩ := d.excess_mem
  obtain ⟨-, hlow', -⟩ := e.excess_mem
  refine ⟨_, _, hd.rtcGetTime_eq, he.rtcGetTime_eq, rfl, hlow, hhigh, ?_⟩
  rintro hlt (⟨hyear, hmonth⟩ | hfar)
  · rw [hyear, hmonth]
    omega
  · omega

/-- The last second of January 2000 and the first of February. -/
def january : Date := ⟨⟨59, 59, 23, 31, 1, 2000⟩, by decide, by decide, by decide, by decide, by decide +kernel⟩
def february : Date := ⟨⟨0, 0, 0, 1, 2, 2000⟩, by decide, by decide, by decide, by decide, by decide +kernel⟩

theorem reads_const (d : Date) : Reads (fun _ => d.registers) 0 d :=
  ⟨fun _ hj => absurd hj (Nat.not_lt_zero _), fun _ _ => rfl⟩

/-- The second comes later and is given the smaller time. -/
theorem january_after_february : january.seconds < february.seconds ∧
    rtcGetTime (fun _ => january.registers) 1 = some 952041599 ∧
    rtcGetTime (fun _ => february.registers) 1 = some 951782400 := by
  decide +kernel

theorem rtc_get_time_ahead_january : ∃ t u, rtcGetTime (fun _ => january.registers) 1 = some t ∧
    rtcGetTime (fun _ => january.registers) 1 = some u ∧ t = january.seconds + 86400 * excess 2000 1 := by
  obtain ⟨t, u, ht, hu, heq, -⟩ := rtc_get_time_ahead (reads_const january) (reads_const january)
  exact ⟨t, u, ht, hu, heq⟩

end Rtc
end Asg1
