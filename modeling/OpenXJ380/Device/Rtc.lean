/-
# The real-time clock

`time_read` and `mktime` (`src/driver/rtc.cpp`) over registers that do not change, so that
`time_read_bcd` reads them once. The flag of the afternoon is read as a digit of a decimal hour,
and twelve is never taken for zero. The day of the year is that of a leap year, and is not written
in binary mode.
-/

import Mathlib

namespace OpenXJ380.Rtc

structure Registers where
  (second minute hour day month year century statusB : ℕ)

structure Tm where
  (sec min hour mday mon year yday : ℕ)

def isLeapYear (year : ℕ) : Bool := year % 4 = 0 && (year % 100 ≠ 0 || year % 400 = 0)

def isValidCmosBcd (value : ℕ) : Bool := value &&& 0x0f ≤ 9 && (value >>> 4) &&& 0x0f ≤ 9

def bcdToBin (value : ℕ) : ℕ := (value &&& 0xf) + (value >>> 4) * 10

def isPlausibleFullYear (year : ℕ) : Bool := 2020 ≤ year && year ≤ 2099

def monthDayCountable : List ℕ := [0, 0, 31, 60, 91, 121, 152, 182, 213, 244, 274, 305, 335]

def daysInMonth (leap : Bool) : List ℕ :=
  [31, if leap then 29 else 28, 31, 30, 31, 30, 31, 31, 30, 31, 30, 31]

/-- The modes of status register B. -/
def decimal (statusB : ℕ) : Bool := statusB &&& 0x04 = 0

def hour24 (statusB : ℕ) : Bool := statusB &&& 0x02 ≠ 0

/-- A register that is converted in decimal mode. -/
def digits (convert : Bool) (value : ℕ) : ℕ := if convert then bcdToBin value else value

/-- The hour, whose flag is looked for after the conversion. -/
def readHour (convert hour24 : Bool) (register clockHourOffset : ℕ) : ℕ :=
  let hour := if convert then (bcdToBin register + clockHourOffset) % 24 else register
  if !hour24 && hour &&& 0x80 ≠ 0 then ((hour &&& 0x7f) + 12) % 24 else hour

def timeRead (r : Registers) (clockHourOffset : ℕ) (time : Tm) : Tm :=
  let convert := decimal r.statusB
  let century := if convert && !isValidCmosBcd r.century then 0 else digits convert r.century
  let full := digits convert r.year + century * 100
  let twoDigit := if convert then digits convert r.year else r.year &&& 0xff
  { sec := digits convert r.second
    min := digits convert r.minute
    hour := readHour convert (hour24 r.statusB) r.hour clockHourOffset
    mday := digits convert r.day
    mon := digits convert r.month
    year := if isPlausibleFullYear full then full
      else (if twoDigit < 70 then 2000 else 1900) + twoDigit
    yday := if convert then
        monthDayCountable.getD (digits convert r.month) 0 + digits convert r.day
      else time.yday }

/-- The seconds of `count` years from 1970 on. -/
def yearLoop : ℕ → ℕ
  | 0 => 0
  | count + 1 => yearLoop count + (365 + (isLeapYear (1970 + count)).toNat) * 86400

def mktime (time : Tm) : ℕ :=
  let month := time.mon - 1 - if time.mon - 1 > 11 then 11 else 0
  yearLoop (time.year - 1970) +
    (((daysInMonth (isLeapYear time.year)).take month).map (· * 86400)).sum +
    (time.mday - 1) * 86400 + time.hour * 3600 + time.min * 60 + time.sec

structure Date where
  (year month day hour minute second : ℕ)

namespace Date

variable (date : Date)

def monthLength (leap : Bool) (month : ℕ) : ℕ :=
  if month = 2 then if leap then 29 else 28 else if month ∈ [4, 6, 9, 11] then 30 else 31

/-- What is to be read. -/
def tm (yday : ℕ) : Tm :=
  ⟨date.second, date.minute, date.hour, date.day, date.month, date.year, yday⟩

structure Valid : Prop where
  year : 2020 ≤ date.year ∧ date.year ≤ 2099
  month : 1 ≤ date.month ∧ date.month ≤ 12
  day : 1 ≤ date.day ∧ date.day ≤ monthLength (isLeapYear date.year) date.month
  hour : date.hour < 24
  minute : date.minute < 60
  second : date.second < 60

/-- The days of the months before this one. -/
def daysBefore (leap : Bool) (month : ℕ) : ℕ :=
  ((List.range' 1 (month - 1)).map (monthLength leap)).sum

def dayOfYear : ℕ := daysBefore (isLeapYear date.year) date.month + date.day

/-- The leap days from 1970 up to this year; there are 477 before. -/
def leapDays (year : ℕ) : ℕ := year / 4 - year / 100 + year / 400 - 477

/-- The seconds since the first of January 1970. -/
def seconds : ℕ :=
  (365 * (date.year - 1970) + leapDays (date.year - 1) + date.dayOfYear - 1) * 86400 +
    date.hour * 3600 + date.minute * 60 + date.second

def shown (decimal : Bool) (value : ℕ) : ℕ :=
  if decimal then value / 10 * 16 + value % 10 else value

def showHour (decimal hour24 : Bool) (hour : ℕ) : ℕ :=
  if hour24 then shown decimal hour
  else shown decimal ((hour + 11) % 12 + 1) + if hour < 12 then 0 else 0x80

/-- The registers that show a date in the mode of `statusB`. -/
def registers (statusB : ℕ) : Registers :=
  let decimal := decimal statusB
  { second := shown decimal date.second
    minute := shown decimal date.minute
    hour := showHour decimal (hour24 statusB) date.hour
    day := shown decimal date.day
    month := shown decimal date.month
    year := shown decimal (date.year % 100)
    century := shown decimal 20
    statusB }

end Date

open Date

theorem digits_shown : ∀ convert, ∀ value < 100, digits convert (shown convert value) = value := by
  decide

theorem readHour_showHour : ∀ convert hour24 : Bool, ∀ hour < 24,
    readHour convert hour24 (showHour convert hour24 hour) 0 = hour ↔
      hour24 ∨ 1 ≤ hour ∧ hour ≤ 11 ∨ convert = false ∧ 13 ≤ hour := by
  decide

theorem sum_daysInMonth : ∀ leap, ∀ month < 13, 1 ≤ month →
    (((daysInMonth leap).take (month - 1)).map (· * 86400)).sum =
      daysBefore leap month * 86400 := by
  decide

theorem monthDayCountable_eq : ∀ leap : Bool, ∀ month < 13, 1 ≤ month →
    (monthDayCountable.getD month 0 = daysBefore leap month ↔ leap ∨ month ≤ 2) := by
  decide

theorem yearLoop_eq (count : ℕ) :
    yearLoop count = (365 * count + leapDays (1969 + count)) * 86400 := by
  induction count with
  | zero => rfl
  | succ count ih =>
    have hleap : leapDays (1970 + count) =
        leapDays (1969 + count) + (isLeapYear (1970 + count)).toNat := by
      unfold leapDays
      rcases h : isLeapYear (1970 + count) <;> simp [isLeapYear] at h ⊢ <;> omega
    rw [yearLoop, ih, show 1969 + (count + 1) = 1970 + count by omega, hleap]
    omega

variable {date : Date}

theorem mktime_tm (valid : date.Valid) (yday : ℕ) : mktime (date.tm yday) = date.seconds := by
  obtain ⟨⟨hyear, -⟩, ⟨hmonth, hmonth'⟩, ⟨hday, -⟩, -, -, -⟩ := valid
  have hbefore := sum_daysInMonth (isLeapYear date.year) date.month (by omega) hmonth
  unfold mktime tm
  dsimp only
  rw [if_neg (by omega), Nat.sub_zero, hbefore, yearLoop_eq, seconds, dayOfYear,
    show 1969 + (date.year - 1970) = date.year - 1 by omega]
  omega

/-- What is read of a date, whose hour and day of the year may be wrong. -/
theorem timeRead_eq (valid : date.Valid) (statusB : ℕ) (time : Tm) :
    timeRead (date.registers statusB) 0 time =
      { date.tm (if decimal statusB then monthDayCountable.getD date.month 0 + date.day else time.yday) with
        hour := readHour (decimal statusB) (hour24 statusB)
          (showHour (decimal statusB) (hour24 statusB) date.hour) 0 } := by
  obtain ⟨⟨hyear, hyear'⟩, ⟨hmonth, hmonth'⟩, ⟨hday, hday'⟩, hhour, hminute, hsecond⟩ := valid
  have hday31 : date.day ≤ 31 := by
    unfold monthLength at hday'
    split_ifs at hday' <;> omega
  have hcentury : (decimal statusB && !isValidCmosBcd (shown (decimal statusB) 20)) = false := by
    cases decimal statusB <;> decide
  have hfull : date.year % 100 + 20 * 100 = date.year := by omega
  simp (disch := omega) [timeRead, registers, tm, digits_shown, hcentury, hfull,
    isPlausibleFullYear, hyear, hyear']

/-- A date is read as it is shown, with its day of the year, and counted exactly in these cases. The
hour: in the modes of twenty-four hours, in the morning from one o'clock on, and in binary mode in
the afternoon from one o'clock on. The day of the year: in decimal mode in a leap year or before
March, and in binary mode where the caller had it there before. -/
theorem timeRead_registers (valid : date.Valid) (statusB : ℕ) (time : Tm) :
    (timeRead (date.registers statusB) 0 time = date.tm date.dayOfYear ∧
      mktime (timeRead (date.registers statusB) 0 time) = date.seconds) ↔
    (hour24 statusB ∨ 1 ≤ date.hour ∧ date.hour ≤ 11 ∨ decimal statusB = false ∧ 13 ≤ date.hour) ∧
      if decimal statusB then isLeapYear date.year ∨ date.month ≤ 2 else time.yday = date.dayOfYear := by
  have hhour := readHour_showHour (decimal statusB) (hour24 statusB) date.hour valid.hour
  have hyday : (if decimal statusB then monthDayCountable.getD date.month 0 + date.day else time.yday) =
      date.dayOfYear ↔
        if decimal statusB then isLeapYear date.year ∨ date.month ≤ 2 else time.yday = date.dayOfYear := by
    split
    · rw [dayOfYear, Nat.add_right_cancel_iff]
      have := valid.month
      exact monthDayCountable_eq _ date.month (by omega) valid.month.1
    · rfl
  have hread : timeRead (date.registers statusB) 0 time = date.tm date.dayOfYear ↔
      (hour24 statusB ∨ 1 ≤ date.hour ∧ date.hour ≤ 11 ∨ decimal statusB = false ∧ 13 ≤ date.hour) ∧
        if decimal statusB then isLeapYear date.year ∨ date.month ≤ 2
        else time.yday = date.dayOfYear := by
    rw [timeRead_eq valid, tm, tm, Tm.mk.injEq, ← hhour, ← hyday]
    tauto
  rw [← hread]
  exact and_iff_left_of_imp fun heq => heq ▸ mktime_tm valid _

/-- Noon and midnight with twelve hours, and the first of March of a common year. -/
theorem timeRead_wrong :
    let read := fun date statusB => timeRead (registers date statusB) 0 ⟨0, 0, 0, 0, 0, 0, 0⟩
    (read ⟨2023, 1, 1, 12, 0, 0⟩ 0).hour = 20 ∧ (read ⟨2023, 1, 1, 0, 0, 0⟩ 4).hour = 12 ∧
      (read ⟨2023, 3, 1, 0, 0, 0⟩ 2).yday = 61 ∧ (read ⟨2023, 3, 1, 0, 0, 0⟩ 6).yday = 0 := by
  decide

theorem timeRead_registers_march :
    timeRead (registers ⟨2024, 3, 1, 13, 0, 0⟩ 2) 0 ⟨0, 0, 0, 0, 0, 0, 0⟩ =
        tm ⟨2024, 3, 1, 13, 0, 0⟩ 61 ∧
      mktime (timeRead (registers ⟨2024, 3, 1, 13, 0, 0⟩ 2) 0 ⟨0, 0, 0, 0, 0, 0, 0⟩) = 1709298000 := by
  have valid : Valid ⟨2024, 3, 1, 13, 0, 0⟩ := by constructor <;> decide
  exact (timeRead_registers valid 2 ⟨0, 0, 0, 0, 0, 0, 0⟩).mpr (by decide)

end OpenXJ380.Rtc
