/-
# Timestamps

A moment of universal time: a date of the Gregorian calendar, extended to all years, and a time of
day with nanoseconds. Second 60 is a leap second. Moments are kept by calendar fields, so that
writing one is reading the fields off; a shift by an offset moves the date by at most one day.
-/
namespace SharedLog

/-- Whether a year has a 29 February. -/
def isLeapYear (year : Int) : Bool := (4 ∣ year ∧ ¬100 ∣ year) ∨ 400 ∣ year

/-- The number of days of a month, months counted from one. -/
def daysIn (year : Int) (month : Nat) : Nat :=
  if month = 2 then (if isLeapYear year then 29 else 28)
  else if month = 4 ∨ month = 6 ∨ month = 9 ∨ month = 11 then 30
  else 31

/-- A date of the Gregorian calendar. -/
structure Date where
  year : Int
  /-- The month, counted from one. -/
  month : Nat
  /-- The day of the month, counted from one. -/
  day : Nat
  month_pos : 1 ≤ month
  month_le : month ≤ 12
  day_pos : 1 ≤ day
  day_le : day ≤ daysIn year month
deriving DecidableEq

namespace Date

/-- The date with the given year, month and day, if the calendar has it. -/
def of? (year : Int) (month day : Nat) : Option Date :=
  if h : (1 ≤ month ∧ month ≤ 12) ∧ 1 ≤ day ∧ day ≤ daysIn year month then
    some ⟨year, month, day, h.1.1, h.1.2, h.2.1, h.2.2⟩
  else none

theorem one_le_daysIn (year : Int) (month : Nat) : 1 ≤ daysIn year month := by
  unfold daysIn
  repeat' split
  all_goals decide

/-- The day after a date. -/
def next (d : Date) : Date :=
  if h : d.day + 1 ≤ daysIn d.year d.month then
    { d with day := d.day + 1, day_pos := by omega, day_le := h }
  else if h : d.month + 1 ≤ 12 then
    ⟨d.year, d.month + 1, 1, by omega, h, by omega, one_le_daysIn ..⟩
  else ⟨d.year + 1, 1, 1, by omega, by omega, by omega, one_le_daysIn ..⟩

/-- The day before a date. -/
def prev (d : Date) : Date :=
  if h : 2 ≤ d.day then
    { d with day := d.day - 1, day_pos := by omega, day_le := by have := d.day_le; omega }
  else if h : 2 ≤ d.month then
    ⟨d.year, d.month - 1, daysIn d.year (d.month - 1), by omega, by have := d.month_le; omega,
      one_le_daysIn .., Nat.le_refl _⟩
  else ⟨d.year - 1, 12, daysIn (d.year - 1) 12, by omega, by omega, one_le_daysIn .., Nat.le_refl _⟩

end Date

/-- A moment of universal time. -/
structure Timestamp where
  date : Date
  hour : Nat
  minute : Nat
  /-- The second of the minute; 60 is a leap second. -/
  second : Nat
  /-- What the moment has beyond the whole second. -/
  nanos : Nat
  hour_lt : hour < 24
  minute_lt : minute < 60
  second_le : second ≤ 60
  nanos_lt : nanos < 1_000_000_000
deriving DecidableEq

namespace Timestamp

/-- The start of the year 1970. -/
def epoch : Timestamp :=
  ⟨⟨1970, 1, 1, by decide, by decide, by decide, by decide⟩, 0, 0, 0, 0,
    by decide, by decide, by decide, by decide⟩

instance : Inhabited Timestamp := ⟨epoch⟩

/-- The moment with the given fields, if the clock has such a time of day. -/
def of? (date : Date) (hour minute second nanos : Nat) : Option Timestamp :=
  if h : (hour < 24 ∧ minute < 60) ∧ second ≤ 60 ∧ nanos < 1_000_000_000 then
    some ⟨date, hour, minute, second, nanos, h.1.1, h.1.2, h.2.1, h.2.2⟩
  else none

/-- The moment some minutes earlier, or later if their number is negative, for less than a day. -/
def minusMinutes (t : Timestamp) (minutes : Int) : Timestamp :=
  let total := (60 * t.hour + t.minute : Int) - minutes
  let date := if total < 0 then t.date.prev else if 1440 ≤ total then t.date.next else t.date
  let rest := (total % 1440).toNat
  { t with
    date
    hour := rest / 60
    minute := rest % 60
    hour_lt := by
      have h : total % 1440 < 1440 := Int.emod_lt_of_pos _ (by decide)
      omega
    minute_lt := by omega }

end Timestamp

end SharedLog
