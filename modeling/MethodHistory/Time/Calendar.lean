import MethodHistory.Text.Surrogate

/-!
This module contains the dates of the Gregorian calendar from year 1 to year 9999, their numbers,
and the dates of weeks.
-/

namespace MethodHistory
namespace Calendar

def isLeap (year : Nat) : Bool :=
  year % 4 = 0 && (year % 100 ≠ 0 || year % 400 = 0)

def daysInMonth (year month : Nat) : Nat :=
  if month = 2 then if isLeap year then 29 else 28
  else if [4, 6, 9, 11].contains month then 30
  else 31

def daysInYear (year : Nat) : Nat :=
  if isLeap year then 366 else 365

def daysBeforeYear (year : Nat) : Nat :=
  let past := year - 1
  past * 365 + past / 4 - past / 100 + past / 400

def daysBeforeMonth (year month : Nat) : Nat :=
  (List.range (month - 1)).foldr (fun past total => daysInMonth year (past + 1) + total) 0

end Calendar

open Calendar

structure Date where
  year : Nat
  month : Nat
  day : Nat
  valid : 1 ≤ year ∧ year ≤ 9999 ∧ 1 ≤ month ∧ month ≤ 12 ∧ 1 ≤ day ∧ day ≤ daysInMonth year month
    := by decide
  deriving DecidableEq

inductive DateFault where
  | malformed (text : Text.Loose)
  | offset (microseconds : Int)
  | year (value : Nat)
  | month
  | day
  | hour
  | minute
  | second
  deriving DecidableEq

namespace Date

def ofNumbers (year month day : Nat) : Except DateFault Date :=
  if h : 1 ≤ year ∧ year ≤ 9999 ∧ 1 ≤ month ∧ month ≤ 12 ∧
      1 ≤ day ∧ day ≤ daysInMonth year month then
    .ok ⟨year, month, day, h⟩
  else if year < 1 ∨ 9999 < year then .error (.year year)
  else if month < 1 ∨ 12 < month then .error .month
  else .error .day

def number (date : Date) : Nat :=
  daysBeforeYear date.year + daysBeforeMonth date.year date.month + date.day

end Date

namespace Calendar

def firstMonday (year : Nat) : Int :=
  let first : Int := daysBeforeYear year + 1
  let weekday := (first + 6) % 7
  if 3 < weekday then first - weekday + 7 else first - weekday

def weeksInYear (year : Nat) : Nat :=
  let weekday := (daysBeforeYear year + 7) % 7
  if weekday = 3 || (weekday = 2 && isLeap year) then 53 else 52

def monthAndDay (year dayOfYear : Nat) : Nat × Nat :=
  go 1 dayOfYear 12
where
  go (month left : Nat) : Nat → Nat × Nat
    | 0 => (month, left)
    | months + 1 =>
      if left ≤ daysInMonth year month then (month, left)
      else go (month + 1) (left - daysInMonth year month) months

/--
The year, month and day of a day of a week. Near its ends a year of weeks reaches into the years
beside it. What lies before the first year counts as days of that year in no month.
-/
def ofWeek? (year week day : Nat) : Option (Nat × Nat × Nat) :=
  if 1 ≤ week ∧ week ≤ weeksInYear year ∧ 1 ≤ day ∧ day ≤ 7 then
    let dayOfYear := firstMonday year + (week - 1) * 7 + day - 1 - daysBeforeYear year
    if year = 0 then
      some (1, 0, 0)
    else if dayOfYear < 1 then
      let before := year - 1
      some (before, monthAndDay before (dayOfYear + daysInYear before).toNat)
    else if daysInYear year < dayOfYear then
      some (year + 1, monthAndDay (year + 1) (dayOfYear - daysInYear year).toNat)
    else
      some (year, monthAndDay year dayOfYear.toNat)
  else
    none

end Calendar
end MethodHistory
