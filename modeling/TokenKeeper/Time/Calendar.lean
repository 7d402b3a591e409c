/-!
# The calendar

Days are counted from the first of January of the year 0 in the Gregorian calendar, which runs back
and forth without end. A year that 4 divides is a leap year, unless 100 divides it and 400 does not.
`Date.dayNumber` counts the days before a date and `Date.ofDayNumber` finds the date again.
-/
namespace TokenKeeper

structure Date where
  year : Int
  month : Nat
  day : Nat
  deriving DecidableEq, Repr

namespace Date

def isLeapYear (y : Int) : Bool :=
  y % 4 == 0 && (y % 100 != 0 || y % 400 == 0)

def daysBeforeYear (y : Int) : Int :=
  365 * y + (y + 3) / 4 - (y + 99) / 100 + (y + 399) / 400

def daysBeforeMonth (leap : Bool) (month : Nat) : Nat :=
  let extra := if leap then 1 else 0
  match month with
  | 1 => 0
  | 2 => 31
  | 3 => 59 + extra
  | 4 => 90 + extra
  | 5 => 120 + extra
  | 6 => 151 + extra
  | 7 => 181 + extra
  | 8 => 212 + extra
  | 9 => 243 + extra
  | 10 => 273 + extra
  | 11 => 304 + extra
  | 12 => 334 + extra
  | _ => 365 + extra

def daysInMonth (leap : Bool) (month : Nat) : Nat :=
  daysBeforeMonth leap (month + 1) - daysBeforeMonth leap month

def isValid (d : Date) : Bool :=
  1 ≤ d.month && d.month ≤ 12 && 1 ≤ d.day && d.day ≤ daysInMonth (isLeapYear d.year) d.month

def dayNumber (d : Date) : Int :=
  daysBeforeYear d.year + (daysBeforeMonth (isLeapYear d.year) d.month + d.day - 1 : Nat)

/-- The year of a day: the mean length of a year misses it by at most one. -/
def yearOf (n : Int) : Int :=
  let y := n * 400 / 146097
  if n < daysBeforeYear y then y - 1
  else if daysBeforeYear (y + 1) ≤ n then y + 1
  else y

def monthOf (leap : Bool) (dayOfYear : Nat) : Nat :=
  if dayOfYear < daysBeforeMonth leap 2 then 1
  else if dayOfYear < daysBeforeMonth leap 3 then 2
  else if dayOfYear < daysBeforeMonth leap 4 then 3
  else if dayOfYear < daysBeforeMonth leap 5 then 4
  else if dayOfYear < daysBeforeMonth leap 6 then 5
  else if dayOfYear < daysBeforeMonth leap 7 then 6
  else if dayOfYear < daysBeforeMonth leap 8 then 7
  else if dayOfYear < daysBeforeMonth leap 9 then 8
  else if dayOfYear < daysBeforeMonth leap 10 then 9
  else if dayOfYear < daysBeforeMonth leap 11 then 10
  else if dayOfYear < daysBeforeMonth leap 12 then 11
  else 12

def ofDayNumber (n : Int) : Date :=
  let year := yearOf n
  let dayOfYear := (n - daysBeforeYear year).toNat
  let leap := isLeapYear year
  let month := monthOf leap dayOfYear
  ⟨year, month, dayOfYear - daysBeforeMonth leap month + 1⟩

def epochDay : Int := 719528

theorem daysBeforeYear_succ (y : Int) :
    daysBeforeYear (y + 1) = daysBeforeYear y + (if isLeapYear y then 366 else 365) := by
  have h4 : (y + 1 + 3) / 4 = (y + 3) / 4 + (if y % 4 = 0 then 1 else 0) := by split <;> omega
  have h100 : (y + 1 + 99) / 100 = (y + 99) / 100 + (if y % 100 = 0 then 1 else 0) := by
    split <;> omega
  have h400 : (y + 1 + 399) / 400 = (y + 399) / 400 + (if y % 400 = 0 then 1 else 0) := by
    split <;> omega
  unfold daysBeforeYear isLeapYear
  rw [h4, h100, h400]
  by_cases a : y % 4 = 0 <;> by_cases b : y % 100 = 0 <;> by_cases c : y % 400 = 0 <;>
    simp [a, b, c] <;> omega

end Date
end TokenKeeper
