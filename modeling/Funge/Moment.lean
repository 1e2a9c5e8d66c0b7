/-!
# Date and time

A moment on the calendar as a clock shows it. In a leap second the second stays at 59 and the
nanosecond goes on past 10^9.
-/

namespace Funge

structure Moment where
  year : Int
  month : Nat
  day : Nat
  hour : Nat
  minute : Nat
  second : Nat
  nanosecond : Nat
deriving DecidableEq

namespace Moment

/-- A number with zeros in front up to a width. -/
def padded (width n : Nat) : String :=
  let digits := Nat.repr n
  String.ofList (List.replicate (width - digits.length) '0') ++ digits

/-- A year has four digits; outside of 0 to 9999 it has a sign as well. -/
def yearText (year : Int) : String :=
  if year < 0 then "-" ++ padded 4 year.natAbs
  else if year ≤ 9999 then padded 4 year.natAbs
  else "+" ++ padded 4 year.natAbs

def dateText (m : Moment) : String :=
  yearText m.year ++ "-" ++ padded 2 m.month ++ "-" ++ padded 2 m.day

/-- The fraction of a second with three, six or nine places, or none at all if it is zero. -/
def fractionText (nanosecond : Nat) : String :=
  if nanosecond = 0 then ""
  else if nanosecond % 1000000 = 0 then "." ++ padded 3 (nanosecond / 1000000)
  else if nanosecond % 1000 = 0 then "." ++ padded 6 (nanosecond / 1000)
  else "." ++ padded 9 nanosecond

/-- A leap second is shown as second 60. -/
def timeText (m : Moment) : String :=
  let leap := m.nanosecond / 1000000000
  padded 2 m.hour ++ ":" ++ padded 2 m.minute ++ ":" ++ padded 2 (m.second + leap) ++
    fractionText (m.nanosecond % 1000000000)

/-- Date and time with a separator between them. -/
def toText (m : Moment) (separator : String) : String := m.dateText ++ separator ++ m.timeText

end Moment

end Funge
