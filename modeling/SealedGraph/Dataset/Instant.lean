/-!
# Instants

The time at which a dataset is created is given in milliseconds and written
into its header as a date and a time of day in UTC.  Days are counted in eras
of 400 years that begin with a March, so that a leap day is the last day of
its year.
-/

namespace SealedGraph

/-- A point in time, in milliseconds since the beginning of 1970. -/
structure Instant where
  milliseconds : Int
deriving DecidableEq

/-- A day of the Gregorian calendar, extended to all years. -/
structure Date where
  year : Int
  month : Nat
  day : Nat
deriving DecidableEq

namespace Date

/-- The day that comes a number of days after the first of January 1970. -/
def ofDays (days : Int) : Date :=
  let shifted := days + 719468
  let era := shifted / 146097
  let dayOfEra := (shifted % 146097).toNat
  let yearOfEra :=
    (dayOfEra - dayOfEra / 1460 + dayOfEra / 36524 - dayOfEra / 146096) / 365
  let dayOfYear :=
    dayOfEra - (365 * yearOfEra + yearOfEra / 4 - yearOfEra / 100)
  let monthFromMarch := (5 * dayOfYear + 2) / 153
  let day := dayOfYear - (153 * monthFromMarch + 2) / 5 + 1
  let month :=
    if monthFromMarch < 10 then monthFromMarch + 3 else monthFromMarch - 9
  let year := era * 400 + yearOfEra + (if month ≤ 2 then 1 else 0)
  ⟨year, month, day⟩

end Date

namespace Instant

/-- A number in decimal, with zeros before it up to some width. -/
def padded (width n : Nat) : List Char :=
  let digits := Nat.toDigits 10 n
  List.replicate (width - digits.length) '0' ++ digits

/-- A year in at least four digits; years outside of these have a sign. -/
def yearText (year : Int) : List Char :=
  if year < 0 then '-' :: padded 4 year.natAbs
  else if 9999 < year then '+' :: padded 4 year.natAbs
  else padded 4 year.natAbs

/-- Milliseconds in a day. -/
def dayLength : Int := 86400000

/-- The date and the time of day, to the millisecond. -/
def text (t : Instant) : String :=
  let date := Date.ofDays (t.milliseconds / dayLength)
  let time := (t.milliseconds % dayLength).toNat
  String.ofList
    (yearText date.year ++ '-' :: padded 2 date.month ++ '-' ::
      padded 2 date.day ++
    'T' :: padded 2 (time / 3600000) ++ ':' :: padded 2 (time / 60000 % 60) ++
    ':' :: padded 2 (time / 1000 % 60) ++ '.' ::
      padded 3 (time % 1000) ++ ['Z'])

end Instant
end SealedGraph
