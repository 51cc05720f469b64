import Mission.Real.Basic

/-! Calendar dates of modified Julian epochs, in the proleptic Gregorian calendar and to the
millisecond. -/
namespace Mission.Calendar

structure Date where
  year : Int
  month : Nat
  day : Nat
deriving DecidableEq, Repr

/-- The date a number of days after 1 March of year 0. Years are counted from March, so that a leap
day is the last day of its year, and in eras of 400 years, which all have the same length. -/
def Date.ofDays (days : Int) : Date :=
  let era := days.fdiv 146097
  let dayOfEra := (days.fmod 146097).toNat
  let yearOfEra := (dayOfEra - dayOfEra / 1460 + dayOfEra / 36524 - dayOfEra / 146096) / 365
  let dayOfYear := dayOfEra - (365 * yearOfEra + yearOfEra / 4 - yearOfEra / 100)
  let monthFromMarch := (5 * dayOfYear + 2) / 153
  let month := if monthFromMarch < 10 then monthFromMarch + 3 else monthFromMarch - 9
  let year : Int := yearOfEra + era * 400
  { year := if month ≤ 2 then year + 1 else year
    month
    day := dayOfYear - (153 * monthFromMarch + 2) / 5 + 1 }

def monthNames : List String :=
  ["Jan", "Feb", "Mar", "Apr", "May", "Jun", "Jul", "Aug", "Sep", "Oct", "Nov", "Dec"]

/-- A natural with leading zeros up to a width. -/
def padded (width n : Nat) : String :=
  let digits := toString n
  Real.zeros (width - digits.length) ++ digits

/-- Years from 0 to 9999 have four digits; others carry a sign and have at least four. -/
def yearText (year : Int) : String :=
  if year < 0 then "-" ++ padded 4 year.natAbs
  else if 9999 < year then "+" ++ padded 4 year.natAbs
  else padded 4 year.natAbs

/-- The days from 1 March of year 0 to 1 January 2000. -/
def epochDays : Int := 730425

/-- The modified Julian date of noon on 1 January 2000. -/
def epochModJulian : Float := 21545.0

def millisecondsPerDay : Int := 86400000

/-- The text of a time given in milliseconds from noon on 1 January 2000, for years from -262143 to
262142. -/
def ofMilliseconds (ms : Int) : Option String :=
  let fromMidnight := ms + millisecondsPerDay / 2
  let date := Date.ofDays (fromMidnight.fdiv millisecondsPerDay + epochDays)
  let time := (fromMidnight.fmod millisecondsPerDay).toNat
  if date.year < -262143 || 262142 < date.year then none
  else
    let month := (monthNames[date.month - 1]?).getD ""
    let hours := padded 2 (time / 3600000)
    let minutes := padded 2 (time / 60000 % 60)
    let seconds := padded 2 (time / 1000 % 60)
    let rest := padded 3 (time % 1000)
    some s!"{padded 2 date.day} {month} {yearText date.year} {hours}:{minutes}:{seconds}.{rest}"

/-- The calendar date of a modified Julian epoch, rounded to the millisecond. -/
def ofModJulian (epoch : Float) : Option String :=
  let ms := ((epoch - epochModJulian) * 86400000.0).round
  if !ms.isFinite || 9223372036854775808.0 ≤ ms.abs then none
  else ofMilliseconds ms.toInt64.toInt

end Mission.Calendar
