import Chronicle.Time.Basic
/-!
# RFC 3339 dates

The date text of an instant in UTC: `YYYY-MM-DDTHH:MM:SS`, then the fraction of a second in three,
six or nine digits, the fewest that show it all and none for a whole second, then `Z`. A year
outside four digits carries its sign.

* `Date.ofDays`: the civil date of a day number, in the proleptic Gregorian calendar;
* `Instant.rfc3339`: the text.
-/

namespace Chronicle

/-- A civil date. -/
structure Date where
  year : Int
  month : Nat
  day : Nat
deriving DecidableEq, Repr

namespace Date

/-- The date of the day that is `days` days after the first of January 1970. Years are counted from
March, so that the leap day ends a year, and grouped in eras of 400 years, all equally long. -/
def ofDays (days : Int) : Date :=
  let shifted := days + 719468
  let era := shifted.fdiv 146097
  let dayOfEra := (shifted.fmod 146097).toNat
  let yearOfEra :=
    (dayOfEra - dayOfEra / 1460 + dayOfEra / 36524 - dayOfEra / 146096) / 365
  let dayOfYear := dayOfEra - (365 * yearOfEra + yearOfEra / 4 - yearOfEra / 100)
  let marchMonth := (5 * dayOfYear + 2) / 153
  let day := dayOfYear - (153 * marchMonth + 2) / 5 + 1
  let month := if marchMonth < 10 then marchMonth + 3 else marchMonth - 9
  let year := era * 400 + yearOfEra
  ⟨if month ≤ 2 then year + 1 else year, month, day⟩

end Date

/-- The decimal digits of `n`, filled up with zeros on the left to `width`. -/
def padDigits (width n : Nat) : String :=
  let digits := toString n
  String.ofList (List.replicate (width - digits.length) '0') ++ digits

/-- A year in four digits, or signed when it does not fit. -/
def yearText (year : Int) : String :=
  if 0 ≤ year ∧ year ≤ 9999 then padDigits 4 year.toNat
  else (if year < 0 then "-" else "+") ++ padDigits 4 year.natAbs

/-- The fraction of a second, with its point. -/
def fractionText (nanos : Nat) : String :=
  if nanos = 0 then ""
  else if nanos % 1000000 = 0 then "." ++ padDigits 3 (nanos / 1000000)
  else if nanos % 1000 = 0 then "." ++ padDigits 6 (nanos / 1000)
  else "." ++ padDigits 9 nanos

/-- The RFC 3339 text of an instant. -/
def Instant.rfc3339 (t : Instant) : String :=
  let date := Date.ofDays (t.secs.fdiv 86400)
  let second := (t.secs.fmod 86400).toNat
  yearText date.year ++ "-" ++ padDigits 2 date.month ++ "-" ++ padDigits 2 date.day ++ "T"
    ++ padDigits 2 (second / 3600) ++ ":" ++ padDigits 2 (second / 60 % 60) ++ ":"
    ++ padDigits 2 (second % 60) ++ fractionText t.subsecNanos ++ "Z"

end Chronicle
