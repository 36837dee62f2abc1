import MarkovFit.Decimal.Text

/-!
# Timestamps

The text of a moment in universal time, as in `2024-02-29T12:30:05.250000000Z`. A moment is counted
in seconds since the beginning of 1970.
-/

namespace MarkovFit.Timestamp

/-- The year, the month and the day of a day, counted from the first of January 1970. Years are
counted from March, in cycles of 400 years with 146097 days. -/
def date (day : Int) : Int × Nat × Nat :=
  let shifted := day + 719468
  let cycle := shifted.fdiv 146097
  let dayOfCycle := (shifted.fmod 146097).toNat
  let year :=
    (dayOfCycle - dayOfCycle / 1460 + dayOfCycle / 36524 - dayOfCycle / 146096) / 365
  let dayOfYear := dayOfCycle - (365 * year + year / 4 - year / 100)
  let march := (5 * dayOfYear + 2) / 153
  let dayOfMonth := dayOfYear - (153 * march + 2) / 5 + 1
  let month := if march < 10 then march + 3 else march - 9
  let start : Int := year + 400 * cycle
  (if month ≤ 2 then start + 1 else start, month, dayOfMonth)

/-- A number with leading zeros. -/
def digits (places n : Nat) : String := String.ofList (Decimal.paddedDigits places n)

/-- The text of a moment. -/
def text (seconds : Int) (nanoseconds : Nat) : String :=
  let (year, month, day) := date (seconds.fdiv 86400)
  let second := (seconds.fmod 86400).toNat
  s!"{digits 4 year.toNat}-{digits 2 month}-{digits 2 day}" ++
    s!"T{digits 2 (second / 3600)}:{digits 2 (second / 60 % 60)}:{digits 2 (second % 60)}" ++
    s!".{digits 9 nanoseconds}Z"

end MarkovFit.Timestamp
