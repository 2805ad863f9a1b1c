import FormulaPlot.Number.Rounding

/-!
# Timestamps

A moment is given in seconds since the start of 1970. `Timestamp.text` writes it as date and time of
day with milliseconds: the fraction of a second is rounded to microseconds, a half to the even one,
and then cut. Dates are those of the Gregorian calendar in the years 1 to 9999.
-/

namespace FormulaPlot

/-- Why a moment has no date. -/
inductive TimestampFault where
  /-- The moment is NaN. -/
  | notANumber
  /-- The moment is past what a clock can count. -/
  | pastClock
  /-- The year is past what a calendar can count. -/
  | pastCalendar
  /-- The year is not one of the years 1 to 9999. -/
  | yearOutOfRange (year : Int)
deriving DecidableEq, Repr

namespace TimestampFault

/-- The words for a moment without date. -/
def message : TimestampFault → String
  | notANumber => "Invalid value NaN (not a number)"
  | pastClock => "timestamp out of range for platform time_t"
  | pastCalendar => "[Errno 75] Value too large for defined data type"
  | yearOutOfRange year => s!"year {year} is out of range"

end TimestampFault

namespace Timestamp

/-- Digits of a number filled with zeros to a width. -/
def padded (width n : Nat) : String :=
  let digits := Nat.toDigits 10 n
  String.ofList (List.replicate (width - digits.length) '0' ++ digits)

/-- Year, month and day of a day counted from the first of January 1970. Eras of 400 years have
146097 days, and years are counted from March so that the leap day ends them. -/
def civil (days : Int) : Int × Nat × Nat :=
  let z := days + 719468
  let era := z.fdiv 146097
  let dayOfEra := (z - era * 146097).toNat
  let yearOfEra := (dayOfEra - dayOfEra / 1460 + dayOfEra / 36524 - dayOfEra / 146096) / 365
  let dayOfYear := dayOfEra - (365 * yearOfEra + yearOfEra / 4 - yearOfEra / 100)
  let shifted := (5 * dayOfYear + 2) / 153
  let day := dayOfYear - (153 * shifted + 2) / 5 + 1
  let month := if shifted < 10 then shifted + 3 else shifted - 9
  (yearOfEra + era * 400 + (if month ≤ 2 then 1 else 0), month, day)

/-- Whole seconds and microseconds of a moment. -/
def split (seconds : Float) : Except TimestampFault (Int × Nat) :=
  match truncateToInt seconds with
  | .error .roundedNaN => .error .notANumber
  | .error _ => .error .pastClock
  | .ok whole =>
    match floatOfInt whole with
    | .error _ => .error .pastClock
    | .ok start =>
      match roundToInt ((seconds - start) * 1000000) with
      | .error _ => .error .pastClock
      | .ok micros =>
        -- Rounding may fill the second, and a moment before 1970 has a negative fraction.
        if 1000000 ≤ micros then .ok (whole + 1, (micros - 1000000).toNat)
        else if micros < 0 then .ok (whole - 1, (micros + 1000000).toNat)
        else .ok (whole, micros.toNat)

/-- The years that dates may have. -/
def checkYear (seconds : Int) : Except TimestampFault Unit :=
  let (year, _, _) := civil (seconds.fdiv 86400)
  if 1 ≤ year ∧ year ≤ 9999 then .ok () else .error (.yearOutOfRange year)

/-- A moment as date and time of day. The day before must have a date too. -/
def text (seconds : Float) : Except TimestampFault String := do
  let (whole, micros) ← split seconds
  if whole < -(Nat.pow 2 63) ∨ Nat.pow 2 63 ≤ whole then throw .pastClock
  if whole < -67768040609740800 ∨ 67768036191676800 ≤ whole then throw .pastCalendar
  checkYear whole
  -- Local time is found by a look at the day before.
  checkYear (whole - 86400)
  let (year, month, day) := civil (whole.fdiv 86400)
  let second := (whole.fmod 86400).toNat
  return s!"{padded 4 year.toNat}-{padded 2 month}-{padded 2 day}T" ++
    s!"{padded 2 (second / 3600)}:{padded 2 (second / 60 % 60)}:{padded 2 (second % 60)}" ++
    s!".{padded 3 (micros / 1000)}"

end Timestamp

end FormulaPlot
