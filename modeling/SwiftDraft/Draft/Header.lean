import SwiftDraft.Text.Basic

/-!
# The header of a draft

Every draft opens by saying when it was made. The moment is given in seconds since the start of 1970
and written as a date of the proleptic Gregorian calendar, in universal time.
-/

namespace SwiftDraft.Draft

/-- A day of the calendar. -/
structure Date where
  year : Int
  month : Nat
  day : Nat
  deriving DecidableEq, Repr

/-- The date that is `days` days after 1970-01-01. Years are counted from March here, in which the
leap day comes last, and grouped in eras of 400 years, all of which have as many days. -/
def Date.ofDays (days : Int) : Date :=
  let shifted := days + 719468
  let era := shifted.fdiv 146097
  let dayOfEra := (shifted.fmod 146097).toNat
  let yearOfEra := (dayOfEra - dayOfEra / 1460 + dayOfEra / 36524 - dayOfEra / 146096) / 365
  let dayOfYear := dayOfEra - (365 * yearOfEra + yearOfEra / 4 - yearOfEra / 100)
  let monthFromMarch := (5 * dayOfYear + 2) / 153
  let month := if monthFromMarch < 10 then monthFromMarch + 3 else monthFromMarch - 9
  let year : Int := yearOfEra + era * 400
  ⟨if month ≤ 2 then year + 1 else year, month, dayOfYear - (153 * monthFromMarch + 2) / 5 + 1⟩

/-- The digits of `n`, at least `width` of them. -/
def padded (width n : Nat) : Text :=
  let digits := Text.ofNat n
  List.replicate (width - digits.length) '0' ++ digits

/-- Four digits, with a sign outside the years 0 to 9999. -/
def yearText (year : Int) : Text :=
  if 0 ≤ year ∧ year ≤ 9999 then padded 4 year.toNat
  else (if year < 0 then '-' else '+') :: padded 4 year.natAbs

/-- A moment in the form `2024-01-02T03:04:05Z`. -/
def timestamp (seconds : Int) : Text :=
  let date := Date.ofDays (seconds.fdiv 86400)
  let time := (seconds.fmod 86400).toNat
  yearText date.year ++ '-' :: padded 2 date.month ++ '-' :: padded 2 date.day ++
  'T' :: padded 2 (time / 3600) ++ ':' :: padded 2 (time / 60 % 60) ++ ':' :: padded 2 (time % 60) ++
  ['Z']

def version : Text := "0.1.0".toList

/-- The first characters of every draft. -/
def headerMarker : Text := "// Generated by pyswift".toList

/-- The lines in front of the statements of a draft made at a moment that is given as text. -/
def header (generatedAt : Text) : Text :=
  headerMarker ++ ' ' :: version ++ " on ".toList ++ generatedAt ++
  "\n// Best-effort translation from Python; review before use.\n\nimport Foundation\n\n".toList

end SwiftDraft.Draft
