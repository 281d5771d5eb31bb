import CoolSdk.Runtime.Number
import Mathlib.Tactic.NormNum

/-!
# Dates

`Date.prototype.toISOString` is total on time values up to 8.64e15 milliseconds
from the epoch and throws outside them. Calendar fields come from the proleptic
Gregorian day number.
-/

namespace CoolSdk

/-- The message of the `RangeError` an invalid date raises. -/
def invalidTime : String := "Invalid time value"

/-- Decimal digits of a natural number, padded on the left with zeros. -/
def padStart (width n : Nat) : String :=
  let digits := (toString n).toList
  String.ofList (List.replicate (width - digits.length) '0' ++ digits)

/-- Year, month and day of a day number counted from 1970-01-01. -/
def civilOfDays (days : Int) : Int × Nat × Nat :=
  let z := days + 719468
  let era := z / 146097
  let doe := (z % 146097).toNat
  let yoe := (doe - doe / 1460 + doe / 36524 - doe / 146096) / 365
  let doy := doe - (365 * yoe + yoe / 4 - yoe / 100)
  let mp := (5 * doy + 2) / 153
  let month := if mp < 10 then mp + 3 else mp - 9
  ((yoe : Int) + era * 400 + (if month ≤ 2 then 1 else 0), month, doy - (153 * mp + 2) / 5 + 1)

/-- Four digits for the years 0 to 9999, a sign and six digits outside them. -/
def isoYear (year : Int) : String :=
  if 0 ≤ year ∧ year ≤ 9999 then padStart 4 year.toNat
  else (if year < 0 then "-" else "+") ++ padStart 6 year.natAbs

/-- The ISO text of an integral time value. -/
def isoText (t : Int) : String :=
  let (year, month, day) := civilOfDays (t / 86400000)
  let ms := (t % 86400000).toNat
  isoYear year ++ "-" ++ padStart 2 month ++ "-" ++ padStart 2 day ++ "T" ++
    padStart 2 (ms / 3600000) ++ ":" ++ padStart 2 (ms / 60000 % 60) ++ ":" ++
    padStart 2 (ms / 1000 % 60) ++ "." ++ padStart 3 (ms % 1000) ++ "Z"

/-- The integral time value a number denotes, if it is in the range of dates. -/
def JsNumber.timeClip : JsNumber → Option Int
  | .negZero => some 0
  | .finite q => if |q| ≤ 8640000000000000 then
      some (if q < 0 then -((-q).floor) else q.floor) else none
  | _ => none

/-- `new Date(t).toISOString()`. -/
def toISOString (t : JsNumber) : Except String String :=
  match t.timeClip with
  | none => .error invalidTime
  | some t => .ok (isoText t)

/-- The calendar agrees with the epoch and with a leap day. -/
example : isoText 0 = "1970-01-01T00:00:00.000Z" := by decide

example : isoText 951782400123 = "2000-02-29T00:00:00.123Z" := by decide

/-- Whole milliseconds inside the range of dates have a text. -/
theorem toISOString_ofInt {t : Int} (h : |t| ≤ 8640000000000000) :
    toISOString (.ofInt t) = .ok (isoText t) := by
  have hq : |(t : ℚ)| ≤ 8640000000000000 := by exact_mod_cast h
  have hclip : (JsNumber.ofInt t).timeClip = some t := by
    simp only [JsNumber.ofInt, JsNumber.timeClip, hq, ite_true, Option.some.injEq]
    by_cases hneg : (t : ℚ) < 0
    · rw [if_pos hneg, ← Int.cast_neg, Rat.floor_intCast, neg_neg]
    · rw [if_neg hneg, Rat.floor_intCast]
  simp only [toISOString, hclip]

end CoolSdk
