import Stencil.Number.Reading

/-!
# Dates and times

The date-times of TOML: a date, a time of day, or both with or without an offset. `readMoment?`
reads one and writes it in normal form: a capital `T` between date and time, a capital `Z`, and
fractions of a second with no zeros at their end and no more than nine digits.
-/

set_option autoImplicit false

namespace Stencil

/-- A number written with two digits. -/
def twoDigits (n : Nat) : Text := [Nat.digitChar (n / 10 % 10), Nat.digitChar (n % 10)]

/-- A number of exactly `count` digits at the beginning of a text, and the rest. -/
def readDigits? (count : Nat) (t : Text) : Option (Nat × Text) :=
  let digits := t.take count
  if digits.length = count ∧ digits.all Char.isDigit then some (digitsValue digits, t.drop count)
  else none

/-- The rest of a text after one of some characters. -/
def skipOne? (allowed : List Char) : Text → Option Text
  | c :: rest => if allowed.contains c then some rest else none
  | [] => none

/-- How many days a month has. -/
def daysInMonth (year month : Nat) : Nat :=
  if month = 2 then
    if year % 4 = 0 ∧ (year % 100 ≠ 0 ∨ year % 400 = 0) then 29 else 28
  else if month = 4 ∨ month = 6 ∨ month = 9 ∨ month = 11 then 30
  else 31

/-- Reads a date. -/
def readDate? (t : Text) : Option (Text × Text) := do
  let (year, rest) ← readDigits? 4 t
  let rest ← skipOne? ['-'] rest
  let (month, rest) ← readDigits? 2 rest
  let rest ← skipOne? ['-'] rest
  let (day, rest) ← readDigits? 2 rest
  if 1 ≤ month ∧ month ≤ 12 ∧ 1 ≤ day ∧ day ≤ daysInMonth year month then
    some (twoDigits (year / 100) ++ twoDigits year ++ '-' :: twoDigits month
      ++ '-' :: twoDigits day, rest)
  else none

/-- A fraction of a second in normal form. -/
def writeFractionOfSecond (digits : Text) : Text :=
  match ((digits.take 9).reverse.dropWhile (· == '0')).reverse with
  | [] => []
  | figures => '.' :: figures

/-- Reads a time of day. -/
def readTime? (t : Text) : Option (Text × Text) := do
  let (hour, rest) ← readDigits? 2 t
  let rest ← skipOne? [':'] rest
  let (minute, rest) ← readDigits? 2 rest
  let rest ← skipOne? [':'] rest
  let (second, rest) ← readDigits? 2 rest
  if hour ≤ 23 ∧ minute ≤ 59 ∧ second ≤ 60 then
    let written := twoDigits hour ++ ':' :: twoDigits minute ++ ':' :: twoDigits second
    match rest with
    | '.' :: more =>
      let digits := more.takeWhile Char.isDigit
      if digits.isEmpty then none
      else some (written ++ writeFractionOfSecond digits, more.dropWhile Char.isDigit)
    | rest => some (written, rest)
  else none

/-- An offset in words; no offset is written with a minus sign when it is zero. -/
def readOffset? (t : Text) : Option Text :=
  match t with
  | [] => some []
  | ['Z'] => some ['Z']
  | ['z'] => some ['Z']
  | sign :: rest =>
    if sign = '+' ∨ sign = '-' then do
      let (hour, rest) ← readDigits? 2 rest
      let rest ← skipOne? [':'] rest
      let (minute, rest) ← readDigits? 2 rest
      if hour ≤ 23 ∧ minute ≤ 59 ∧ rest.isEmpty then
        let sign := if hour = 0 ∧ minute = 0 then '+' else sign
        some (sign :: twoDigits hour ++ ':' :: twoDigits minute)
      else none
    else none

/-- The normal form of the date-time that a text is, if it is one. -/
def readMoment? (t : Text) : Option Text :=
  match readDate? t with
  | some (date, []) => some date
  | some (date, rest) => do
    let rest ← skipOne? ['T', 't', ' '] rest
    let (time, rest) ← readTime? rest
    let offset ← readOffset? rest
    some (date ++ 'T' :: time ++ offset)
  | none =>
    match readTime? t with
    | some (time, []) => some time
    | _ => none

end Stencil
