import WorkPriority.Data.Json
import WorkPriority.Scalar

/-!
# Numbers, dates and times of TOML

Digits may have single underscores between them. Whole numbers have 64 bits
with a sign; they may be written to the bases 16, 8 and 2. A number with a
fraction or an exponent must not be beyond all numbers. Dates and times follow
the calendar and the clock; they are kept as texts in a standard form.

Each reader returns what it read and what follows that.
-/

namespace WorkPriority
namespace Toml

/-! ### Digits -/

/-- Digits at the start, of which every one but the first may have an
    underscore before it; without the underscores. -/
def moreDigits (isDigit : Char → Bool) : List Char → List Char × List Char
  | '_' :: c :: cs =>
    if isDigit c then
      let (ds, rest) := moreDigits isDigit cs
      (c :: ds, rest)
    else ([], '_' :: c :: cs)
  | c :: cs =>
    if isDigit c then
      let (ds, rest) := moreDigits isDigit cs
      (c :: ds, rest)
    else ([], c :: cs)
  | [] => ([], [])

/-- At least one digit, with underscores between them allowed. -/
def readDigits (isDigit : Char → Bool) : List Char → Option (List Char × List Char)
  | c :: cs =>
    if isDigit c then
      let (ds, rest) := moreDigits isDigit cs
      some (c :: ds, rest)
    else none
  | [] => none

/-- The digits of a decimal whole number, which has no zeros before it. -/
def readWhole : List Char → Option (List Char × List Char)
  | '0' :: cs => some (['0'], cs)
  | cs => readDigits Char.isDigit cs

/-! ### Whole numbers -/

/-- A whole number of 64 bits. -/
def wholeValue (n : Int) : Option Value :=
  if -(Nat.pow 2 63 : Nat) ≤ n && n < (Nat.pow 2 63 : Nat) then some (.int n) else none

/-- Whether a character is a digit to one of the bases. -/
def isDigitOf (base : Nat) (c : Char) : Bool :=
  match Json.hexValue? c with
  | some d => d < base
  | none => false

/-- A whole number to a base, behind its mark. -/
def readBased (base : Nat) (cs : List Char) : Option (Value × List Char) := do
  let (ds, rest) ← readDigits (isDigitOf base) cs
  let n := ds.foldl (fun n c => base * n + (Json.hexValue? c).getD 0) 0
  return (← wholeValue n, rest)

/-- A whole number. -/
def readInteger (cs : List Char) : Option (Value × List Char) :=
  match cs with
  | '0' :: 'x' :: rest => readBased 16 rest
  | '0' :: 'o' :: rest => readBased 8 rest
  | '0' :: 'b' :: rest => readBased 2 rest
  | _ => do
    let (negative, body) := Decimal.readSign cs
    let (ds, rest) ← readWhole body
    let n : Int := Decimal.valueOf ds
    return (← wholeValue (if negative then -n else n), rest)

/-! ### Numbers with a fraction or an exponent -/

/-- An optional power of ten: `some none` if there is none. -/
def readPower (cs : List Char) : Option (Option Int × List Char) :=
  match cs with
  | c :: rest =>
    if c == 'e' || c == 'E' then do
      let (negative, rest) := Decimal.readSign rest
      let (ds, rest) ← readDigits Char.isDigit rest
      let n : Int := Decimal.valueOf ds
      return (some (if negative then -n else n), rest)
    else some (none, cs)
  | [] => some (none, [])

/-- The words for numbers that have no digits. -/
def readSpecial (cs : List Char) : Option (Value × List Char) :=
  let (negative, body) := Decimal.readSign cs
  match body with
  | 'i' :: 'n' :: 'f' :: rest =>
    some (.float (Decimal.Binary.nearest negative (Nat.pow 2 1024) 1), rest)
  | 'n' :: 'a' :: 'n' :: rest => some (.float (Float.ofBits 0x7FF8000000000000), rest)
  | _ => none

/-- A number with a fraction or an exponent. -/
def readFloat (cs : List Char) : Option (Value × List Char) := do
  let (negative, body) := Decimal.readSign cs
  let (whole, rest) ← readWhole body
  let (fraction, rest) ← match rest with
    | '.' :: rest => readDigits Char.isDigit rest
    | rest => some ([], rest)
  let (power, rest) ← readPower rest
  -- With neither, the number is a whole one.
  if fraction.isEmpty && power.isNone then none
  let x := Decimal.ofScientific negative (Decimal.valueOf (whole ++ fraction))
    (power.getD 0 - fraction.length)
  if x == Scalar.top then none
  return (.float x, rest)

/-! ### Dates and times -/

/-- A number of a set count of digits. -/
def readFixed (count : Nat) (cs : List Char) : Option (Nat × List Char) :=
  let ds := cs.take count
  if ds.length == count && ds.all Char.isDigit then some (Decimal.valueOf ds, cs.drop count)
  else none

/-- What follows a character that has to be there. -/
def expect (c : Char) : List Char → Option (List Char)
  | d :: cs => if d == c then some cs else none
  | [] => none

/-- How many days a month has. -/
def daysIn (year month : Nat) : Nat :=
  if month == 2 then
    if year % 4 == 0 && (year % 100 != 0 || year % 400 == 0) then 29 else 28
  else if month == 4 || month == 6 || month == 9 || month == 11 then 30
  else 31

/-- A number with zeros before it. -/
def padZeros (width n : Nat) : List Char :=
  let ds := Decimal.digitsOf n
  List.replicate (width - ds.length) '0' ++ ds

/-- A date. -/
def readDate (cs : List Char) : Option (List Char × List Char) := do
  let (year, cs) ← readFixed 4 cs
  let (month, cs) ← readFixed 2 (← expect '-' cs)
  let (day, cs) ← readFixed 2 (← expect '-' cs)
  if 1 ≤ month && month ≤ 12 && 1 ≤ day && day ≤ daysIn year month then
    return (padZeros 4 year ++ '-' :: padZeros 2 month ++ '-' :: padZeros 2 day, cs)
  else none

/-- A time of day, its fractions of a second cut to nine digits. -/
def readTime (cs : List Char) : Option (List Char × List Char) := do
  let (hour, cs) ← readFixed 2 cs
  let (minute, cs) ← readFixed 2 (← expect ':' cs)
  let (second, cs) ← readFixed 2 (← expect ':' cs)
  let (fraction, cs) ← match cs with
    | '.' :: cs =>
      let (ds, cs) := Decimal.spanDigits cs
      if ds.isEmpty then none else some (Decimal.dropZerosEnd (ds.take 9), cs)
    | cs => some ([], cs)
  if hour ≤ 23 && minute ≤ 59 && second ≤ 60 then
    let clock := padZeros 2 hour ++ ':' :: padZeros 2 minute ++ ':' :: padZeros 2 second
    return (clock ++ if fraction.isEmpty then [] else '.' :: fraction, cs)
  else none

/-- The distance from universal time, if it is given. No distance has a plus
    sign, however it was written. -/
def readOffset (cs : List Char) : Option (List Char × List Char) :=
  match cs with
  | 'Z' :: rest => some (['Z'], rest)
  | 'z' :: rest => some (['Z'], rest)
  | c :: rest =>
    if c == '+' || c == '-' then do
      let (hour, rest) ← readFixed 2 rest
      let (minute, rest) ← readFixed 2 (← expect ':' rest)
      if hour ≤ 23 && minute ≤ 59 then
        let sign := if hour == 0 && minute == 0 then '+' else c
        return (sign :: padZeros 2 hour ++ ':' :: padZeros 2 minute, rest)
      else none
    else some ([], cs)
  | [] => some ([], [])

/-- A date with a time behind it, if there is one. -/
def readDateTime (cs : List Char) : Option (List Char × List Char) := do
  let (date, rest) ← readDate cs
  match rest with
  | c :: behind =>
    if c == 'T' || c == 't' || c == ' ' then
      match readTime behind with
      | some (time, behind) =>
        let (offset, behind) ← readOffset behind
        return (date ++ 'T' :: time ++ offset, behind)
      -- A blank behind a date may also end the value.
      | none => return (date, rest)
    else return (date, rest)
  | [] => return (date, rest)

/-- A date, a time, or both. -/
def readMoment (cs : List Char) : Option (Value × List Char) :=
  match readDateTime cs with
  | some (text, rest) => some (.moment (String.ofList text), rest)
  | none => (readTime cs).map fun (text, rest) => (.moment (String.ofList text), rest)

/-- A number, a date or a time. -/
def readNumber (cs : List Char) : Option (Value × List Char) :=
  readMoment cs <|> readSpecial cs <|> readFloat cs <|> readInteger cs

end Toml
end WorkPriority
