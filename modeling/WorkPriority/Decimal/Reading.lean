import WorkPriority.Decimal.Binary

/-!
# Reading decimals

The numbers that may be written in tags, intervals and documents: an optional
sign, digits with an optional point (either side of which may be empty, but not
both), and an optional power of ten; or, in any letter case, `inf`, `infinity`
or `nan`. The number read is the one nearest to the decimal
(`Decimal.read?`).
-/

namespace WorkPriority
namespace Decimal

/-- The value of a digit. -/
def digitValue (c : Char) : Nat := c.toNat - '0'.toNat

/-- The whole number that digits stand for. -/
def valueOf (ds : List Char) : Nat := ds.foldl (fun n c => 10 * n + digitValue c) 0

/-- The leading digits, and what follows them. -/
def spanDigits (cs : List Char) : List Char × List Char :=
  (cs.takeWhile Char.isDigit, cs.dropWhile Char.isDigit)

/-- An optional sign, `true` for minus, and what follows it. -/
def readSign : List Char → Bool × List Char
  | '-' :: cs => (true, cs)
  | '+' :: cs => (false, cs)
  | cs => (false, cs)

/-- The power of ten at the end of a decimal: none, or `e` with at least one digit. -/
def readExponent : List Char → Option Int
  | [] => some 0
  | c :: cs =>
    if c == 'e' || c == 'E' then
      let (negative, rest) := readSign cs
      if !rest.isEmpty && rest.all Char.isDigit then
        some (if negative then -(valueOf rest : Int) else valueOf rest)
      else none
    else none

/-- Digits with an optional point and an optional power of ten, the sign
    already taken off. -/
def readUnsigned (negative : Bool) (cs : List Char) : Option Float :=
  let (whole, rest) := spanDigits cs
  let (fraction, rest) := match rest with
    | '.' :: rest => spanDigits rest
    | rest => ([], rest)
  if whole.isEmpty && fraction.isEmpty then none
  else (readExponent rest).map fun exponent =>
    ofScientific negative (valueOf (whole ++ fraction)) (exponent - fraction.length)

/-- The number that a text stands for. -/
def read? (cs : List Char) : Option Float :=
  let (negative, body) := readSign cs
  let word := String.ofList (body.map Char.toLower)
  if word == "inf" || word == "infinity" then
    some (Binary.nearest negative (Nat.pow 2 1024) 1)
  else if word == "nan" then some (Float.ofBits 0x7FF8000000000000)
  else readUnsigned negative body

end Decimal
end WorkPriority
