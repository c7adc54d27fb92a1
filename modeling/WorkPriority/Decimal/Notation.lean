import WorkPriority.Decimal.Shortest

/-!
# Decimal notations

How numbers are written in definitions and reports.

* `Decimal.plain`: the shortest digits that read back, without an exponent, and
  without a point where there is no fraction: `5`, `0.1`, `-0`.
* `Decimal.explicit`: the same digits so that a number never looks like a
  count: `5.0`; very large and very small ones have an exponent: `1e16`, `1.5e-7`.
* `Decimal.pointed`: the notation of configuration files, which is `plain` with
  a point added where there is none.
* `Decimal.fixed`: a set number of places, halves going to the even neighbour.
-/

namespace WorkPriority
namespace Decimal

/-- Digits around a point, with zeros where the point lies outside of them. -/
def Digits.positional (d : Digits) : List Char :=
  if d.point ≤ 0 then '0' :: '.' :: List.replicate (-d.point).toNat '0' ++ d.digits
  else
    let before := d.point.toNat
    if d.digits.length ≤ before then d.digits ++ List.replicate (before - d.digits.length) '0'
    else d.digits.take before ++ '.' :: d.digits.drop before

/-- The characters of a whole number. -/
def signedDigits (n : Int) : List Char :=
  if n < 0 then '-' :: digitsOf n.natAbs else digitsOf n.natAbs

/-- One digit, the rest behind a point, and the power of ten. -/
def Digits.scientific (d : Digits) : List Char :=
  let power := 'e' :: signedDigits (d.point - 1)
  match d.digits with
  | [] => '0' :: power
  | [c] => c :: power
  | c :: rest => c :: '.' :: rest ++ power

/-- A number as text: fixed words for what is not finite, the sign of zero
    kept, and `layout` for the digits of all others. -/
def written (zero : List Char) (layout : Digits → List Char) (x : Float) : List Char :=
  if x.isNaN then "NaN".toList
  else
    let b := Binary.decode x
    let body :=
      if !x.isFinite then "inf".toList
      else if b.significand == 0 then zero
      else layout (Shortest.ofBinary b)
    if b.negative then '-' :: body else body

/-- The characters of a number without exponent, and without a point where
    there is no fraction. -/
def plainChars (x : Float) : List Char := written ['0'] Digits.positional x

/-- A number without exponent, and without a point where there is no fraction. -/
def plain (x : Float) : String := String.ofList (plainChars x)

/-- Adds an empty fraction to digits that have no point. -/
def withPoint (cs : List Char) : List Char := if cs.contains '.' then cs else cs ++ ['.', '0']

/-- A number that never looks like a count; from `10 ^ 16` on and below
    `10 ^ -4` with an exponent. -/
def explicit (x : Float) : String :=
  String.ofList <| written ['0', '.', '0']
    (fun d => if 16 < d.point || d.point < -3 then d.scientific else withPoint d.positional) x

/-- A number in the notation of configuration files: always with a point. -/
def pointed (x : Float) : String :=
  if x.isNaN then "nan"
  else String.ofList (written ['0', '.', '0'] (fun d => withPoint d.positional) x)

/-- A number with `places` digits after the point, rounded to the nearest, a
    tie going to the even neighbour. -/
def fixed (places : Nat) (x : Float) : String :=
  if x.isNaN then "NaN"
  else
    let b := Binary.decode x
    let sign := if b.negative then "-" else ""
    if !x.isFinite then sign ++ "inf"
    else
      let (num, den) := Binary.scale (b.significand * Nat.pow 10 places) 1 b.exponent
      let ds := digitsOf (roundEven num den)
      let ds := List.replicate (places + 1 - ds.length) '0' ++ ds
      let whole := ds.take (ds.length - places)
      sign ++ String.ofList (whole ++ '.' :: ds.drop (ds.length - places))

end Decimal
end WorkPriority
