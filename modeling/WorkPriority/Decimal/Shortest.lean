import WorkPriority.Decimal.Binary

/-!
# Shortest decimals

Every decimal close enough to a binary floating point number reads back as it.
Of these decimals the ones with the fewest digits are written, and of those the
nearest: `Shortest.ofBinary`. For a growing number of digits the two decimals
around the number are tested; the first number of digits at which one of them
reads back decides. Of two that are equally near the greater is taken.
-/

namespace WorkPriority
namespace Decimal

/-- A positive decimal: its digits, without zeros at the end, and the place of
    the point, counted from the start of the digits. -/
structure Digits where
  /-- The digits from the first that is not zero. -/
  digits : List Char
  /-- How many digits stand before the point; negative for zeros after it. -/
  point : Int

/-- The decimal digits of a whole number. -/
def digitsOf (n : Nat) : List Char := Nat.toDigits 10 n

/-- Digits without the zeros at their end. -/
def dropZerosEnd (ds : List Char) : List Char := (ds.reverse.dropWhile (· == '0')).reverse

namespace Shortest

/-- A number together with the ends of the range that reads back as it, all
    over one denominator. -/
structure Range where
  /-- Numerator of the number. -/
  value : Nat
  /-- Numerator of the lower end. -/
  low : Nat
  /-- Numerator of the upper end. -/
  high : Nat
  /-- The common denominator. -/
  den : Nat
  /-- Whether the ends themselves read back as the number. -/
  closed : Bool

/-- The decimals that read back as a positive number are those within half the
    way to its neighbours, the midpoints included where its significand is even. -/
def Range.ofBinary (b : Binary) : Range :=
  let below := if b.narrow then 1 else 2
  let (up, down) := Binary.scale 1 1 (b.exponent - 2)
  let v := 4 * b.significand
  ⟨v * up, (v - below) * up, (v + 2) * up, down, b.significand % 2 == 0⟩

/-- Whether the decimal `n * 10 ^ place` reads back as the number. -/
def Range.admits (r : Range) (n : Nat) (place : Int) : Bool :=
  let (x, d) := if 0 ≤ place then (n * Nat.pow 10 place.toNat, 1)
    else (n, Nat.pow 10 (-place).toNat)
  if r.closed then r.low * d ≤ x * r.den && x * r.den ≤ r.high * d
  else r.low * d < x * r.den && x * r.den < r.high * d

/-- The largest `n` for which `n * 10 ^ place` does not exceed the number, and
    whether the number is nearer to that decimal than to the next. -/
def Range.below (r : Range) (place : Int) : Nat × Bool :=
  let (num, den) :=
    if 0 ≤ place then (r.value, r.den * Nat.pow 10 place.toNat)
    else (r.value * Nat.pow 10 (-place).toNat, r.den)
  (num / den, 2 * (num % den) < den)

/-- The decimal with its last digit at `place` that reads back as the number,
    if there is one: of two the nearer, and the greater of two equally near. -/
def Range.atPlace (r : Range) (place : Int) : Option Nat :=
  let (n, nearer) := r.below place
  match r.admits n place, r.admits (n + 1) place with
  | true, true => some (if nearer then n else n + 1)
  | true, false => some n
  | false, true => some (n + 1)
  | false, false => none

/-- The place of the first digit of the number. -/
def Range.firstPlace (r : Range) : Int :=
  let guess := ((r.value.log2 : Int) - r.den.log2) * 30103 / 100000
  -- The logarithms are rounded, so that the guess is off by one at most.
  if (r.below (guess + 1)).1 != 0 then guess + 1
  else if (r.below guess).1 != 0 then guess
  else guess - 1

/-- The shortest decimal that reads back as a positive number. Seventeen
    digits are enough for every number. -/
def ofBinary (b : Binary) : Digits :=
  let r := Range.ofBinary b
  let first := r.firstPlace
  let places := (List.range 17).map fun (i : Nat) => first - (i : Int)
  match places.findSome? fun p => (r.atPlace p).map fun n => (n, p) with
  | some (n, p) =>
    let ds := digitsOf n
    ⟨dropZerosEnd ds, ds.length + p⟩
  | none => ⟨['0'], 1⟩

end Shortest
end Decimal
end WorkPriority
