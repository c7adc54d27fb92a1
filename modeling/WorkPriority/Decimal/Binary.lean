/-!
# Binary floating point numbers as fractions

A finite binary floating point number is `± significand * 2 ^ exponent`, and
between two of them the nearer is chosen. Both directions are given here in
exact whole arithmetic, as what the decimal notation of such numbers rests on.

* `Binary.decode`: sign, significand and exponent of a finite number.
* `Binary.roundAway`: the whole number nearest to it.
* `Binary.nearest`: the number nearest to a fraction; a fraction halfway
  between two goes to the one with the even significand
  (`roundEven_lower`, `roundEven_upper`).
-/

namespace WorkPriority
namespace Decimal

/-! ### Rounding a quotient -/

/-- The whole number nearest to `num / den`; of two equally near ones the even one. -/
def roundEven (num den : Nat) : Nat :=
  let q := num / den
  let r := num % den
  if 2 * r < den then q else if den < 2 * r then q + 1 else q + q % 2

/-- Rounding goes up by half a unit at most. -/
theorem roundEven_upper (num den : Nat) (h : 0 < den) :
    2 * (roundEven num den * den) ≤ 2 * num + den := by
  have hd := Nat.div_add_mod num den
  have hm := Nat.mod_lt num h
  have e : den * (num / den) = num / den * den := Nat.mul_comm _ _
  simp only [roundEven]
  split
  · omega
  · split
    · rw [Nat.add_mul]; omega
    · rcases Nat.mod_two_eq_zero_or_one (num / den) with h2 | h2 <;> rw [h2, Nat.add_mul] <;> omega

/-- Rounding goes down by half a unit at most. -/
theorem roundEven_lower (num den : Nat) (h : 0 < den) :
    2 * num ≤ 2 * (roundEven num den * den) + den := by
  have hd := Nat.div_add_mod num den
  have hm := Nat.mod_lt num h
  have e : den * (num / den) = num / den * den := Nat.mul_comm _ _
  simp only [roundEven]
  split
  · omega
  · split
    · rw [Nat.add_mul]; omega
    · rcases Nat.mod_two_eq_zero_or_one (num / den) with h2 | h2 <;> rw [h2, Nat.add_mul] <;> omega

/-! ### The parts of a number -/

/-- A finite number as a sign and `significand * 2 ^ exponent`. -/
structure Binary where
  /-- Whether the sign is minus, which zero has as well. -/
  negative : Bool
  /-- The significand, below `2 ^ 53`. -/
  significand : Nat
  /-- The exponent of two, `-1074` at least. -/
  exponent : Int
  /-- Whether the next number below is only half as far away as the next above. -/
  narrow : Bool

namespace Binary

/-- The parts of a finite number. -/
def decode (x : Float) : Binary :=
  let bits := x.toBits.toNat
  let fraction := bits % Nat.pow 2 52
  let field : Nat := bits / Nat.pow 2 52 % Nat.pow 2 11
  let negative := decide (Nat.pow 2 63 ≤ bits)
  if field == 0 then ⟨negative, fraction, -1074, false⟩
  else ⟨negative, Nat.pow 2 52 + fraction, (field : Int) - 1075, fraction == 0 && field != 1⟩

/-- The bits of positive infinity. -/
def infiniteBits : Nat := 0x7FF * Nat.pow 2 52

/-- The fraction `num / den` times a power of two, as a fraction. -/
def scale (num den : Nat) (exponent : Int) : Nat × Nat :=
  if 0 ≤ exponent then (num * Nat.pow 2 exponent.toNat, den)
  else (num, den * Nat.pow 2 (-exponent).toNat)

/-- The whole number nearest to a finite number. Halves go away from zero. -/
def roundAway (b : Binary) : Int :=
  let (n, d) := scale b.significand 1 b.exponent
  let magnitude : Nat := (2 * n + d) / (2 * d)
  if b.negative then -(magnitude : Int) else magnitude

/-- The exponent under which `num / den` has a significand of 53 binary
    digits, or the least exponent that there is. -/
def exponentOf (num den : Nat) : Int :=
  let guess := (num.log2 : Int) - den.log2 - 52
  -- The quotient of the two powers of two may be twice too large.
  let (n, d) := scale num den (-guess)
  Max.max (if n < d * Nat.pow 2 52 then guess - 1 else guess) (-1074)

/-- The bits of the nonnegative number nearest to `num / den`. As the bits of
    adjacent numbers are adjacent, a significand that rounds up to `2 ^ 53`
    carries into the exponent by itself. -/
def nearestBits (num den : Nat) : Nat :=
  if num == 0 then 0
  else
    let exponent := exponentOf num den
    let (n, d) := scale num den (-exponent)
    Min.min ((exponent + 1074).toNat * Nat.pow 2 52 + roundEven n d) infiniteBits

/-- The number of the given sign nearest to `num / den`. -/
def nearest (negative : Bool) (num den : Nat) : Float :=
  Float.ofBits (UInt64.ofNat (nearestBits num den + if negative then Nat.pow 2 63 else 0))

end Binary

/-- The number nearest to a whole number. -/
def ofInt (n : Int) : Float := Binary.nearest (decide (n < 0)) n.natAbs 1

/-- Powers of ten beyond this bound are out of the range of all numbers. -/
def decimalBound : Int := 400

/-- The number nearest to `± significand * 10 ^ exponent`. Beyond all numbers
    lies infinity, and zero below the least of them. -/
def ofScientific (negative : Bool) (significand : Nat) (exponent : Int) : Float :=
  let magnitude := (significand.log2 : Int) * 30103 / 100000 + exponent
  if significand == 0 || magnitude < -decimalBound then Binary.nearest negative 0 1
  else if decimalBound < magnitude then Binary.nearest negative (Nat.pow 2 1024) 1
  else if 0 ≤ exponent then Binary.nearest negative (significand * Nat.pow 10 exponent.toNat) 1
  else Binary.nearest negative significand (Nat.pow 10 (-exponent).toNat)

end Decimal
end WorkPriority
