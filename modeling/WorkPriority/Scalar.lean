/-!
# Scalars

What measuring and scoring compute with. The engine runs on binary floating
point numbers, whose operations round; that the same formulas are right is a
statement of exact arithmetic. Intervals, aggregations and interpolation are
therefore written once over any `Scalar`, with `Float` as the instance that
runs.

A scalar may be *not a number* (`Scalar.isNaN`); every comparison with such a
scalar is false. The least and greatest of two scalars (`Scalar.min`,
`Scalar.max`) ignore it, and keep their first argument where both are equal.
-/

namespace WorkPriority

/-- A type of numbers to measure and score with. -/
class Scalar (α : Type) extends Add α, Sub α, Mul α, Div α, BEq α, LT α, LE α where
  /-- Comparison is decided. -/
  decLt : DecidableLT α
  /-- Comparison is decided. -/
  decLe : DecidableLE α
  /-- A count as a scalar. -/
  ofNat : Nat → α
  /-- The distance from zero. -/
  abs : α → α
  /-- A scalar above all others, used as an open upper bound. -/
  top : α
  /-- A scalar below all others, used as an open lower bound. -/
  bottom : α
  /-- The result of an operation that has none. -/
  isNaN : α → Bool
  /-- Whether a scalar is a number that is not an open bound. -/
  isFinite : α → Bool
  /-- Two scalars closer than this count as equal. -/
  epsilon : α

attribute [reducible, instance] Scalar.decLt Scalar.decLe

namespace Scalar

variable {α : Type} [Scalar α]

/-- Zero. -/
def zero : α := ofNat 0

/-- One. -/
def one : α := ofNat 1

/-- Minus one. -/
def negOne : α := zero - one

/-- The lesser of two scalars, ignoring one that is not a number. -/
def min (x y : α) : α := if isNaN x || decide (y < x) then y else x

/-- The greater of two scalars, ignoring one that is not a number. -/
def max (x y : α) : α := if isNaN x || decide (x < y) then y else x

/-- The scalar within the bounds that is nearest to `x`. What is not a number
    stays so. -/
def clamp (lo hi x : α) : α := if x < lo then lo else if hi < x then hi else x

/-- Whether two scalars are so close that they count as equal. -/
def near (x y : α) : Bool := decide (abs (x - y) < epsilon)

/-- The sum of scalars, from the left, starting from zero. -/
def sum (xs : List α) : α := xs.foldl (· + ·) zero

end Scalar

/-- Binary floating point numbers: the scalars that the engine runs on. -/
instance : Scalar Float where
  decLt := inferInstance
  decLe := inferInstance
  ofNat := Float.ofNat
  abs := Float.abs
  top := Float.ofBits 0x7FF0000000000000
  bottom := Float.ofBits 0xFFF0000000000000
  isNaN := Float.isNaN
  isFinite := Float.isFinite
  epsilon := Float.ofBits 0x3CB0000000000000

end WorkPriority
