import WorkPriority.Scalar

/-!
# Intervals and interpolation

A closed interval of scalars is kept as it was written: a score interval may
run downwards, from its higher bound to its lower. Containment
(`Interval.contains`) looks at the ordered bounds only, interpolation
(`interpolate`) maps the ordered validity interval onto the score interval in
the direction in which that was written.

A *degenerate* validity interval, a single point or one with an open end, gives
no slope; what is interpolated over it is the first score bound.
-/

namespace WorkPriority

variable {α : Type} [Scalar α]

/-- A closed interval, with its bounds in the order in which they were written. -/
structure Interval (α : Type) where
  /-- The bound written first. -/
  lo : α
  /-- The bound written second. -/
  hi : α

namespace Interval

/-- The interval of a single point. -/
def point (x : α) : Interval α := ⟨x, x⟩

/-- The interval that holds every number. -/
def any : Interval α := ⟨Scalar.bottom, Scalar.top⟩

/-- The lower bound. -/
def min (i : Interval α) : α := Scalar.min i.lo i.hi

/-- The upper bound. -/
def max (i : Interval α) : α := Scalar.max i.lo i.hi

/-- Whether a value lies between the bounds, both included. -/
def contains (i : Interval α) (x : α) : Bool := decide (i.min ≤ x) && decide (x ≤ i.max)

/-- Whether the interval is too short to have a slope, or has an open end. -/
def isDegenerate (i : Interval α) : Bool :=
  !Scalar.isFinite i.min || !Scalar.isFinite i.max || Scalar.near i.max i.min

/-- Whether two intervals were written with equal bounds. -/
def same (i j : Interval α) : Bool := i.lo == j.lo && i.hi == j.hi

end Interval

/-- Maps `x` from the interval `validity` linearly onto the interval `score`.
    Values beyond `validity` are mapped to the score bound nearer to them. -/
def interpolate (validity score : Interval α) (x : α) : α :=
  if validity.isDegenerate || Scalar.isNaN x then score.lo
  else
    let t := Scalar.clamp Scalar.zero Scalar.one ((x - validity.min) / (validity.max - validity.min))
    score.lo + t * (score.hi - score.lo)

/-- A stretch of values, the scores that it is mapped onto, and what the score
    is then explained with. -/
structure ScoreRange (α : Type) where
  /-- The values that the range is about. -/
  validity : Interval α
  /-- The scores of the values. -/
  score : Interval α
  /-- The explanation; empty for none. -/
  description : String

namespace ScoreRange

/-- The score of a value. -/
def scoreFor (r : ScoreRange α) (x : α) : α := interpolate r.validity r.score x

/-- The first of the ranges that a value lies in. -/
def find? (ranges : List (ScoreRange α)) (x : α) : Option (ScoreRange α) :=
  ranges.find? fun r => r.validity.contains x

end ScoreRange
end WorkPriority
