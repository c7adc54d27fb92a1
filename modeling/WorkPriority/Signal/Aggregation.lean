import WorkPriority.Scalar

/-!
# Aggregations

How the measurements of a population become one value, and the statistics of a
population that its members are compared with. A population without members has
the value zero under every aggregation, and no statistics.

A measurement that could not be taken is recorded as `missingValue`. Such a
record, as one that is not a number, is *invalid* and takes no part.
-/

namespace WorkPriority

variable {α : Type} [Scalar α]

/-- The record of a measurement that could not be taken: minus one. -/
def missingValue : α := Scalar.negOne

/-- Whether a record is that of a measurement. -/
def isMeasured (x : α) : Bool := !(x == missingValue) && !Scalar.isNaN x

namespace Scalar

/-- The least number of a list; there is none above all others. -/
def least : List α → α
  | [] => top
  | x :: xs =>
    let m := xs.foldl min x
    if isNaN m then top else m

/-- The greatest number of a list; there is none below all others. -/
def greatest : List α → α
  | [] => bottom
  | x :: xs =>
    let m := xs.foldl max x
    if isNaN m then bottom else m

end Scalar

/-- The ways to make one value of many. -/
inductive Aggregation where
  /-- Their sum. -/
  | sum
  /-- Their mean. -/
  | average
  /-- The greatest. -/
  | max
  /-- The least. -/
  | min
  /-- How many there are. -/
  | count
  /-- The first. -/
  | firstOf
deriving DecidableEq

namespace Aggregation

/-- All aggregations. -/
def all : List Aggregation := [sum, average, max, min, count, firstOf]

/-- The name of the aggregation in definitions. -/
def label : Aggregation → String
  | sum => "sum"
  | average => "average"
  | max => "max"
  | min => "min"
  | count => "count"
  | firstOf => "first-of"

/-- The value of a list of measurements. -/
def apply (a : Aggregation) : List α → α
  | [] => Scalar.zero
  | x :: xs =>
    match a with
    | sum => Scalar.sum (x :: xs)
    | average => Scalar.sum (x :: xs) / Scalar.ofNat (x :: xs).length
    | max => Scalar.greatest (x :: xs)
    | min => Scalar.least (x :: xs)
    | count => Scalar.ofNat (x :: xs).length
    | firstOf => x

end Aggregation

/-- The mean and the spread of a population. -/
structure Statistics (α : Type) where
  /-- The mean of the measurements. -/
  mean : α
  /-- The least. -/
  min : α
  /-- The greatest. -/
  max : α
  /-- How many there are. -/
  count : Nat

namespace Statistics

/-- The statistics of the valid ones of some records, if there are any. -/
def ofRecords? (records : List α) : Option (Statistics α) :=
  match records.filter isMeasured with
  | [] => none
  | x :: xs => some {
      mean := Scalar.sum (x :: xs) / Scalar.ofNat (x :: xs).length
      min := Scalar.least (x :: xs)
      max := Scalar.greatest (x :: xs)
      count := (x :: xs).length }

/-- How far the measurements are spread. -/
def range (s : Statistics α) : α := s.max - s.min

end Statistics
end WorkPriority
