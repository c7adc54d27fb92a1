import WorkPriority.Interval.Notation

/-!
# Comparisons

A numeric condition of a filter tag: a relation to a number (`>=0.5`), or an
interval to lie in (`=1~2`). What follows the operator may fail to be a number.
Such a comparison is kept as its text and holds of every value: a filter is not
to shut everything out because of a typing error.
-/

namespace WorkPriority

/-- The relations that a value may be required to have to a number. -/
inductive Relation where
  /-- At least the number. -/
  | atLeast
  /-- At most the number. -/
  | atMost
  /-- Above the number. -/
  | above
  /-- Below the number. -/
  | below
  /-- Equal to the number, up to rounding. -/
  | equal
  /-- Different from the number, by more than rounding. -/
  | unequal
deriving DecidableEq

namespace Relation

/-- The operator by which the relation is written. -/
def sign : Relation → List Char
  | atLeast => ['>', '=']
  | atMost => ['<', '=']
  | above => ['>']
  | below => ['<']
  | equal => ['=', '=']
  | unequal => ['!', '=']

/-- Whether `x` has the relation to `y`. -/
def holds : Relation → Float → Float → Bool
  | atLeast, x, y => decide (y ≤ x)
  | atMost, x, y => decide (x ≤ y)
  | above, x, y => decide (y < x)
  | below, x, y => decide (x < y)
  | equal, x, y => Scalar.near x y
  | unequal, x, y => decide (Scalar.epsilon ≤ Scalar.abs (x - y))

end Relation

/-- The operators of comparisons: the relations, and membership in an interval. -/
inductive Operator where
  /-- A relation to a number. -/
  | relation (r : Relation)
  /-- Membership in an interval. -/
  | within
deriving DecidableEq

namespace Operator

/-- The characters of an operator. -/
def sign : Operator → List Char
  | relation r => r.sign
  | within => ['=']

/-- All operators. An operator that starts another one stands behind it, so
    that the first match is the longest. -/
def all : List Operator :=
  [relation .atLeast, relation .atMost, relation .equal, relation .unequal,
    relation .above, relation .below, within]

/-- The operator at the start of a text, and what follows it. -/
def read? (cs : List Char) : Option (Operator × List Char) :=
  all.findSome? fun op => (Text.stripLead op.sign cs).map fun rest => (op, rest)

end Operator

/-- A numeric condition. -/
inductive Comparison where
  /-- A relation to a number. -/
  | relation (r : Relation) (bound : Float)
  /-- Membership in an interval. -/
  | within (i : Interval Float)
  /-- A text that is not a comparison. -/
  | unparsed (text : String)

namespace Comparison

/-- The comparison of an operator and what follows it. -/
def ofOperator (op : Operator) (rest : List Char) : Comparison :=
  match op with
  | .within =>
    match Interval.readChars? rest with
    | some i => .within i
    | none => .unparsed (String.ofList (op.sign ++ rest))
  | .relation r =>
    match Interval.readNumber? (Text.trimChars rest) with
    | some x => .relation r x
    | none => .unparsed (String.ofList (op.sign ++ rest))

/-- The comparison of the text of an operator and what follows it. -/
def ofParts (sign rest : List Char) : Comparison :=
  match Operator.all.find? fun op => op.sign == sign with
  | some op => ofOperator op rest
  | none => .unparsed (String.ofList (sign ++ rest))

/-- The comparison that a text stands for. A text without an operator is an
    interval. -/
def read (s : String) : Comparison :=
  let cs := Text.trimChars s.toList
  match Operator.read? cs with
  | some (op, rest) => ofOperator op rest
  | none =>
    match Interval.readChars? cs with
    | some i => .within i
    | none => .unparsed (String.ofList cs)

/-- Whether the comparison was understood. -/
def isParsed : Comparison → Bool
  | .unparsed _ => false
  | _ => true

/-- Whether a value meets the comparison. -/
def holds : Comparison → Float → Bool
  | .relation r bound, x => r.holds x bound
  | .within i, x => i.contains x
  | .unparsed _, _ => true

/-- The characters of a comparison. -/
def writeChars : Comparison → List Char
  | .relation r bound => r.sign ++ Decimal.plainChars bound
  | .within i => '=' :: i.writeChars
  | .unparsed text => text.toList

/-- A comparison as text. -/
def write (c : Comparison) : String := String.ofList c.writeChars

/-- Whether two comparisons are the same, their numbers compared as numbers. -/
def same : Comparison → Comparison → Bool
  | .relation r x, .relation s y => r == s && x == y
  | .within i, .within j => i.same j
  | .unparsed s, .unparsed t => s == t
  | _, _ => false

end Comparison
end WorkPriority
