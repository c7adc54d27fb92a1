import WorkPriority.Decimal.Notation
import WorkPriority.Decimal.Reading
import WorkPriority.Interval
import WorkPriority.Text

/-!
# Intervals as text

An interval is written `min~max`, where either bound may be left out for an
open end, or as a single number. `Interval.read?` reads that, and
`Interval.write` is the way an interval is shown; what is read never has a
bound that is not a number.

Definitions have two more forms of an interval (`Interval.Form`): a plain
number, and a table of an optional lower and an optional upper bound.
-/

namespace WorkPriority
namespace Interval

/-- A number that is not `nan`. -/
def readNumber? (cs : List Char) : Option Float :=
  (Decimal.read? cs).filter fun x => !x.isNaN

/-- One side of a written interval; an empty one stands for the open end. -/
def readBound? (openEnd : Float) (cs : List Char) : Option Float :=
  match Text.trimChars cs with
  | [] => some openEnd
  | cs => readNumber? cs

/-- The interval that a text stands for. -/
def readChars? (cs : List Char) : Option (Interval Float) :=
  let cs := Text.trimChars cs
  match Text.splitOnce '~' cs with
  | some (left, right) => do
    let lo ← readBound? Scalar.bottom left
    let hi ← readBound? Scalar.top right
    return ⟨lo, hi⟩
  | none => (readNumber? cs).map point

/-- The interval that a text stands for. -/
def read? (s : String) : Option (Interval Float) := readChars? s.toList

/-- A bound as text, where it is finite. -/
def writeBound (x : Float) : List Char :=
  if x.isFinite then Decimal.plainChars x else []

/-- The characters of an interval: one number if its bounds are equal, and its
    finite bounds around a tilde otherwise. -/
def writeChars (i : Interval Float) : List Char :=
  -- Equal bounds may both be infinite, and are then written as a word.
  if i.lo == i.hi then Decimal.plainChars i.lo
  else writeBound i.lo ++ '~' :: writeBound i.hi

/-- An interval as text. -/
def write (i : Interval Float) : String := String.ofList i.writeChars

/-! ### Forms in definitions -/

/-- The ways in which a definition may give an interval. -/
inductive Form where
  /-- A plain number, for the interval of that point. -/
  | number (x : Float)
  /-- A text in the notation of intervals. -/
  | text (s : String)
  /-- A table of bounds, each of which may be left out. -/
  | bounds (min max : Option Float)

/-- The interval that a form stands for, if it is well formed. -/
def ofForm? : Form → Option (Interval Float)
  | .number x => if x.isNaN then none else some (point x)
  | .text s => read? s
  | .bounds min max => some ⟨min.getD Scalar.bottom, max.getD Scalar.top⟩

/-- A bound of a table, as shown in reports. -/
def Form.boundText : Option Float → String
  | some x => "Some(" ++ Decimal.explicit x ++ ")"
  | none => "None"

/-- A form as it is quoted in reports. -/
def Form.write : Form → String
  | .number x => Decimal.plain x
  | .text s => s
  | .bounds min max =>
    "\x7b min = " ++ Form.boundText min ++ ", max = " ++ Form.boundText max ++ " \x7d"

end Interval
end WorkPriority
