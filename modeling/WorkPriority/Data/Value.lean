import WorkPriority.Decimal.Binary

/-!
# Values of documents

Definitions, configurations and worlds are given as documents: nested lists and
tables of numbers, texts and truth values. A `Value` is what such a document
says, whatever its notation. Taking one apart is the work of the functions
below, each of which is `none` where the value is not of the kind that is asked
for; a whole number may stand where a number with a fraction is asked for, but
not the other way round.

A table is kept as it was written, with repeated keys. To ask for the field
under a repeated key is an error (`Value.field?`), so that a key that nobody
asks for may be repeated.

Values are made by their constructors; a few more ways to make one stand at the
end.
-/

namespace WorkPriority

/-- What a document says. -/
inductive Value where
  /-- The absence of a value. -/
  | null
  /-- A truth value. -/
  | bool (b : Bool)
  /-- A whole number. -/
  | int (n : Int)
  /-- A number that was written with a fraction or an exponent. -/
  | float (x : Float)
  /-- A text. -/
  | text (s : String)
  /-- A date or a time of day, as a text. -/
  | moment (s : String)
  /-- A list. -/
  | list (items : List Value)
  /-- A table, with the fields in the order in which they were written. -/
  | table (fields : List (String × Value))
  /-- Well written, but without a meaning: a number that is too large, or a text
      with half a character. It can be passed over, but not be read. -/
  | meaningless

namespace Value

instance : Inhabited Value := ⟨null⟩

/-- The truth value. -/
def bool? : Value → Option Bool
  | bool b => some b
  | _ => none

/-- The text; dates and times count as texts. -/
def text? : Value → Option String
  | text s => some s
  | moment s => some s
  | _ => none

/-- The whole number, if it lies within the bounds. -/
def int? (lo hi : Int) : Value → Option Int
  | int n => if lo ≤ n && n ≤ hi then some n else none
  | _ => none

/-- The whole number, if it is not negative and has at most `width` binary digits. -/
def nat? (width : Nat) : Value → Option Nat
  | int n => if 0 ≤ n && n < (Nat.pow 2 width : Nat) then some n.toNat else none
  | _ => none

/-- The number, with or without a fraction. -/
def float? : Value → Option Float
  | float x => some x
  | int n => some (Decimal.ofInt n)
  | _ => none

/-- The items of a list. -/
def list? : Value → Option (List Value)
  | list items => some items
  | _ => none

/-- The fields of a table. -/
def table? : Value → Option (List (String × Value))
  | table fields => some fields
  | _ => none

/-! ### Fields -/

/-- The field of a name: `some none` if there is none, and `none` if there are
    several. -/
def field? (name : String) (fields : List (String × Value)) : Option (Option Value) :=
  match fields.filter fun f => f.1 == name with
  | [] => some none
  | [(_, v)] => some (some v)
  | _ => none

/-- A field that has to be there. -/
def required (name : String) (read : Value → Option α) (fields : List (String × Value)) :
    Option α := do
  match ← field? name fields with
  | some v => read v
  | none => none

/-- A field with a value that stands in where it is missing. -/
def withDefault (name : String) (read : Value → Option α) (default : α)
    (fields : List (String × Value)) : Option α := do
  match ← field? name fields with
  | some v => read v
  | none => some default

/-- A value that may be absent. -/
def nullable (read : Value → Option α) : Value → Option (Option α)
  | null => some none
  | v => (read v).map some

/-- A field that may be missing or absent. -/
def optional (name : String) (read : Value → Option α) (fields : List (String × Value)) :
    Option (Option α) :=
  withDefault name (nullable read) none fields

/-- A list of values of one kind. -/
def listOf (read : Value → Option α) (v : Value) : Option (List α) := do
  (← v.list?).mapM read

/-- A table of values of one kind under arbitrary names. -/
def tableOf (read : Value → Option α) (v : Value) : Option (List (String × α)) := do
  (← v.table?).mapM fun (name, v) => (read v).map fun a => (name, a)

/-- One of a list of words. -/
def wordOf (words : List (String × α)) (v : Value) : Option α := do
  let s ← match v with
    | text s => some s
    | _ => none
  (words.find? fun w => w.1 == s).map Prod.snd

/-! ### Making values -/

/-- A whole number that counts something. -/
def count (n : Nat) : Value := .int n

/-- A value that may be absent. -/
def ofOption (write : α → Value) : Option α → Value
  | some a => write a
  | none => null

/-- A list of values of one kind. -/
def ofList (write : α → Value) (as : List α) : Value := .list (as.map write)

/-- A list of texts. -/
def ofTexts (ss : List String) : Value := ofList text ss

end Value
end WorkPriority
