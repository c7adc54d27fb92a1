import WorkPriority.Data.Value
import WorkPriority.Decimal.Reading
import WorkPriority.Decimal.Notation
import WorkPriority.Text

/-!
# Documents in JSON

The reader takes the notation strictly: no comments, no trailing commas or
characters, no leading zeros, no control characters in texts. A number is whole
if it has neither fraction nor exponent and fits into 64 bits. Characters
beyond the first plane may be written as two escapes of their UTF-16 halves; a
half alone, as a number beyond the range of numbers, makes its value
meaningless.

`Json.read?` reads a document, and `Json.write` writes one.
-/

namespace WorkPriority
namespace Json

/-! ### Reading -/

/-- The characters that may stand between the tokens of a document. -/
def isSpace (c : Char) : Bool := c == ' ' || c == '\n' || c == '\r' || c == '\t'

/-- What follows the space at the start. -/
def skipSpace (cs : List Char) : List Char := cs.dropWhile isSpace

/-- The value of a hexadecimal digit. -/
def hexValue? (c : Char) : Option Nat :=
  if c.isDigit then some (c.toNat - '0'.toNat)
  else if 'a' ≤ c && c ≤ 'f' then some (c.toNat - 'a'.toNat + 10)
  else if 'A' ≤ c && c ≤ 'F' then some (c.toNat - 'A'.toNat + 10)
  else none

/-- The number that hexadecimal digits stand for. -/
def hexNumber? (cs : List Char) : Option Nat :=
  cs.foldlM (fun n c => (hexValue? c).map fun d => 16 * n + d) 0

/-- A piece of a text: a character, or half of one in UTF-16. -/
inductive Piece where
  /-- A character. -/
  | whole (c : Char)
  /-- A code unit of UTF-16 that was given as an escape. -/
  | escaped (n : Nat)

/-- The character that an escape of one letter stands for. -/
def escapeOf? : Char → Option Char
  | '"' => some '"'
  | '\\' => some '\\'
  | '/' => some '/'
  | 'b' => some '\x08'
  | 'f' => some '\x0c'
  | 'n' => some '\n'
  | 'r' => some '\r'
  | 't' => some '\t'
  | _ => none

/-- The pieces of a text up to its closing quote, and what follows that. -/
def readPieces : List Char → List Piece → Option (List Piece × List Char)
  | [], _ => none
  | '"' :: cs, done => some (done.reverse, cs)
  | '\\' :: 'u' :: a :: b :: c :: d :: cs, done =>
    match hexNumber? [a, b, c, d] with
    | some n => readPieces cs (.escaped n :: done)
    | none => none
  | '\\' :: c :: cs, done =>
    match escapeOf? c with
    | some e => readPieces cs (.whole e :: done)
    | none => none
  | c :: cs, done => if c.toNat < 0x20 then none else readPieces cs (.whole c :: done)

/-- Whether a unit is the first half of a character. -/
def isFirstHalf (n : Nat) : Bool := 0xD800 ≤ n && n < 0xDC00

/-- Whether a unit is the second half of a character. -/
def isSecondHalf (n : Nat) : Bool := 0xDC00 ≤ n && n < 0xE000

/-- The characters of a text; `none` if a half stands alone. -/
def joinPieces : List Piece → List Char → Option (List Char)
  | [], done => some done.reverse
  | .whole c :: ps, done => joinPieces ps (c :: done)
  | .escaped n :: ps, done =>
    -- A half has a meaning only together with the other half, as an escape too.
    if isFirstHalf n then
      match ps with
      | .escaped m :: ps =>
        if isSecondHalf m then
          joinPieces ps (Char.ofNat (0x10000 + (n - 0xD800) * 0x400 + (m - 0xDC00)) :: done)
        else none
      | _ => none
    else if isSecondHalf n then none
    else joinPieces ps (Char.ofNat n :: done)

/-- A text behind its opening quote: `none` within for one that is meaningless. -/
def readText (cs : List Char) : Option (Option String × List Char) := do
  let (pieces, rest) ← readPieces cs []
  return ((joinPieces pieces []).map String.ofList, rest)

/-- A number as a value: whole if it has no fraction and no exponent and fits. -/
def numberValue (negative : Bool) (whole fraction : List Char) (exponent : Option Int) : Value :=
  let n := Decimal.valueOf whole
  -- There is no whole number that is minus zero.
  let fits := if negative then 0 < n && n ≤ Nat.pow 2 63 else n < Nat.pow 2 64
  if fraction.isEmpty && exponent.isNone && fits then .int (if negative then -(n : Int) else n)
  else
    let x := Decimal.ofScientific negative (Decimal.valueOf (whole ++ fraction))
      (exponent.getD 0 - fraction.length)
    -- Out of range, a number is in order as long as nobody asks for it.
    if x.isFinite then .float x else .meaningless

/-- A number without its sign. -/
def readNumber (negative : Bool) (cs : List Char) : Option (Value × List Char) := do
  let (whole, cs) := Decimal.spanDigits cs
  if whole.isEmpty || (whole.head? == some '0' && whole.length != 1) then none
  let (fraction, cs) ← match cs with
    | '.' :: cs =>
      let (ds, cs) := Decimal.spanDigits cs
      if ds.isEmpty then none else some (ds, cs)
    | cs => some ([], cs)
  let (exponent, cs) ← match cs with
    | c :: rest =>
      if c == 'e' || c == 'E' then
        let (below, rest) := Decimal.readSign rest
        let (ds, rest) := Decimal.spanDigits rest
        if ds.isEmpty then none
        else
          let n : Int := Decimal.valueOf ds
          some (some (if below then -n else n), rest)
      else some (none, c :: rest)
    | [] => some (none, [])
  return (numberValue negative whole fraction exponent, cs)

/-- The word `word` at the start, and what follows it. -/
def readWord (word : String) (v : Value) (cs : List Char) : Option (Value × List Char) :=
  let w := word.toList
  if w.isPrefixOf cs then some (v, cs.drop w.length) else none

/-- A table whose names all have a meaning. -/
def tableOfNames (fields : List (Option String × Value)) : Value :=
  match fields.mapM fun (name, v) => name.map fun n => (n, v) with
  | some fields => .table fields
  | none => .meaningless

mutual

/-- A value at the start of a text, and what follows it. Every value takes at
    least one character, so that `fuel` characters of text need no more fuel. -/
def readValue : Nat → List Char → Option (Value × List Char)
  | 0, _ => none
  | fuel + 1, cs =>
    match skipSpace cs with
    | '"' :: cs => (readText cs).map fun (s, rest) =>
      (match s with | some s => .text s | none => .meaningless, rest)
    | '[' :: cs =>
      match skipSpace cs with
      | ']' :: rest => some (.list [], rest)
      | cs => readItems fuel cs []
    | '\x7b' :: cs =>
      match skipSpace cs with
      | '\x7d' :: rest => some (.table [], rest)
      | cs => readFields fuel cs []
    | '-' :: cs => readNumber true cs
    | 't' :: cs => readWord "true" (.bool true) ('t' :: cs)
    | 'f' :: cs => readWord "false" (.bool false) ('f' :: cs)
    | 'n' :: cs => readWord "null" .null ('n' :: cs)
    | cs => readNumber false cs

/-- The items of a list up to its closing bracket. -/
def readItems : Nat → List Char → List Value → Option (Value × List Char)
  | 0, _, _ => none
  | fuel + 1, cs, done =>
    match readValue fuel cs with
    | none => none
    | some (v, rest) =>
      match skipSpace rest with
      | ',' :: rest => readItems fuel rest (v :: done)
      | ']' :: rest => some (.list (v :: done).reverse, rest)
      | _ => none

/-- The fields of a table up to its closing brace. -/
def readFields : Nat → List Char → List (Option String × Value) → Option (Value × List Char)
  | 0, _, _ => none
  | fuel + 1, cs, done =>
    match skipSpace cs with
    | '"' :: cs =>
      match readText cs with
      | none => none
      | some (name, rest) =>
        match skipSpace rest with
        | ':' :: rest =>
          match readValue fuel rest with
          | none => none
          | some (v, rest) =>
            match skipSpace rest with
            | ',' :: rest => readFields fuel rest ((name, v) :: done)
            | '\x7d' :: rest => some (tableOfNames ((name, v) :: done).reverse, rest)
            | _ => none
        | _ => none
    | _ => none

end

/-- The value that a document says, if it is well written. -/
def read? (s : String) : Option Value :=
  let cs := s.toList
  match readValue (2 * cs.length + 2) cs with
  | some (v, rest) => if (skipSpace rest).isEmpty then some v else none
  | none => none

/-! ### Writing -/

/-- A character within a quoted text. -/
def writeChar (c : Char) : List Char :=
  match c with
  | '"' => ['\\', '"']
  | '\\' => ['\\', '\\']
  | '\n' => ['\\', 'n']
  | '\r' => ['\\', 'r']
  | '\t' => ['\\', 't']
  | '\x08' => ['\\', 'b']
  | '\x0c' => ['\\', 'f']
  | c =>
    if c.toNat < 0x20 then ['\\', 'u', '0', '0', Nat.digitChar (c.toNat / 16), Nat.digitChar (c.toNat % 16)]
    else [c]

/-- A text in quotes. -/
def quote (s : String) : String :=
  "\"" ++ String.ofList (s.toList.flatMap writeChar) ++ "\""

mutual

/-- A value as a document without space. -/
def write : Value → String
  | .null => "null"
  | .bool b => if b then "true" else "false"
  | .int n => Text.ofInt n
  | .float x => if x.isFinite then Decimal.explicit x else "null"
  | .text s => quote s
  | .moment s => quote s
  | .list items => "[" ++ writeItems items ++ "]"
  | .table fields => "\x7b" ++ writeFields fields ++ "\x7d"
  | .meaningless => "null"

/-- Items with commas between them. -/
def writeItems : List Value → String
  | [] => ""
  | [v] => write v
  | v :: vs => write v ++ "," ++ writeItems vs

/-- Fields with commas between them. -/
def writeFields : List (String × Value) → String
  | [] => ""
  | [(name, v)] => quote name ++ ":" ++ write v
  | (name, v) :: fs => quote name ++ ":" ++ write v ++ "," ++ writeFields fs

end

end Json
end WorkPriority
