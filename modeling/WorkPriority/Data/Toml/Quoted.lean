import WorkPriority.Data.Json

/-!
# Quoted texts of TOML

There are four kinds of quoted texts: basic ones, in which a backslash starts an
escape, and literal ones, in which nothing does; and both of them over one
line or, in three quotes, over several. In the latter a line break right behind
the opening quotes does not count, line breaks are kept as a line feed, and up
to two more quotes may stand before the closing ones.

Each reader starts behind the opening quotes, and returns the characters of the
text and what follows the closing quotes.
-/

namespace WorkPriority
namespace Toml

/-- Whether a character may stand as itself in a text, a comment or elsewhere:
    all may but the control characters other than the tab. -/
def isPlain (c : Char) : Bool := c == '\t' || (0x20 ≤ c.toNat && c.toNat != 0x7F)

/-- The character of a code point that is given by hexadecimal digits. -/
def codePoint? (digits : List Char) : Option Char :=
  match Json.hexNumber? digits with
  | some n => if n.isValidChar then some (Char.ofNat n) else none
  | none => none

/-- The character that an escape stands for, behind its backslash, and what
    follows it. -/
def readEscape : List Char → Option (Char × List Char)
  | 'b' :: cs => some ('\x08', cs)
  | 't' :: cs => some ('\t', cs)
  | 'n' :: cs => some ('\n', cs)
  | 'f' :: cs => some ('\x0c', cs)
  | 'r' :: cs => some ('\r', cs)
  | '"' :: cs => some ('"', cs)
  | '\\' :: cs => some ('\\', cs)
  | 'u' :: a :: b :: c :: d :: cs => (codePoint? [a, b, c, d]).map fun x => (x, cs)
  | 'U' :: a :: b :: c :: d :: e :: f :: g :: h :: cs =>
    (codePoint? [a, b, c, d, e, f, g, h]).map fun x => (x, cs)
  | _ => none

/-- A basic text on one line. -/
def readBasic : Nat → List Char → List Char → Option (List Char × List Char)
  | 0, _, _ => none
  | fuel + 1, cs, done =>
    match cs with
    | [] => none
    | '"' :: rest => some (done.reverse, rest)
    | '\\' :: rest =>
      match readEscape rest with
      | some (c, rest) => readBasic fuel rest (c :: done)
      | none => none
    | c :: rest => if isPlain c then readBasic fuel rest (c :: done) else none

/-- A literal text on one line. -/
def readLiteral : List Char → List Char → Option (List Char × List Char)
  | [], _ => none
  | '\'' :: cs, done => some (done.reverse, cs)
  | c :: cs, done => if isPlain c then readLiteral cs (c :: done) else none

/-- What follows a line break, if the text starts with one. -/
def lineBreak? : List Char → Option (List Char)
  | '\n' :: cs => some cs
  | '\r' :: '\n' :: cs => some cs
  | _ => none

/-- What follows the spaces and tabs at the start. -/
def skipBlanks (cs : List Char) : List Char := cs.dropWhile fun c => c == ' ' || c == '\t'

/-- What follows a line break right at the start, if there is one. -/
def skipFirstBreak (cs : List Char) : List Char := (lineBreak? cs).getD cs

/-- What follows all blanks and line breaks at the start. -/
def skipBlankLines : List Char → List Char
  | [] => []
  | '\r' :: '\n' :: cs => skipBlankLines cs
  | c :: cs => if c == ' ' || c == '\t' || c == '\n' then skipBlankLines cs else c :: cs

/-- Quotes in a text over several lines: `some` for those that close it, with
    the quotes that belong to the text before them. -/
def closing? (quote : Char) (cs : List Char) : Option (List Char × List Char) :=
  let run := (cs.takeWhile (· == quote)).length
  if run < 3 then none
  else
    -- The last three of the quotes close the text; one with more than five
    -- quotes closes behind the fifth.
    let inner := Min.min (run - 3) 2
    some (List.replicate inner quote, cs.drop (inner + 3))

/-- A basic text over several lines. A backslash at the end of a line takes
    away the line break and all blanks and line breaks behind it. -/
def readBasicLines : Nat → List Char → List Char → Option (List Char × List Char)
  | 0, _, _ => none
  | fuel + 1, cs, done =>
    match cs with
    | [] => none
    | '"' :: rest =>
      match closing? '"' cs with
      | some (inner, rest) => some (done.reverse ++ inner, rest)
      | none => readBasicLines fuel rest ('"' :: done)
    | '\\' :: rest =>
      -- Blanks between the backslash and the line break do not count.
      match lineBreak? (skipBlanks rest) with
      | some rest => readBasicLines fuel (skipBlankLines rest) done
      | none =>
        match readEscape rest with
        | some (c, rest) => readBasicLines fuel rest (c :: done)
        | none => none
    | c :: rest =>
      match lineBreak? cs with
      | some rest => readBasicLines fuel rest ('\n' :: done)
      | none => if isPlain c then readBasicLines fuel rest (c :: done) else none

/-- A literal text over several lines. -/
def readLiteralLines : Nat → List Char → List Char → Option (List Char × List Char)
  | 0, _, _ => none
  | fuel + 1, cs, done =>
    match cs with
    | [] => none
    | '\'' :: rest =>
      match closing? '\'' cs with
      | some (inner, rest) => some (done.reverse ++ inner, rest)
      | none => readLiteralLines fuel rest ('\'' :: done)
    | c :: rest =>
      match lineBreak? cs with
      | some rest => readLiteralLines fuel rest ('\n' :: done)
      | none => if isPlain c then readLiteralLines fuel rest (c :: done) else none

/-- A quoted text of any kind, and what follows it. -/
def readQuoted (cs : List Char) : Option (List Char × List Char) :=
  let fuel := cs.length + 1
  match cs with
  | '"' :: '"' :: '"' :: rest => readBasicLines fuel (skipFirstBreak rest) []
  | '\'' :: '\'' :: '\'' :: rest => readLiteralLines fuel (skipFirstBreak rest) []
  | '"' :: rest => readBasic fuel rest []
  | '\'' :: rest => readLiteral rest []
  | _ => none

end Toml
end WorkPriority
