import WorkPriority.Data.Toml.Number
import WorkPriority.Data.Toml.Quoted
import WorkPriority.Data.Toml.Tables

/-!
# Documents in TOML

The reader of version 1.0 of the notation: lines with a key and a value, and
headers of tables in brackets. Lists may extend over lines, tables within
braces may not. A mark of the byte order may stand at the start.

`Toml.read?` reads a document.
-/

namespace WorkPriority
namespace Toml

/-! ### Between tokens -/

/-- What follows blanks, line breaks and comments. -/
def skipFiller (inComment : Bool) : List Char → Option (List Char)
  | [] => some []
  | '\n' :: cs => skipFiller false cs
  | '\r' :: '\n' :: cs => skipFiller false cs
  | c :: cs =>
    if inComment then if isPlain c then skipFiller true cs else none
    else if c == ' ' || c == '\t' then skipFiller false cs
    else if c == '#' then skipFiller true cs
    else some (c :: cs)

/-- What follows the end of a line: blanks, a comment, and a line break or the
    end of the text. -/
def endLine (cs : List Char) : Option (List Char) :=
  let cs := skipBlanks cs
  let cs := match cs with
    | '#' :: cs => cs.dropWhile isPlain
    | cs => cs
  if cs.isEmpty then some [] else lineBreak? cs

/-! ### Keys -/

/-- Whether a character may stand in a key without quotes. -/
def isBare (c : Char) : Bool := c.isAlphanum || c == '_' || c == '-'

/-- A key without points, and what follows it. -/
def readSimpleKey (cs : List Char) : Option (String × List Char) :=
  match cs with
  | '"' :: rest =>
    (readBasic (rest.length + 1) rest []).map fun (k, rest) => (String.ofList k, rest)
  | '\'' :: rest => (readLiteral rest []).map fun (k, rest) => (String.ofList k, rest)
  | _ =>
    let key := cs.takeWhile isBare
    if key.isEmpty then none else some (String.ofList key, cs.dropWhile isBare)

/-- How deep values may be nested, and how long a dotted key may be. -/
def depthLimit : Nat := 80

/-- The parts of a dotted key, with blanks around them, and what follows it. -/
def readKeyParts : Nat → List Char → List String → Option (List String × List Char)
  | 0, _, _ => none
  | fuel + 1, cs, done =>
    match readSimpleKey (skipBlanks cs) with
    | none => none
    | some (key, rest) =>
      match skipBlanks rest with
      | '.' :: rest => readKeyParts fuel rest (key :: done)
      | rest => some ((key :: done).reverse, rest)

/-- A key as the parts before the last point and the part behind it, and what
    follows the key. -/
def readKey (cs : List Char) : Option ((List String × String) × List Char) := do
  let (parts, rest) ← readKeyParts (depthLimit - 1) cs []
  let last ← parts.getLast?
  return ((parts.dropLast, last), rest)

/-! ### Values -/

/-- The word `word` at the start, and what follows it. -/
def readWord (word : String) (v : Value) (cs : List Char) : Option (Value × List Char) :=
  (Text.stripLead word.toList cs).map fun rest => (v, rest)

mutual

/-- A value within `depth` others, and what follows it. Every value takes at
    least one character. -/
def readValue : Nat → Nat → List Char → Option (Value × List Char)
  | 0, _, _ => none
  | fuel + 1, depth, cs =>
    match cs with
    | [] => none
    | c :: rest =>
      if c == '"' || c == '\'' then
        (readQuoted cs).map fun (s, rest) => (.text (String.ofList s), rest)
      else if c == '[' then
        if depth + 1 < depthLimit then readItems fuel (depth + 1) rest [] else none
      else if c == '\x7b' then
        if depth + 1 < depthLimit then
          match skipBlanks rest with
          | '\x7d' :: rest => some (.table [], rest)
          | rest => readPairs fuel (depth + 1) rest []
        else none
      else if c == 't' then readWord "true" (.bool true) cs
      else if c == 'f' then readWord "false" (.bool false) cs
      else readNumber cs

/-- The items of a list up to its closing bracket. A comma may stand behind the
    last one. -/
def readItems : Nat → Nat → List Char → List Value → Option (Value × List Char)
  | 0, _, _, _ => none
  | fuel + 1, depth, cs, done =>
    match skipFiller false cs with
    | none => none
    -- The list is empty, or a comma stood behind its last item.
    | some (']' :: rest) => some (.list done.reverse, rest)
    | some cs =>
      match readValue fuel depth cs with
      | none => none
      | some (v, rest) =>
        match skipFiller false rest with
        | some (',' :: rest) => readItems fuel depth rest (v :: done)
        | some (']' :: rest) => some (.list (v :: done).reverse, rest)
        | _ => none

/-- The fields of a table up to its closing brace. -/
def readPairs : Nat → Nat → List Char → List (List String × String × Value) →
    Option (Value × List Char)
  | 0, _, _, _ => none
  | fuel + 1, depth, cs, done =>
    match readKey cs with
    | some ((path, key), '=' :: rest) =>
      match readValue fuel depth (skipBlanks rest) with
      | none => none
      | some (v, rest) =>
        -- Unlike in a list, a comma has to be followed by another field.
        match skipBlanks rest with
        | ',' :: rest => readPairs fuel depth rest ((path, key, v) :: done)
        | '\x7d' :: rest =>
          (inlineTable ((path, key, v) :: done).reverse).map fun v => (v, rest)
        | _ => none
    | _ => none

end

/-! ### Documents -/

/-- A header of a table. -/
structure Header where
  /-- Whether the table is added to a list. -/
  isItem : Bool
  /-- The parts of the name before the last point. -/
  path : List String
  /-- The part behind it. -/
  key : String

/-- A header and the values below it, in backward order. -/
structure Section where
  /-- The header, which the start of a document does not have. -/
  header : Option Header
  /-- The values. -/
  values : List (List String × String × Value) := []

/-- A header at the start of a line, behind its first bracket, and the next line. -/
def readHeader (cs : List Char) : Option (Header × List Char) := do
  let (isItem, cs) := match cs with
    | '[' :: cs => (true, cs)
    | cs => (false, cs)
  let ((path, key), rest) ← readKey cs
  let rest ← expect ']' rest
  let rest ← if isItem then expect ']' rest else some rest
  return (⟨isItem, path, key⟩, ← endLine rest)

/-- The sections of a document, in backward order. -/
def readSections : Nat → List Char → Section → List Section → Option (List Section)
  | 0, _, _, _ => none
  | fuel + 1, cs, current, done =>
    match skipFiller false cs with
    | none => none
    | some [] => some (current :: done)
    | some ('[' :: cs) =>
      match readHeader cs with
      | some (header, rest) => readSections fuel rest { header } (current :: done)
      | none => none
    | some cs =>
      match readKey cs with
      | some ((path, key), '=' :: rest) =>
        match readValue (2 * rest.length + 2) 0 (skipBlanks rest) with
        | some (v, rest) =>
          match endLine rest with
          | some rest =>
            readSections fuel rest { current with values := (path, key, v) :: current.values } done
          | none => none
        | none => none
      | _ => none

/-- Adds a section to what was built of the ones before it. -/
def addSection (fs : Fields) (s : Section) : Option Fields :=
  match s.header with
  | none => addValues s.values.reverse fs
  | some ⟨false, path, key⟩ => openTable path key s.values.reverse fs
  | some ⟨true, path, key⟩ => openItem path key s.values.reverse fs

/-- What follows the mark of the byte order, if there is one. -/
def skipMark : List Char → List Char
  | '\uFEFF' :: cs => cs
  | cs => cs

/-- The table that a document describes, if it is well written. -/
def read? (s : String) : Option Value := do
  let cs := skipMark s.toList
  let sections ← readSections (cs.length + 1) cs { header := none } []
  let fs ← sections.reverse.foldlM addSection []
  return .table (fieldValues fs)

end Toml
end WorkPriority
