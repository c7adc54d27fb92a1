import WorkPriority.Decimal.Reading

/-!
# Arguments of the command line

What the program is asked to do. Options are written `--name value` or
`--name=value`, each once at most; `--config` may stand before or behind the
names of commands, and the one furthest behind counts. Behind a `--` nothing is
an option. A value does not start with a dash, unless it is one.

`Request.read?` is `none` for arguments that make no sense.
-/

namespace WorkPriority
namespace CommandLine

/-- The commands. -/
inductive Command where
  /-- Say what is wrong with definitions. -/
  | validate (defs : String)
  /-- Show the values of all signals. -/
  | signals (defs world : String)
  /-- Show the levels of all agents, as text or as a document. -/
  | rank (defs world : String) (json : Bool)
  /-- Let the clock run. -/
  | simulate (defs world : String) (ticks : Nat)
  /-- Write a configuration. -/
  | configInit (path : String)

/-- What the program is asked to do. -/
structure Request where
  /-- The configuration to use. -/
  config : Option String
  /-- The command. -/
  command : Command

/-! ### Words -/

/-- The words of one command: options with their values, flags, and all others. -/
structure Words where
  /-- The options. -/
  options : List (String × String) := []
  /-- The flags. -/
  flags : List String := []
  /-- The other words up to the one that is the name of a command. -/
  positional : List String := []
  /-- The words behind that. -/
  rest : Option (String × List String) := none

/-- The forms of words that a command knows. -/
structure Grammar where
  /-- The options with a value. -/
  options : List String
  /-- The flags. -/
  flags : List String := []
  /-- Whether the first other word is the name of a command. -/
  hasCommands : Bool := false

/-- An option as its name and the value behind an equals sign, if there is one. -/
def splitOption (cs : List Char) : String × Option String :=
  let name := cs.takeWhile (· != '=')
  (String.ofList name,
    if name.length < cs.length then some (String.ofList (cs.drop (name.length + 1))) else none)

/-- Whether a word may be the value of an option: it is not empty, and does not
    start with a dash unless it is one. -/
def isValue (word : String) : Bool :=
  match word.toList with
  | [] => false
  | ['-'] => true
  | c :: _ => c != '-'

/-- Adds an option that was not given before. -/
def Words.addOption (w : Words) (name value : String) : Option Words :=
  if w.options.any fun o => o.1 == name then none
  else some { w with options := w.options ++ [(name, value)] }

/-- Adds a flag that was not given before. -/
def Words.addFlag (w : Words) (name : String) : Option Words :=
  if w.flags.contains name then none else some { w with flags := w.flags ++ [name] }

/-- Sorts the words of a command. -/
def Grammar.sort (g : Grammar) : List String → Words → Option Words
  | [], w => some w
  | word :: words, w =>
    match word.toList with
    -- Nothing behind this mark is an option.
    | ['-', '-'] => some { w with positional := w.positional ++ words }
    | '-' :: '-' :: cs =>
      let (name, value) := splitOption cs
      if g.options.contains name then
        match value with
        -- Behind an equals sign a value may start with a dash.
        | some v => if v.isEmpty then none else (w.addOption name v).bind (g.sort words)
        | none =>
          match words with
          | v :: words => if isValue v then (w.addOption name v).bind (g.sort words) else none
          | [] => none
      else if g.flags.contains name && value.isNone then (w.addFlag name).bind (g.sort words)
      else none
    | ['-'] => g.sort words { w with positional := w.positional ++ [word] }
    | '-' :: _ => none
    | _ =>
      if g.hasCommands then some { w with rest := some (word, words) }
      else g.sort words { w with positional := w.positional ++ [word] }

/-- The value of an option. -/
def Words.option? (w : Words) (name : String) : Option String :=
  (w.options.find? fun o => o.1 == name).map Prod.snd

/-! ### Requests -/

/-- A count of 64 bits. -/
def readCount? (s : String) : Option Nat :=
  let ds := match s.toList with
    | '+' :: cs => cs
    | cs => cs
  if ds.isEmpty || !ds.all Char.isDigit then none
  else
    let n := Decimal.valueOf ds
    if n < Nat.pow 2 64 then some n else none

/-- The words of a command that has options and flags only. -/
def readWords (options flags : List String) (words : List String) : Option Words := do
  let w ← ({ options := "config" :: options, flags } : Grammar).sort words {}
  if w.positional.isEmpty then some w else none

/-- The words of a command that is followed by another. -/
def readOuter (words : List String) : Option (Words × String × List String) := do
  let w ← ({ options := ["config"], hasCommands := true } : Grammar).sort words {}
  let (name, rest) ← w.rest
  if w.positional.isEmpty then some (w, name, rest) else none

/-- The command of a name with its words, and the configuration named there. -/
def readCommand (name : String) (words : List String) : Option (Command × Option String) := do
  match name with
  | "validate" =>
    let w ← readWords ["defs"] [] words
    return (.validate (← w.option? "defs"), w.option? "config")
  | "signals" =>
    let w ← readWords ["defs", "world"] [] words
    return (.signals (← w.option? "defs") (← w.option? "world"), w.option? "config")
  | "rank" =>
    let w ← readWords ["defs", "world"] ["json"] words
    return (.rank (← w.option? "defs") (← w.option? "world") (w.flags.contains "json"),
      w.option? "config")
  | "simulate" =>
    let w ← readWords ["defs", "world", "ticks"] [] words
    let ticks ← readCount? ((w.option? "ticks").getD "6000")
    return (.simulate (← w.option? "defs") (← w.option? "world") ticks, w.option? "config")
  | "config" =>
    let (outer, name, words) ← readOuter words
    if name == "init" then
      let w ← ({ options := ["config"] } : Grammar).sort words {}
      match w.positional with
      | [path] =>
        if path.isEmpty then none
        else return (.configInit path, w.option? "config" <|> outer.option? "config")
      | _ => none
    else none
  | _ => none

/-- What the arguments ask for. -/
def Request.read? (words : List String) : Option Request := do
  let (outer, name, words) ← readOuter words
  let (command, config) ← readCommand name words
  return { config := config <|> outer.option? "config", command }

end CommandLine
end WorkPriority
