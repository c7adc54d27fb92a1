import WorkPriority.Data.Toml
import WorkPriority.Decimal.Notation
import WorkPriority.Ranking.Level

/-!
# Configurations

How often the engine works, how long it keeps what it measured on demand, how
many levels it hands out, and the score that rules start from. A configuration
is a document with a value that stands in for every field that is missing.

`Config.check` says what is wrong with a configuration, if anything is; one
that is read from a document is checked as well (`Config.ofText`).
-/

namespace WorkPriority

/-- How the engine works. -/
structure Config where
  /-- The ticks from one urgent cycle to the next. -/
  urgentInterval : Nat := 250
  /-- The ticks from one normal cycle to the next. -/
  normalInterval : Nat := 3000
  /-- For how many ticks a value measured on demand is kept. -/
  cacheLifetime : Nat := 30
  /-- How many levels there are. -/
  levelMode : LevelMode := .five
  /-- The score that rules start from. -/
  neutralScore : Float := 0.0

/-- What may be wrong with a configuration. -/
inductive ConfigError where
  /-- The document cannot be read. -/
  | unreadable
  /-- The document cannot be written. -/
  | unwritable
  /-- The text is not a configuration, or the configuration has no text. -/
  | malformed
  /-- An interval has no length. -/
  | emptyInterval
  /-- Urgent cycles are not more frequent than normal ones. -/
  | intervalOrder (urgent normal : Nat)
  /-- The score that rules start from is not a finite number. -/
  | neutralScore
deriving DecidableEq

namespace ConfigError

/-- The code of an error in diagnostics. -/
def code : ConfigError → String
  | unreadable => "rankwork::config::read"
  | unwritable => "rankwork::config::write"
  | malformed => "rankwork::config::parse"
  | emptyInterval | intervalOrder .. | neutralScore => "rankwork::config::invalid"

/-- What to do about an error. -/
def help : ConfigError → String
  | unreadable => "Ensure the file exists and is readable."
  | unwritable => "Check that the parent directory is writable."
  | malformed => "Check the TOML syntax. Run `rankwork config init` for a template."
  | emptyInterval | intervalOrder .. | neutralScore =>
    "Intervals must be > 0 and the urgent interval shorter than the normal one."

/-- What an error says. -/
def message : ConfigError → String
  | unreadable => "failed to read config file"
  | unwritable => "failed to write config file"
  | malformed => "failed to parse config"
  | emptyInterval => "invalid configuration: cadence intervals must be greater than zero"
  | intervalOrder urgent normal =>
    "invalid configuration: urgent interval (" ++ toString urgent ++
      ") must be shorter than normal interval (" ++ toString normal ++ ")"
  | neutralScore => "invalid configuration: neutral_score must be a finite number"

end ConfigError

namespace Config

/-- What is wrong with a configuration: urgent cycles have to be more frequent
    than normal ones, and the score that rules start from has to be a number. -/
def check (c : Config) : Except ConfigError Unit :=
  if c.urgentInterval = 0 ∨ c.normalInterval = 0 then .error .emptyInterval
  else if c.normalInterval ≤ c.urgentInterval then
    .error (.intervalOrder c.urgentInterval c.normalInterval)
  else if !c.neutralScore.isFinite then .error .neutralScore
  else .ok ()

/-- A level mode. -/
def levelMode? : Value → Option LevelMode :=
  Value.wordOf ([LevelMode.five, .two].map fun m => (m.label, m))

/-- A configuration. -/
def ofValue? (v : Value) : Option Config := do
  let fs ← v.table?
  let c : Config := {}
  return {
    urgentInterval := ← Value.withDefault "urgent_interval_ticks" (Value.nat? 64) c.urgentInterval fs
    normalInterval := ← Value.withDefault "normal_interval_ticks" (Value.nat? 64) c.normalInterval fs
    cacheLifetime := ← Value.withDefault "cache_ttl_ticks" (Value.nat? 64) c.cacheLifetime fs
    levelMode := ← Value.withDefault "level_mode" levelMode? c.levelMode fs
    neutralScore := ← Value.withDefault "neutral_score" Value.float? c.neutralScore fs }

/-- A configuration as a value. -/
def toValue (c : Config) : Value :=
  .table [
    ("urgent_interval_ticks", .count c.urgentInterval),
    ("normal_interval_ticks", .count c.normalInterval),
    ("cache_ttl_ticks", .count c.cacheLifetime),
    ("level_mode", .text c.levelMode.label),
    ("neutral_score", .float c.neutralScore)]

/-- The configuration that a document describes, checked. -/
def ofText (text : String) : Except ConfigError Config :=
  match (Toml.read? text).bind ofValue? with
  | none => .error .malformed
  | some c => c.check.map fun _ => c

/-- The largest whole number that a document can hold. -/
def documentMax : Nat := Nat.pow 2 63 - 1

/-- A configuration as a document, with one field on a line. -/
def save (c : Config) : Except ConfigError String :=
  if documentMax < c.urgentInterval ∨ documentMax < c.normalInterval ∨
      documentMax < c.cacheLifetime then
    .error .malformed
  else
    .ok <| "urgent_interval_ticks = " ++ toString c.urgentInterval ++
      "\nnormal_interval_ticks = " ++ toString c.normalInterval ++
      "\ncache_ttl_ticks = " ++ toString c.cacheLifetime ++
      "\nlevel_mode = \"" ++ c.levelMode.label ++
      "\"\nneutral_score = " ++ Decimal.pointed c.neutralScore ++ "\n"

end Config
end WorkPriority
