import WorkPriority.CommandLine.Arguments
import WorkPriority.CommandLine.Report
import WorkPriority.Engine.Document
import WorkPriority.Loading

/-!
# The command line

What the program does when it is asked for something, as a function of the
contents of files. The result is what is printed, what is to be written to a
file, and whether all went well.

* `CommandLine.run`: the outcome of some arguments.
-/

namespace WorkPriority

namespace CommandLine

/-! ### Outcomes -/

/-- What comes of a request. -/
structure Outcome where
  /-- The exit code: zero if all went well, one if something was wrong, and two
      if the arguments make no sense. -/
  exit : Nat := 0
  /-- The lines to be printed. -/
  lines : List String := []
  /-- A file to be written, before anything is printed. -/
  file : Option (String × String) := none
  /-- What was wrong. -/
  complaint : Option String := none

/-- The outcome of something that went wrong. -/
def Outcome.failure (message code help : String) : Outcome :=
  { exit := 1, complaint := some (code ++ ": " ++ message ++ "\n" ++ help) }

/-- The outcome of definitions that are of no use. -/
def definitionFailure (i : DefinitionIssue) : Outcome := .failure i.message i.code i.help

/-- The outcome of a world that is of no use. -/
def worldFailure (e : WorldError) : Outcome := .failure e.message e.code e.help

/-- The outcome of a configuration that is of no use. -/
def configFailure (e : ConfigError) : Outcome := .failure e.message e.code e.help

/-! ### Commands -/

/-- The contents of files, by name. -/
abbrev Files := String → Option ByteArray

/-- Says what is wrong with definitions. -/
def validate (files : Files) (defs : String) : Outcome :=
  match Registry.load (files defs) with
  | .error issue => definitionFailure issue
  | .ok r =>
    let summary := defs ++ ": " ++ toString r.signals.length ++ " signals, " ++
      toString r.rules.length ++ " rules, " ++ toString r.categories.length ++
      " categories, " ++ toString r.bonuses.length ++ " affinity bonuses"
    if r.issues.isEmpty then { lines := [summary, "No issues found."] }
    else
      { exit := 1
        lines := summary :: "" ::
          (toString r.issues.length ++ " issue(s), " ++ toString r.invalidCount ++
            " invalid definition(s):") ::
          r.issues.map fun i => i.code ++ ": " ++ i.message ++ "\n  help: " ++ i.help
        complaint := some ("definitions have " ++ toString r.issues.length ++ " issue(s)") }

/-- Builds the engine over definitions, and goes on with it and the world. -/
def withEngine (files : Files) (config : Config) (defs world : String)
    (go : Engine → World → Outcome) : Outcome :=
  -- Of several things that are wrong, the first in this order is reported.
  match Registry.load (files defs) with
  | .error issue => definitionFailure issue
  | .ok registry =>
    match World.load (files world) with
    | .error e => worldFailure e
    | .ok w =>
      match Engine.ofSetup { config, registry } with
      | .error e => configFailure e
      | .ok e => go e w

/-- The lines of signals, measured one after the other. -/
def measuredLines (w : World) : Engine → List Signal → List String
  | _, [] => []
  | e, s :: ss =>
    let (v, e) := e.evaluate w s.name
    (v.map (signalLines w s.name)).getD [] ++ measuredLines w e ss

/-- Shows the values of all signals. -/
def signals (e : Engine) (w : World) : Outcome :=
  { lines := ("Signals at tick " ++ toString w.tick ++ ":") :: measuredLines w e e.registry.signals }

/-- Shows the levels of all agents. -/
def rank (json : Bool) (e : Engine) (w : World) : Outcome :=
  let (report, assignments, e) := e.normalCycle w
  if json then
    let levels := AssignedLevels.applyAll {} assignments
    { lines := [Json.write <| .table [
        ("breakdowns", e.breakdowns.toValue),
        ("levels", .table [("levels", levels.toValue)]),
        ("report", report.toValue)]] }
  else { lines := w.agents.flatMap (agentLines e) }

/-- The engine and the last report of a normal cycle after a number of ticks
    over a world in which nothing but the clock changes. -/
def runTicks : Nat → Engine → World → Option CycleReport → Engine × Option CycleReport
  | 0, e, _, last => (e, last)
  | n + 1, e, w, last =>
    let w := w.advance
    let (report, _, e) := e.onTick w
    let last := match report with
      | some r => if r.kind = .normal then some r else last
      | none => last
    runTicks n e w last

/-- Lets the clock run. -/
def simulate (ticks : Nat) (e : Engine) (w : World) : Outcome :=
  let (e, last) := runTicks ticks e w none
  let summary := "Simulated " ++ toString ticks ++ " ticks: " ++ toString e.urgentCycles ++
    " urgent cycle(s), " ++ toString e.normalCycles ++ " normal cycle(s)"
  let ending := match last with
    | some r => "Last normal cycle at tick " ++ toString r.tick ++ ": " ++ toString r.signals ++
      " signals, " ++ toString r.rules ++ " rules"
    | none => "No normal cycle ran; increase --ticks."
  { lines := [summary, ending] }

/-- Writes a configuration. -/
def configInit (path : String) : Outcome :=
  match Config.save {} with
  | .ok text =>
    { file := some (path, text), lines := ["Wrote default configuration to " ++ path] }
  | .error e => configFailure e

/-- The configuration to use. -/
def configOf (files : Files) : Option String → Except ConfigError Config
  | none => .ok {}
  | some path => Config.load (files path)

/-- Does what is asked for. -/
def Request.run (files : Files) (r : Request) : Outcome :=
  match configOf files r.config with
  | .error e => configFailure e
  | .ok config =>
    match r.command with
    | .validate defs => validate files defs
    | .signals defs world => withEngine files config defs world signals
    | .rank defs world json => withEngine files config defs world (rank json)
    | .simulate defs world ticks => withEngine files config defs world (simulate ticks)
    | .configInit path => configInit path

/-- The files that a request is about, other than those it writes. -/
def Request.inputs (r : Request) : List String :=
  r.config.toList ++
    match r.command with
    | .validate defs => [defs]
    | .signals defs world | .rank defs world _ | .simulate defs world _ => [defs, world]
    | .configInit _ => []

/-- The outcome of some arguments. -/
def run (files : Files) (words : List String) : Outcome :=
  match Request.read? words with
  | some r => r.run files
  | none => { exit := 2, complaint := some "the arguments make no sense" }

end CommandLine
end WorkPriority
