import WorkPriority.Engine

/-!
# Reports of the command line

The lines in which the program shows the values of signals and the levels of
agents. Numbers of signals have three places.
-/

namespace WorkPriority
namespace CommandLine

/-- A number in a column. -/
def numberColumn (x : Float) : String := Text.padLeft 10 (Decimal.fixed 3 x)

/-- A zone as it is called. -/
def zoneLabel (w : World) : ZoneKey → String
  | .unscoped => "(unscoped)"
  | .zone id => ((w.zone? id).map (·.label)).getD id.text

/-- An agent as it is called. -/
def agentLabel (w : World) (id : AgentId) : String := ((w.agent? id).map (·.name)).getD "?"

/-- A part of a breakdown of a signal. -/
def partLine (kind label : String) (x : Float) : String :=
  "    " ++ kind ++ " " ++ Text.padRight 18 label ++ " " ++ numberColumn x

/-- The value of a signal with its breakdowns. -/
def signalLines (w : World) (name : String) (v : SignalValue Float) : List String :=
  let zones := (v.zones.map (·.entries)).getD []
  let agents := (v.agents.map (·.entries)).getD []
  ("  " ++ Text.padRight 24 name ++ " " ++ numberColumn v.total) ::
    zones.map (fun (key, x) => partLine "zone " (zoneLabel w key) x) ++
    agents.map (fun (id, x) => partLine "agent" (agentLabel w id) x) ++
    match v.statistics with
    | some s =>
      ["    stats mean " ++ Decimal.fixed 3 s.mean ++ " min " ++ Decimal.fixed 3 s.min ++
        " max " ++ Decimal.fixed 3 s.max ++ " n=" ++ toString s.count]
    | none => []

/-- A score with its sign, and what it is explained with. -/
def scoreText (width : Nat) (c : Contribution) (gap : String) : String :=
  Text.padLeft width (Text.signed c.score) ++ gap ++ c.description ++ " (" ++ c.rule ++ ")"

/-- The total of a category and its parts. -/
def categoryLines (b : CategoryBreakdown) : List String :=
  ("  [" ++ Text.padLeft 2 b.level.text ++ "] " ++ Text.padRight 16 b.category ++ " total " ++
      Text.padLeft 5 (Text.ofInt b.total)) ::
    b.contributions.map (fun c =>
      "         " ++ scoreText 5 c "  " ++ " via " ++ c.target.text) ++
    (b.affinity.toList.map fun c => "         " ++ scoreText 5 c "  ") ++
    b.duplicates.map fun c =>
      "         (" ++ scoreText 4 c ") " ++ " via " ++ c.target.text ++ ", already counted"

/-- The levels of an agent. -/
def agentLines (e : Engine) (a : Agent) : List String :=
  let title := a.id.text ++ " \"" ++ a.name ++ "\":"
  match e.agentBreakdown? a.id with
  | some b => title :: b.categories.flatMap categoryLines
  | none => [title ++ " not ranked (paused)"]

end CommandLine
end WorkPriority
