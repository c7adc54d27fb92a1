import WorkPriority.Signal.Definition
import WorkPriority.Interval

/-!
# Rules

A rule scores the agents of a world for the tasks that it targets. It is a list
of conditions: filters that an agent has to pass, look-ups of signals, whose
values are mapped to scores by the ranges of the rule, and look-ups of
modifiers, which scale and shift the score.
-/

namespace WorkPriority

/-! ### Look-ups -/

/-- What a look-up reads of the value of a signal. -/
inductive RequestMode where
  /-- The value for the whole world. -/
  | total
  /-- The value for the zone that the agent is in. -/
  | zoneOfAgent
  /-- The agent's own measurement. -/
  | agent
  /-- How far the agent lies above the mean. -/
  | distance
  /-- The same in proportion to the spread. -/
  | normalizedRank
deriving DecidableEq

/-- What a signal has to have for a request. -/
inductive Capability where
  /-- A breakdown by zone. -/
  | locatable
  /-- A breakdown by agent. -/
  | individualizable
deriving DecidableEq

namespace Capability

/-- The name of the capability in definitions. -/
def label : Capability → String
  | locatable => "locatable"
  | individualizable => "individualizable"

/-- Whether a signal has the capability. -/
def isOf : Capability → Signal → Bool
  | locatable, s => s.hasZones
  | individualizable, s => s.hasAgents

end Capability

namespace RequestMode

/-- All modes. -/
def all : List RequestMode := [total, zoneOfAgent, agent, distance, normalizedRank]

/-- The name of the mode in definitions. -/
def label : RequestMode → String
  | total => "global"
  | zoneOfAgent => "zone-of-agent"
  | agent => "agent"
  | distance => "agent-distance-from-mean"
  | normalizedRank => "agent-normalized-rank"

/-- What a signal has to have for the mode. -/
def capability? : RequestMode → Option Capability
  | total => none
  | zoneOfAgent => some .locatable
  | agent | distance | normalizedRank => some .individualizable

end RequestMode

/-- A stretch of values of a modifier, and what it does to a score. -/
structure ModifierRange where
  /-- The values that the range is about. -/
  validity : Interval Float
  /-- What the score is multiplied by. -/
  multiplier : Float
  /-- What is then added to it. -/
  offset : Float

/-- A part of a rule. -/
inductive Condition where
  /-- The agent has to pass a filter; if not, the rule scores zero. -/
  | gate (f : Filter)
  /-- The value of a signal is mapped to a score. -/
  | lookup (signal : String) (mode : RequestMode)
  /-- The value of a modifier scales and shifts the score. -/
  | modifier (key : String) (ranges : List ModifierRange)

/-! ### Rules -/

/-- What a rule scores agents for. -/
inductive Target where
  /-- A whole category of tasks. -/
  | category (name : String)
  /-- A part of a category, wherever it occurs. -/
  | subTask (name : String)
deriving DecidableEq

/-- A target as shown in reports. -/
def Target.text : Target → String
  | category name => "category:" ++ name
  | subTask name => "sub-task:" ++ name

/-- A named way of scoring agents. -/
structure Rule where
  /-- Its name. -/
  name : String
  /-- Whether it is evaluated more often than others. -/
  urgent : Bool := false
  /-- Its conditions, in the order of their evaluation. -/
  conditions : List Condition := []
  /-- What maps the values of signals to scores; the first that holds a value counts. -/
  ranges : List (ScoreRange Float) := []
  /-- What the scores are for. -/
  targets : List Target := []
  /-- The score before any range holds a value, if it is not the neutral one. -/
  defaultScore : Option Float := none

namespace Rule

/-- The filters of a rule. -/
def gates (r : Rule) : List Filter :=
  r.conditions.filterMap fun
    | .gate f => some f
    | _ => none

/-- The signals that a rule looks up, and how. -/
def lookups (r : Rule) : List (String × RequestMode) :=
  r.conditions.filterMap fun
    | .lookup signal mode => some (signal, mode)
    | _ => none

/-- The first range of a rule that a value lies in. -/
def rangeFor? (r : Rule) (x : Float) : Option (ScoreRange Float) := ScoreRange.find? r.ranges x

end Rule
end WorkPriority
