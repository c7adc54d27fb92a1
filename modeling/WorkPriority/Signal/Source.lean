import WorkPriority.Text

/-!
# Sources of signals

Where a signal gets the population from that it measures, and what it measures
of each member. The kind of a source decides which breakdowns are possible: by
agent only where the members are agents, by zone only where they have a place.
-/

namespace WorkPriority

/-- The kinds of sources. -/
inductive SourceKind where
  /-- Objects, by number or size. -/
  | objectCount
  /-- Agents, by number. -/
  | agentCount
  /-- Agents, by an attribute. -/
  | agentAttribute
  /-- Agents, by a need. -/
  | agentNeed
  /-- Objects being built, by the work that is left. -/
  | constructionProgress
  /-- Whether a condition of the environment holds. -/
  | environmentCondition
  /-- Whether the weather is one of several. -/
  | weather
  /-- Agents with a trait. -/
  | traitCount
  /-- Agents with an affliction. -/
  | afflictionCount
deriving DecidableEq

namespace SourceKind

/-- All kinds of sources. -/
def all : List SourceKind :=
  [objectCount, agentCount, agentAttribute, agentNeed, constructionProgress,
    environmentCondition, weather, traitCount, afflictionCount]

/-- The name of the kind in definitions. -/
def label : SourceKind → String
  | objectCount => "object-count"
  | agentCount => "agent-count"
  | agentAttribute => "agent-attribute"
  | agentNeed => "agent-need"
  | constructionProgress => "construction-progress"
  | environmentCondition => "environment-condition"
  | weather => "weather"
  | traitCount => "trait-count"
  | afflictionCount => "affliction-count"

/-- Whether the members are agents. -/
def isOfAgents : SourceKind → Bool
  | agentCount | agentAttribute | agentNeed | traitCount | afflictionCount => true
  | objectCount | constructionProgress | environmentCondition | weather => false

/-- Whether the members have a place. -/
def hasPlace : SourceKind → Bool
  | environmentCondition | weather => false
  | objectCount | agentCount | agentAttribute | agentNeed | constructionProgress | traitCount
  | afflictionCount => true

end SourceKind

/-- Where a signal gets its population from. -/
inductive Source where
  /-- The objects of the named definitions, or all if none is named; each
      measures the size of its stack, or one. -/
  | objectCount (kinds : List String) (useStack : Bool)
  /-- The agents; each measures one. -/
  | agentCount
  /-- The agents; each measures an attribute. -/
  | agentAttribute (name : String)
  /-- The agents; each measures a need. -/
  | agentNeed (name : String)
  /-- The objects being built of the named definitions, or all if none is
      named; each measures the share of work that is left. -/
  | constructionProgress (kinds : List String)
  /-- One while a condition of the environment holds, and zero otherwise. -/
  | environmentCondition (name : String)
  /-- One while the weather is one of those named, and zero otherwise. -/
  | weather (names : List String)
  /-- The agents that have a trait; each measures how often. -/
  | traitCount (name : String)
  /-- The agents that have an affliction; each measures how often. -/
  | afflictionCount (name : String)

namespace Source

/-- The kind of a source. -/
def kind : Source → SourceKind
  | objectCount .. => .objectCount
  | agentCount => .agentCount
  | agentAttribute .. => .agentAttribute
  | agentNeed .. => .agentNeed
  | constructionProgress .. => .constructionProgress
  | environmentCondition .. => .environmentCondition
  | weather .. => .weather
  | traitCount .. => .traitCount
  | afflictionCount .. => .afflictionCount

/-- `field`, if what it holds is blank. -/
def blankField (field content : String) : Option String :=
  if Text.isBlankText content then some field else none

/-- The field that a source needs but does not have. -/
def missingField? : Source → Option String
  | agentAttribute name => blankField "attribute" name
  | agentNeed name => blankField "need" name
  | environmentCondition name => blankField "condition" name
  | weather names => if names.isEmpty then some "weathers" else none
  | traitCount name => blankField "trait_name" name
  | afflictionCount name => blankField "affliction" name
  | objectCount .. | agentCount | constructionProgress .. => none

end Source
end WorkPriority
