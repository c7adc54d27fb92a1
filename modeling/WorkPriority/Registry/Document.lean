import WorkPriority.Registry.Entry

/-!
# Definitions as documents

The form in which definitions are written into documents: every field is there,
and tags are in their standard form. Each writer is named `toValue` and stands
against the reader `ofValue?` of the same type.
-/

namespace WorkPriority

open Value

/-! ### Filters -/

/-- A test of a condition. -/
def StatusTest.toValue (t : StatusTest) : Value :=
  .table [("status", .text t.status.label), ("is", .bool t.expected)]

/-- What a filter asks of agents. -/
def AgentFilter.toValue (f : AgentFilter) : Value :=
  .table [
    ("race", ofOption .text f.race),
    ("allegiance", ofOption (fun a => .text a.label) f.allegiance),
    ("statuses", ofList StatusTest.toValue f.statuses)]

/-- Groups of tags. -/
def Tag.groupsToValue (groups : List (List Tag)) : Value :=
  ofList (ofList fun t : Tag => .text t.write) groups

/-- A filter. -/
def Filter.toValue (f : Filter) : Value :=
  .table [
    ("include", Tag.groupsToValue f.includes),
    ("exclude", Tag.groupsToValue f.excludes),
    ("agent", ofOption AgentFilter.toValue f.agent)]

/-! ### Signals -/

/-- The fields of a source besides its kind. -/
def Source.fields : Source → List (String × Value)
  | objectCount kinds useStack => [("object_kinds", ofTexts kinds), ("use_stack", .bool useStack)]
  | agentCount => []
  | agentAttribute name => [("attribute", .text name)]
  | agentNeed name => [("need", .text name)]
  | constructionProgress kinds => [("object_kinds", ofTexts kinds)]
  | environmentCondition name => [("condition", .text name)]
  | weather names => [("weathers", ofTexts names)]
  | traitCount name => [("trait_name", .text name)]
  | afflictionCount name => [("affliction", .text name)]

/-- The source of a signal. -/
def Source.toValue (s : Source) : Value := .table (("kind", .text s.kind.label) :: s.fields)

/-- The fields of a signal. -/
def Signal.fields (s : Signal) : List (String × Value) :=
  [ ("name", .text s.name),
    ("source", s.source.toValue),
    ("aggregation", .text s.aggregation.label),
    ("filter", s.filter.toValue),
    ("locatable", .bool s.locatable),
    ("individualizable", .bool s.individualizable),
    ("urgent", .bool s.urgent) ]

/-- A signal. -/
def Signal.toValue (s : Signal) : Value := .table s.fields

/-! ### Categories and bonuses -/

/-- A category. -/
def Category.toValue (c : Category) : Value :=
  .table [
    ("name", .text c.name),
    ("sub_tasks", ofTexts c.subTasks),
    ("skills", ofTexts c.skills),
    ("enabled", .bool c.enabled)]

/-- A bonus. -/
def AffinityBonus.toValue (b : AffinityBonus) : Value :=
  .table [
    ("name", .text b.name),
    ("passion", .text b.passion.label),
    ("score", .int b.score),
    ("description", .text b.description)]

end WorkPriority
