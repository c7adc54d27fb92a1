import WorkPriority.Data.Value
import WorkPriority.Engine

/-!
# Results as documents

The form that the results of a cycle have in documents: the values of signals,
the scores of rules, the breakdowns and levels of agents, and what the cycle
did. Agents are listed under their numbers.
-/

namespace WorkPriority

/-- The mean and the spread of a population. -/
def Statistics.toValue (s : Statistics Float) : Value :=
  .table [
    ("mean", .float s.mean),
    ("min", .float s.min),
    ("max", .float s.max),
    ("count", .count s.count)]

/-- The value of a signal. Its breakdowns are lists of keys with their values. -/
def SignalValue.toValue (v : SignalValue Float) : Value :=
  .table [
    ("global", .float v.total),
    ("per_zone", Value.ofOption
      (fun t => Value.ofList (fun (k, x) => .list [.text (ZoneKey.text k), .float x]) t.entries) v.zones),
    ("per_agent", Value.ofOption
      (fun t => Value.ofList (fun (k, x) => .list [.text (AgentId.text k), .float x]) t.entries) v.agents),
    ("stats", Value.ofOption Statistics.toValue v.statistics)]

/-- What a rule says about an agent. -/
def RuleScore.toValue (s : RuleScore) : Value :=
  .table [("score", .int s.score), ("description", .text s.description), ("matched", .bool s.matched)]

/-- A target. -/
def Target.toValue : Target → Value
  | category name => .table [("category", .text name)]
  | subTask name => .table [("sub_task", .text name)]

/-- A level. -/
def Level.toValue : Level → Value
  | disabled => .text "disabled"
  | enabled => .text "enabled"
  | degree n => .table [("level", .count n)]

/-- A part of a total. -/
def Contribution.toValue (c : Contribution) : Value :=
  .table [
    ("rule", .text c.rule),
    ("target", c.target.toValue),
    ("score", .int c.score),
    ("description", .text c.description)]

/-- How the total of a category came about. -/
def CategoryBreakdown.toValue (b : CategoryBreakdown) : Value :=
  .table [
    ("category", .text b.category),
    ("total", .int b.total),
    ("contributions", Value.ofList Contribution.toValue b.contributions),
    ("duplicates", Value.ofList Contribution.toValue b.duplicates),
    ("affinity", Value.ofOption Contribution.toValue b.affinity),
    ("rank", .count b.rank),
    ("level", b.level.toValue)]

/-- The breakdown of an agent. -/
def AgentBreakdown.toValue (b : AgentBreakdown) : Value :=
  .table [
    ("agent", .count b.agent.number),
    ("tick", .count b.tick),
    ("categories", Value.ofList CategoryBreakdown.toValue b.categories)]

/-- The breakdowns of agents. -/
def BreakdownSet.toValue (b : BreakdownSet) : Value :=
  .table [
    ("tick", .count b.tick),
    ("agents", .table (b.agents.entries.map fun (id, a) => (toString id.number, a.toValue)))]

/-- The levels that agents have, under their numbers. -/
def AssignedLevels.toValue (l : AssignedLevels) : Value :=
  .table (l.levels.entries.map fun (id, row) =>
    (toString id.number, .table (row.entries.map fun (category, level) => (category, level.toValue))))

/-- What a ranking did. -/
def RankingSummary.toValue (s : RankingSummary) : Value :=
  .table [("ranked", .count s.ranked), ("paused", .count s.paused), ("pruned", .count s.pruned)]

/-- What a cycle did. -/
def CycleReport.toValue (r : CycleReport) : Value :=
  .table [
    ("kind", .text r.kind.label),
    ("tick", .count r.tick),
    ("signals", .count r.signals),
    ("rules", .count r.rules),
    ("ranking", Value.ofOption RankingSummary.toValue r.ranking)]

end WorkPriority
