import WorkPriority.Keyed
import WorkPriority.World

/-!
# Scores of rules

What a rule says about an agent: a whole number, a description, and whether
the rule applied. The scores of all rules for all agents make a table, over
which the scores of a later cycle are laid entry by entry.
-/

namespace WorkPriority

/-- What a rule says about an agent. -/
structure RuleScore where
  /-- The score. -/
  score : Int
  /-- What the score is explained with. -/
  description : String
  /-- Whether the agent passed the filters and, if the rule looks up signals,
      one of them had a value in a range. -/
  matched : Bool
deriving DecidableEq

namespace RuleScore

/-- The score of an agent that does not pass the filters. -/
def gated : RuleScore := ⟨0, "does not match filter criteria", false⟩

/-- The score of a rule that could not be evaluated. -/
def zero : RuleScore := ⟨0, "Priority 0", false⟩

/-- Whether the score is shown. -/
def isVisible (s : RuleScore) : Bool := s.matched || s.score != 0

end RuleScore

/-- The scores of one agent, by the names of rules. -/
abbrev ScoreRow := Keyed String RuleScore

/-- The scores of agents. -/
structure ScoreTable where
  /-- The tick of the cycle that made the table. -/
  tick : Nat := 0
  /-- The scores, by agent. -/
  rows : Keyed AgentId ScoreRow := .empty

namespace ScoreTable

/-- The scores of an agent. -/
def row? (t : ScoreTable) (agent : AgentId) : Option ScoreRow := t.rows.get? agent

/-- The score of a rule for an agent. -/
def get? (t : ScoreTable) (agent : AgentId) (rule : String) : Option RuleScore :=
  (t.row? agent).bind (·.get? rule)

/-- The table with a score of a rule for an agent. -/
def set (t : ScoreTable) (agent : AgentId) (rule : String) (score : RuleScore) : ScoreTable :=
  { t with rows := t.rows.set agent (((t.row? agent).getD .empty).set rule score) }

/-- The table with all the scores of a row for an agent, who has a row then
    even if there is no score in it. -/
def setRow (t : ScoreTable) (agent : AgentId) (row : ScoreRow) : ScoreTable :=
  { t with rows := t.rows.set agent (((t.row? agent).getD .empty).setAll row.entries) }

/-- The table with another laid over it, whose tick it takes. -/
def merge (t updates : ScoreTable) : ScoreTable :=
  updates.rows.entries.foldl (fun t e => t.setRow e.1 e.2) { t with tick := updates.tick }

/-- How many agents have scores. -/
def agentCount (t : ScoreTable) : Nat := t.rows.size

end ScoreTable
end WorkPriority
