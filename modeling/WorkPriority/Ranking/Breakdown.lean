import WorkPriority.Ranking.Level
import WorkPriority.Ranking.Plan
import WorkPriority.Rule.Score

/-!
# Ranking categories

The total of a category for an agent is the sum of the scores of the rules in
its plan, each rule counted once, and of at most one bonus for the agent's
passion. The breakdown of a category says how its total came about; the
breakdown of an agent lists the categories that are open to it by their totals,
with their levels.

* `Plan.breakdown`: one category for one agent.
* `AgentBreakdown.ofPlans`: all categories for one agent.
-/

namespace WorkPriority

/-- A part of a total. -/
structure Contribution where
  /-- The rule or bonus that it comes from. -/
  rule : String
  /-- What the rule was attached to. -/
  target : Target
  /-- How much it is. -/
  score : Int
  /-- What it is explained with. -/
  description : String
deriving DecidableEq

/-- How the total of a category for an agent came about. -/
structure CategoryBreakdown where
  /-- The name of the category. -/
  category : String
  /-- The total. -/
  total : Int
  /-- The parts that count, in the order of the plan. -/
  contributions : List Contribution
  /-- What a rule would add that was counted before. -/
  duplicates : List Contribution
  /-- The bonus for a passion. -/
  affinity : Option Contribution
  /-- The place of the category, counted from zero. -/
  rank : Nat := 0
  /-- The level of the category. -/
  level : Level := .disabled
deriving DecidableEq

/-! ### One category -/

/-- The parts of a total that are found so far. -/
structure Count where
  /-- The rules that have counted. -/
  counted : List String := []
  /-- The sum of their scores. -/
  total : Int := 0
  /-- Those of their scores that are shown. -/
  contributions : List Contribution := []
  /-- The scores that are shown, but did not count again. -/
  duplicates : List Contribution := []

/-- Counts a rule with its score. -/
def Count.add (c : Count) (rule : String) (target : Target) (s : RuleScore) : Count :=
  let shown := if s.isVisible then [⟨rule, target, s.score, s.description⟩] else []
  if rule ∈ c.counted then { c with duplicates := c.duplicates ++ shown }
  else
    { c with
      counted := c.counted ++ [rule]
      total := c.total + s.score
      contributions := c.contributions ++ shown }

/-- Counts those of the rules that have a score. -/
def Count.ofEntries (scores : ScoreRow) (entries : List (String × Target)) : Count :=
  entries.foldl
    (fun c e => match scores.get? e.1 with
      | some s => c.add e.1 e.2 s
      | none => c)
    {}

/-- The stronger of two passions, the first of equally strong ones. -/
def Passion.stronger (p q : Passion) : Passion := if q.magnitude ≤ p.magnitude then p else q

/-- An agent's strongest passion for one of some skills, if there is a skill. -/
def Agent.strongestPassion? (a : Agent) : List String → Option Passion
  | [] => none
  | s :: ss => some (ss.foldl (fun p s => p.stronger (a.passion s)) (a.passion s))

/-- The first bonus for an agent's strongest passion for some skills. -/
def AffinityBonus.find? (bonuses : List AffinityBonus) (a : Agent) (skills : List String) :
    Option AffinityBonus := do
  let p ← a.strongestPassion? skills
  bonuses.find? fun b => b.passion == p

/-- The breakdown of a category for an agent, not yet ranked. A bonus under the
    name of a rule that has counted does not count. -/
def Plan.breakdown (p : Plan) (bonuses : List AffinityBonus) (a : Agent) (scores : ScoreRow) :
    CategoryBreakdown :=
  let c := Count.ofEntries scores p.entries
  -- Every rule that has a score has counted, shown or not.
  let bonus := (AffinityBonus.find? bonuses a p.category.skills).filter fun b => b.name ∉ c.counted
  { category := p.name
    total := c.total + (bonus.map (·.score)).getD 0
    contributions := c.contributions
    duplicates := c.duplicates
    affinity := bonus.map fun b => ⟨b.name, .category p.name, b.score, b.description⟩ }

/-! ### One agent -/

/-- The categories of an agent, in the order of their ranks. -/
structure AgentBreakdown where
  /-- The agent. -/
  agent : AgentId
  /-- The tick of the ranking. -/
  tick : Nat
  /-- The categories. -/
  categories : List CategoryBreakdown
deriving DecidableEq

/-- Breakdowns with their ranks and levels, given in the order of the ranks. -/
def withRanks (mode : LevelMode) (bs : List CategoryBreakdown) : List CategoryBreakdown :=
  bs.zipIdx.map fun (b, rank) => { b with rank, level := Level.atRank mode rank bs.length }

/-- The breakdowns of an agent's categories from the greatest total to the
    least. Equal totals stay in the order of the plans. -/
def rankBreakdowns (mode : LevelMode) (bs : List CategoryBreakdown) : List CategoryBreakdown :=
  withRanks mode (bs.mergeSort fun a b => b.total ≤ a.total)

namespace AgentBreakdown

/-- The breakdown of an agent: all the categories that are open to it. -/
def ofPlans (mode : LevelMode) (plans : List Plan) (bonuses : List AffinityBonus) (tick : Nat)
    (a : Agent) (scores : ScoreRow) : AgentBreakdown :=
  { agent := a.id
    tick
    categories := rankBreakdowns mode <|
      (plans.filter fun p => p.isOpenTo a).map fun p => p.breakdown bonuses a scores }

/-- The breakdown of a category. -/
def category? (b : AgentBreakdown) (name : String) : Option CategoryBreakdown :=
  b.categories.find? fun c => c.category == name

/-- The levels of the categories. -/
def levels (b : AgentBreakdown) : List (String × Level) :=
  b.categories.map fun c => (c.category, c.level)

end AgentBreakdown
end WorkPriority
