import WorkPriority.Ranking.Breakdown

/-!
# Ranking passes

A pass ranks every agent of a world that is not paused, and hands the levels
out. A paused agent keeps the breakdown that it had, and gets no levels. Who is
not in the world any more has no breakdown.

The levels handed out are listed in order (`Pass.assignments`); who receives
them lays each over what it had (`AssignedLevels`).
-/

namespace WorkPriority

/-- The breakdowns of agents. -/
structure BreakdownSet where
  /-- The tick of the pass that made the set. -/
  tick : Nat := 0
  /-- The breakdowns. -/
  agents : Keyed AgentId AgentBreakdown := .empty

namespace BreakdownSet

/-- The breakdown of an agent. -/
def agent? (b : BreakdownSet) (id : AgentId) : Option AgentBreakdown := b.agents.get? id

/-- The breakdown of a category of an agent. -/
def category? (b : BreakdownSet) (id : AgentId) (name : String) : Option CategoryBreakdown :=
  (b.agent? id).bind (·.category? name)

end BreakdownSet

/-- What a pass did, in numbers. -/
structure RankingSummary where
  /-- How many agents were ranked. -/
  ranked : Nat := 0
  /-- How many agents were paused. -/
  paused : Nat := 0
  /-- How many agents lost their breakdown. -/
  pruned : Nat := 0
deriving DecidableEq

/-! ### Handing out levels -/

/-- A level handed out to an agent for a category. -/
structure Assignment where
  /-- The agent. -/
  agent : AgentId
  /-- The category. -/
  category : String
  /-- The level. -/
  level : Level
deriving DecidableEq

/-- The levels that agents have. -/
structure AssignedLevels where
  /-- The levels by agent and category. -/
  levels : Keyed AgentId (Keyed String Level) := .empty

namespace AssignedLevels

/-- The level of an agent for a category. -/
def level? (l : AssignedLevels) (agent : AgentId) (category : String) : Option Level :=
  (l.levels.get? agent).bind (·.get? category)

/-- Takes a level that is handed out. -/
def apply (l : AssignedLevels) (a : Assignment) : AssignedLevels :=
  ⟨l.levels.set a.agent (((l.levels.get? a.agent).getD .empty).set a.category a.level)⟩

/-- Takes levels, one after the other. -/
def applyAll (l : AssignedLevels) (as : List Assignment) : AssignedLevels := as.foldl apply l

end AssignedLevels

/-! ### Passes -/

/-- What does not change from pass to pass. -/
structure RankingPolicy where
  /-- How many levels there are. -/
  mode : LevelMode := .five
  /-- The plans of the categories. -/
  plans : List Plan
  /-- The bonuses for passions. -/
  bonuses : List AffinityBonus

/-- The breakdown of one agent. -/
def RankingPolicy.rank (p : RankingPolicy) (tick : Nat) (scores : ScoreTable) (a : Agent) :
    AgentBreakdown :=
  .ofPlans p.mode p.plans p.bonuses tick a ((scores.row? a.id).getD .empty)

/-- What a pass results in. -/
structure Pass where
  /-- The breakdowns after the pass. -/
  breakdowns : BreakdownSet
  /-- The levels to be handed out, in order. -/
  assignments : List Assignment
  /-- What was done. -/
  summary : RankingSummary

namespace Pass

/-- The breakdown of an agent after a pass: that of before for a paused one. -/
def breakdownOf (p : RankingPolicy) (tick : Nat) (scores : ScoreTable) (previous : BreakdownSet)
    (a : Agent) : Option AgentBreakdown :=
  if a.paused then previous.agent? a.id else some (p.rank tick scores a)

/-- The breakdowns after a pass. -/
def breakdownsOf (p : RankingPolicy) (w : World) (scores : ScoreTable) (previous : BreakdownSet) :
    BreakdownSet :=
  { tick := w.tick
    agents := .ofList <| w.agents.filterMap fun a =>
      (breakdownOf p w.tick scores previous a).map fun b => (a.id, b) }

/-- The levels of an agent's categories, as they are handed out. -/
def assignmentsOf (breakdowns : BreakdownSet) (id : AgentId) : List Assignment :=
  match breakdowns.agent? id with
  | some b => b.levels.map fun (category, level) => ⟨id, category, level⟩
  | none => []

/-- Ranks the agents of a world. -/
def run (p : RankingPolicy) (w : World) (scores : ScoreTable) (previous : BreakdownSet) : Pass :=
  -- Levels are handed out only when all breakdowns are there.
  let ranked := (w.agents.filter fun a => !a.paused).map (·.id)
  let breakdowns := breakdownsOf p w scores previous
  { breakdowns
    assignments := ranked.flatMap (assignmentsOf breakdowns)
    summary := {
      ranked := ranked.length
      paused := (w.agents.filter (·.paused)).length
      pruned := (previous.agents.keys.filter fun id => !breakdowns.agents.has id).length } }

end Pass
end WorkPriority
