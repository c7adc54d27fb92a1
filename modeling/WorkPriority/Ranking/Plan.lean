import WorkPriority.Rule

/-!
# Categories, bonuses and plans

A category groups tasks. Its plan says which rules its score is made of: those
attached to its sub-tasks, in the order of the sub-tasks, and those attached to
the category as a whole.
-/

namespace WorkPriority

/-- A group of tasks. -/
structure Category where
  /-- Its name. -/
  name : String
  /-- Its parts, the first of the highest priority. -/
  subTasks : List String := []
  /-- The skills that the tasks need. -/
  skills : List String := []
  /-- Whether the category is ranked at all. -/
  enabled : Bool := true

/-- What is added to the score of a category for a passion for its skills. -/
structure AffinityBonus where
  /-- Its name. -/
  name : String
  /-- The passion. -/
  passion : Passion
  /-- What is added. -/
  score : Int
  /-- What the bonus is explained with. -/
  description : String := ""

/-- The rules that the score of a category is made of. -/
structure Plan where
  /-- The category. -/
  category : Category
  /-- The rules attached to its sub-tasks. -/
  subTaskRules : List (String × List String)
  /-- The rules attached to it as a whole. -/
  categoryRules : List String := []

namespace Plan

/-- The plan of a category without rules. -/
def ofCategory (c : Category) : Plan :=
  { category := c, subTaskRules := c.subTasks.map fun s => (s, []) }

/-- The name of the category. -/
def name (p : Plan) : String := p.category.name

/-- Adds a rule to the first sub-task of a name. -/
def addToFirst (subTask rule : String) :
    List (String × List String) → List (String × List String)
  | [] => []
  | (s, rules) :: rest =>
    if s = subTask then (s, rules ++ [rule]) :: rest else (s, rules) :: addToFirst subTask rule rest

/-- Whether the category has a sub-task. -/
def hasSubTask (p : Plan) (subTask : String) : Bool := p.subTaskRules.any fun s => s.1 == subTask

/-- Attaches a rule to a sub-task. A category without that sub-task stays as it is. -/
def attachToSubTask (p : Plan) (subTask rule : String) : Plan :=
  { p with subTaskRules := addToFirst subTask rule p.subTaskRules }

/-- Attaches a rule to the category as a whole. -/
def attachToCategory (p : Plan) (rule : String) : Plan :=
  { p with categoryRules := p.categoryRules ++ [rule] }

/-- Attaches a rule to a target, if that belongs to the category. -/
def attach (p : Plan) (rule : String) : Target → Plan
  | .category name => if p.name = name then p.attachToCategory rule else p
  | .subTask name => p.attachToSubTask name rule

/-- Attaches a rule to all of its targets. -/
def attachRule (p : Plan) (r : Rule) : Plan := r.targets.foldl (fun p t => p.attach r.name t) p

/-- The plan of a category with the rules that target it. -/
def ofRules (rules : List Rule) (c : Category) : Plan := rules.foldl attachRule (ofCategory c)

/-- How many rules are attached. -/
def ruleCount (p : Plan) : Nat :=
  p.categoryRules.length + (p.subTaskRules.flatMap fun s => s.2).length

/-- The rules of a plan with what they were attached to, in the order in which
    they are counted. -/
def entries (p : Plan) : List (String × Target) :=
  (p.subTaskRules.flatMap fun (s, rules) => rules.map fun r => (r, .subTask s)) ++
    p.categoryRules.map fun r => (r, .category p.name)

/-- Whether an agent is ranked in the category. -/
def isOpenTo (p : Plan) (a : Agent) : Bool :=
  p.category.enabled && !a.disabledCategories.contains p.name

end Plan
end WorkPriority
