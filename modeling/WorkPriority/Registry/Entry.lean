import WorkPriority.Ranking.Plan
import WorkPriority.World.Document
import WorkPriority.Interval.Notation

/-!
# Entries of definitions

The entries of a document of definitions as they are written, before anything
is checked but their form. Fields that are not known are passed over, and most
have a value that stands in where nothing is said. Intervals are kept in the
form in which they were written.

For each kind of entry `ofValue?` reads it, and is `none` for an entry that is
not of the form of its kind.
-/

namespace WorkPriority

open Value

/-! ### Filters -/

/-- A tag, which every text is. -/
def Tag.ofValue? (v : Value) : Option Tag := v.text?.map Tag.read

/-- A test of a condition; that it holds is asked for where nothing is said. -/
def StatusTest.ofValue? (v : Value) : Option StatusTest := do
  let fs ← v.table?
  return {
    status := ← required "status" (wordOf (Status.all.map fun s => (s.label, s))) fs
    expected := ← withDefault "is" bool? true fs }

/-- What a filter asks of agents. -/
def AgentFilter.ofValue? (v : Value) : Option AgentFilter := do
  let fs ← v.table?
  return {
    race := ← optional "race" text? fs
    allegiance := ← optional "allegiance" Allegiance.ofValue? fs
    statuses := ← withDefault "statuses" (listOf StatusTest.ofValue?) [] fs }

/-- A filter. -/
def Filter.ofValue? (v : Value) : Option Filter := do
  let fs ← v.table?
  let groups := listOf (listOf Tag.ofValue?)
  return {
    includes := ← withDefault "include" groups [] fs
    excludes := ← withDefault "exclude" groups [] fs
    agent := ← optional "agent" AgentFilter.ofValue? fs }

/-! ### Signals -/

/-- The source of a signal. -/
def Source.ofValue? (v : Value) : Option Source := do
  let fs ← v.table?
  let kind ← required "kind" (wordOf (SourceKind.all.map fun k => (k.label, k))) fs
  match kind with
  | .objectCount =>
    let kinds ← withDefault "object_kinds" texts? [] fs
    return .objectCount kinds (← withDefault "use_stack" bool? true fs)
  | .agentCount => return .agentCount
  | .agentAttribute => return .agentAttribute (← withDefault "attribute" text? "" fs)
  | .agentNeed => return .agentNeed (← withDefault "need" text? "" fs)
  | .constructionProgress =>
    return .constructionProgress (← withDefault "object_kinds" texts? [] fs)
  | .environmentCondition => return .environmentCondition (← withDefault "condition" text? "" fs)
  | .weather => return .weather (← withDefault "weathers" texts? [] fs)
  | .traitCount => return .traitCount (← withDefault "trait_name" text? "" fs)
  | .afflictionCount => return .afflictionCount (← withDefault "affliction" text? "" fs)

/-- An aggregation. -/
def Aggregation.ofValue? : Value → Option Aggregation :=
  wordOf (Aggregation.all.map fun a => (a.label, a))

/-- The entry of a signal. -/
structure SignalEntry where
  /-- The name, empty if there is none. -/
  name : String
  /-- The source, if there is one. -/
  source : Option Source
  /-- The aggregation. -/
  aggregation : Aggregation
  /-- The filter. -/
  filter : Filter
  /-- Whether to break the value down by zone. -/
  locatable : Bool
  /-- Whether to break the value down by agent. -/
  individualizable : Bool
  /-- Whether the signal is measured more often than others. -/
  urgent : Bool

/-- The entry of a signal. -/
def SignalEntry.ofValue? (v : Value) : Option SignalEntry := do
  let fs ← v.table?
  return {
    name := ← withDefault "name" text? "" fs
    source := ← optional "source" Source.ofValue? fs
    aggregation := ← withDefault "aggregation" Aggregation.ofValue? .sum fs
    filter := ← withDefault "filter" Filter.ofValue? {} fs
    locatable := ← withDefault "locatable" bool? false fs
    individualizable := ← withDefault "individualizable" bool? false fs
    urgent := ← withDefault "urgent" bool? false fs }

/-- A signal that is complete: it has a name and a source. -/
def Signal.ofValue? (v : Value) : Option Signal := do
  let fs ← v.table?
  let e ← SignalEntry.ofValue? v
  return {
    name := ← required "name" text? fs
    source := ← e.source
    aggregation := e.aggregation
    filter := e.filter
    locatable := e.locatable
    individualizable := e.individualizable
    urgent := e.urgent }

/-! ### Rules -/

/-- The form of an interval: a number, a text, or a table of bounds. -/
def Interval.Form.ofValue? : Value → Option Interval.Form
  | .int n => some (.number (Decimal.ofInt n))
  | .float x => some (.number x)
  | .text s => some (.text s)
  | .moment s => some (.text s)
  | .table fs => do
    return .bounds (← optional "min" float? fs) (← optional "max" float? fs)
  | _ => none

/-- What a look-up reads. -/
def RequestMode.ofValue? : Value → Option RequestMode :=
  wordOf (RequestMode.all.map fun m => (m.label, m))

/-- A range of modifiers as it is written. -/
structure ModifierRangeEntry where
  /-- The values that the range is about, if they are given. -/
  validity : Option Interval.Form
  /-- What the score is multiplied by. -/
  multiplier : Float
  /-- What is then added to it. -/
  offset : Float

/-- A range of modifiers. -/
def ModifierRangeEntry.ofValue? (v : Value) : Option ModifierRangeEntry := do
  let fs ← v.table?
  return {
    validity := ← optional "validity" Interval.Form.ofValue? fs
    multiplier := ← withDefault "multiplier" float? 1.0 fs
    offset := ← withDefault "offset" float? 0.0 fs }

/-- A condition as it is written. -/
inductive ConditionEntry where
  /-- A filter that agents have to pass. -/
  | gate (f : Filter)
  /-- A look-up of a signal. -/
  | lookup (signal : String) (mode : RequestMode)
  /-- A look-up of a modifier. -/
  | modifier (key : String) (ranges : List ModifierRangeEntry)

/-- A condition, of one of three types. -/
def ConditionEntry.ofValue? (v : Value) : Option ConditionEntry := do
  let fs ← v.table?
  match ← required "type" text? fs with
  | "filter-gate" => return .gate (← withDefault "filter" Filter.ofValue? {} fs)
  | "signal-lookup" =>
    let signal ← withDefault "signal" text? "" fs
    return .lookup signal (← withDefault "mode" RequestMode.ofValue? .total fs)
  | "modifier-lookup" =>
    let key ← withDefault "key" text? "" fs
    return .modifier key (← withDefault "ranges" (listOf ModifierRangeEntry.ofValue?) [] fs)
  | _ => none

/-- A score range as it is written. -/
structure ScoreRangeEntry where
  /-- The values that the range is about, if they are given. -/
  validity : Option Interval.Form
  /-- The scores of the values, if they are given. -/
  score : Option Interval.Form
  /-- The explanation. -/
  description : String

/-- A score range. -/
def ScoreRangeEntry.ofValue? (v : Value) : Option ScoreRangeEntry := do
  let fs ← v.table?
  return {
    validity := ← optional "validity" Interval.Form.ofValue? fs
    score := ← optional "score" Interval.Form.ofValue? fs
    description := ← withDefault "description" text? "" fs }

/-- A target: a table with nothing but the name of a category or sub-task. -/
def Target.ofValue? : Value → Option Target
  | .table [(key, v)] => do
    let name ← v.text?
    match key with
    | "category" => some (.category name)
    | "sub_task" => some (.subTask name)
    | _ => none
  | _ => none

/-- The entry of a rule. -/
structure RuleEntry where
  /-- The name, empty if there is none. -/
  name : String
  /-- Whether the rule is evaluated more often than others. -/
  urgent : Bool
  /-- The conditions. -/
  conditions : List ConditionEntry
  /-- The score ranges. -/
  ranges : List ScoreRangeEntry
  /-- What the scores are for. -/
  targets : List Target
  /-- The score before any range holds a value. -/
  defaultScore : Option Float

/-- The entry of a rule. -/
def RuleEntry.ofValue? (v : Value) : Option RuleEntry := do
  let fs ← v.table?
  return {
    name := ← withDefault "name" text? "" fs
    urgent := ← withDefault "urgent" bool? false fs
    conditions := ← withDefault "conditions" (listOf ConditionEntry.ofValue?) [] fs
    ranges := ← withDefault "ranges" (listOf ScoreRangeEntry.ofValue?) [] fs
    targets := ← withDefault "targets" (listOf Target.ofValue?) [] fs
    defaultScore := ← optional "default_score" float? fs }

/-! ### Categories and bonuses -/

/-- A category. -/
def Category.ofValue? (v : Value) : Option Category := do
  let fs ← v.table?
  return {
    name := ← required "name" text? fs
    subTasks := ← withDefault "sub_tasks" texts? [] fs
    skills := ← withDefault "skills" texts? [] fs
    enabled := ← withDefault "enabled" bool? true fs }

/-- The score of a bonus. -/
def bonusScore? (v : Value) : Option Int := v.int? (-0x80000000) 0x7FFFFFFF

/-- The entry of a bonus. -/
structure BonusEntry where
  /-- The name, empty if there is none. -/
  name : String
  /-- The passion, if it is given. -/
  passion : Option Passion
  /-- What is added, if it is given. -/
  score : Option Int
  /-- The explanation. -/
  description : String

/-- The entry of a bonus. -/
def BonusEntry.ofValue? (v : Value) : Option BonusEntry := do
  let fs ← v.table?
  return {
    name := ← withDefault "name" text? "" fs
    passion := ← optional "passion" Passion.ofValue? fs
    score := ← optional "score" bonusScore? fs
    description := ← withDefault "description" text? "" fs }

/-- A bonus that is complete. -/
def AffinityBonus.ofValue? (v : Value) : Option AffinityBonus := do
  let fs ← v.table?
  return {
    name := ← required "name" text? fs
    passion := ← required "passion" Passion.ofValue? fs
    score := ← required "score" bonusScore? fs
    description := ← withDefault "description" text? "" fs }

/-! ### Documents -/

/-- The name of an entry, by which it is reported if it is not of the form of
    its kind: a text that is not blank. -/
def entryName? (v : Value) : Option String := do
  let fs ← v.table?
  match ← field? "name" fs with
  | some (.text s) => if Text.isBlankText s then none else some s
  | _ => none

/-- The entries of a document of definitions. -/
structure Document where
  /-- The entries of signals. -/
  signals : List Value := []
  /-- The entries of rules. -/
  rules : List Value := []
  /-- The entries of categories. -/
  categories : List Value := []
  /-- The entries of bonuses. -/
  bonuses : List Value := []

/-- The entries of a document, each kind of which has to be a list. -/
def Document.ofValue? (v : Value) : Option Document := do
  let fs ← v.table?
  return {
    signals := ← withDefault "signal" list? [] fs
    rules := ← withDefault "rule" list? [] fs
    categories := ← withDefault "category" list? [] fs
    bonuses := ← withDefault "affinity_bonus" list? [] fs }

end WorkPriority
