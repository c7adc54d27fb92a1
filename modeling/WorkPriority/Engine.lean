import WorkPriority.Cadence
import WorkPriority.Ranking.Pass
import WorkPriority.Registry
import WorkPriority.Rule.Evaluation
import WorkPriority.Signal.Cache
import WorkPriority.UnknownTags

/-!
# The engine

The engine runs cycles over a world that changes between them. A *normal cycle*
measures every signal, scores every valid rule for every agent, ranks the
agents and hands out levels. An *urgent cycle* measures the urgent signals and
scores the urgent rules only, lays the results over those of before, and ranks
nobody. Whatever fails counts as zero.

Signals are measured once a tick, whoever asks for them: what a cycle or a
question on demand measured is kept in a cache. A cycle takes from it what was
measured on the same tick alone, while a question on demand is content with
anything that is alive. A signal that is invalid is zero, and not measured.

An engine is a value. Each operation gives the engine after it, and nothing
but the operations below changes one:

* `Engine.normalCycle` and `Engine.urgentCycle`;
* `Engine.onTick`, which counts a tick and runs the cycle that is due;
* `Engine.evaluate`, the value of a signal on demand.
-/

namespace WorkPriority

/-! ### Results -/

/-- The kinds of cycles. -/
inductive CycleKind where
  /-- Of urgent signals and rules. -/
  | urgent
  /-- Of everything. -/
  | normal
deriving DecidableEq

/-- The name of the kind in reports. -/
def CycleKind.label : CycleKind → String
  | urgent => "urgent"
  | normal => "normal"

/-- What a cycle did. -/
structure CycleReport where
  /-- The kind of the cycle. -/
  kind : CycleKind
  /-- The tick of the world. -/
  tick : Nat
  /-- How many signals were measured. -/
  signals : Nat
  /-- How many rules were evaluated. -/
  rules : Nat
  /-- What the ranking did, where there was one. -/
  ranking : Option RankingSummary
deriving DecidableEq

/-! ### The engine and its parts -/

/-- All that an engine is built from. -/
structure Setup where
  /-- How it works. -/
  config : Config
  /-- The definitions. -/
  registry : Registry
  /-- The source of modifiers. -/
  modifiers : ModifierProvider := .none
  /-- The evaluators of signals. -/
  evaluators : Evaluators := .standard

/-- An engine: what it is built from, and what its operations have left behind. -/
structure Engine where
  /-- What it is built from. -/
  setup : Setup
  /-- The values of signals, as the last cycle left them. -/
  signals : Snapshot := {}
  /-- The scores of rules, as the last cycle left them. -/
  scores : ScoreTable := {}
  /-- The breakdowns, as the last normal cycle left them. -/
  breakdowns : BreakdownSet := {}
  /-- What was measured. -/
  cache : Cache (SignalValue Float)
  /-- The unknown tags that were met. -/
  unknownTags : UnknownTags := {}
  /-- The counters of ticks. -/
  cadence : Cadence
  /-- How many urgent cycles there were. -/
  urgentCycles : Nat := 0
  /-- How many normal cycles there were. -/
  normalCycles : Nat := 0

namespace Engine

/-- The engine before its first operation. -/
def start (s : Setup) : Engine :=
  { setup := s
    cache := { lifetime := s.config.cacheLifetime }
    cadence := .ofConfig s.config }

/-- The engine before its first operation, if its configuration is in order. -/
def ofSetup (s : Setup) : Except ConfigError Engine := s.config.check.map fun _ => start s

/-- The definitions. -/
def registry (e : Engine) : Registry := e.setup.registry

/-- The engine with another evaluator for a kind of source. -/
def registerEvaluator (e : Engine) (kind : SourceKind) (f : Evaluator) : Engine :=
  { e with setup := { e.setup with evaluators := e.setup.evaluators.replace kind f } }

/-- The engine with another source of modifiers. -/
def withModifiers (e : Engine) (m : ModifierProvider) : Engine :=
  { e with setup := { e.setup with modifiers := m } }

/-! ### Measuring -/

/-- The engine with a cache in which a value of a signal was looked up. Unless
    one was found, the signal was measured, and unknown tags were met. -/
def remember (e : Engine) (w : World) (s : Signal) (found : Option (SignalValue Float))
    (cache : Cache (SignalValue Float)) : Engine :=
  { e with
    cache
    unknownTags :=
      if found.isSome then e.unknownTags
      else e.unknownTags.reportAll (e.setup.evaluators.unknownMet w s) }

/-- The value of a signal for a cycle: measured on this tick. -/
def refresh (e : Engine) (w : World) (s : Signal) : SignalValue Float × Engine :=
  if e.registry.isValidSignal s.name then
    let (v, cache) := e.cache.refresh s.name w.tick fun _ => e.setup.evaluators.valueOrZero w s
    (v, e.remember w s (e.cache.stored? s.name w.tick) cache)
  else (.zero, e)

/-- The values of signals for a cycle, one after the other. -/
def refreshAll (e : Engine) (w : World) : List Signal → List (String × SignalValue Float) × Engine
  | [] => ([], e)
  | s :: ss =>
    let (v, e) := e.refresh w s
    let (vs, e) := e.refreshAll w ss
    ((s.name, v) :: vs, e)

/-- The value of a signal on demand: any that is alive. -/
def evaluate (e : Engine) (w : World) (name : String) : Option (SignalValue Float) × Engine :=
  match e.registry.signal? name with
  | none => (none, e)
  | some s =>
    if e.registry.isValidSignal name then
      let (v, cache) := e.cache.getOrCompute name w.tick fun _ => e.setup.evaluators.valueOrZero w s
      (some v, e.remember w s (e.cache.get? name w.tick) cache)
    else (some .zero, e)

/-! ### Cycles -/

/-- What rules read in a cycle. -/
def context (e : Engine) (w : World) : Context :=
  { world := w
    signals := e.signals
    neutralScore := e.setup.config.neutralScore
    modifiers := e.setup.modifiers }

/-- How agents are ranked. -/
def policy (e : Engine) : RankingPolicy :=
  { mode := e.setup.config.levelMode, plans := e.registry.plans, bonuses := e.registry.bonuses }

/-- Scores rules for all agents of a world, and remembers the unknown tags that
    were met. -/
def scoreRules (e : Engine) (w : World) (rules : List Rule) : ScoreTable × Engine :=
  (.ofRules (e.context w) rules,
    { e with unknownTags := e.unknownTags.reportAll (unknownInRules w rules) })

/-- Measures everything, scores everything, ranks all agents, and lists the
    levels to be handed out. -/
def normalCycle (e : Engine) (w : World) : CycleReport × List Assignment × Engine :=
  -- All signals are measured before a rule reads one.
  let (values, e) := e.refreshAll w e.registry.signals
  let e := { e with signals := .ofValues w.tick values }
  let rules := e.registry.validRules
  let (scores, e) := e.scoreRules w rules
  -- All rules are scored before an agent is ranked.
  let pass := Pass.run e.policy w scores e.breakdowns
  ({ kind := .normal
     tick := w.tick
     signals := values.length
     rules := rules.length
     ranking := some pass.summary },
    pass.assignments,
    { e with
      scores
      breakdowns := pass.breakdowns
      cache := e.cache.purge w.tick
      normalCycles := e.normalCycles + 1 })

/-- Measures what is urgent, scores what is urgent, and lays it over what there
    was. -/
def urgentCycle (e : Engine) (w : World) : CycleReport × Engine :=
  -- What is not urgent keeps its value, and takes the tick of the cycle.
  let (values, e) := e.refreshAll w e.registry.urgentSignals
  let e := { e with signals := e.signals.merge w.tick values }
  let rules := e.registry.urgentRules
  let (scores, e) := e.scoreRules w rules
  ({ kind := .urgent
     tick := w.tick
     signals := values.length
     rules := rules.length
     ranking := none },
    { e with scores := e.scores.merge scores, urgentCycles := e.urgentCycles + 1 })

/-- Counts a tick and runs the cycle that is due. Where both are due, the normal
    cycle does all that the urgent one would do. -/
def onTick (e : Engine) (w : World) : Option CycleReport × List Assignment × Engine :=
  let (due, cadence) := e.cadence.tick
  let e := { e with cadence }
  if due.normal then
    let (report, assignments, e) := e.normalCycle w
    (some report, assignments, e)
  else if due.urgent then
    let (report, e) := e.urgentCycle w
    (some report, [], e)
  else (none, [], e)

/-! ### Inspection -/

/-- The score of a rule for an agent. -/
def score? (e : Engine) (agent : AgentId) (rule : String) : Option RuleScore := e.scores.get? agent rule

/-- The breakdown of a category of an agent. -/
def breakdown? (e : Engine) (agent : AgentId) (category : String) : Option CategoryBreakdown :=
  e.breakdowns.category? agent category

/-- The breakdown of an agent. -/
def agentBreakdown? (e : Engine) (agent : AgentId) : Option AgentBreakdown :=
  e.breakdowns.agent? agent

end Engine
end WorkPriority
