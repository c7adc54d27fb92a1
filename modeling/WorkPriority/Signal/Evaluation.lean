import WorkPriority.Decimal.Notation
import WorkPriority.Signal.Value

/-!
# Measuring signals

For every kind of source there is an evaluator, which takes the population of a
signal from the world, filters and measures it. The evaluators for all kinds
are given here; a host may put its own in their place, or have none for some
kind (`Evaluators`). An evaluator may fail. A signal that cannot be measured is
read as zero (`Evaluators.valueOrZero`).

With a population come the unknown tags that its filter met, for they are
reported.
-/

namespace WorkPriority

/-! ### Errors -/

/-- What may go wrong in measuring a signal or scoring a rule. -/
inductive EvaluationError where
  /-- An evaluator failed on a signal. -/
  | source (signal message : String)
  /-- The provider of modifiers failed on a key. -/
  | provider (key message : String)
  /-- The score of a rule is not a finite number. -/
  | score (rule : String) (raw : Float)
  /-- There is no evaluator for a kind of source. -/
  | missingEvaluator (kind : SourceKind)

namespace EvaluationError

/-- The code of an error in diagnostics. -/
def code : EvaluationError → String
  | source .. => "rankwork::eval::source"
  | provider .. => "rankwork::eval::provider"
  | score .. => "rankwork::eval::score"
  | missingEvaluator .. => "rankwork::eval::missing_evaluator"

/-- What to do about an error. -/
def help : EvaluationError → String
  | source .. => "The signal's world query failed. Check the host world integration."
  | provider .. =>
    "The external modifier provider returned an error; the rule contributes zero."
  | score .. => "Check the rule's score ranges and modifier multipliers for infinite values."
  | missingEvaluator .. =>
    "Register an evaluator with SignalEngine::register for this source kind."

/-- What an error says. -/
def message : EvaluationError → String
  | source signal message =>
    "source evaluator failed for signal '" ++ signal ++ "': " ++ message
  | provider key message => "modifier provider failed for key '" ++ key ++ "': " ++ message
  | score rule raw =>
    "rule '" ++ rule ++ "' produced an unusable score: non-finite score " ++ Decimal.plain raw
  | missingEvaluator kind => "no evaluator registered for source kind '" ++ kind.label ++ "'"

end EvaluationError

/-! ### Evaluators -/

/-- A measured population, and the unknown tags met in filtering it. -/
structure Population where
  /-- The members, in the order of the world. -/
  members : List (Member Float)
  /-- The unknown tags. -/
  unknownTags : List String := []

/-- Takes and measures the population of a signal. -/
abbrev Evaluator := World → Signal → Except EvaluationError Population

/-- The evaluators in use, by the kind of source. -/
abbrev Evaluators := SourceKind → Option Evaluator

/-- The share of the work that is still to be done. -/
def Construction.remaining (c : Construction) : Float :=
  if c.workTotal ≤ 0.0 then 0.0 else Scalar.clamp 0.0 1.0 (1.0 - c.workDone / c.workTotal)

/-- The failure of an evaluator that is asked about another kind of source. -/
def wrongKind (s : Signal) : EvaluationError :=
  .source s.name
    ("evaluator registered for the wrong source kind (" ++ s.source.kind.label ++ ")")

/-- Whether an object is of one of the named definitions; no names stand for all. -/
def isOfKinds (kinds : List String) (o : WorldObject) : Bool :=
  kinds.isEmpty || kinds.any (Text.sameLetters · o.defName)

/-- The population of those of the objects that a filter admits, with their
    measurements. -/
def objectPopulation (w : World) (s : Signal) (objects : List (WorldObject × Float)) : Population where
  members := (objects.filter fun (o, _) => s.filter.admits w (.object o)).map fun (o, x) =>
    { value := x, zone := o.zone, agent := none }
  unknownTags := objects.flatMap fun (o, _) => s.filter.unknownMet w (.object o)

/-- The population of the agents that a filter admits and that have a
    measurement to take part with. -/
def agentPopulation (w : World) (s : Signal) (measure : Agent → Float) (takesPart : Float → Bool) :
    Population where
  -- The unknown tags are those of all agents, whether they take part or not.
  members :=
    ((w.agents.filter fun a => s.filter.admits w (.agent a)).map fun a =>
      { value := measure a, zone := a.zone, agent := some a.id }).filter fun m => takesPart m.value
  unknownTags := w.agents.flatMap fun a => s.filter.unknownMet w (.agent a)

/-- How often a name is in a list, up to the case of letters. -/
def timesListed (name : String) (names : List String) : Float :=
  Scalar.ofNat (names.filter (Text.sameLetters · name)).length

/-- Counts objects, or their pieces. -/
def Evaluator.objectCount : Evaluator := fun w s =>
  match s.source with
  | .objectCount kinds useStack =>
    .ok <| objectPopulation w s <| (w.objects.filter (isOfKinds kinds)).map fun o =>
      (o, if useStack then Scalar.ofNat o.stackCount else Scalar.one)
  | _ => .error (wrongKind s)

/-- Measures the work left on objects being built. -/
def Evaluator.constructionProgress : Evaluator := fun w s =>
  match s.source with
  | .constructionProgress kinds =>
    .ok <| objectPopulation w s <| (w.objects.filter (isOfKinds kinds)).filterMap fun o =>
      o.construction.map fun c => (o, c.remaining)
  | _ => .error (wrongKind s)

/-- Measures agents. Those without a trait or affliction that is counted are
    not part of the population. -/
def Evaluator.agents : Evaluator := fun w s =>
  match s.source with
  | .agentCount => .ok <| agentPopulation w s (fun _ => Scalar.one) fun _ => true
  | .agentAttribute name =>
    .ok <| agentPopulation w s (fun a => (a.attributes.get? name).getD missingValue) fun _ => true
  | .agentNeed name =>
    .ok <| agentPopulation w s (fun a => (a.needs.get? name).getD missingValue) fun _ => true
  | .traitCount name =>
    .ok <| agentPopulation w s (fun a => timesListed name a.traits) (0.0 < ·)
  | .afflictionCount name =>
    .ok <| agentPopulation w s (fun a => timesListed name a.afflictions) (0.0 < ·)
  | _ => .error (wrongKind s)

/-- Reads the environment: one member without a place, measured as one or zero. -/
def Evaluator.environment : Evaluator := fun w s =>
  let reading (active : Bool) : Population :=
    { members := [{ value := if active then Scalar.one else Scalar.zero, zone := none, agent := none }] }
  match s.source with
  | .environmentCondition name => .ok (reading (w.hasCondition name))
  | .weather names => .ok (reading (w.hasWeather names))
  | _ => .error (wrongKind s)

namespace Evaluators

/-- No evaluators. -/
def none : Evaluators := fun _ => Option.none

/-- An evaluator for every kind of source. -/
def standard : Evaluators
  | .objectCount => some Evaluator.objectCount
  | .constructionProgress => some Evaluator.constructionProgress
  | .environmentCondition | .weather => some Evaluator.environment
  | .agentCount | .agentAttribute | .agentNeed | .traitCount | .afflictionCount =>
    some Evaluator.agents

/-- The evaluators with one put in the place of another. -/
def replace (es : Evaluators) (kind : SourceKind) (e : Evaluator) : Evaluators :=
  fun k => if k = kind then some e else es k

/-- The measured population of a signal. -/
def population (es : Evaluators) (w : World) (s : Signal) : Except EvaluationError Population :=
  match es s.source.kind with
  | some e => e w s
  | Option.none => .error (.missingEvaluator s.source.kind)

/-- The value of a signal. -/
def value (es : Evaluators) (w : World) (s : Signal) :
    Except EvaluationError (SignalValue Float) :=
  (es.population w s).map fun p => .ofMembers w s p.members

/-- The value of a signal, which is zero where it cannot be measured. -/
def valueOrZero (es : Evaluators) (w : World) (s : Signal) : SignalValue Float :=
  match es.value w s with
  | .ok v => v
  | .error _ => .zero

/-- The unknown tags met in measuring a signal. -/
def unknownMet (es : Evaluators) (w : World) (s : Signal) : List String :=
  match es.population w s with
  | .ok p => p.unknownTags
  | .error _ => []

end Evaluators
end WorkPriority
