import WorkPriority.Decimal.Binary
import WorkPriority.Rule
import WorkPriority.Rule.Score
import WorkPriority.Signal.Snapshot

/-!
# Scoring agents by rules

A rule first tests all its filters, wherever they stand. Then its other
conditions are gone through in order: a modifier multiplies and shifts, a
look-up whose value lies in a range sets the score to be multiplied and
shifted. The result is rounded, halves away from zero, and kept within 32 bits.

* `Rule.scoreFor`: the score of an agent, or what went wrong.
* `Rule.scoreOrZero`: the same, with zero where something went wrong.
* `ScoreTable.ofRules`: the scores of all agents of a world.
-/

namespace WorkPriority

/-! ### Modifiers -/

/-- An outside source of numbers about agents. -/
structure ModifierProvider where
  /-- What it is called. -/
  name : String
  /-- The number under a key for an agent, if there is one. -/
  lookup : Agent → String → Except EvaluationError (Option Float)

namespace ModifierProvider

/-- The provider that has no numbers. -/
def none : ModifierProvider := ⟨"none", fun _ _ => .ok Option.none⟩

/-- The provider with a fixed table of numbers, of which the last for an agent
    and a key counts. -/
def ofEntries (entries : List ((AgentId × String) × Float)) : ModifierProvider :=
  let table := Keyed.ofList entries
  ⟨"static", fun a key => .ok (table.get? (a.id, key))⟩

end ModifierProvider

/-! ### One rule for one agent -/

/-- All that rules read besides the agent. -/
structure Context where
  /-- The world. -/
  world : World
  /-- The values of signals. -/
  signals : Snapshot
  /-- The score of a rule of which no range holds a value. -/
  neutralScore : Float
  /-- The source of modifiers. -/
  modifiers : ModifierProvider

namespace Context

/-- What a look-up reads, if there is such a value. -/
def resolve? (c : Context) (signal : String) (mode : RequestMode) (a : Agent) : Option Float := do
  let v ← c.signals.value? signal
  match mode with
  | .total => some v.total
  | .zoneOfAgent => v.zone? (ZoneKey.resolve c.world a.zone)
  | .agent => v.agent? a.id
  | .distance => v.distance? a.id
  | .normalizedRank => v.normalizedRank? a.id

end Context

/-- Where the evaluation of a rule stands after some of its conditions. -/
structure Tally where
  /-- The score before it is scaled and shifted. -/
  base : Float
  /-- What it is multiplied by. -/
  multiplier : Float
  /-- What is then added to it. -/
  offset : Float
  /-- The description of the range that gave the score. -/
  found : Option String
  /-- Whether there was a look-up of a signal. -/
  lookedUp : Bool

namespace Rule

/-- Whether an agent passes the filters of a rule. -/
def passesGates (r : Rule) (w : World) (a : Agent) : Bool :=
  r.gates.all fun f => f.admits w (.agent a)

/-- The unknown tags met in testing filters, up to the first that an agent does
    not pass. -/
def unknownInGates (w : World) (a : Agent) : List Filter → List String
  | [] => []
  | f :: fs =>
    f.unknownMet w (.agent a) ++
      if f.admits w (.agent a) then unknownInGates w a fs else []

/-- The start of an evaluation. -/
def start (c : Context) (r : Rule) : Tally :=
  { base := r.defaultScore.getD c.neutralScore
    multiplier := 1.0
    offset := 0.0
    found := none
    lookedUp := false }

/-- The evaluation of one condition. Filters were tested before. -/
def step (c : Context) (r : Rule) (a : Agent) (t : Tally) :
    Condition → Except EvaluationError Tally
  | .gate _ => .ok t
  | .modifier key ranges => do
    match ← c.modifiers.lookup a key with
    | none => return t
    | some x =>
      match ranges.find? fun m => m.validity.contains x with
      | none => return t
      | some m =>
        return { t with multiplier := t.multiplier * m.multiplier, offset := t.offset + m.offset }
  | .lookup signal mode =>
    let t := { t with lookedUp := true }
    match (c.resolve? signal mode a).filter fun x => !x.isNaN with
    | none => .ok t
    | some x =>
      match r.rangeFor? x with
      | none => .ok t
      | some range => .ok { t with base := range.scoreFor x, found := some range.description }

/-- The greatest whole number of 32 bits. -/
def maxScore : Int := 2147483647

/-- The least whole number of 32 bits. -/
def minScore : Int := -2147483648

/-- A finite number rounded to a whole one of 32 bits, halves away from zero. -/
def roundScore (x : Float) : Int :=
  Max.max minScore (Min.min maxScore (Decimal.Binary.decode x).roundAway)

/-- The description of a score: that of the range that gave it, unless it is empty. -/
def describe (score : Int) : Option String → String
  | some d => if d.isEmpty then "Priority " ++ Text.ofInt score else d
  | none => "Priority " ++ Text.ofInt score

/-- The score at the end of an evaluation, which has to be finite. -/
def finish (r : Rule) (t : Tally) : Except EvaluationError RuleScore :=
  -- A rule without look-ups always matches; with look-ups one has to be found.
  let raw := t.base * t.multiplier + t.offset
  if raw.isFinite then
    let score := roundScore raw
    .ok { score, description := describe score t.found, matched := !t.lookedUp || t.found.isSome }
  else .error (.score r.name raw)

/-- The score of an agent. -/
def scoreFor (c : Context) (r : Rule) (a : Agent) : Except EvaluationError RuleScore :=
  if r.passesGates c.world a then do
    let t ← r.conditions.foldlM (r.step c a) (r.start c)
    r.finish t
  else .ok .gated

/-- The score of an agent, which is zero where something went wrong. -/
def scoreOrZero (c : Context) (r : Rule) (a : Agent) : RuleScore :=
  match r.scoreFor c a with
  | .ok s => s
  | .error _ => .zero

end Rule

/-! ### All rules for all agents -/

/-- The scores of all agents of the world. Without rules nobody has scores. -/
def ScoreTable.ofRules (c : Context) (rules : List Rule) : ScoreTable :=
  c.world.agents.foldl
    (fun t a => rules.foldl (fun t r => t.set a.id r.name (r.scoreOrZero c a)) t)
    { tick := c.world.tick }

/-- The unknown tags met in scoring all agents of a world. -/
def unknownInRules (w : World) (rules : List Rule) : List String :=
  w.agents.flatMap fun a => rules.flatMap fun r => Rule.unknownInGates w a r.gates

end WorkPriority
