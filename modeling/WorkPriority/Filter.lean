import WorkPriority.Tag

/-!
# Filters

A filter picks out objects or agents of a world. It has two lists of groups of
tags: a candidate passes if it has every tag of one of the `include` groups and
does not have every tag of any of the `exclude` groups. No `include` group at
all admits everything. Agents may be asked for more (`AgentFilter`).

Testing a candidate also tells which unknown tags were met on the way, for
someone may have to be told about them. The answer comes without them
(`Filter.admits`), and the tags without the answer (`Filter.unknownMet`); a
group is read up to its first tag that does not hold, and groups up to the
first that decides.
-/

namespace WorkPriority

/-- The conditions of an agent that a filter can ask for by name. -/
inductive Status where
  /-- Dead. -/
  | deceased
  /-- Unable to act. -/
  | incapacitated
  /-- Held captive. -/
  | captive
  /-- A guest. -/
  | guest
  /-- With priorities that are not to be changed for now. -/
  | paused
deriving DecidableEq

namespace Status

/-- All conditions. -/
def all : List Status := [deceased, incapacitated, captive, guest, paused]

/-- The name of the condition in documents. -/
def label : Status → String
  | deceased => "deceased"
  | incapacitated => "incapacitated"
  | captive => "captive"
  | guest => "guest"
  | paused => "paused"

/-- Whether an agent is in the condition. -/
def holds : Status → Agent → Bool
  | deceased, a => a.deceased
  | incapacitated, a => a.incapacitated
  | captive, a => a.captive
  | guest, a => a.guest
  | paused, a => a.paused

end Status

/-- Asks for a condition, or for its absence. -/
structure StatusTest where
  /-- The condition. -/
  status : Status
  /-- Whether it has to hold. -/
  expected : Bool

/-- Whether an agent passes the test. -/
def StatusTest.holds (t : StatusTest) (a : Agent) : Bool := t.status.holds a == t.expected

/-- What a filter asks of agents alone; all of it has to hold. -/
structure AgentFilter where
  /-- The race. -/
  race : Option String := none
  /-- The allegiance. -/
  allegiance : Option Allegiance := none
  /-- The conditions. -/
  statuses : List StatusTest := []

/-- Whether an agent is as asked for. -/
def AgentFilter.admits (f : AgentFilter) (a : Agent) : Bool :=
  f.race.all (fun r => Text.sameLetters r a.race) && f.allegiance.all (· == a.allegiance) &&
    f.statuses.all (·.holds a)

/-- Picks out objects or agents. -/
structure Filter where
  /-- Groups of tags of which one has to hold. -/
  includes : List (List Tag) := []
  /-- Groups of tags of which none may hold. -/
  excludes : List (List Tag) := []
  /-- What is asked of agents. -/
  agent : Option AgentFilter := none

/-- Something that a filter can be asked about. -/
inductive Candidate where
  /-- An object. -/
  | object (o : WorldObject)
  /-- An agent. -/
  | agent (a : Agent)

namespace Candidate

/-- Where the candidate is. -/
def zone : Candidate → Option ZoneId
  | object o => o.zone
  | agent a => a.zone

/-- Whether the candidate has a property. Properties of objects are not had by
    agents, nor the other way round. -/
def hasFlag (w : World) (c : Candidate) : Flag → Bool
  | .inStorage => match c with | object o => o.inStorage | agent _ => false
  | .forbidden => match c with | object o => o.forbidden | agent _ => false
  | .underConstruction => match c with | object o => o.construction.isSome | agent _ => false
  | .deceased => match c with | object _ => false | agent a => a.deceased
  | .incapacitated => match c with | object _ => false | agent a => a.incapacitated
  | .captive => match c with | object _ => false | agent a => a.captive
  | .guest => match c with | object _ => false | agent a => a.guest
  | .paused => match c with | object _ => false | agent a => a.paused
  | .outdoors => ZoneKey.resolve w c.zone == .unscoped

/-- The quantity of a candidate, if it has it. -/
def quantity? (c : Candidate) : Measure → Option Float
  | .stack => match c with | object o => some (Scalar.ofNat o.stackCount) | agent _ => none
  | .hitPoints => match c with | object o => some o.hitPoints | agent _ => none
  | .attr name => match c with | object _ => none | agent a => a.attributes.get? name
  | .need name => match c with | object _ => none | agent a => a.needs.get? name

end Candidate

namespace Tag

/-- What a known tag says of a candidate. An unknown one says nothing, and a
    comparison that was not understood says that it holds. -/
def isTrueOf (w : World) (c : Candidate) : Tag → Bool
  | not t => !t.isTrueOf w c
  | flag f => c.hasFlag w f
  | zone k => (c.zone.bind w.zone?).any fun z => z.kind == k
  | definition name => match c with | .object o => Text.sameLetters o.defName name | .agent _ => false
  | kind name => match c with | .object o => Text.sameLetters o.kind name | .agent _ => false
  | category name =>
    match c with | .object o => o.categories.any (Text.sameLetters · name) | .agent _ => false
  | race name => match c with | .object _ => false | .agent a => Text.sameLetters a.race name
  | allegiance al => match c with | .object _ => false | .agent a => a.allegiance == al
  | trait name => match c with | .object _ => false | .agent a => a.traits.any (Text.sameLetters · name)
  | affliction name =>
    match c with | .object _ => false | .agent a => a.afflictions.any (Text.sameLetters · name)
  | measure m comparison => !comparison.isParsed || (c.quantity? m).any comparison.holds
  | unknown _ => false

/-- Whether a tag holds of a candidate. A tag that is unknown, under any number
    of negations, holds of nothing. -/
def holds (w : World) (c : Candidate) (t : Tag) : Bool := t.unknown?.isNone && t.isTrueOf w c

end Tag

/-- Whether a candidate has every tag of a group. -/
def groupHolds (w : World) (c : Candidate) (group : List Tag) : Bool := group.all (·.holds w c)

/-- The unknown tags met in a group, which is read up to the first tag that
    does not hold. An unknown tag never does. -/
def unknownInGroup (w : World) (c : Candidate) : List Tag → List String
  | [] => []
  | t :: ts =>
    match t.unknown? with
    | some text => [text]
    | none => if t.holds w c then unknownInGroup w c ts else []

/-- The unknown tags met in groups, which are read up to the first that holds. -/
def unknownInGroups (w : World) (c : Candidate) : List (List Tag) → List String
  | [] => []
  | g :: gs =>
    unknownInGroup w c g ++ if groupHolds w c g then [] else unknownInGroups w c gs

namespace Filter

/-- Whether a candidate is as is asked of agents; objects are. -/
def admitsAgent (f : Filter) : Candidate → Bool
  | .object _ => true
  | .agent a => f.agent.all (·.admits a)

/-- Whether a candidate is included. -/
def includesCandidate (f : Filter) (w : World) (c : Candidate) : Bool :=
  f.includes.isEmpty || f.includes.any (groupHolds w c)

/-- Whether a candidate passes the filter. -/
def admits (f : Filter) (w : World) (c : Candidate) : Bool :=
  f.admitsAgent c && f.includesCandidate w c && !f.excludes.any (groupHolds w c)

/-- The unknown tags met in testing a candidate. -/
def unknownMet (f : Filter) (w : World) (c : Candidate) : List String :=
  if f.admitsAgent c then
    -- A candidate that is not included is not tested any further.
    unknownInGroups w c f.includes ++
      if f.includesCandidate w c then unknownInGroups w c f.excludes else []
  else []

/-- Whether the filter asks for nothing. -/
def isEmpty (f : Filter) : Bool := f.includes.isEmpty && f.excludes.isEmpty && f.agent.isNone

/-- The texts of all unknown tags of the filter. -/
def unknownTags (f : Filter) : List String :=
  (f.includes ++ f.excludes).flatten.filterMap Tag.unknown?

end Filter
end WorkPriority
