import WorkPriority.Signal.Definition
import WorkPriority.Sorted

/-!
# Values of signals

What a signal was measured as: one value for the whole world, and, as far as
the signal asks for them, its breakdowns by zone and by agent, each under keys
in order. `SignalValue.ofMembers` makes them of the measured members of a
population; an invalid record counts nowhere but in the breakdown by agent,
where it says that the agent was there.

An agent is compared with the population by its distance from the mean, and by
that distance in proportion to the spread (`SignalValue.normalizedRank?`).
-/

namespace WorkPriority

variable {α : Type} [Scalar α]

/-- A member of a population and what was measured of it. -/
structure Member (α : Type) where
  /-- The record of the measurement. -/
  value : α
  /-- Where the member is. -/
  zone : Option ZoneId
  /-- The agent that the member is, if it is one. -/
  agent : Option AgentId

/-- Whether the record of a member is that of a measurement. -/
def Member.isValid (m : Member α) : Bool := isMeasured m.value

/-- The record of a member in the breakdown by agent, where all invalid records
    are alike. -/
def Member.record (m : Member α) : α := if m.isValid then m.value else missingValue

/-- The value of a signal, with its breakdowns. -/
structure SignalValue (α : Type) where
  /-- The value for the whole world. -/
  total : α
  /-- The values by zone, if the signal has them. -/
  zones : Option (Keyed ZoneKey α) := none
  /-- The records by agent, if the signal has them. -/
  agents : Option (Keyed AgentId α) := none
  /-- The statistics of the records by agent, if any of them is valid. -/
  statistics : Option (Statistics α) := none

namespace SignalValue

/-- A value without breakdowns. -/
def scalar (x : α) : SignalValue α := { total := x }

/-- The value of a signal that cannot be measured. -/
def zero : SignalValue α := scalar Scalar.zero

/-! ### From populations -/

/-- The measurements of those members that have one. -/
def validValues (ms : List (Member α)) : List α := (ms.filter (·.isValid)).map (·.value)

/-- The breakdown by zone: under the key of every valid member the value of all
    the valid members with that key. -/
def zonesOf (w : World) (a : Aggregation) (ms : List (Member α)) : Keyed ZoneKey α :=
  let valid := ms.filter (·.isValid)
  let keys := Sorted.ofList ZoneKey.order (valid.map fun m => ZoneKey.resolve w m.zone)
  ⟨keys.map fun k =>
    (k, a.apply ((valid.filter fun m => ZoneKey.resolve w m.zone == k).map (·.value)))⟩

/-- The record of the last member that is a given agent. -/
def recordOf (ms : List (Member α)) (id : AgentId) : α :=
  ((ms.reverse.find? fun m => m.agent == some id).map Member.record).getD missingValue

/-- The breakdown by agent. -/
def agentsOf (ms : List (Member α)) : Keyed AgentId α :=
  -- An agent without a valid measurement is listed as well.
  let ids := Sorted.ofList AgentId.number (ms.filterMap (·.agent))
  ⟨ids.map fun id => (id, recordOf ms id)⟩

/-- The value of a signal whose population was measured. -/
def ofMembers (w : World) (s : Signal) (ms : List (Member α)) : SignalValue α :=
  let agents := if s.hasAgents then some (agentsOf ms) else none
  { total := s.aggregation.apply (validValues ms)
    zones := if s.hasZones then some (zonesOf w s.aggregation ms) else none
    agents
    statistics := agents.bind fun t => Statistics.ofRecords? (t.entries.map Prod.snd) }

/-! ### Readings -/

/-- The value at a key of the breakdown by zone, which is zero for a zone
    without members. -/
def zone? (v : SignalValue α) (key : ZoneKey) : Option α :=
  v.zones.map fun t => (t.get? key).getD Scalar.zero

/-- The measurement of an agent. -/
def agent? (v : SignalValue α) (id : AgentId) : Option α :=
  (v.agents.bind fun t => t.get? id).filter isMeasured

/-- How far an agent lies above the mean. -/
def distance? (v : SignalValue α) (id : AgentId) : Option α := do
  let x ← v.agent? id
  let s ← v.statistics
  return x - s.mean

/-- How far an agent lies above the mean, in proportion to the spread. Where
    there is no spread every agent is at the mean. -/
def normalizedRank? (v : SignalValue α) (id : AgentId) : Option α := do
  let x ← v.agent? id
  let s ← v.statistics
  return if Scalar.near s.max s.min then Scalar.zero
    else Scalar.clamp Scalar.negOne Scalar.one ((x - s.mean) / s.range)

end SignalValue
end WorkPriority
