import WorkPriority.Filter
import WorkPriority.Signal.Aggregation
import WorkPriority.Signal.Source

/-!
# Signals

A signal is a named quantity of a world: it takes a population from a source,
leaves out what its filter does not admit, measures each member and makes one
value of the measurements. A signal that is `locatable` is also broken down by
zone, and one that is `individualizable` by agent, as far as its source has
places or agents.
-/

namespace WorkPriority

/-- A named quantity of a world. -/
structure Signal where
  /-- Its name. -/
  name : String
  /-- Where the population comes from. -/
  source : Source
  /-- How the measurements become one value. -/
  aggregation : Aggregation := .sum
  /-- Who or what is measured. -/
  filter : Filter := {}
  /-- Whether to break the value down by zone. -/
  locatable : Bool := false
  /-- Whether to break the value down by agent. -/
  individualizable : Bool := false
  /-- Whether the signal is measured more often than others. -/
  urgent : Bool := false

namespace Signal

/-- Whether there is a breakdown by zone. -/
def hasZones (s : Signal) : Bool := s.locatable && s.source.kind.hasPlace

/-- Whether there is a breakdown by agent. -/
def hasAgents (s : Signal) : Bool := s.individualizable && s.source.kind.isOfAgents

end Signal
end WorkPriority
