import WorkPriority.Config

/-!
# Cadence

When cycles are due. Two counters count ticks; each comes due when it reaches
its interval, and starts again at zero. Nobody makes up for ticks that were not
counted.
-/

namespace WorkPriority

/-- The counters of ticks. -/
structure Cadence where
  /-- The ticks from one urgent cycle to the next, one at least. -/
  urgentInterval : Nat
  /-- The ticks from one normal cycle to the next, one at least. -/
  normalInterval : Nat
  /-- The ticks since an urgent cycle was due. -/
  sinceUrgent : Nat := 0
  /-- The ticks since a normal cycle was due. -/
  sinceNormal : Nat := 0

/-- Which cycles are due. -/
structure Due where
  /-- An urgent cycle. -/
  urgent : Bool
  /-- A normal cycle. -/
  normal : Bool
deriving DecidableEq

namespace Cadence

/-- The counters at the start, for intervals of one tick at least. -/
def ofIntervals (urgent normal : Nat) : Cadence :=
  { urgentInterval := Max.max urgent 1, normalInterval := Max.max normal 1 }

/-- The counters at the start, for a configuration. -/
def ofConfig (c : Config) : Cadence := ofIntervals c.urgentInterval c.normalInterval

/-- Counts a tick. -/
def tick (c : Cadence) : Due × Cadence :=
  let urgent := decide (c.urgentInterval ≤ c.sinceUrgent + 1)
  let normal := decide (c.normalInterval ≤ c.sinceNormal + 1)
  (⟨urgent, normal⟩,
    { c with
      sinceUrgent := if urgent then 0 else c.sinceUrgent + 1
      sinceNormal := if normal then 0 else c.sinceNormal + 1 })

/-- How many ticks there are until a normal cycle is due. -/
def untilNormal (c : Cadence) : Nat := c.normalInterval - c.sinceNormal

end Cadence
end WorkPriority
