import WorkPriority.Proofs.Breakdowns
import WorkPriority.Proofs.ExactScalars

/-!
# Agents on a scale

An agent is compared with the population by its distance from the mean, and by that distance
in proportion to the spread, its rank. In exact arithmetic both are the measurements of the
agents on another scale (`SignalValue.rescaling`): whoever has a measurement has them, and
nobody else; the distances cancel out; and unless the spread is so small that it counts as
none, ranks are ordered as the measurements are, from the least to the greatest they span one,
and they lie between minus one and one by themselves, so that bringing them there changes
nothing (`IsSpread`).

This rests on the mean lying between the least measurement and the greatest, and on the
statistics being those of just the measurements that can be read
(`SignalValue.filterMap_agent?`).
-/

namespace WorkPriority

/-! ### Means -/

section Means

variable {xs : List ℚ} (hne : xs ≠ [])

include hne

end Means

/-! ### Exact statistics -/

namespace Statistics.AreOf

variable {st : Statistics ℚ} {xs : List ℚ} (h : st.AreOf xs)

include h

variable {x : ℚ}

end Statistics.AreOf

namespace SignalValue

/-! ### What can be read -/

section Readings

variable {α : Type} [Scalar α] {v : SignalValue α} {id : AgentId} {x : α} {st : Statistics α}

variable {w : World} {s : Signal} (hs : s.hasAgents = true) (ms : List (Member α))

include hs

end Readings

end SignalValue

/-! ### Exact readings -/

/-- A member read in exact arithmetic. -/
def Member.exact (m : Member Float) : Member ℚ where
  value := Decimal.exactValue m.record
  zone := m.zone
  agent := m.agent

namespace SignalValue

section Exact

variable {ms : List (Member Float)} (hfinite : ∀ m ∈ ms, m.record.isFinite = true)

include hfinite

end Exact

end SignalValue

/-! ### Scales -/

namespace SignalValue

section Population

variable {w : World} {s : Signal} (hs : s.hasAgents = true) {ms : List (Member ℚ)}

include hs

end Population

end SignalValue

namespace Race

end Race

namespace SignalValue

end SignalValue
end WorkPriority
