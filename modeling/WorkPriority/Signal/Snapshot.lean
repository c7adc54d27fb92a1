import WorkPriority.Signal.Evaluation

/-!
# Snapshots of signals

The values of signals that rules read: those that one cycle measured, together
with older ones that it left as they were. A snapshot is replaced as a whole;
who holds an older one keeps it unchanged.
-/

namespace WorkPriority

/-- The values of signals, by name. -/
structure Snapshot where
  /-- The tick of the cycle that made the snapshot. -/
  tick : Nat := 0
  /-- The values. -/
  values : Keyed String (SignalValue Float) := .empty

namespace Snapshot

/-- The value of a signal. -/
def value? (s : Snapshot) (name : String) : Option (SignalValue Float) := s.values.get? name

/-- The value of a signal for the whole world. -/
def total? (s : Snapshot) (name : String) : Option Float := (s.value? name).map (·.total)

/-- The snapshot with a value under a name. -/
def set (s : Snapshot) (name : String) (v : SignalValue Float) : Snapshot :=
  { s with values := s.values.set name v }

/-- The snapshot of a later tick: the same values, with updates laid over them. -/
def merge (s : Snapshot) (tick : Nat) (updates : List (String × SignalValue Float)) : Snapshot :=
  { tick, values := s.values.setAll updates }

/-- The snapshot of a tick with no other values than those given. -/
def ofValues (tick : Nat) (values : List (String × SignalValue Float)) : Snapshot :=
  merge {} tick values

end Snapshot
end WorkPriority
