import WorkPriority.Keyed

/-!
# Caches

Values under names, each with the tick at which it was stored. A value lives
for a fixed number of ticks, the lifetime of the cache: it is found while fewer
ticks than that have passed since it was stored. To the cache, a clock that
went back stands where the value was stored.

`Cache.getOrCompute` takes what is alive, and `Cache.refresh` only what was
stored on the very tick; both store what they have to compute.
-/

namespace WorkPriority

/-- Values under names, with a lifetime in ticks. -/
structure Cache (α : Type) where
  /-- For how many ticks a value is found. -/
  lifetime : Nat
  /-- The values, with the ticks at which they were stored. -/
  slots : Keyed String (Nat × α) := .empty

namespace Cache

variable {α : Type}

/-- Whether what was stored at a tick is alive at another. -/
def isAlive (c : Cache α) (now stored : Nat) : Bool := decide (now - stored < c.lifetime)

/-- The value under a name, if it is alive. -/
def get? (c : Cache α) (name : String) (now : Nat) : Option α :=
  match c.slots.get? name with
  | some (stored, a) => if c.isAlive now stored then some a else none
  | none => none

/-- The value under a name, if it was stored at this tick. -/
def stored? (c : Cache α) (name : String) (now : Nat) : Option α :=
  match c.slots.get? name with
  | some (stored, a) => if stored = now then some a else none
  | none => none

/-- Stores a value under a name, in the place of what was there. -/
def store (c : Cache α) (name : String) (a : α) (now : Nat) : Cache α :=
  { c with slots := c.slots.set name (now, a) }

/-- The value under a name if it is alive, or else one that is computed and stored. -/
def getOrCompute (c : Cache α) (name : String) (now : Nat) (compute : Unit → α) : α × Cache α :=
  match c.get? name now with
  | some a => (a, c)
  | none => let a := compute (); (a, c.store name a now)

/-- The value under a name if it was stored at this tick, or else one that is
    computed and stored. -/
def refresh (c : Cache α) (name : String) (now : Nat) (compute : Unit → α) : α × Cache α :=
  match c.stored? name now with
  | some a => (a, c)
  | none => let a := compute (); (a, c.store name a now)

/-- Drops what is not alive. -/
def purge (c : Cache α) (now : Nat) : Cache α :=
  { c with slots := c.slots.filter fun _ slot => c.isAlive now slot.1 }

/-- How many values there are, alive or not. -/
def size (c : Cache α) : Nat := c.slots.size

end Cache
end WorkPriority
