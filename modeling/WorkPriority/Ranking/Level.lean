/-!
# Priority levels

The categories of an agent are ordered by their totals, and the order is cut
into bands: five of equal size, of which the last is disabled, or two, of which
the first takes three fifths. `Level.order` is the order, `Level.atRank` the
level of a place in it, and `Level.assign` the levels of a list of totals.
-/

namespace WorkPriority

/-- How urgently an agent is to do the tasks of a category. -/
inductive Level where
  /-- Not at all. -/
  | disabled
  /-- Where there are no degrees: yes. -/
  | enabled
  /-- In a degree, of which the first is the most urgent. -/
  | degree (n : Nat)
deriving DecidableEq

/-- How many bands there are. -/
inductive LevelMode where
  /-- Four degrees and disabled. -/
  | five
  /-- Enabled and disabled. -/
  | two
deriving DecidableEq

/-- The name of the mode in configurations. -/
def LevelMode.label : LevelMode → String
  | five => "five"
  | two => "two"

namespace Level

/-- Whether the tasks are to be done at all. -/
def isEnabled : Level → Bool
  | disabled => false
  | enabled | degree _ => true

/-- The level as shown in reports. -/
def text : Level → String
  | disabled => "-"
  | enabled => "on"
  | degree n => toString n

/-- The level of place `rank`, counted from zero, in an order of `count`. -/
def atRank (mode : LevelMode) (rank count : Nat) : Level :=
  if count = 0 then disabled
  else
    match mode with
    | .five =>
      let band := rank * 5 / count
      if band < 4 then degree (band + 1) else disabled
    | .two => if rank * 5 < count * 3 then enabled else disabled

/-- The positions of totals from the greatest total to the least. Equal totals
    stay in the order of their positions. -/
def order (totals : List Int) : List Nat :=
  (totals.zipIdx.mergeSort fun a b => b.1 ≤ a.1).map Prod.snd

/-- The level of each of a list of totals. -/
def assign (mode : LevelMode) (totals : List Int) : List Level :=
  let order := order totals
  (List.range totals.length).map fun i => atRank mode (order.idxOf i) totals.length

end Level
end WorkPriority
