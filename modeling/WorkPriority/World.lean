import WorkPriority.Keyed
import WorkPriority.Text

/-!
# Worlds

The world that work is prioritised in, as it stands at one tick of its clock:
zones, objects, the agents who work, and the conditions of their environment.
The engine only reads worlds. An id should name one zone, object or agent; if
several share one, a look-up finds the first.

Zones of the outdoors have no bounds worth telling apart. For the breakdown of
a quantity by zone they are one with having no zone at all (`ZoneKey.resolve`).
-/

namespace WorkPriority

/-! ### Identifiers -/

/-- Names an agent. -/
structure AgentId where
  /-- The number of the agent. -/
  number : Nat
deriving DecidableEq

/-- Names an object. -/
structure ObjectId where
  /-- The number of the object. -/
  number : Nat
deriving DecidableEq

/-- Names a zone. -/
structure ZoneId where
  /-- The number of the zone. -/
  number : Nat
deriving DecidableEq

/-- An agent's id as shown in reports. -/
def AgentId.text (a : AgentId) : String := "agent:" ++ toString a.number

/-- A zone's id as shown in reports. -/
def ZoneId.text (z : ZoneId) : String := "zone:" ++ toString z.number

/-! ### Zones -/

/-- What a zone is for. -/
inductive ZoneKind where
  /-- A room. -/
  | room
  /-- A place where things are stored. -/
  | storage
  /-- A field. -/
  | growing
  /-- Open land. -/
  | outdoors
deriving DecidableEq

namespace ZoneKind

/-- The name of the kind in documents. -/
def label : ZoneKind → String
  | room => "room"
  | storage => "storage"
  | growing => "growing"
  | outdoors => "outdoors"

/-- The kind that a word of the tag language names. -/
def ofWord? (cs : List Char) : Option ZoneKind :=
  match Text.keyword cs with
  | "room" => some room
  | "storage" => some storage
  | "stockpile" => some storage
  | "growing" => some growing
  | "outdoors" => some outdoors
  | _ => none

end ZoneKind

/-- A zone. -/
structure Zone where
  /-- Its id. -/
  id : ZoneId
  /-- What it is called. -/
  label : String
  /-- What it is for. -/
  kind : ZoneKind

/-! ### Objects -/

/-- The work on something that is being built. -/
structure Construction where
  /-- The work done so far. -/
  workDone : Float
  /-- The work that it takes in all. -/
  workTotal : Float

/-- A thing in the world: a stack of items, a building, a plant, a blueprint. -/
structure WorldObject where
  /-- Its id. -/
  id : ObjectId
  /-- The name of what it is. -/
  defName : String
  /-- The class of things that it belongs to. -/
  kind : String := ""
  /-- The categories that it belongs to. -/
  categories : List String := []
  /-- How many pieces the stack has. -/
  stackCount : Nat := 1
  /-- The share of its hit points that is left. -/
  hitPoints : Float := 1.0
  /-- The zone that it is in. -/
  zone : Option ZoneId := none
  /-- Whether it is in storage. -/
  inStorage : Bool := false
  /-- Whether agents must not touch it. -/
  forbidden : Bool := false
  /-- The work on it, if it is still being built. -/
  construction : Option Construction := none

/-! ### Agents -/

/-- How an agent stands to those who give out the work. -/
inductive Allegiance where
  /-- One of their own. -/
  | member
  /-- A prisoner. -/
  | prisoner
  /-- A slave. -/
  | slave
  /-- A guest. -/
  | guest
  /-- Neither friend nor foe. -/
  | neutral
  /-- A foe. -/
  | hostile
deriving DecidableEq

namespace Allegiance

/-- All allegiances. -/
def all : List Allegiance := [member, prisoner, slave, guest, neutral, hostile]

/-- The name of the allegiance in documents. -/
def label : Allegiance → String
  | member => "member"
  | prisoner => "prisoner"
  | slave => "slave"
  | guest => "guest"
  | neutral => "neutral"
  | hostile => "hostile"

/-- The allegiance that a word of the tag language names. -/
def ofWord? (cs : List Char) : Option Allegiance :=
  match Text.keyword cs with
  | "member" => some member
  | "colonist" => some member
  | "prisoner" => some prisoner
  | "slave" => some slave
  | "guest" => some guest
  | "neutral" => some neutral
  | "hostile" => some hostile
  | _ => none

end Allegiance

/-- How much an agent likes to use a skill. -/
inductive Passion where
  /-- No more than anything else. -/
  | none
  /-- Some. -/
  | minor
  /-- Much. -/
  | major
deriving DecidableEq

namespace Passion

/-- The name of the passion in documents. -/
def label : Passion → String
  | none => "none"
  | minor => "minor"
  | major => "major"

/-- How strong a passion is. -/
def magnitude : Passion → Nat
  | none => 0
  | minor => 1
  | major => 2

end Passion

/-- Someone whose work is prioritised. -/
structure Agent where
  /-- Its id. -/
  id : AgentId
  /-- What it is called. -/
  name : String
  /-- Its race. -/
  race : String := "human"
  /-- Its allegiance. -/
  allegiance : Allegiance := .member
  /-- The zone that it is in. -/
  zone : Option ZoneId := none
  /-- Whether it is dead. -/
  deceased : Bool := false
  /-- Whether it cannot act. -/
  incapacitated : Bool := false
  /-- Whether it is held captive. -/
  captive : Bool := false
  /-- Whether it is a guest. -/
  guest : Bool := false
  /-- Whether its priorities are not to be changed for now. -/
  paused : Bool := false
  /-- Its skills and statistics. -/
  attributes : Keyed String Float := .empty
  /-- How far its needs are met. -/
  needs : Keyed String Float := .empty
  /-- Its traits. -/
  traits : List String := []
  /-- What it suffers from. -/
  afflictions : List String := []
  /-- Its passions, by skill. -/
  passions : Keyed String Passion := .empty
  /-- The categories of work that it cannot do. -/
  disabledCategories : List String := []

/-- The passion for a skill, which is none where nothing else is said. -/
def Agent.passion (a : Agent) (skill : String) : Passion := (a.passions.get? skill).getD .none

/-! ### The world -/

/-- The state of the world at one tick of its clock. -/
structure World where
  /-- The tick. -/
  tick : Nat := 0
  /-- The zones. -/
  zones : List Zone := []
  /-- The objects. -/
  objects : List WorldObject := []
  /-- The agents. -/
  agents : List Agent := []
  /-- The conditions of the environment that hold. -/
  conditions : List String := []
  /-- The weather. -/
  weather : Option String := none

namespace World

/-- The zone of an id. -/
def zone? (w : World) (id : ZoneId) : Option Zone := w.zones.find? fun z => z.id == id

/-- The agent of an id. -/
def agent? (w : World) (id : AgentId) : Option Agent := w.agents.find? fun a => a.id == id

/-- Whether a condition of the environment holds. -/
def hasCondition (w : World) (name : String) : Bool :=
  w.conditions.any fun c => Text.sameLetters c name

/-- Whether the weather is one of those named. -/
def hasWeather (w : World) (names : List String) : Bool :=
  w.weather.any fun now => names.any fun n => Text.sameLetters n now

/-- The world one tick later, with nothing else changed. The clock has 64 binary
    digits, so after its last tick it begins again at zero. -/
def advance (w : World) : World := { w with tick := (w.tick + 1) % Nat.pow 2 64 }

end World

/-! ### Keys of breakdowns -/

/-- What the part of a quantity that belongs to a zone is listed under. -/
inductive ZoneKey where
  /-- Outdoors, or nowhere in particular. -/
  | unscoped
  /-- A zone with bounds. -/
  | zone (id : ZoneId)
deriving DecidableEq

namespace ZoneKey

/-- The key of what is in a zone. A zone that is not known or lies outdoors has
    none of its own. -/
def resolve (w : World) (zone : Option ZoneId) : ZoneKey :=
  match zone.bind w.zone? with
  | some z => if z.kind = .outdoors then unscoped else .zone z.id
  | none => unscoped

/-- The key as shown in reports. -/
def text : ZoneKey → String
  | unscoped => "unscoped"
  | zone id => id.text

/-- The place of a key in the order of breakdowns: what has no zone comes
    first, then the zones by their numbers. -/
def order : ZoneKey → Nat
  | unscoped => 0
  | zone id => id.number + 1

/-- Different keys have different places. -/
theorem order_injective {a b : ZoneKey} (h : a.order = b.order) : a = b := by
  cases a with
  | unscoped =>
    cases b with
    | unscoped => rfl
    | zone i => simp only [order] at h; omega
  | zone i =>
    cases b with
    | unscoped => simp only [order] at h; omega
    | zone j =>
      cases i; cases j
      simp only [order] at h
      simp only [zone.injEq, ZoneId.mk.injEq]
      omega

end ZoneKey
end WorkPriority
