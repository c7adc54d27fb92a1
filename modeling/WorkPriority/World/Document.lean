import WorkPriority.Data.Json
import WorkPriority.World

/-!
# Worlds as documents

A world is given as a JSON document. Nearly everything in it has a value that
stands in where nothing is said; fields that are not known are passed over.

* `World.ofJson?` reads a world.
* `World.toValue` is a world with every field written out.
-/

namespace WorkPriority

open Value

/-- A list of texts. -/
def Value.texts? (v : Value) : Option (List String) := v.listOf text?

/-- A zone id. -/
def ZoneId.ofValue? (v : Value) : Option ZoneId := (v.nat? 64).map ZoneId.mk

/-- A kind of zone. -/
def ZoneKind.ofValue? : Value → Option ZoneKind :=
  wordOf ([ZoneKind.room, .storage, .growing, .outdoors].map fun k => (k.label, k))

/-- A zone. -/
def Zone.ofValue? (v : Value) : Option Zone := do
  let fs ← v.table?
  return {
    id := ← required "id" ZoneId.ofValue? fs
    label := ← required "label" text? fs
    kind := ← required "kind" ZoneKind.ofValue? fs }

/-- The work on something that is being built. -/
def Construction.ofValue? (v : Value) : Option Construction := do
  let fs ← v.table?
  return {
    workDone := ← required "work_done" float? fs
    workTotal := ← required "work_total" float? fs }

/-- An object. -/
def WorldObject.ofValue? (v : Value) : Option WorldObject := do
  let fs ← v.table?
  return {
    id := ⟨← required "id" (nat? 64) fs⟩
    defName := ← required "def_name" text? fs
    kind := ← withDefault "kind" text? "" fs
    categories := ← withDefault "categories" texts? [] fs
    stackCount := ← withDefault "stack_count" (nat? 32) 1 fs
    hitPoints := ← withDefault "hit_points" float? 1.0 fs
    zone := ← optional "zone" ZoneId.ofValue? fs
    inStorage := ← withDefault "in_storage" bool? false fs
    forbidden := ← withDefault "forbidden" bool? false fs
    construction := ← optional "construction" Construction.ofValue? fs }

/-- An allegiance. -/
def Allegiance.ofValue? : Value → Option Allegiance :=
  wordOf (Allegiance.all.map fun a => (a.label, a))

/-- A passion. -/
def Passion.ofValue? : Value → Option Passion :=
  wordOf ([Passion.none, .minor, .major].map fun p => (p.label, p))

/-- An agent. Of attributes, needs and passions that are given twice the last
    counts. -/
def Agent.ofValue? (v : Value) : Option Agent := do
  let fs ← v.table?
  let attributes ← withDefault "attributes" (tableOf float?) [] fs
  let needs ← withDefault "needs" (tableOf float?) [] fs
  let passions ← withDefault "passions" (tableOf Passion.ofValue?) [] fs
  return {
    id := ⟨← required "id" (nat? 64) fs⟩
    name := ← required "name" text? fs
    race := ← withDefault "race" text? "human" fs
    allegiance := ← withDefault "allegiance" Allegiance.ofValue? .member fs
    zone := ← optional "zone" ZoneId.ofValue? fs
    deceased := ← withDefault "deceased" bool? false fs
    incapacitated := ← withDefault "incapacitated" bool? false fs
    captive := ← withDefault "captive" bool? false fs
    guest := ← withDefault "guest" bool? false fs
    paused := ← withDefault "paused" bool? false fs
    attributes := .ofList attributes
    needs := .ofList needs
    traits := ← withDefault "traits" texts? [] fs
    afflictions := ← withDefault "afflictions" texts? [] fs
    passions := .ofList passions
    disabledCategories := (← withDefault "disabled_categories" texts? [] fs).eraseDups }

namespace World

/-- A world. -/
def ofValue? (v : Value) : Option World := do
  let fs ← v.table?
  return {
    tick := ← withDefault "tick" (nat? 64) 0 fs
    zones := ← withDefault "zones" (listOf Zone.ofValue?) [] fs
    objects := ← withDefault "objects" (listOf WorldObject.ofValue?) [] fs
    agents := ← withDefault "agents" (listOf Agent.ofValue?) [] fs
    conditions := ← withDefault "conditions" texts? [] fs
    weather := ← optional "weather" text? fs }

/-- The world that a JSON document describes. -/
def ofJson? (s : String) : Option World := (Json.read? s).bind ofValue?

end World

/-! ### Writing -/

/-- A zone id, if there is one. -/
def ZoneId.toValue (id : Option ZoneId) : Value := ofOption (fun z => .count z.number) id

/-- A zone. -/
def Zone.toValue (z : Zone) : Value :=
  .table [("id", .count z.id.number), ("label", .text z.label), ("kind", .text z.kind.label)]

/-- The work on something that is being built. -/
def Construction.toValue (c : Construction) : Value :=
  .table [("work_done", .float c.workDone), ("work_total", .float c.workTotal)]

/-- An object. -/
def WorldObject.toValue (o : WorldObject) : Value :=
  .table [
    ("id", .count o.id.number),
    ("def_name", .text o.defName),
    ("kind", .text o.kind),
    ("categories", ofTexts o.categories),
    ("stack_count", .count o.stackCount),
    ("hit_points", .float o.hitPoints),
    ("zone", ZoneId.toValue o.zone),
    ("in_storage", .bool o.inStorage),
    ("forbidden", .bool o.forbidden),
    ("construction", ofOption Construction.toValue o.construction)]

/-- A table of entries under names. -/
def Keyed.toValue (write : α → Value) (t : Keyed String α) : Value :=
  .table (t.map fun _ a => write a).entries

/-- An agent. The categories that it cannot do are a set, and written in order. -/
def Agent.toValue (a : Agent) : Value :=
  .table [
    ("id", .count a.id.number),
    ("name", .text a.name),
    ("race", .text a.race),
    ("allegiance", .text a.allegiance.label),
    ("zone", ZoneId.toValue a.zone),
    ("deceased", .bool a.deceased),
    ("incapacitated", .bool a.incapacitated),
    ("captive", .bool a.captive),
    ("guest", .bool a.guest),
    ("paused", .bool a.paused),
    ("attributes", a.attributes.toValue .float),
    ("needs", a.needs.toValue .float),
    ("traits", ofTexts a.traits),
    ("afflictions", ofTexts a.afflictions),
    ("passions", a.passions.toValue fun p => .text p.label),
    ("disabled_categories", ofTexts (a.disabledCategories.mergeSort fun c d => decide (c ≤ d)))]

/-- A world. -/
def World.toValue (w : World) : Value :=
  .table [
    ("tick", .count w.tick),
    ("zones", ofList Zone.toValue w.zones),
    ("objects", ofList WorldObject.toValue w.objects),
    ("agents", ofList Agent.toValue w.agents),
    ("conditions", ofTexts w.conditions),
    ("weather", ofOption .text w.weather)]

end WorkPriority
