import WorkPriority.Comparison
import WorkPriority.World

/-!
# Tags

A tag is the atom of the filter language: a flag (`forbidden`), a membership
(`def:Steel`), the kind of a zone (`zone:room`), a measured quantity with a
comparison (`attr:Cooking>=5`), or, behind a `!`, the negation of a tag. What
has none of these shapes is kept as an *unknown* tag with its text; it says
nothing about anything, and neither does its negation.

`Tag.read` reads a tag, and `Tag.write` writes it in its standard form.
-/

namespace WorkPriority

/-- The properties that an object or agent may have. -/
inductive Flag where
  /-- In storage. -/
  | inStorage
  /-- Not to be touched. -/
  | forbidden
  /-- Still being built. -/
  | underConstruction
  /-- Dead. -/
  | deceased
  /-- Unable to act. -/
  | incapacitated
  /-- Held captive. -/
  | captive
  /-- A guest. -/
  | guest
  /-- With priorities that are not to be changed for now. -/
  | paused
  /-- Outdoors, or in no known zone. -/
  | outdoors
deriving DecidableEq

namespace Flag

/-- The standard name of the flag. -/
def label : Flag → String
  | inStorage => "in_storage"
  | forbidden => "forbidden"
  | underConstruction => "under_construction"
  | deceased => "deceased"
  | incapacitated => "incapacitated"
  | captive => "captive"
  | guest => "guest"
  | paused => "paused"
  | outdoors => "outdoors"

/-- The flag that a word names. -/
def ofWord? (cs : List Char) : Option Flag :=
  match Text.keyword cs with
  | "in_storage" => some inStorage
  | "stored" => some inStorage
  | "forbidden" => some forbidden
  | "under_construction" => some underConstruction
  | "deceased" => some deceased
  | "dead" => some deceased
  | "incapacitated" => some incapacitated
  | "downed" => some incapacitated
  | "captive" => some captive
  | "prisoner" => some captive
  | "guest" => some guest
  | "paused" => some paused
  | "outdoors" => some outdoors
  | _ => none

end Flag

/-- The quantities that a tag may compare. -/
inductive Measure where
  /-- The size of a stack. -/
  | stack
  /-- The share of hit points that is left. -/
  | hitPoints
  /-- A skill or statistic of an agent. -/
  | attr (name : String)
  /-- How far a need of an agent is met. -/
  | need (name : String)
deriving DecidableEq

/-- The characters of a quantity. -/
def Measure.writeChars : Measure → List Char
  | stack => "stack".toList
  | hitPoints => "hp".toList
  | attr name => "attr:".toList ++ name.toList
  | need name => "need:".toList ++ name.toList

/-- The atom of the filter language. -/
inductive Tag where
  /-- What the tag says does not hold. -/
  | not (t : Tag)
  /-- A property. -/
  | flag (f : Flag)
  /-- An object of that definition. -/
  | definition (name : String)
  /-- An object of that class. -/
  | kind (name : String)
  /-- An object of that category. -/
  | category (name : String)
  /-- An agent of that race. -/
  | race (name : String)
  /-- An agent of that allegiance. -/
  | allegiance (a : Allegiance)
  /-- An agent with that trait. -/
  | trait (name : String)
  /-- An agent that suffers from that. -/
  | affliction (name : String)
  /-- In a zone of that kind. -/
  | zone (k : ZoneKind)
  /-- With a quantity that meets a comparison. -/
  | measure (m : Measure) (c : Comparison)
  /-- A text that is no tag. -/
  | unknown (text : String)

namespace Tag

/-! ### Reading -/

/-- A comparison that takes up the whole text, behind blanks. It does not
    extend over the end of a line. -/
def readComparison? (cs : List Char) : Option Comparison :=
  match Operator.read? (cs.dropWhile Text.isBlank) with
  | some (op, rest) =>
    let rest := rest.dropWhile Text.isBlank
    -- Blanks may be line breaks, but what is compared stands on one line.
    if rest.contains '\n' then none else some (.ofOperator op rest)
  | none => none

/-- The shortest name of at least one character that a comparison follows,
    and that comparison. The characters before `cs` are in `before`, backwards. -/
def readNamed? (before : List Char) : List Char → Option (List Char × Comparison)
  | [] => none
  | c :: cs =>
    if c == '\n' then none
    else
      -- The name is to be as short as possible, so the comparison is tried first.
      match readComparison? cs with
      | some comparison => some ((c :: before).reverse, comparison)
      | none => readNamed? (c :: before) cs

/-- A quantity with a name of its own, and its comparison. -/
def readNamedMeasure? (measure : String → Measure) (cs : List Char) : Option Tag :=
  (readNamed? [] cs).map fun (name, comparison) =>
    .measure (measure (String.ofList (Text.trimChars name))) comparison

/-- A quantity and its comparison. -/
def readMeasure? (cs : List Char) : Option Tag :=
  match Text.stripLead "stack".toList cs with
  | some rest => (readComparison? rest).map (.measure .stack)
  | none =>
    match Text.stripLead "hp".toList cs with
    | some rest => (readComparison? rest).map (.measure .hitPoints)
    | none =>
      match Text.stripLead "attr:".toList cs with
      | some rest => readNamedMeasure? .attr rest
      | none =>
        match Text.stripLead "need:".toList cs with
        | some rest => readNamedMeasure? .need rest
        | none => none

/-- A membership: the word before the colon, and a value that is not blank. -/
def readMembership? (key value : List Char) : Option Tag :=
  let value := Text.trimChars value
  if value.isEmpty then none
  else
    let name := String.ofList value
    match Text.keyword (Text.trimChars key) with
    | "def" => some (definition name)
    | "kind" => some (kind name)
    | "category" => some (category name)
    | "race" => some (race name)
    | "trait" => some (trait name)
    | "affliction" => some (affliction name)
    | "allegiance" => (Allegiance.ofWord? value).map allegiance
    | "zone" => (ZoneKind.ofWord? value).map zone
    | _ => none

/-- A tag without negation and without blanks around it. -/
def readAtom (cs : List Char) : Tag :=
  let tag? :=
    match readMeasure? cs with
    | some tag => some tag
    | none =>
      match Text.splitOnce ':' cs with
      | some (key, value) => readMembership? key value
      | none => (Flag.ofWord? cs).map flag
  tag?.getD (unknown (String.ofList cs))

/-- The tag that the characters stand for. Blanks around a tag do not count,
    nor do those behind its negations. -/
def readChars : List Char → Tag
  | [] => readAtom []
  | c :: cs =>
    if Text.isBlank c then readChars cs
    else if c == '!' then not (readChars cs)
    else readAtom (Text.trimEnd (c :: cs))

/-- The tag that a text stands for. -/
def read (s : String) : Tag := readChars s.toList

/-! ### Writing -/

/-- The characters of a tag in its standard form. -/
def writeChars : Tag → List Char
  | not t => '!' :: t.writeChars
  | flag f => f.label.toList
  | definition name => "def:".toList ++ name.toList
  | kind name => "kind:".toList ++ name.toList
  | category name => "category:".toList ++ name.toList
  | race name => "race:".toList ++ name.toList
  | allegiance a => "allegiance:".toList ++ a.label.toList
  | trait name => "trait:".toList ++ name.toList
  | affliction name => "affliction:".toList ++ name.toList
  | zone k => "zone:".toList ++ k.label.toList
  | measure m c => m.writeChars ++ c.writeChars
  | unknown text => text.toList

/-- A tag in its standard form. -/
def write (t : Tag) : String := String.ofList t.writeChars

/-! ### Properties -/

/-- The text of an unknown tag, under any number of negations. -/
def unknown? : Tag → Option String
  | not t => t.unknown?
  | unknown text => some text
  | _ => none

/-- Whether two tags are the same, their numbers compared as numbers. -/
def same : Tag → Tag → Bool
  | not s, not t => s.same t
  | flag f, flag g => f == g
  | definition a, definition b => a == b
  | kind a, kind b => a == b
  | category a, category b => a == b
  | race a, race b => a == b
  | allegiance a, allegiance b => a == b
  | trait a, trait b => a == b
  | affliction a, affliction b => a == b
  | zone a, zone b => a == b
  | measure m c, measure n d => m == n && c.same d
  | unknown a, unknown b => a == b
  | _, _ => false

end Tag
end WorkPriority
