import WorkPriority.Rule

/-!
# Issues of definitions

What may be wrong with a document of definitions. Only two things make it
useless as a whole: that it cannot be read, and that it is no such document.
All others are about one entry, and are collected while the rest is loaded.
-/

namespace WorkPriority

/-- The kinds of entries in a document of definitions. -/
inductive EntryKind where
  /-- A signal. -/
  | signal
  /-- A rule. -/
  | rule
  /-- A category. -/
  | category
  /-- A bonus for a passion. -/
  | affinityBonus
deriving DecidableEq

/-- The name of the kind in definitions. -/
def EntryKind.label : EntryKind → String
  | signal => "signal"
  | rule => "rule"
  | category => "category"
  | affinityBonus => "affinity_bonus"

/-- The name under which an entry without a name is reported. -/
def unnamed : String := "(unnamed)"

/-- What may be wrong with definitions. -/
inductive DefinitionIssue where
  /-- The document cannot be read. -/
  | unreadable
  /-- The text is not a document of definitions. -/
  | malformedDocument
  /-- An entry is not of the form of its kind. -/
  | malformedEntry (kind : EntryKind) (name : Option String)
  /-- Something is missing in an entry. -/
  | missingField (kind : EntryKind) (name field : String)
  /-- An interval of a rule is not one. -/
  | invalidInterval (rule text : String)
  /-- A rule has no target. -/
  | noTargets (rule : String)
  /-- A rule looks up a signal that there is not. -/
  | unknownSignal (rule signal : String)
  /-- A rule asks for more than a signal has. -/
  | capabilityMismatch (rule signal : String) (mode : RequestMode) (capability : Capability)
  /-- A name is used before. -/
  | duplicateName (kind : EntryKind) (name : String)
  /-- A rule targets what there is not. -/
  | unknownTarget (rule : String) (target : Target)
deriving DecidableEq

namespace DefinitionIssue

/-- The code of an issue in diagnostics. -/
def code : DefinitionIssue → String
  | unreadable => "rankwork::definition::io"
  | malformedDocument | malformedEntry .. => "rankwork::definition::parse"
  | missingField .. => "rankwork::definition::missing_field"
  | invalidInterval .. => "rankwork::definition::interval"
  | noTargets .. => "rankwork::definition::no_targets"
  | unknownSignal .. => "rankwork::definition::unknown_signal"
  | capabilityMismatch .. => "rankwork::definition::capability"
  | duplicateName .. => "rankwork::definition::duplicate"
  | unknownTarget .. => "rankwork::definition::unknown_target"

/-- What to do about an issue. -/
def help : DefinitionIssue → String
  | unreadable => "Ensure the definitions file exists and is readable."
  | malformedDocument | malformedEntry .. =>
    "Check the TOML syntax. Every [[signal]], [[rule]] and [[category]] needs a `name`."
  | missingField .. =>
    "The source kind or condition type in use requires this field; add it to the definition."
  | invalidInterval .. =>
    "Intervals are written \"min~max\", \"~max\", \"min~\" or as a single number."
  | noTargets .. =>
    "Add at least one entry to `targets`, e.g. \x7b category = \"Cooking\" \x7d."
  | unknownSignal .. => "Define a [[signal]] with this name, or fix the reference."
  | capabilityMismatch _ _ _ capability =>
    "Set `" ++ capability.label ++
      " = true` on the signal, or use the `global` request mode."
  | duplicateName .. => "Definition names must be unique; the first definition is kept."
  | unknownTarget .. =>
    "Declare the target in a [[category]] (as its name or one of its sub_tasks)."

/-- A target in an issue: what it is, and its name in quotes. -/
def describeTarget : Target → String
  | .category name => "category '" ++ name ++ "'"
  | .subTask name => "sub-task '" ++ name ++ "'"

/-- What an issue says. -/
def message : DefinitionIssue → String
  | unreadable => "failed to read definitions"
  | malformedDocument => "failed to parse definitions: not a document of definitions"
  | malformedEntry kind name =>
    "failed to parse definitions: " ++ kind.label ++ " '" ++ name.getD unnamed ++
      "': not of the expected form"
  | missingField kind name field =>
    kind.label ++ " '" ++ name ++ "' is missing required field `" ++ field ++ "`"
  | invalidInterval rule text => "rule '" ++ rule ++ "' has an invalid interval '" ++ text ++ "'"
  | noTargets rule => "rule '" ++ rule ++ "' has no task or sub-task targets"
  | unknownSignal rule signal =>
    "rule '" ++ rule ++ "' references unknown signal '" ++ signal ++ "'"
  | capabilityMismatch rule signal mode capability =>
    "rule '" ++ rule ++ "' requests '" ++ mode.label ++ "' from signal '" ++ signal ++
      "', which is not " ++ capability.label
  | duplicateName kind name => kind.label ++ " '" ++ name ++ "' is defined more than once"
  | unknownTarget rule target => "rule '" ++ rule ++ "' targets unknown " ++ describeTarget target

end DefinitionIssue
end WorkPriority
