import WorkPriority.Config
import WorkPriority.Registry

/-!
# Loading

Definitions, worlds and configurations from the contents of files: `none` is
the content of a file that there is not. A file that does not hold a text, in
UTF-8, cannot be read.
-/

namespace WorkPriority

/-- The text of a file, if there is the file and it holds a text. -/
def fileText? (content : Option ByteArray) : Option String := content.bind String.fromUTF8?

/-! ### Definitions -/

/-- The definitions in a text. -/
def Registry.ofText (text : String) : Except DefinitionIssue Registry :=
  match (Toml.read? text).bind Document.ofValue? with
  | none => .error .malformedDocument
  | some d => .ok (.ofDocument d)

/-- The definitions in a file. -/
def Registry.load (content : Option ByteArray) : Except DefinitionIssue Registry :=
  match fileText? content with
  | none => .error .unreadable
  | some text => Registry.ofText text

/-! ### Worlds -/

/-- What may be wrong with a world. -/
inductive WorldError where
  /-- The document cannot be read. -/
  | unreadable
  /-- The text is not a world. -/
  | malformed
deriving DecidableEq

namespace WorldError

/-- The code of an error in diagnostics. -/
def code : WorldError → String
  | unreadable => "rankwork::world::read"
  | malformed => "rankwork::world::parse"

/-- What to do about an error. -/
def help : WorldError → String
  | unreadable => "Ensure the snapshot file exists and is readable."
  | malformed =>
    "World snapshots are JSON documents with `agents`, `objects` and `zones` arrays."

/-- What an error says. -/
def message : WorldError → String
  | unreadable => "failed to read world snapshot"
  | malformed => "failed to parse world snapshot"

end WorldError

/-- The world in a text. -/
def World.ofText (text : String) : Except WorldError World :=
  match ofJson? text with
  | none => .error .malformed
  | some w => .ok w

/-- The world in a file. -/
def World.load (content : Option ByteArray) : Except WorldError World :=
  match fileText? content with
  | none => .error .unreadable
  | some text => World.ofText text

/-! ### Configurations -/

/-- The configuration in a file, checked. -/
def Config.load (content : Option ByteArray) : Except ConfigError Config :=
  match fileText? content with
  | none => .error .unreadable
  | some text => Config.ofText text

end WorkPriority
