import WorkPriority.CommandLine

/-!
# The program

Reads the files that the arguments name, does what they ask for, and prints
what comes of it.
-/

open WorkPriority

/-- The content of a file, if it can be read. -/
def readContent (path : String) : IO (Option ByteArray) := do
  try
    return some (← IO.FS.readBinFile path)
  catch _ =>
    return none

/-- The folder that a path leads into, if it names one. -/
def folderOf (path : String) : Option String :=
  let behind := path.toList.reverse.dropWhile (· != '/')
  match behind with
  | _ :: c :: cs => some (String.ofList (c :: cs).reverse)
  | _ => none

/-- Writes a file, in folders that are made where they are missing. -/
def writeContent (path text : String) : IO Bool := do
  try
    match folderOf path with
    | some folder => IO.FS.createDirAll folder
    | none => pure ()
    IO.FS.writeFile path text
    return true
  catch _ =>
    return false

/-- Prints an outcome. -/
def printOutcome (o : CommandLine.Outcome) : IO UInt32 := do
  for line in o.lines do
    IO.println line
  match o.complaint with
  | some text => IO.eprintln text
  | none => pure ()
  return UInt32.ofNat o.exit

/-- The program. -/
def main (words : List String) : IO UInt32 := do
  let inputs := ((CommandLine.Request.read? words).map (·.inputs)).getD []
  let contents ← inputs.mapM fun path => do return (path, ← readContent path)
  let files : CommandLine.Files := fun path =>
    ((contents.find? fun c => c.1 == path).map Prod.snd).getD none
  let outcome := CommandLine.run files words
  match outcome.file with
  | none => printOutcome outcome
  | some (path, text) =>
    if ← writeContent path text then printOutcome outcome
    else printOutcome (CommandLine.configFailure .unwritable)
