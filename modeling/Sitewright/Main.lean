import Sitewright.CommandLine.Commands

/-!
# The program
-/

namespace Sitewright.CommandLine

def succeeds (action : IO Unit) : IO Bool := do
  try action; pure true catch _ => pure false

/-- The files below a folder that some steps lead to, in the order of their names. -/
partial def filesIn (path : String) (steps : List String) : IO (List (List String)) := do
  let folder := (← IO.currentDir) / steps.foldl Path.join path
  let entries := (← folder.readDir).toList.mergeSort fun a b => a.fileName ≤ b.fileName
  let found ← entries.mapM fun entry => do
    let below := steps ++ [entry.fileName]
    match (← entry.path.symlinkMetadata).type with
    | .dir => filesIn path below
    | .file => pure [below]
    | _ => pure []
  pure found.flatten

def filesAt (path : String) : IO (List (List String)) := do
  if ← ((← IO.currentDir) / path).isDir then filesIn path []
  else
    let _ ← ((← IO.currentDir) / path).metadata
    pure [[]]

/-- The machine the program runs on. The time of the start is given in milliseconds. -/
instance : Machine (ReaderT Nat IO) where
  workingFolder := do pure (← IO.currentDir).toString
  isThere path := do pure (path ≠ "" && (← ((← IO.currentDir) / path).pathExists))
  read? path := do
    try pure (some (← IO.FS.readBinFile path)) catch _ => pure none
  filesBelow? path := do
    if path = "" then pure none
    else try pure (some (← filesAt path)) catch _ => pure none
  makeFolders path := do
    if path = "" then pure true else succeeds (IO.FS.createDirAll path)
  write path content := succeeds (IO.FS.writeFile path content)
  print text := IO.print text
  note text := IO.eprint text
  elapsed := do
    let milliseconds := (← IO.monoMsNow) - (← read)
    pure (formatDuration ⟨milliseconds / 1000, milliseconds % 1000 * 1000000⟩)

def helpText : String :=
  "Generate framework source projects (React, plain HTML) from a UIDL component tree\n\n" ++
  "Usage: uidlgen [OPTIONS] <COMMAND>\n\n" ++
  "Commands:\n" ++
  "  project    Generate a project from a project UIDL file\n" ++
  "  component  Generate a single component from a component UIDL file\n" ++
  "  init       Write a starter uidlgen.toml and a sample project UIDL\n" ++
  "  help       Print this message\n\n" ++
  "Options:\n" ++
  "  -v, --verbose          Enable verbose output\n" ++
  "  -c, --config <CONFIG>  Path to uidlgen.toml config file [default: uidlgen.toml]\n" ++
  "  -h, --help             Print help\n" ++
  "  -V, --version          Print version\n"

def explain : Usage → IO Unit
  | .help => IO.print helpText
  | .version => IO.println "uidlgen 0.1.0"
  | .nothingGiven => IO.eprint helpText
  | .missingCommand => complain "a subcommand is needed"
  | .unknownCommand => complain "unrecognized subcommand"
  | .missingOperand => complain "a required argument was not provided"
  | .unknownArgument => complain "unexpected argument"
  | .missingValue => complain "a value is required"
  | .unexpectedValue => complain "unexpected value"
  | .repeatedOption => complain "an option cannot be used multiple times"
where
  complain (what : String) : IO Unit := IO.eprint ("error: " ++ what ++ "\n\n" ++ helpText)

def runWords (words : List String) : IO UInt32 := do
  match Invocation.ofWords words with
  | .error usage => do
    explain usage
    pure usage.exitCode.toUInt32
  | .ok invocation => do
    let start ← IO.monoMsNow
    let outcome ← (invocation.run : Run (ReaderT Nat IO) Unit).run.run start
    match outcome with
    | .ok () => pure 0
    | .error failure => do
      IO.eprintln s!"Error: {failure.message}"
      if let .badProject _ fault := failure then
        IO.eprintln s!"\nCaused by:\n    {fault.message}"
      pure 1

end Sitewright.CommandLine

def main (words : List String) : IO UInt32 := Sitewright.CommandLine.runWords words
