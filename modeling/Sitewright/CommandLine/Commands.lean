import Sitewright.CommandLine.Arguments
import Sitewright.CommandLine.Starter
import Sitewright.Configuration.Codec
import Sitewright.Configuration.Plan
import Sitewright.Json.Reader
import Sitewright.Number.Decimal
import Sitewright.Project.Generate
import Sitewright.Text.Bytes

/-!
# Commands

What the program does for each command line.
-/

namespace Sitewright.CommandLine

variable {m : Type → Type} [Monad m] [Machine m]

structure Setup where
  configuration : Configuration := {}
  /-- The folder of the configuration's file. -/
  root : String := "."

def Setup.outputFolder (s : Setup) : String := Path.join s.root s.configuration.output.folder

/-- Read the configuration at a path; without a file there is the default one. -/
def loadSetup (path : String) : Run m Setup := do
  if !(← Machine.isThere (m := m) path) then pure {}
  else do
    let fullPath := Path.join (← Machine.workingFolder (m := m)) path
    let text ← readText (.configurationNotRead fullPath) fullPath
    match Configuration.read text with
    | .ok configuration => pure { configuration, root := (Path.parent? fullPath).getD "." }
    | .error fault => throw (.configuration fault)

def compileComponent (config uidl generatorName : String) (importPrefix : Option String) :
    Run m Unit := do
  let setup ← loadSetup config
  let generator ← generated (Catalog.generator "component" generatorName)
  let text ← readText (.inputNotRead uidl) uidl
  match (Json.read? text).bind Component.ofJson? with
  | none => throw (.badComponent uidl)
  | some component => do
    let options : Options :=
      { localPrefix? := importPrefix, mapping := setup.configuration.mapping }
    let compiled ← generated (generator.generate component options)
    for file in compiled.files do
      Machine.print (m := m) s!"// {file.fullName}\n{file.content}\n"
    if !compiled.versions.isEmpty then
      Machine.note (m := m) "\n  Dependencies:\n"
      for e in compiled.versions.entries do
        Machine.note (m := m) s!"    • {e.1}@{e.2}\n"
    Machine.note (m := m) "\n"

/-- The project at a path, under the configured name if there is one. -/
def loadProject (c : Configuration) (path : String) : Run m Project := do
  let text ← readText (.inputNotRead path) path
  match Project.read text with
  | .ok project => pure { project with name := c.projectName.getD project.name }
  | .error fault => throw (.badProject path fault)

def writeFolder (path : String) (folder : Folder) : Run m Unit := do
  match Path.parent? path with
  | some parent => ensure (.folderNotMade parent) (Machine.makeFolders (m := m) parent)
  | none => pure ()
  ensure (.notWritten path) (Machine.write (m := m) path folder.toJson.pretty)
  Machine.note (m := m) s!"  ✓ Wrote {path}\n"

def describeFile (path : String) (file : File) : String :=
  let size := formatSize file.content.utf8ByteSize
  let fingerprint := Fingerprint.ofText file.content
  s!"  • {path} {size} {fingerprint}\n"

def generateProject (config uidl : String) (template out preset : Option String) : Run m Unit := do
  let setup ← loadSetup config
  let settings := setup.configuration.strategy
  let strategy ← generated { settings with preset := preset.getD settings.preset }.toStrategy
  let project ← loadProject setup.configuration uidl
  let name := slug project.name
  let template ← match template with
    | some path => readTemplate path name
    | none => pure { name }
  Machine.note (m := m) s!"→ Generating {project.name} with the {strategy.id} strategy...\n"
  let folder ← generated (strategy.generate project template setup.configuration.mapping)
  let files := folder.allFiles
  match setup.configuration.output.format with
  | .json => writeFolder (out.getD (Path.join setup.outputFolder (name ++ ".json"))) folder
  | .tree =>
    for e in files do
      Machine.print (m := m) s!"{e.1}\n"
  let elapsed ← Machine.elapsed (m := m)
  Machine.note (m := m) s!"\n✓ Generated {files.length} file(s) in {elapsed}\n\n"
  for e in files do
    Machine.note (m := m) (describeFile e.1 e.2)
  Machine.note (m := m) "\n"

def banner : String := "\n◆ uidlgen v0.1.0\n\n"

def Invocation.run (i : Invocation) : Run m Unit := do
  Machine.note (m := m) banner
  match i.command with
  | .project uidl template out preset => generateProject i.config uidl template out preset
  | .component uidl generator importPrefix => compileComponent i.config uidl generator importPrefix
  | .init name preset => start name preset

end Sitewright.CommandLine
