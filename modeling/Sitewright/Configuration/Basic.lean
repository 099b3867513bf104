import Sitewright.Project.Entry
import Sitewright.Text.Basic

/-!
# Configurations

A configuration chooses a strategy by its preset and overrides parts of it. What it leaves out keeps
the value of the preset.
-/

namespace Sitewright

inductive OutputFormat
  /-- The folder as JSON. -/
  | json
  /-- The paths of the files. -/
  | tree
  deriving Repr, DecidableEq, Inhabited

structure OutputSettings where
  folder : String := "dist"
  format : OutputFormat := .json
  deriving Repr, DecidableEq, Inhabited

structure SectionSettings where
  /-- Whether there is the section at all; read for optional sections only. -/
  enabled : Bool := true
  /-- The name of another generator. -/
  generator : Option String := none
  plugins : List String := []
  postProcessors : List String := []
  mappings : List String := []
  path : Option (List String) := none
  fileName : Option String := none
  ownFolders : Option Bool := none
  deriving Repr, DecidableEq, Inhabited

structure ExtraChunk where
  name : String
  content : String := ""
  linkAfter : List String := []
  flags : List String := []
  deriving Repr, DecidableEq, Inhabited

structure EntrySettings where
  enabled : Bool := true
  path : Option (List String) := none
  fileName : Option String := none
  appRoot : Option String := none
  headContent : Option String := none
  customTags : List CustomTag := []
  chunks : List ExtraChunk := []
  deriving Repr, DecidableEq, Inhabited

structure StyleSheetSettings where
  enabled : Bool := true
  generator : Option String := none
  path : Option (List String) := none
  fileName : Option String := none
  importFile : Option Bool := none
  deriving Repr, DecidableEq, Inhabited

structure StrategySettings where
  preset : String := "react"
  staticPrefix : Option String := none
  staticPath : Option (List String) := none
  components : SectionSettings := {}
  pages : SectionSettings := {}
  router : Option SectionSettings := none
  entry : Option EntrySettings := none
  styleSheet : Option StyleSheetSettings := none
  deriving Repr, DecidableEq, Inhabited

structure Configuration where
  /-- The name that replaces the project's own. -/
  projectName : Option String := none
  output : OutputSettings := {}
  strategy : StrategySettings := {}
  /-- A mapping laid over those of all generators. -/
  mapping : Option Mapping := none
  deriving Inhabited

namespace Configuration

inductive Fault
  | unreadable
  | blankPreset
  | blankOutputFolder
  | blankProjectName
  deriving Repr, DecidableEq, Inhabited

def Fault.message : Fault → String
  | unreadable => "Failed to parse uidlgen.toml"
  | blankPreset => "strategy.preset must not be empty in uidlgen.toml"
  | blankOutputFolder => "output.dir must not be empty in uidlgen.toml"
  | blankProjectName => "project.name must not be empty when given"

def validate (c : Configuration) : Except Fault Unit :=
  if isBlankText c.strategy.preset then .error .blankPreset
  else if isBlankText c.output.folder then .error .blankOutputFolder
  else if c.projectName.any isBlankText then .error .blankProjectName
  else .ok ()

end Configuration

end Sitewright
