import Sitewright.Configuration.Basic
import Sitewright.Project.Strategy

/-!
# From a configuration to a strategy

The catalog holds what a configuration may call by name: generators, plugins, post-processors,
mappings and whole strategies. The sections of the strategy are overridden one after another, and
the first fault is reported: static files, components, pages, router, entry, style sheet. The
finished strategy is validated.
-/

namespace Sitewright.Catalog

def generators : List (String × Generator) :=
  [("react-component", .reactComponent), ("react-router", .reactRouter),
    ("html-component", .htmlComponent), ("project-stylesheet", .projectStyleSheet)]

def postProcessors : List PostProcessor := [normalizeWhitespace, formatCss]

def mappings : List (String × Mapping) := [("react", .react), ("html", .html)]

def strategies : List Strategy := [.react, .html]

def found {α : Type} (fault : Fault) : Option α → Outcome α
  | some a => .ok a
  | none => .error fault

def generator (area name : String) : Outcome Generator :=
  found (.undefinedGenerator area name) (generators.lookup name)

def plugin (name : String) : Outcome Plugin :=
  found (.undefinedPlugin name) (builtinPlugins.find? (·.name = name))

def postProcessor (name : String) : Outcome PostProcessor :=
  found (.undefinedPostProcessor name) (postProcessors.find? (·.name = name))

def mapping (name : String) : Outcome Mapping :=
  found (.undefinedMapping name) (mappings.lookup name)

def strategy (preset : String) : Outcome Strategy :=
  found (.invalidStrategy s!"unknown strategy preset '{preset}'")
    (strategies.find? (·.id = preset))

/-- A generator with the named mappings, plugins and post-processors added, which are looked up in
this order. -/
def extended (g : Generator) (mappingNames pluginNames postProcessorNames : List String) :
    Outcome Generator := do
  let mappings ← mappingNames.mapM mapping
  let plugins ← pluginNames.mapM plugin
  let postProcessors ← postProcessorNames.mapM postProcessor
  pure (g.extend mappings plugins postProcessors)

end Sitewright.Catalog

namespace Sitewright

def SectionSettings.generatorFrom (s : SectionSettings) (area : String) (preset : Generator) :
    Outcome Generator := do
  let base ← match s.generator with
    | some name => Catalog.generator area name
    | none => pure preset
  Catalog.extended base s.mappings s.plugins s.postProcessors

def SectionSettings.components (s : SectionSettings) (area : String) (preset : ComponentSection) :
    Outcome ComponentSection := do
  pure { generator := ← s.generatorFrom area preset.generator
         path := s.path.getD preset.path
         ownFolders := s.ownFolders.getD preset.ownFolders
         fileName := s.fileName <|> preset.fileName }

def SectionSettings.router (s : SectionSettings) (preset : RouterSection) :
    Outcome RouterSection := do
  pure { generator := ← s.generatorFrom "router" preset.generator
         path := s.path.getD preset.path
         fileName := s.fileName.getD preset.fileName }

def ExtraChunk.toChunk (c : ExtraChunk) : Outcome Chunk :=
  c.flags.foldlM Chunk.withFlagNamed ((Chunk.ofText c.name .html c.content).after c.linkAfter)

/-- Override the entry document. The extra chunks come after those of the preset, or replace
them. -/
def EntrySettings.entry (s : EntrySettings) (preset : EntrySection) : Outcome EntrySection := do
  let extra ← s.chunks.mapM ExtraChunk.toChunk
  pure { preset with
    path := s.path.getD preset.path
    fileName := s.fileName.getD preset.fileName
    chunks := fun p options => (preset.chunks p options).addAll extra
    options := { preset.options with
      appRoot := s.appRoot, headContent := s.headContent, customTags := s.customTags } }

def StyleSheetSettings.styleSheet (s : StyleSheetSettings) (preset : StyleSheetSection) :
    Outcome StyleSheetSection := do
  let generator ← match s.generator with
    | some name => Catalog.generator "style_sheet" name
    | none => pure preset.generator
  pure { generator
         path := s.path.getD preset.path
         fileName := s.fileName.getD preset.fileName
         importFile := s.importFile.getD preset.importFile }

/-- Override an optional section of a preset: without settings it stays, disabled it goes, and it
cannot be overridden if the preset has none. -/
def overrideSection {σ α : Type} (preset area : String) (enabled : σ → Bool)
    (override : σ → α → Outcome α) (settings : Option σ) (current : Option α) :
    Outcome (Option α) :=
  match settings, current with
  | none, current => .ok current
  | some s, current =>
    if !enabled s then .ok none
    else match current with
      | some a => (override s a).map some
      | none => .error (.invalidStrategy s!"the {preset} preset has no {area} section to configure")

def StrategySettings.toStrategy (s : StrategySettings) : Outcome Strategy := do
  let preset ← Catalog.strategy s.preset
  let statics : StaticSection :=
    { assetsPrefix := s.staticPrefix <|> preset.statics.assetsPrefix
      path := s.staticPath.getD preset.statics.path }
  let components ← s.components.components "components" preset.components
  let pages ← s.pages.components "pages" preset.pages
  let router ← overrideSection s.preset "router" SectionSettings.enabled SectionSettings.router
    s.router preset.router
  let entry ← overrideSection s.preset "entry" EntrySettings.enabled EntrySettings.entry
    s.entry preset.entry
  let styleSheet ← match s.styleSheet, preset.styleSheet with
    | some settings, some sheet =>
      if settings.enabled then (settings.styleSheet sheet).map some else pure none
    | _, sheet => pure sheet
  let strategy := { preset with statics, components, pages, router, entry, styleSheet }
  strategy.validate
  pure strategy

end Sitewright
