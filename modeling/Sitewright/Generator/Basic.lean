import Sitewright.Chunk.Store
import Sitewright.Draft
import Sitewright.Folder

/-!
# Generators

A generator makes the files of one component: its mapping is applied to the tree, its plugins turn
the tree into chunks, the chunks are linked, and its post-processors go over the linked texts.
-/

namespace Sitewright

/-- A step over the linked texts of a component, by extension. -/
structure PostProcessor where
  name : String
  process : Table String → Outcome (Table String)

structure Generator where
  mapping : Mapping := {}
  plugins : List Plugin := []
  postProcessors : List PostProcessor := []
  deriving Inhabited

structure Compiled where
  files : List File
  versions : Table String

def runPostProcessors (processors : List PostProcessor) (outputs : Table String) :
    Outcome (Table String) :=
  processors.foldlM (fun outputs processor => processor.process outputs) outputs

/-- The files of some outputs: those with an extension in `first` in the order given there, then the
others by extension. -/
def outputFiles (fileName : String) (first : List String) (outputs : Table String) : List File :=
  (first.filterMap fun extension =>
      (outputs.get? extension).map fun text => File.ofParts fileName extension text) ++
    (outputs.entries.filter (!first.contains ·.1)).map fun e => File.ofParts fileName e.1 e.2

namespace Generator

/-- The generator with another mapping laid over its own, and more plugins and post-processors after
its own. -/
def extend (g : Generator) (mappings : List Mapping) (plugins : List Plugin)
    (postProcessors : List PostProcessor) : Generator :=
  { mapping := mappings.foldl Mapping.overlay g.mapping
    plugins := g.plugins ++ plugins
    postProcessors := g.postProcessors ++ postProcessors }

def linkFiles (g : Generator) (chunks : ChunkStore) (fileName : String) : Outcome (List File) := do
  let linked ← chunks.linkAll
  let texts := linked.map fun e => (e.1.extension, e.2)
  let outputs ← runPostProcessors g.postProcessors (Table.ofList texts)
  pure (outputFiles fileName (texts.map (·.1)) outputs)

def mappingFor (g : Generator) (options : Options) : Mapping :=
  match options.mapping with
  | some extra => g.mapping.overlay extra
  | none => g.mapping

/-- The draft that the plugins start from: its tree is mapped. -/
def start (g : Generator) (c : Component) (options : Options) : Draft :=
  let mapping := g.mappingFor options
  { component := { c with node := mapping.resolveTree c.node }
    options := { options with mapping := some mapping } }

def generate (g : Generator) (c : Component) (options : Options) : Outcome Compiled := do
  options.validate
  let draft ← runPlugins g.plugins (g.start c options)
  let imports ← draft.allImports
  let files ← g.linkFiles draft.chunks c.fileName
  pure { files, versions := imports.packageVersions }

end Generator

end Sitewright
