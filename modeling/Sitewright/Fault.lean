import Sitewright.FileType

/-!
# Faults

Everything that can go wrong while sources are generated, its text, and whether a configuration is
to blame for it.
-/

namespace Sitewright

inductive Fault
  /-- A plugin needs a chunk that is not there. -/
  | missingChunk (plugin chunk : String) (fileType : FileType)
  /-- A chunk is to follow a chunk that is not there. -/
  | unresolvedLink (chunk missing : String) (fileType : FileType)
  /-- The chunks that are to follow each other in a circle. -/
  | linkCycle (fileType : FileType) (chunks : List String)
  /-- One identifier is to come from two modules. -/
  | ambiguousDependency (identifier existing incoming : String)
  /-- One module is to be imported whole under two names. -/
  | conflictingImport (source existing incoming : String)
  | undefinedGenerator (section_ name : String)
  | undefinedPlugin (name : String)
  | undefinedPostProcessor (name : String)
  | undefinedMapping (name : String)
  | unknownChunkFlag (chunk flag : String)
  | invalidStrategy (reason : String)
  | representationMismatch (chunk : String) (expected found : Representation)
  | unsupportedRepresentation (chunk : String) (representation : Representation)
      (fileType : FileType)
  | pluginFailed (plugin reason : String)
  | postProcessorFailed (processor reason : String)
  | invalidUidl (reason : String)
  /-- A JSON text or value that does not decode. -/
  | json
  deriving Repr, DecidableEq, Inhabited

namespace Fault

def message : Fault → String
  | missingChunk plugin chunk t =>
    s!"plugin '{plugin}' expected chunk '{chunk}' ({t.extension}) but it is missing"
  | unresolvedLink chunk missing t =>
    s!"chunk '{chunk}' links after '{missing}', which does not exist in the {t.extension} chunks"
  | linkCycle t chunks =>
    s!"cyclic link_after constraints between {t.extension} chunks: " ++ ", ".intercalate chunks
  | ambiguousDependency identifier existing incoming =>
    s!"dependency '{identifier}' is already imported from '{existing}', " ++
      s!"cannot also import it from '{incoming}'"
  | conflictingImport source existing incoming =>
    s!"module '{source}' is imported as both '{existing}' and '{incoming}'"
  | undefinedGenerator section_ name =>
    s!"strategy section '{section_}' references undefined generator '{name}'"
  | undefinedPlugin name => s!"undefined plugin '{name}'"
  | undefinedPostProcessor name => s!"undefined post-processor '{name}'"
  | undefinedMapping name => s!"undefined mapping '{name}'"
  | unknownChunkFlag chunk flag => s!"unknown chunk flag '{flag}' on chunk '{chunk}'"
  | invalidStrategy reason => s!"invalid project strategy: {reason}"
  | representationMismatch chunk expected found =>
    s!"chunk '{chunk}' holds {found.description} content, expected {expected.description}"
  | unsupportedRepresentation chunk representation t =>
    s!"chunk '{chunk}' holds {representation.description} content, " ++
      s!"which cannot be emitted into a {t.extension} file"
  | pluginFailed plugin reason => s!"plugin '{plugin}' failed: {reason}"
  | postProcessorFailed processor reason => s!"post-processor '{processor}' failed: {reason}"
  | invalidUidl reason => s!"invalid UIDL: {reason}"
  | json => "JSON error"

def isConfigurationFault : Fault → Bool
  | missingChunk .. | unresolvedLink .. | linkCycle .. | ambiguousDependency ..
  | conflictingImport .. | undefinedGenerator .. | undefinedPlugin .. | undefinedPostProcessor ..
  | undefinedMapping .. | unknownChunkFlag .. | invalidStrategy .. => true
  | representationMismatch .. | unsupportedRepresentation .. | pluginFailed ..
  | postProcessorFailed ..
  | invalidUidl .. | json => false

end Fault

abbrev Outcome (α : Type) := Except Fault α

/-- A decoded value, or the fault that stands for all decoding errors. -/
def Outcome.ofDecoded {α : Type} : Option α → Outcome α
  | some a => .ok a
  | none => .error .json

end Sitewright
