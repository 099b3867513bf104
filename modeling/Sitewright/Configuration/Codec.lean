import Sitewright.Configuration.Basic
import Sitewright.Toml.Reader

/-!
# Reading and writing configurations

A configuration is written in TOML or as JSON, with the same keys.
-/

namespace Sitewright

open Json

def OutputFormat.name : OutputFormat → String
  | json => "json"
  | tree => "tree"

def OutputFormat.ofJson? (form : Form) (j : Json) : Option OutputFormat := do
  match ← form.word? j with
  | "json" => pure .json
  | "tree" => pure .tree
  | _ => none

def OutputSettings.toJson (o : OutputSettings) : Json :=
  .object [("dir", .string o.folder), ("format", .string o.format.name)]

def OutputSettings.ofJson? (form : Form) (j : Json) : Option OutputSettings := do
  match ← form.record? [["dir"], ["format"]] j with
  | [folder, format] =>
    pure { folder := ← defaulted string? "dist" folder
           format := ← defaulted (OutputFormat.ofJson? form) .json format }
  | _ => none

def SectionSettings.toJson (s : SectionSettings) : Json :=
  .object [("enabled", .bool s.enabled), ("generator", ofOption .string s.generator),
    ("plugins", ofStrings s.plugins), ("post_processors", ofStrings s.postProcessors),
    ("mappings", ofStrings s.mappings), ("path", ofOption ofStrings s.path),
    ("file_name", ofOption .string s.fileName),
    ("folder_per_component", ofOption .bool s.ownFolders)]

def SectionSettings.ofJson? (form : Form) (j : Json) : Option SectionSettings := do
  match ← form.record? [["enabled"], ["generator"], ["plugins"], ["post_processors"], ["mappings"],
    ["path"], ["file_name"], ["folder_per_component"]] j with
  | [enabled, generator, plugins, postProcessors, mappings, path, fileName, ownFolders] =>
    pure { enabled := ← defaulted bool? true enabled
           generator := ← nullable string? generator
           plugins := ← defaulted (list? string?) [] plugins
           postProcessors := ← defaulted (list? string?) [] postProcessors
           mappings := ← defaulted (list? string?) [] mappings
           path := ← nullable (list? string?) path
           fileName := ← nullable string? fileName
           ownFolders := ← nullable bool? ownFolders }
  | _ => none

def ExtraChunk.toJson (c : ExtraChunk) : Json :=
  .object [("name", .string c.name), ("content", .string c.content),
    ("link_after", ofStrings c.linkAfter), ("flags", ofStrings c.flags)]

def ExtraChunk.ofJson? (form : Form) (j : Json) : Option ExtraChunk := do
  match ← form.record? [["name"], ["content"], ["link_after"], ["flags"]] j with
  | [name, content, linkAfter, flags] =>
    pure { name := ← required string? name
           content := ← defaulted string? "" content
           linkAfter := ← defaulted (list? string?) [] linkAfter
           flags := ← defaulted (list? string?) [] flags }
  | _ => none

def EntrySettings.toJson (e : EntrySettings) : Json :=
  .object [("enabled", .bool e.enabled), ("path", ofOption ofStrings e.path),
    ("file_name", ofOption .string e.fileName), ("app_root_override", ofOption .string e.appRoot),
    ("custom_head_content", ofOption .string e.headContent),
    ("custom_tags", ofItems CustomTag.toJson e.customTags),
    ("chunks", ofItems ExtraChunk.toJson e.chunks)]

def EntrySettings.ofJson? (form : Form) (j : Json) : Option EntrySettings := do
  match ← form.record? [["enabled"], ["path"], ["file_name"], ["app_root_override"],
    ["custom_head_content"], ["custom_tags"], ["chunks"]] j with
  | [enabled, path, fileName, appRoot, headContent, customTags, chunks] =>
    pure { enabled := ← defaulted bool? true enabled
           path := ← nullable (list? string?) path
           fileName := ← nullable string? fileName
           appRoot := ← nullable string? appRoot
           headContent := ← nullable string? headContent
           customTags := ← defaulted (list? (CustomTag.ofJson? form)) [] customTags
           chunks := ← defaulted (list? (ExtraChunk.ofJson? form)) [] chunks }
  | _ => none

def StyleSheetSettings.toJson (s : StyleSheetSettings) : Json :=
  .object [("enabled", .bool s.enabled), ("generator", ofOption .string s.generator),
    ("path", ofOption ofStrings s.path), ("file_name", ofOption .string s.fileName),
    ("import_file", ofOption .bool s.importFile)]

def StyleSheetSettings.ofJson? (form : Form) (j : Json) : Option StyleSheetSettings := do
  match ← form.record? [["enabled"], ["generator"], ["path"], ["file_name"], ["import_file"]] j with
  | [enabled, generator, path, fileName, importFile] =>
    pure { enabled := ← defaulted bool? true enabled
           generator := ← nullable string? generator
           path := ← nullable (list? string?) path
           fileName := ← nullable string? fileName
           importFile := ← nullable bool? importFile }
  | _ => none

def StrategySettings.toJson (s : StrategySettings) : Json :=
  .object [("preset", .string s.preset), ("static_prefix", ofOption .string s.staticPrefix),
    ("static_path", ofOption ofStrings s.staticPath), ("components", s.components.toJson),
    ("pages", s.pages.toJson), ("router", ofOption SectionSettings.toJson s.router),
    ("entry", ofOption EntrySettings.toJson s.entry),
    ("style_sheet", ofOption StyleSheetSettings.toJson s.styleSheet)]

def StrategySettings.ofJson? (form : Form) (j : Json) : Option StrategySettings := do
  match ← form.record? [["preset"], ["static_prefix"], ["static_path"], ["components"], ["pages"],
    ["router"], ["entry"], ["style_sheet"]] j with
  | [preset, staticPrefix, staticPath, components, pages, router, entry, styleSheet] =>
    pure { preset := ← defaulted string? "react" preset
           staticPrefix := ← nullable string? staticPrefix
           staticPath := ← nullable (list? string?) staticPath
           components := ← defaulted (SectionSettings.ofJson? form) {} components
           pages := ← defaulted (SectionSettings.ofJson? form) {} pages
           router := ← nullable (SectionSettings.ofJson? form) router
           entry := ← nullable (EntrySettings.ofJson? form) entry
           styleSheet := ← nullable (StyleSheetSettings.ofJson? form) styleSheet }
  | _ => none

namespace Configuration

def projectName? (form : Form) (j : Json) : Option (Option String) := do
  match ← form.record? [["name"]] j with
  | [name] => nullable string? name
  | _ => none

def toJson (c : Configuration) : Json :=
  .object [("project", .object [("name", ofOption .string c.projectName)]),
    ("output", c.output.toJson), ("strategy", c.strategy.toJson),
    ("mapping", ofOption Mapping.toJson c.mapping)]

def ofJson? (form : Form) (j : Json) : Option Configuration := do
  match ← form.record? [["project"], ["output"], ["strategy"], ["mapping"]] j with
  | [project, output, strategy, mapping] =>
    pure { projectName := ← defaulted (projectName? form) none project
           output := ← defaulted (OutputSettings.ofJson? form) {} output
           strategy := ← defaulted (StrategySettings.ofJson? form) {} strategy
           mapping := ← nullable (Mapping.ofJson? form) mapping }
  | _ => none

def read (text : String) : Except Fault Configuration := do
  match (Toml.read? text).bind fun t => ofJson? .toml t.toJson with
  | none => throw .unreadable
  | some c => do
    c.validate
    pure c

end Configuration

end Sitewright
