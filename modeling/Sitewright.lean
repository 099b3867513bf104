import Sitewright.CommandLine.Disk
import Sitewright.Main
import Sitewright.Proofs.Chunk.Circles
import Sitewright.Proofs.Chunk.LinkedText
import Sitewright.Proofs.Project.Keeping
import Sitewright.Proofs.Project.References
import Sitewright.Proofs.React.ImportChunks
import Sitewright.Script.Codec
import Sitewright.Proofs.Html.Expansion
import Sitewright.Proofs.Html.Building
import Sitewright.Proofs.Dependency.SelfNamed
import Sitewright.Proofs.Generator.Stages
import Sitewright.Proofs.Style.Sheets
import Sitewright.Proofs.Text.Lines
import Sitewright.Proofs.Html.Documents
import Sitewright.Proofs.React.Modules
import Sitewright.Proofs.Generator.Faults
import Sitewright.Proofs.Html.Inlining
import Sitewright.Proofs.Dependency.Merging
import Sitewright.Proofs.Dependency.Calls
import Sitewright.Proofs.React.ClauseForms
import Sitewright.Proofs.React.ModuleImports
import Sitewright.Proofs.React.Scopes
import Sitewright.Proofs.React.UsedComponents
import Sitewright.Proofs.Chunk.Removal
import Sitewright.Proofs.Chunk.Stability
import Sitewright.Proofs.Project.Pages
import Sitewright.Proofs.Project.Below
import Sitewright.Proofs.Style.Tokens
import Sitewright.Proofs.Folder.Growth
import Sitewright.Proofs.Project.Template
import Sitewright.Proofs.Dependency.Versions
import Sitewright.Proofs.React.Packages
import Sitewright.Proofs.React.Routes
import Sitewright.Proofs.Project.Router
import Sitewright.Proofs.Project.PackageVersions
import Sitewright.Proofs.Chunk.History
import Sitewright.Proofs.Mapping.Resolution
import Sitewright.Proofs.Html.SelfInclusion
import Sitewright.Proofs.Project.Reading
import Sitewright.Proofs.Html.Texts
import Sitewright.Proofs.Markup.Html
import Sitewright.Proofs.Script.Jsx
import Sitewright.Proofs.Script.Quoting
import Sitewright.Proofs.Folder.Contents
import Sitewright.Proofs.Generator.Outputs
import Sitewright.Proofs.Html.Addresses
import Sitewright.Proofs.Html.Heads
import Sitewright.Proofs.React.Classes
import Sitewright.Proofs.Style.Extraction
import Sitewright.Proofs.Project.ManifestPackages
import Sitewright.Proofs.Mapping.Attributes
import Sitewright.Proofs.Text.Normalization
import Sitewright.Proofs.Project.Prefixes
import Sitewright.Proofs.Project.EntryDocument
import Sitewright.Proofs.Style.Properties
import Sitewright.Proofs.Project.DerivedNames
import Sitewright.Proofs.Project.Replacement
import Sitewright.Proofs.CommandLine.Starter
import Sitewright.Proofs.Text.WordBreaks
