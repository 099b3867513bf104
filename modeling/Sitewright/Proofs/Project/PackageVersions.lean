import Sitewright.Proofs.Project.Below
import Sitewright.Proofs.Project.Template

/-!
# Packages of a project

The packages that the sections need are collected on the way, a later version of a package standing
for an earlier one. In the end they are laid over the packages that the template's package manifest
has.
-/

namespace Sitewright

open Outcome PackageManifest

def lastVersion? : List Delivery → String → Option String
  | [], _ => none
  | d :: rest, package => (lastVersion? rest package).or (d.versions.get? package)

variable {earlier later : List Delivery} {package : String}

theorem lastVersion?_append : lastVersion? (earlier ++ later) package =
    (lastVersion? later package).or (lastVersion? earlier package) := by
  induction earlier with
  | nil => simp [lastVersion?]
  | cons d earlier ih => rw [List.cons_append, lastVersion?, lastVersion?, ih, Option.or_assoc]

theorem lastVersion?_eq_none {deliveries : List Delivery}
    (h : ∀ d ∈ deliveries, d.versions = ∅) : lastVersion? deliveries package = none := by
  induction deliveries with
  | nil => rfl
  | cons d deliveries ih =>
    obtain ⟨hd, hrest⟩ := List.forall_mem_cons.1 h
    rw [lastVersion?, ih hrest, hd]
    rfl

theorem Output.get?_versions_addAll (o : Output) (deliveries : List Delivery) (package : String) :
    (o.addAll deliveries).versions.get? package =
      (lastVersion? deliveries package).or (o.versions.get? package) := by
  induction deliveries generalizing o with
  | nil => rfl
  | cons d deliveries ih =>
    have hadd : (o.add d).versions.get? package =
        (d.versions.get? package).or (o.versions.get? package) := Table.get?_overlay _ _ _
    change ((o.add d).addAll deliveries).versions.get? package = _
    rw [ih, hadd, lastVersion?, Option.or_assoc]

namespace Strategy

variable {s : Strategy} {p : Project} {template result : Folder} {mapping : Option Mapping}

theorem versions_deliverEntry {entry : EntrySection} {d : Delivery}
    (h : s.deliverEntry p entry = .ok d) : d.versions = ∅ := by
  obtain ⟨files, -, rfl⟩ := map_ok_iff.1 h
  rfl

theorem versions_deliverWebManifest {d : Delivery} (h : s.deliverWebManifest? p = some d) :
    d.versions = ∅ := by
  obtain ⟨file, -, rfl⟩ := Option.map_eq_some_iff.1 h
  rfl

namespace Run

variable (run : s.Run p template mapping result)

/-- What the sections deliver that packages are collected from. -/
def contributions : List Delivery :=
  run.components ++ run.pages ++ run.router ++ run.styleSheet ++ run.config ++ run.replacement

/-- The entry page and the web manifest need no packages. -/
theorem lastVersion?_sections (package : String) :
    lastVersion? run.sections package = lastVersion? run.contributions package := by
  have hentry : lastVersion? run.entry package = none := by
    refine lastVersion?_eq_none fun d hd => ?_
    obtain ⟨entry, -, hdeliver⟩ := (mem_of_mapM_ok run.mapM_entry).1 hd
    exact versions_deliverEntry hdeliver
  have hweb : lastVersion? (s.deliverWebManifest? p).toList package = none :=
    lastVersion?_eq_none fun d hd => versions_deliverWebManifest (Option.mem_toList.1 hd)
  simp only [sections, contributions, lastVersion?_append, hentry, hweb, Option.none_or]

theorem get?_versions_output (package : String) :
    run.output.versions.get? package = lastVersion? run.contributions package := by
  rw [output, Output.get?_versions_addAll, lastVersion?_sections]
  exact Option.or_none

end Run

/-! ## Sections that write no package manifest -/

def sectionPlaces (s : Strategy) (p : Project) : List Placement :=
  p.components.values.map s.components.placement ++
    ((p.pages.map (·.component)).map s.pages.placement ++
      (s.namedFiles.map (fun e => ⟨e.2.1, e.2.2⟩) ++ [⟨s.statics.path, "manifest"⟩]))

theorem Run.within_sections (run : s.Run p template mapping result) :
    Within run.sections (s.sectionPlaces p) := by
  have hsplit : run.sections = run.components ++ (run.pages ++ (run.named ++
      (s.deliverWebManifest? p).toList)) := by
    simp only [sections, named, List.append_assoc]
  have hweb : Within (s.deliverWebManifest? p).toList [⟨s.statics.path, "manifest"⟩] :=
    fun d hd => ⟨_, List.mem_singleton_self _, deliverWebManifest_isTo (Option.mem_toList.1 hd)⟩
  have hcomponents := within_of_mapM run.mapM_components _ fun _ _ => deliver_isTo
  have hpages := within_of_mapM run.mapM_pages _ fun _ _ => deliver_isTo
  rw [hsplit]
  exact hcomponents.append (hpages.append (run.within_named.append hweb))

/-! ## The package manifest of the result -/

/-- If no section writes a package manifest, that of the result has the name of the project, and the
packages of all sections, each in the version of the last one that needs it, over those that were
there before. What else was there stays. -/
theorem packages_collected (h : s.generate p template mapping = .ok result) :
    ∃ run : s.Run p template mapping result,
      ¬ Delivers run.sections [] "package" (some "json") →
      ∀ before, StartsFrom template (slug p.name) before →
      ∃ file fields, result.at? [] "package" (some "json") = some file ∧
        file.content = (Json.object fields.entries).pretty ∧
        Completed before (slug p.name) (lastVersion? run.contributions) fields := by
  obtain ⟨-, -, run, hmanifest⟩ := exists_completed_run h
  refine ⟨run, fun hown before hstart => ?_⟩
  have hsame : run.output.folder.at? [] "package" (some "json") =
      template.at? [] "package" (some "json") := by
    rw [Run.output, Output.at?_addAll, lastDelivered?_eq_none hown]
    rfl
  obtain ⟨file, fields, hfile, hcontent, hcompleted⟩ :=
    exists_completed hmanifest (hstart.of_at?_eq hsame)
  have hversions : run.output.versions.get? = lastVersion? run.contributions :=
    funext fun package => run.get?_versions_output package
  exact ⟨file, fields, hfile, hcontent, hversions ▸ hcompleted⟩

def needsKit (version : String) : Generator where
  plugins := [{
    name := "kit"
    run := fun d => d.importAll
      [("Kit", { kind := .package, source := "ui-kit", version := some version })] }]

def kits : Strategy where
  id := "kits"
  components := { generator := needsKit "1.0.0", path := [] }
  pages := { generator := needsKit "2.0.0", path := [] }

def kitShop : Project where
  name := "Kit Shop"
  root := { name := "App", node := .text "" }
  pages := [⟨"/", { name := "Home", node := .text "" }⟩]
  components := .ofList [("Card", { name := "Card", node := .text "" })]

def kitFields : List (String × Json) :=
  [("dependencies", .object [("left-pad", .string "1.3.0"), ("ui-kit", .string "0.9.0")]),
    ("license", .string "MIT")]

def kitText : String :=
  "\x7b\"dependencies\":\x7b\"left-pad\":\"1.3.0\",\"ui-kit\":\"0.9.0\"\x7d,\"license\":\"MIT\"\x7d"

def kitTemplate : Folder where
  name := "kit"
  files := [.ofParts "package" "json" kitText]

theorem ordered_kitFields : (Json.object kitFields).Ordered := by
  have hpackages : SortedByName [("left-pad", Json.string "1.3.0"), ("ui-kit", .string "0.9.0")] :=
    List.pairwise_pair.2 (by decide)
  have hfields : SortedByName kitFields := List.pairwise_pair.2 (by decide)
  exact ⟨hfields, ⟨hpackages, trivial, trivial, trivial⟩, trivial, trivial⟩

theorem startsFrom_kitTemplate :
    StartsFrom kitTemplate (slug kitShop.name) (Table.ofList kitFields) := by
  have htokens : Json.tokensOf kitText.toList =
      some [.openBrace, .string (some "dependencies"), .colon, .openBrace,
        .string (some "left-pad"), .colon, .string (some "1.3.0"), .comma,
        .string (some "ui-kit"), .colon, .string (some "0.9.0"), .closeBrace, .comma,
        .string (some "license"), .colon, .string (some "MIT"), .closeBrace] := by
    decide +kernel
  have hread : Json.read? kitText = some (.object kitFields) := by
    rw [Json.read?, htokens]
    rfl
  have hdocument : (Json.read? kitText).bind Json.Document.ofJson? =
      some (.ofJson (.object kitFields) rfl) := by
    rw [hread]
    rfl
  exact .existing rfl hdocument (Json.canonical_eq_of_ordered _ ordered_kitFields)

theorem contributions_kits (run : kits.Run kitShop kitTemplate none result) :
    run.contributions = run.components ++ run.pages := by
  have hrouter : run.router = [] := (Except.ok.inj run.mapM_router).symm
  have hsheet : run.styleSheet = [] := (Except.ok.inj run.mapM_styleSheet).symm
  have hconfig : run.config = [] := (Except.ok.inj run.mapM_config).symm
  have hreplacement : run.replacement = [] := (Except.ok.inj run.mapM_replacement).symm
  simp [Run.contributions, hrouter, hsheet, hconfig, hreplacement]

theorem lastVersion?_kits (run : kits.Run kitShop kitTemplate none result) :
    lastVersion? run.contributions "ui-kit" = some "2.0.0" ∧
      lastVersion? run.contributions "left-pad" = none := by
  have hcomponents : (kitShop.components.values.mapM (kits.deliver kitShop none
      kits.components)).toOption.map (lastVersion? · "left-pad") = some none := by decide +kernel
  have hpages : ((kitShop.pages.map (·.component)).mapM (kits.deliver kitShop none
      kits.pages)).toOption.map (fun deliveries => (lastVersion? deliveries "ui-kit",
        lastVersion? deliveries "left-pad")) = some (some "2.0.0", none) := by decide +kernel
  rw [run.mapM_components] at hcomponents
  rw [run.mapM_pages] at hpages
  obtain ⟨hkit, hpad⟩ := Prod.mk.inj (Option.some.inj hpages)
  have hnone : lastVersion? run.components "left-pad" = none := Option.some.inj hcomponents
  rw [contributions_kits, lastVersion?_append, lastVersion?_append, hkit, hpad, hnone]
  exact ⟨rfl, rfl⟩

theorem packages_collected_kitShop : ∃ result file, ∃ fields : Table Json,
    kits.generate kitShop kitTemplate none = .ok result ∧
    result.at? [] "package" (some "json") = some file ∧
    file.content = (Json.object fields.entries).pretty ∧
    fields.get? "name" = some (.string "kit-shop") ∧
    fields.get? "license" = some (.string "MIT") ∧
    ∃ packages : Table Json, fields.get? "dependencies" = some (.object packages.entries) ∧
      packages.get? "ui-kit" = some (.string "2.0.0") ∧
      packages.get? "left-pad" = some (.string "1.3.0") := by
  have hsome : (kits.generate kitShop kitTemplate none).toOption.isSome = true := by decide +kernel
  obtain ⟨result, hresult⟩ := Option.isSome_iff_exists.1 hsome
  have hresult := toOption_eq_some_iff.1 hresult
  obtain ⟨run, hcollected⟩ := packages_collected hresult
  have hplaces : (⟨[], "package"⟩ : Placement) ∉ kits.sectionPlaces kitShop := by decide +kernel
  obtain ⟨file, fields, hfile, hcontent, hcompleted⟩ :=
    hcollected (run.within_sections.not_delivers hplaces (some "json")) _ startsFrom_kitTemplate
  have hsorted : (Table.ofList kitFields).entries = kitFields :=
    Table.entries_ofList_of_sorted ordered_kitFields.1
  obtain ⟨hkit, hpad⟩ := lastVersion?_kits run
  obtain ⟨packages, hpackages, hversions⟩ := hcompleted.dependencies
  have hname : slug kitShop.name = "kit-shop" := by decide +kernel
  refine ⟨result, file, fields, hresult, hfile, hcontent, hname ▸ hcompleted.name, ?_, packages,
    hpackages, ?_, ?_⟩
  · rw [hcompleted.others "license" (by decide), Table.get?, hsorted]
    rfl
  · rw [hversions, hkit]
    rfl
  · have hbefore : (Table.ofList kitFields).get? "dependencies" = some (.object
        [("left-pad", .string "1.3.0"), ("ui-kit", .string "0.9.0")]) := by
      rw [Table.get?, hsorted]
      rfl
    rw [hversions, hpad, hbefore, fieldsOf, Table.get?,
      Table.entries_ofList_of_sorted ordered_kitFields.2.1.1]
    rfl

end Strategy

end Sitewright
