import Mathlib.Data.List.Infix
import Sitewright.CommandLine.Starter
import Sitewright.Proofs.Configuration.Reading
import Sitewright.Proofs.Json.Nesting
import Sitewright.Proofs.Outcome
import Sitewright.Proofs.Project.Checks
import Sitewright.Proofs.Toml.Lines

/-!
# Reading the files of a new project

The sample project is read back with its name, whatever that is. The configuration puts the name
between quotes as it is, so it is read back exactly if the name has neither quotes nor backslashes
nor control characters.
-/

namespace Sitewright.CommandLine.Starter

open Json Toml

variable {folder preset : String} {c : Configuration}

theorem isBlankText_projectName (h : isBlankText folder = false) :
    isBlankText (projectName folder) = false := by
  rw [projectName]
  split
  · decide
  · exact h

/-- The name that stands for the current folder is plain, as its path is. -/
theorem plain_projectName_iff :
    IsPlainText (projectName folder).toList ↔ IsPlainText folder.toList := by
  rw [projectName]
  split
  · next h =>
    subst h
    exact iff_of_true (by decide) (by decide)
  · exact Iff.rfl

theorem ne_empty_of_not_blank {s : String} (h : isBlankText s = false) : s ≠ "" := by
  rintro rfl
  cases h

/-! ## The sample project -/

theorem printable_project (folder : String) : Printable 0 (project folder) where
  readable := by rfl
  fits := by
    have hdepth : (project folder).depth = 11 := by rfl
    rw [hdepth]
    decide
  survives := by
    have hnumbers : (project folder).numbers = [] := by rfl
    simp [hnumbers]

/-- The sample project has the name, and two pages with files of their own. -/
theorem ofJson?_project (folder : String) :
    ∃ p : Project, Project.ofJson? (project folder).canonical = some p ∧
      p.name = projectName folder ∧ p.pages.map (·.component.name) = ["Home", "About"] ∧
      p.pages.map (·.component.outputKey) = [["home"], ["about"]] ∧ p.components = ∅ := by
  simp only [project, canonical, canonicalFields, canonicalItems, Table.ofList, Table.insertAll,
    Table.insert, insertEntry, Table.empty, List.foldl_cons, List.foldl_nil, String.reduceLT,
    String.reduceEq, if_true, if_false]
  exact ⟨_, by rfl, by rfl, by rfl, by rfl, by rfl⟩

theorem read_projectText (h : isBlankText folder = false) :
    ∃ p, Project.read (projectText folder) = .ok p ∧ p.name = projectName folder := by
  obtain ⟨p, hp, hname, hnames, hkeys, hcomponents⟩ := ofJson?_project folder
  have hread : (Json.read? (projectText folder)).bind Project.ofJson? = some p := by
    rw [projectText, read?_pretty (printable_project folder).canonical, Option.bind_some, hp]
  have hpages : ∀ page ∈ p.pages, isBlankText page.component.name = false := by
    intro page hpage
    have hmem : page.component.name ∈ ["Home", "About"] := hnames ▸ List.mem_map_of_mem hpage
    obtain hhome | habout : page.component.name = "Home" ∨ page.component.name = "About" := by
      simpa using hmem
    · rw [hhome]
      decide
    · rw [habout]
      decide
  have hvalid : p.validate = .ok () := by
    refine Project.validate_ok_iff.2 ⟨?_, hpages, ?_, ?_⟩
    · rw [hname]
      exact isBlankText_projectName h
    · rw [hkeys]
      decide
    · simp [hcomponents]
  refine ⟨p, ?_, hname⟩
  rw [Project.read, hread]
  simp [Outcome.ofDecoded, hvalid, bind, Except.bind, pure, Except.pure]

/-! ## The text of the configuration -/

def headerLine (word : String) (rest : List Char) : List Char :=
  '[' :: (word.toList ++ ']' :: '\n' :: rest)

def settingLine (word value : String) (rest : List Char) : List Char :=
  word.toList ++ ' ' :: '=' :: ' ' :: '"' :: (value.toList ++ '"' :: '\n' :: rest)

def sectionsText (preset : String) : List Char :=
  '\n' :: headerLine "output" (settingLine "dir" "dist" (settingLine "format" "json"
    ('\n' :: headerLine "strategy" (settingLine "preset" preset []))))

theorem toList_configuration (folder preset : String) : (configuration folder preset).toList =
    '#' :: (" uidlgen configuration".toList ++ '\n' :: '\n' :: headerLine "project"
      (settingLine "name" (projectName folder) (sectionsText preset))) := by
  have hcomment : "# uidlgen configuration\n".toList =
      '#' :: (" uidlgen configuration".toList ++ ['\n']) := by decide
  have hproject : "\n[project]\nname = \"".toList =
      '\n' :: headerLine "project" ("name".toList ++ [' ', '=', ' ', '"']) := by decide
  have houtput : "\n[output]\ndir = \"dist\"\nformat = \"json\"\n".toList =
      '\n' :: headerLine "output" (settingLine "dir" "dist" (settingLine "format" "json" [])) := by
    decide
  have hstrategy : "\n[strategy]\npreset = \"".toList =
      '\n' :: headerLine "strategy" ("preset".toList ++ [' ', '=', ' ', '"']) := by decide
  have hend : "\"\n".toList = ['"', '\n'] := by decide
  -- its equation would be proved by evaluating the whole text
  delta configuration
  simp only [String.toList_append, hcomment, hproject, houtput, hstrategy, hend, headerLine,
    settingLine, sectionsText, List.append_assoc, List.cons_append, List.nil_append]

/-- What follows the opening quote of the project's name. -/
theorem lines?_configuration (count : Nat) (folder preset : String) :
    lines? (count + 4) {} (configuration folder preset).toList =
      (string? ('"' :: ((projectName folder).toList ++ '"' :: '\n' :: sectionsText preset))).bind
        fun e => (endLine? e.2).bind
          (lines? count (opened [] "project" [("name", .string e.1)])) := by
  have hassign (v : String) : (opened [] "project" []).assign ["name"] (.string v) =
      some (opened [] "project" [("name", .string v)]) := assign_opened rfl rfl
  rw [toList_configuration, lines?_comment (by decide), lines?_blank, headerLine,
    lines?_header (by decide), enter_new rfl, Option.bind_some, settingLine,
    lines?_setting (by decide)]
  simp only [hassign, Option.bind_some]

def document (name preset : String) : List (String × Toml) :=
  [("project", .table .header [("name", .string name)]),
    ("output", .table .header [("dir", .string "dist"), ("format", .string "json")]),
    ("strategy", .table .header [("preset", .string preset)])]

theorem lines?_sections (count : Nat) (name : String) (hne : preset ≠ "")
    (hplain : IsPlainText preset.toList) :
    lines? (count + 8) (opened [] "project" [("name", .string name)]) (sectionsText preset) =
      some { entries := document name preset, path := ["strategy"] } := by
  rw [sectionsText, lines?_blank, headerLine, lines?_header (by decide), enter_new rfl,
    Option.bind_some, settingLine, lines?_plain (by decide) (by decide) (by decide),
    assign_opened rfl rfl, Option.bind_some, settingLine,
    lines?_plain (by decide) (by decide) (by decide), assign_opened rfl rfl, Option.bind_some,
    lines?_blank, headerLine, lines?_header (by decide), enter_new rfl, Option.bind_some,
    settingLine, lines?_plain (by decide) hne hplain, assign_opened rfl rfl]
  rfl

theorem read?_configuration (folder preset : String) :
    ∃ count, Toml.read? (configuration folder preset) =
      ((string? ('"' :: ((projectName folder).toList ++ '"' :: '\n' :: sectionsText preset))).bind
        fun e => (endLine? e.2).bind
          (lines? (count + 8) (opened [] "project" [("name", .string e.1)]))).map
            fun p => .table .header p.entries := by
  have hlength : 12 ≤ (configuration folder preset).toList.length := by
    rw [toList_configuration]
    simp only [headerLine, settingLine, List.length_cons, List.length_append]
    omega
  obtain ⟨count, hcount⟩ := Nat.exists_eq_add_of_le hlength
  have hmark : dropMark (configuration folder preset).toList =
      (configuration folder preset).toList := by
    rw [toList_configuration]
    rfl
  refine ⟨count + 1, ?_⟩
  rw [Toml.read?, hmark, hcount, show 12 + count + 1 = count + 1 + 8 + 4 by omega,
    lines?_configuration]

def configured (name preset : String) : Configuration where
  projectName := some name
  strategy := { preset }

theorem ofJson?_document (name preset : String) : Configuration.ofJson? .toml
    (Toml.toJson (.table .header (document name preset))) = some (configured name preset) := by rfl

theorem validate_configured {name : String} (hname : isBlankText name = false)
    (hpreset : isBlankText preset = false) : (configured name preset).validate = .ok () := by
  have hfolder : isBlankText "dist" = false := by decide
  simp [Configuration.validate, configured, hname, hpreset, hfolder]

/-! ## Reading the configuration -/

theorem read_configuration_of_plain (hfolder : isBlankText folder = false)
    (hname : IsPlainText (projectName folder).toList) (hblank : isBlankText preset = false)
    (hpreset : IsPlainText preset.toList) :
    Configuration.read (configuration folder preset) =
      .ok (configured (projectName folder) preset) := by
  have hprojectName := isBlankText_projectName hfolder
  have hne : (projectName folder).toList ≠ [] := fun h =>
    ne_empty_of_not_blank hprojectName (String.toList_eq_nil_iff.1 h)
  obtain ⟨count, hread⟩ := read?_configuration folder preset
  rw [string?_of_plain hne hname, String.ofList_toList] at hread
  refine Configuration.read_ok_iff.2 ⟨.table .header (document (projectName folder) preset), ?_,
    ofJson?_document _ _, validate_configured hprojectName hblank⟩
  have hsections :=
    lines?_sections count (projectName folder) (ne_empty_of_not_blank hblank) hpreset
  rw [hread, Option.bind_some]
  change ((some (sectionsText preset)).bind _).map _ = _
  rw [Option.bind_some, hsections]
  rfl

/-- The name is the first string of the document, and no later line changes it. -/
theorem plain_of_read_configuration (hpreset : ¬ ['"', '"', '"'] <:+: sectionsText preset)
    (hread : Configuration.read (configuration folder preset) = .ok c)
    (hname : c.projectName = some (projectName folder)) :
    IsPlainText (projectName folder).toList := by
  obtain ⟨t, ht, hc, -⟩ := Configuration.read_ok_iff.1 hread
  obtain ⟨count, hconfiguration⟩ := read?_configuration folder preset
  rw [hconfiguration] at ht
  obtain ⟨p, hp, rfl⟩ := Option.map_eq_some_iff.1 ht
  obtain ⟨⟨v, rest⟩, hstring, hlines⟩ := Option.bind_eq_some_iff.1 hp
  obtain ⟨after, -, hlines⟩ := Option.bind_eq_some_iff.1 hlines
  have hstart : HasString v ["project", "name"]
      (.table .header (opened [] "project" [("name", .string v)]).entries) :=
    .inside rfl (.inside rfl .here)
  have hend : HasString v ["project", "name"] (.table .header p.entries) :=
    (kept_lines hlines).table _ _ hstart
  obtain rfl : v = projectName folder :=
    Option.some.inj ((Configuration.projectName_eq hend hc).symm.trans hname)
  exact plain_of_string? hpreset (hstring.trans (by rw [String.ofList_toList]))

/-- What is written for a new project is read back: the sample project always with the name that was
asked for, and the configuration with that name and the preset if and only if the name has neither
quotes nor backslashes nor control characters, the tab apart. -/
theorem starter_files_read_back_iff (hfolder : isBlankText folder = false)
    (hpreset : preset = "react" ∨ preset = "html") :
    (∃ p, Project.read (projectText folder) = .ok p ∧ p.name = projectName folder) ∧
      ((∃ c, Configuration.read (configuration folder preset) = .ok c ∧
          c.projectName = some (projectName folder) ∧ c.strategy.preset = preset) ↔
        ∀ c ∈ folder.toList, isPrintable c = true ∧ c ≠ '"' ∧ c ≠ '\\') := by
  refine ⟨read_projectText hfolder, ?_⟩
  have hplain : isBlankText preset = false ∧ IsPlainText preset.toList ∧
      ¬ ['"', '"', '"'] <:+: sectionsText preset := by
    rcases hpreset with rfl | rfl
    · exact ⟨by decide, by decide, by decide +kernel⟩
    · exact ⟨by decide, by decide, by decide +kernel⟩
  obtain ⟨hblank, hpreset, hquotes⟩ := hplain
  refine Iff.trans ?_ plain_projectName_iff
  constructor
  · rintro ⟨c, hread, hname, -⟩
    exact plain_of_read_configuration hquotes hread hname
  · intro hname
    exact ⟨_, read_configuration_of_plain hfolder hname hblank hpreset, rfl, rfl⟩

theorem starter_files_read_back_iff_shop :
    isBlankText "shop" = false ∧ ("html" = "react" ∨ "html" = "html") ∧
      (∃ p, Project.read (projectText "shop") = .ok p ∧ p.name = "shop") ∧
      ∃ c, Configuration.read (configuration "shop" "html") = .ok c ∧
        c.projectName = some "shop" ∧ c.strategy.preset = "html" := by
  have hfolder : isBlankText "shop" = false := by decide
  have hpreset : "html" = "react" ∨ "html" = "html" := .inr rfl
  obtain ⟨hproject, hconfiguration⟩ := starter_files_read_back_iff hfolder hpreset
  have hplain : IsPlainText "shop".toList := by decide
  exact ⟨hfolder, hpreset, hproject, hconfiguration.2 hplain⟩

/-- A quote in the name ends the string too early, and a backslash makes an escape with what
follows it. -/
theorem starter_configuration_differs :
    isBlankText "a\"b" = false ∧
      (Configuration.read (configuration "a\"b" "html")).toOption.isNone = true ∧
      isBlankText "a\\tb" = false ∧
      (Configuration.read (configuration "a\\tb" "html")).toOption.bind (·.projectName) =
        some "a\tb" := by
  decide +kernel

end Sitewright.CommandLine.Starter
